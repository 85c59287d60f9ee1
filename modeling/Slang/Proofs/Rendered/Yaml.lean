import Mathlib.Data.List.Forall2
import Slang.Proofs.Rendered.Digits
import Slang.Proofs.Rendered.Entry
import Slang.Yaml.Token.Scalar

/-!
# Listings in YAML

A listing is a sequence of block mappings, one to an entry and one field to a line (`Listing`). Numbers and
truth values stand as they are. A text stands plainly where a reader takes it for this text and for nothing
else (`IsPlain`), or between single quotes, or between double quotes with escapes that the reader of this
project knows. A text of several lines may also stand as a block below a bar, and bytes that are not UTF-8
stand in base 64.

In quotes and blocks a line that follows a line break is set in from the margin, and a reader takes this away
again: `Laid` says which characters are laid out over lines in this way.

Nothing here looks at how a form is chosen, or how it is written; that the listing of rows is one is
`listing_sequence`.
-/

namespace Slang.Yaml

open Report (Row)

/-! ### Forms of a text -/

/-- A character that ends a line. -/
def Breaks (c : Char) : Prop := c.toNat ∈ [0x0A, 0x0D, 0x85, 0x2028, 0x2029]

/-- **Characters laid out over lines**: each is written by itself, and the first of a line that follows a
line break comes after four blanks. -/
inductive Laid (one : Char → Text → Prop) : (fresh : Bool) → List Char → Text → Prop where
  | nil (fresh : Bool) : Laid one fresh [] []
  | lineBreak {fresh : Bool} {c : Char} {cs : List Char} {out : Text} (h : Breaks c)
      (rest : Laid one true cs out) : Laid one fresh (c :: cs) (Text.ofChar c ++ out)
  | first {c : Char} {cs : List Char} {unit out : Text} (h : ¬Breaks c) (written : one c unit)
      (rest : Laid one false cs out) : Laid one true (c :: cs) ("    " ++ unit ++ out)
  | next {c : Char} {cs : List Char} {unit out : Text} (h : ¬Breaks c) (written : one c unit)
      (rest : Laid one false cs out) : Laid one false (c :: cs) (unit ++ out)

/-- A character as itself. -/
inductive WritesSelf : Char → Text → Prop where
  | self (c : Char) : WritesSelf c (Text.ofChar c)

/-- A character between single quotes. A single quote is written twice. -/
inductive WritesQuoted : Char → Text → Prop where
  | self {c : Char} (h : c ≠ '\'') : WritesQuoted c (Text.ofChar c)
  | twice : WritesQuoted '\'' "''"

/-- A character between double quotes: as itself, or as an escape that a reader takes for it. -/
inductive WritesEscaped : Char → Text → Prop where
  | self {c : Char} (hplain : c ≠ '"' ∧ c ≠ '\\') (hbreak : ¬Breaks c) : WritesEscaped c (Text.ofChar c)
  | short {c e : Char} (h : shortEscape? e = some c) : WritesEscaped c ("\\" ++ Text.ofChar e)
  | code {c e : Char} {width : Nat} {digits : Text} (h : longEscape? e = some width)
      (number : digits.SpellsHex width c.toNat) : WritesEscaped c ("\\" ++ Text.ofChar e ++ digits)

/-- Two neighbours among characters stand in a relation. -/
def Meet (p : Char → Char → Prop) (cs : List Char) : Prop :=
  ∃ before a b after, cs = before ++ a :: b :: after ∧ p a b

/-- **A text that is read as itself** without quotes: no other value is written so, nothing at its start means
something else, and nothing in it ends it early. -/
structure IsPlain (t : Text) (cs : List Char) : Prop where
  resolved : isText t = true
  start : ∀ c ∈ cs.head?, c ∉ "#,[]\x7b\x7d&*!|>'\"%@\x60 ".toList
  mark : ¬"---".toList <+: cs ∧ ¬"...".toList <+: cs
  dash : ∀ c ∈ (['?', '-'] : List Char), cs ≠ [c] ∧ ∀ b ∈ ([' ', '\t'] : List Char), ¬[c, b] <+: cs
  oneLine : ∀ c ∈ cs, ¬Breaks c
  noKey : ¬Meet (fun a b => a = ':' ∧ (b = ' ' ∨ b = '\t')) cs
  noComment : ¬Meet (fun a b => (a = ' ' ∨ a = '\t') ∧ b = '#') cs
  final : ∀ c ∈ cs.getLast?, c ≠ ':' ∧ c ≠ ' '

/-- The mark for what becomes of the line breaks at the end of a block. -/
inductive Chomps : List Char → Text → Prop where
  /-- There is none, so the line break after the block is none of the text. -/
  | strip {cs : List Char} (h : ∀ c ∈ cs.getLast?, ¬Breaks c) : Chomps cs "-"
  | clip {cs : List Char} {c b : Char} (hc : ¬Breaks c) (hb : Breaks b) : Chomps (cs ++ [c, b]) []
  | keep {cs : List Char} {b : Char} (hb : Breaks b) : Chomps (cs ++ [b]) "+"

/-- **A text of several lines as a block** below a bar. Its first line starts on the line after the marks,
unless it is empty: its line break then ends the line of the marks. -/
structure IsBlock (t : Text) (cs : List Char) (step chomp start out finish : Text) : Prop where
  chars : t.runes = cs.map .char
  lines : Text.lineFeed ∈ t
  step : step = "2" ∧ (∃ c ∈ cs.head?, c = ' ' ∨ Breaks c) ∨ step = [] ∧ ∀ c ∈ cs.head?, ¬(c = ' ' ∨ Breaks c)
  chomp : Chomps cs chomp
  start : start = [] ∧ (∃ c ∈ cs.head?, Breaks c) ∨ start = "\n" ∧ ∀ c ∈ cs.head?, ¬Breaks c
  laid : Laid WritesSelf true cs out
  finish : finish = [] ∧ (∃ c ∈ cs.getLast?, Breaks c) ∨ finish = "\n" ∧ ∀ c ∈ cs.getLast?, ¬Breaks c

/-- A text to the end of its line. -/
inductive WritesText (t : Text) : Text → Prop where
  | plain {cs : List Char} (chars : t.runes = cs.map .char) (h : IsPlain t cs) : WritesText t (t ++ "\n")
  | single {cs : List Char} {out : Text} (chars : t.runes = cs.map .char)
      (laid : Laid WritesQuoted false cs out) : WritesText t ("'" ++ out ++ "'\n")
  | double {cs : List Char} {units : List Text} (chars : t.runes = cs.map .char)
      (h : List.Forall₂ WritesEscaped cs units) : WritesText t ("\"" ++ units.flatten ++ "\"\n")
  | block {cs : List Char} {step chomp start out finish : Text}
      (h : IsBlock t cs step chomp start out finish) :
      WritesText t ("|" ++ step ++ chomp ++ start ++ out ++ finish)
  /-- Bytes whose digits take one line. -/
  | binary {digits : Text} (bytes : t.isUtf8 = false) (h : Text.Base64.decode? digits = some t)
      (oneLine : Text.lineFeed ∉ digits) : WritesText t ("!!binary " ++ digits ++ "\n")
  /-- Bytes whose digits take several lines. -/
  | binaryBlock {digits : Text} {cs : List Char} {step chomp start out finish : Text}
      (bytes : t.isUtf8 = false) (decoded : Text.Base64.decode? digits = some t)
      (h : IsBlock digits cs step chomp start out finish) :
      WritesText t ("!!binary |" ++ step ++ chomp ++ start ++ out ++ finish)

/-- A scalar to the end of its line. -/
inductive Writes : Scalar → Text → Prop where
  | text {t out : Text} (h : WritesText t out) : Writes (.text t) out
  | int (n : Int) : Writes (.int n) (Text.ofInt n ++ "\n")
  | true : Writes (.bool true) "true\n"
  | false : Writes (.bool false) "false\n"

/-- The lines of fields, the first after a given start and all others below it. -/
inductive Fields : (start : Text) → Record → Text → Prop where
  | nil (start : Text) : Fields start [] []
  | cons {start k value more : Text} {v : Scalar} {fs : Record} (hvalue : Writes v value)
      (rest : Fields "  " fs more) : Fields start ((k, v) :: fs) (start ++ k ++ ": " ++ value ++ more)

/-- The entries of rows, each behind a dash. -/
inductive Entries : List Row → Text → Prop where
  | last {r : Row} {fs : Record} {out : Text} (entry : r.Entry fs) (fields : Fields "- " fs out) :
      Entries [r] out
  | cons {r : Row} {fs : Record} {rs : List Row} {out more : Text} (entry : r.Entry fs)
      (fields : Fields "- " fs out) (rest : Entries rs more) : Entries (r :: rs) (out ++ more)

/-- **A listing of rows**: the sequence of their entries, in order. -/
inductive Listing : List Row → Text → Prop where
  | nil : Listing [] "[]\n"
  | sequence {rs : List Row} {out : Text} (entries : Entries rs out) : Listing rs out

/-! ### Characters -/

/-- The characters that break a line. -/
theorem isBreak_iff {c : Char} : isBreak c = true ↔ Breaks c := by
  unfold isBreak Breaks
  simp only [Bool.or_eq_true, decide_eq_true_eq, List.mem_cons, List.not_mem_nil, or_false, or_assoc]
  rw [← Char.toNat_inj, ← Char.toNat_inj]
  exact Iff.rfl

/-- The characters that do not break a line. -/
theorem isBreak_eq_false_iff {c : Char} : isBreak c = false ↔ ¬Breaks c := by
  rw [← isBreak_iff, Bool.not_eq_true]

/-- **Two neighbours**: the search through a text finds them wherever they stand. -/
theorem hasPair_iff {p : Char → Char → Bool} {cs : List Char} :
    hasPair p cs = true ↔ Meet (fun a b => p a b = true) cs := by
  induction cs with
  | nil =>
    refine iff_of_false Bool.false_ne_true ?_
    rintro ⟨before, a, b, after, h, -⟩
    cases before <;> cases h
  | cons c cs ih =>
    cases cs with
    | nil =>
      refine iff_of_false Bool.false_ne_true ?_
      rintro ⟨before, a, b, after, h, -⟩
      cases before with
      | nil => cases h
      | cons d before => cases before <;> cases h
    | cons d cs =>
      rw [hasPair, Bool.or_eq_true, ih]
      constructor
      · rintro (h | ⟨before, a, b, after, h, hp⟩)
        · exact ⟨[], c, d, cs, rfl, h⟩
        · exact ⟨c :: before, a, b, after, congrArg (c :: ·) h, hp⟩
      · rintro ⟨before, a, b, after, h, hp⟩
        -- the two stand at the front, or further on
        cases before with
        | nil =>
          simp only [List.nil_append, List.cons.injEq] at h
          obtain ⟨rfl, rfl, -⟩ := h
          exact .inl hp
        | cons e before => exact .inr ⟨before, a, b, after, (List.cons.inj h).2, hp⟩

/-- The characters of a text that is UTF-8 are all of it. -/
theorem runes_eq_map_charsOf {t : Text} (h : t.isUtf8 = true) : t.runes = (charsOf t).map .char := by
  unfold Text.isUtf8 at h
  unfold charsOf
  generalize t.runes = rs at h
  induction rs with
  | nil => rfl
  | cons r rs ih =>
    rw [List.all_cons, Bool.and_eq_true] at h
    obtain ⟨hr, hrs⟩ := h
    cases r with
    | stray b => cases hr
    | char c => exact congrArg (Rune.char c :: ·) (ih hrs)

/-- Bytes of ASCII are characters, one by one. -/
theorem isUtf8_of_forall {t : Text} (h : ∀ b ∈ t, b < 0x80) : t.isUtf8 = true := by
  unfold Text.isUtf8
  induction t with
  | nil => 
    rw [Text.runes]
    rfl
  | cons b t ih =>
    obtain ⟨hb, ht⟩ := List.forall_mem_cons.mp h
    have hfirst : Rune.first b t = (.char (Char.ofNat b.toNat), 0) := if_pos hb
    rw [Text.runes, hfirst]
    exact ih ht

/-! ### Lines -/

/-- Characters that are set in from the margin are laid out over lines. -/
theorem laid_indented {one : Char → Text → Prop} {f : Char → Text} (h : ∀ c, ¬Breaks c → one c (f c))
    (fresh : Bool) (cs : List Char) : Laid one fresh cs (indented 4 f fresh cs) := by
  induction cs generalizing fresh with
  | nil => exact .nil fresh
  | cons c cs ih =>
    rw [indented]
    by_cases hbreak : Breaks c
    · rw [if_pos (isBreak_iff.mpr hbreak)]
      exact .lineBreak hbreak (ih true)
    · rw [if_neg fun hb => hbreak (isBreak_iff.mp hb)]
      cases fresh with
      | true => exact .first hbreak (h c hbreak) (ih false)
      | false => exact .next hbreak (h c hbreak) (ih false)

/-! ### Text on one line -/

/-- The layout of a listing: what belongs to an entry is set in by two, and what belongs to a key by four. -/
abbrev listed : Layout := ⟨2, 2⟩

/-- A plain text does not begin with a character that means something else. -/
theorem isIndicator_of_startsOk {c : Char} {cs : List Char} (h : startsOk (c :: cs) = true) :
    isIndicator c = false := by
  unfold startsOk at h
  split at h
  · cases h
  · cases h
  · next hc =>
    obtain ⟨rfl, -⟩ := List.cons.inj hc
    simp only [Bool.and_eq_true, Bool.not_eq_true'] at h
    exact h.1.1
  · next hc =>
    obtain ⟨rfl, -⟩ := List.cons.inj hc
    simp only [Bool.and_eq_true, Bool.not_eq_true'] at h
    exact h.1
  · cases h

/-- A plain text does not begin with the mark of a document. -/
theorem not_mark_of_startsOk {cs : List Char} (h : startsOk cs = true) :
    ¬"---".toList <+: cs ∧ ¬"...".toList <+: cs := by
  constructor
  · rintro ⟨rest, rfl⟩
    cases h
  · rintro ⟨rest, rfl⟩
    cases h

/-- A plain text does not begin as an entry of a list or as a key does. -/
theorem not_dash_of_startsOk {c : Char} {cs : List Char} (h : startsOk cs = true)
    (hc : c ∈ (['?', '-'] : List Char)) :
    cs ≠ [c] ∧ ∀ b ∈ ([' ', '\t'] : List Char), ¬[c, b] <+: cs := by
  simp only [List.mem_cons, List.not_mem_nil, or_false] at hc ⊢
  constructor
  · rintro rfl
    rcases hc with rfl | rfl <;> cases h
  · rintro b hb ⟨rest, rfl⟩
    rcases hc with rfl | rfl <;> rcases hb with rfl | rfl <;> cases h

/-- A search that finds no two neighbours rules them out. -/
theorem not_meet_of_hasPair {p : Char → Char → Bool} {q : Char → Char → Prop}
    (hq : ∀ a b, q a b → p a b = true) {cs : List Char} (h : hasPair p cs = false) : ¬Meet q cs := by
  rintro ⟨before, a, b, after, hcs, hab⟩
  have hpair : hasPair p cs = true := hasPair_iff.mpr ⟨before, a, b, after, hcs, hq a b hab⟩
  exact Bool.false_ne_true (h.symm.trans hpair)

/-- **What is written without quotes is read as itself.** -/
theorem isPlain_of_plainOk {t : Text} {cs : List Char} (htext : isText t = true) (h : plainOk cs = true) :
    IsPlain t cs := by
  simp only [plainOk, Bool.and_eq_true, Bool.not_eq_true', bne_iff_ne, ne_eq, cutsOff, Bool.or_eq_false_iff,
    List.any_eq_false] at h
  obtain ⟨⟨⟨⟨⟨hstarts, ⟨hcolon, hkey⟩, hcomment⟩, -⟩, hbreaks⟩, hhead⟩, hlast⟩ := h
  exact
    { resolved := htext
      start := by
        intro c hc hmem
        obtain ⟨rest, rfl⟩ := List.head?_eq_some_iff.mp hc
        have hindicator := isIndicator_of_startsOk hstarts
        -- a space at the front is not an indicator, and is ruled out with the spaces at the ends
        have hwith : "#,[]\x7b\x7d&*!|>'\"%@\x60 ".toList = "#,[]\x7b\x7d&*!|>'\"%@\x60".toList ++ [' '] := by
          decide
        rw [hwith, List.mem_append, List.mem_singleton] at hmem
        rcases hmem with hmem | rfl
        · exact Bool.false_ne_true (hindicator.symm.trans (List.contains_iff_mem.mpr hmem))
        · exact hhead rfl
      mark := not_mark_of_startsOk hstarts
      dash := fun _ hc => not_dash_of_startsOk hstarts hc
      oneLine := fun c hc hbreak => hbreaks c hc (isBreak_iff.mpr hbreak)
      noKey := by
        refine not_meet_of_hasPair ?_ hkey
        rintro a b ⟨rfl, rfl | rfl⟩ <;> rfl
      noComment := by
        refine not_meet_of_hasPair ?_ hcomment
        rintro a b ⟨rfl | rfl, rfl⟩ <;> rfl
      final := by
        intro c hc
        constructor
        · rintro rfl
          rw [hc, beq_self_eq_true] at hcolon
          cases hcolon
        · rintro rfl
          exact hlast hc }

/-- Escapes by a letter. -/
theorem writesEscaped_of_toNat {c e : Char} {n : Nat} (hn : c.toNat = n)
    (h : shortEscape? e = some (Char.ofNat n)) : WritesEscaped c ("\\" ++ Text.ofChar e) := by
  rw [← hn, Char.ofNat_toNat] at h
  exact .short h

/-- **Every escape is taken for its character.** -/
theorem writesEscaped_escape (c : Char) : WritesEscaped c (escape c) := by
  unfold escape
  split
  · next h => exact writesEscaped_of_toNat h (e := '0') rfl
  · next h => exact writesEscaped_of_toNat h (e := 'a') rfl
  · next h => exact writesEscaped_of_toNat h (e := 'b') rfl
  · next h => exact writesEscaped_of_toNat h (e := 't') rfl
  · next h => exact writesEscaped_of_toNat h (e := 'n') rfl
  · next h => exact writesEscaped_of_toNat h (e := 'v') rfl
  · next h => exact writesEscaped_of_toNat h (e := 'f') rfl
  · next h => exact writesEscaped_of_toNat h (e := 'r') rfl
  · next h => exact writesEscaped_of_toNat h (e := 'e') rfl
  · next h => exact writesEscaped_of_toNat h (e := '"') rfl
  · next h => exact writesEscaped_of_toNat h (e := '\\') rfl
  · next h => exact writesEscaped_of_toNat h (e := 'N') rfl
  · next h => exact writesEscaped_of_toNat h (e := '_') rfl
  · next h => exact writesEscaped_of_toNat h (e := 'L') rfl
  · next h => exact writesEscaped_of_toNat h (e := 'P') rfl
  · -- no letter of its own: two, four or eight digits, as many as the number needs
    split_ifs with htwo hfour
    · exact .code (e := 'x') rfl (Text.spellsHex_hex (by omega)).2
    · exact .code (e := 'u') rfl (Text.spellsHex_hex (by omega)).2
    · have hlt : c.toNat < 2 ^ 32 := c.val.toNat_lt
      exact .code (e := 'U') rfl (Text.spellsHex_hex (by omega)).2

/-- Text between double quotes. -/
theorem writesText_double {t : Text} (h : t.isUtf8 = true) : WritesText t (written listed .double t) := by
  have hunits : ∀ one : Char → Text, (∀ c ∈ charsOf t, WritesEscaped c (one c)) →
      List.Forall₂ WritesEscaped (charsOf t) ((charsOf t).map one) := fun one hone =>
    List.forall₂_map_right_iff.mpr (List.forall₂_same.mpr hone)
  unfold written doubleQuoted
  dsimp only
  rw [List.flatMap_def, List.append_assoc]
  -- every character by itself: escaped, or as it is if it neither breaks the line nor ends the text
  refine .double (runes_eq_map_charsOf h) (hunits _ fun c _ => ?_)
  split
  · exact writesEscaped_escape c
  · next hplain =>
    simp only [Bool.or_eq_true, decide_eq_true_eq, not_or] at hplain
    obtain ⟨⟨⟨-, hbreak⟩, hquote⟩, hback⟩ := hplain
    exact .self ⟨hquote, hback⟩ fun h => hbreak (isBreak_iff.mpr h)

/-- Text between single quotes. -/
theorem writesText_single {t : Text} (h : t.isUtf8 = true) : WritesText t (written listed .single t) := by
  -- the lines that follow the first are indented, and quotes are written twice
  have hlaid : Laid WritesQuoted false (charsOf t)
      (indented 4 (fun c => if c = '\'' then "''" else Text.ofChar c) false (charsOf t)) := by
    refine laid_indented (fun c _ => ?_) false (charsOf t)
    split
    · next hc =>
      subst hc
      exact .twice
    · next hc => exact .self hc
  unfold written singleQuoted
  dsimp only
  rw [List.append_assoc]
  exact .single (runes_eq_map_charsOf h) hlaid

/-! ### Blocks -/

/-- The last mark of a block says what becomes of its last line breaks. -/
theorem exists_chomps {cs : List Char} (h : cs ≠ []) : ∃ chomp, Chomps cs chomp ∧
    literalMarks listed cs =
      (if cs.head?.any (fun c => c = ' ' || isBreak c) then ("2" : Text) else []) ++ chomp := by
  -- the marks look at the characters from the end
  obtain ⟨rs, rfl⟩ : ∃ rs, cs = rs.reverse := ⟨cs.reverse, (List.reverse_reverse cs).symm⟩
  have hstep : Text.ofNat listed.step = "2" := by
    rw [Text.ofNat]
    rfl
  unfold literalMarks
  dsimp only
  rw [List.reverse_reverse, hstep]
  refine ⟨_, ?_, rfl⟩
  cases rs with
  | nil => exact absurd rfl h
  | cons c rs =>
    have hlast : (c :: rs).reverse.getLast? = some c := by
      rw [List.reverse_cons, List.getLast?_concat]
    have hstrip : ¬Breaks c → Chomps (c :: rs).reverse "-" := fun hc => .strip fun d hd => by
      rw [hlast] at hd
      obtain rfl := Option.some.inj hd
      exact hc
    have hkeep : Breaks c → Chomps (c :: rs).reverse "+" := fun hc => by
      rw [List.reverse_cons]
      exact .keep hc
    cases rs with
    | nil =>
      dsimp only
      split
      · next hc => exact hkeep (isBreak_iff.mp hc)
      · next hc => exact hstrip fun hb => hc (isBreak_iff.mpr hb)
    | cons d rs =>
      dsimp only
      split
      · next hc => exact hstrip (isBreak_eq_false_iff.mp ((Bool.not_eq_true' _).mp hc))
      · next hc =>
        have hbreak : Breaks c := isBreak_iff.mp (by simpa using hc)
        split
        · exact hkeep hbreak
        · next hd =>
          rw [List.reverse_cons, List.reverse_cons, List.append_assoc]
          exact .clip (fun hb => hd (isBreak_iff.mpr hb)) hbreak

/-- One of two texts, for a character with a property or for none. -/
theorem ite_any {o : Option Char} {p : Char → Bool} {q : Char → Prop} (hq : ∀ c, p c = true ↔ q c)
    (a b : Text) : (if o.any p then a else b) = a ∧ (∃ c ∈ o, q c) ∨
      (if o.any p then a else b) = b ∧ ∀ c ∈ o, ¬q c := by
  cases o with
  | none => exact .inr ⟨rfl, fun c hc => nomatch hc⟩
  | some c =>
    rw [Option.any_some]
    by_cases hc : p c = true
    · exact .inl ⟨if_pos hc, c, rfl, (hq c).mp hc⟩
    · refine .inr ⟨if_neg hc, fun d hd => ?_⟩
      obtain rfl := Option.some.inj hd
      exact fun h => hc ((hq c).mpr h)

/-- **A text of several lines is written as a block.** -/
theorem isBlock_written {t : Text} (h : t.isUtf8 = true) (hlines : Text.lineFeed ∈ t) :
    ∃ step chomp start out finish, IsBlock t (charsOf t) step chomp start out finish ∧
      written listed .literal t = "|" ++ step ++ chomp ++ start ++ out ++ finish := by
  have hchars := runes_eq_map_charsOf h
  -- a line feed is a character, so there is one
  have hne : charsOf t ≠ [] := by
    intro hnil
    rw [hnil] at hchars
    cases t with
    | nil => exact List.not_mem_nil hlines
    | cons b rest =>
      rw [Text.runes] at hchars
      cases hchars
  obtain ⟨chomp, hchomp, hmarks⟩ := exists_chomps hne
  have hlaid : Laid WritesSelf true (charsOf t) (indented 4 Text.ofChar true (charsOf t)) :=
    laid_indented (fun c _ => .self c) true (charsOf t)
  -- the depth is written out where the first character could be taken for a part of it
  have hstep := ite_any (o := (charsOf t).head?) (p := fun c => c = ' ' || isBreak c)
    (q := fun c => c = ' ' ∨ Breaks c) (fun c => by rw [Bool.or_eq_true, decide_eq_true_eq, isBreak_iff])
    "2" []
  refine ⟨_, chomp, _, _, _, ⟨hchars, hlines, hstep, hchomp, ite_any (fun c => isBreak_iff) [] "\n", hlaid,
    ite_any (fun c => isBreak_iff) [] "\n"⟩, ?_⟩
  unfold written literal
  dsimp only
  rw [hmarks]
  split
  · rw [List.append_nil, List.append_assoc (Text.ofString "|")]
    rfl
  · rw [List.append_assoc (Text.ofString "|")]
    rfl

/-! ### Bytes -/

/-- Cutting a text into lines only adds line breaks, which do not count in base 64. -/
theorem decode?_linesOf {length : Nat} (hlength : length ≠ 0) (t : Text) :
    Text.Base64.decode? (linesOf length t) = Text.Base64.decode? t := by
  have hfilter : (linesOf length t).filter (fun b => b != 10 && b != 13) =
      t.filter fun b => b != 10 && b != 13 := by
    -- the line feeds between the lines are skipped when they are read
    fun_induction linesOf length t with
    | case1 t h =>
      simp only [Bool.or_eq_true, List.isEmpty_iff, decide_eq_true_eq] at h
      rw [h.resolve_right hlength]
    | case2 t h ih =>
      rw [List.filter_append, List.filter_append, ih]
      conv_rhs => rw [← List.take_append_drop length t, List.filter_append]
      rw [List.append_assoc]
      rfl
  unfold Text.Base64.decode?
  rw [hfilter]

/-- What holds of a text and of a line feed holds of its lines. -/
theorem forall_mem_linesOf {p : UInt8 → Prop} (hfeed : p Text.lineFeed) {length : Nat} {t : Text}
    (h : ∀ b ∈ t, p b) : ∀ b ∈ linesOf length t, p b := by
  fun_induction linesOf length t with
  | case1 t _ => exact List.forall_mem_nil _
  | case2 t _ ih =>
    refine List.forall_mem_append.mpr ⟨List.forall_mem_append.mpr ⟨?_, ?_⟩, ih ?_⟩
    · exact fun b hb => h b (List.mem_of_mem_take hb)
    · exact List.forall_mem_singleton.mpr hfeed
    · exact fun b hb => h b (List.mem_of_mem_drop hb)

/-- A text in lines has a line feed. -/
theorem lineFeed_mem_linesOf {length : Nat} (hlength : length ≠ 0) {t : Text} (h : t ≠ []) :
    Text.lineFeed ∈ linesOf length t := by
  rw [linesOf, if_neg]
  · exact List.mem_append_left _ (List.mem_append_right _ (List.mem_singleton_self _))
  · simp only [Bool.or_eq_true, List.isEmpty_iff, decide_eq_true_eq, not_or]
    exact ⟨h, hlength⟩

/-- **Bytes that are not UTF-8 are written in base 64**, on one line or in a block. -/
theorem writesText_binary {t : Text} (h : t.isUtf8 = false) : WritesText t (binary listed t) := by
  have hdecode := Text.Base64.decode?_encode t
  have hascii : ∀ b ∈ Text.Base64.encode t, b < 0x80 :=
    Text.Base64.forall_mem_encode (fun n => (Text.Base64.digit_shown n).1) (by decide) t
  unfold binary
  dsimp only
  split
  · -- one line, and no line feed in it
    have hfeed : Text.lineFeed ∉ Text.Base64.encode t := fun hmem =>
      Text.Base64.forall_mem_encode (p := (· ≠ Text.lineFeed))
        (fun n => (Text.Base64.digit_shown n).2.1) (by decide) t _ hmem rfl
    have hbinary := WritesText.binary h hdecode hfeed
    rw [List.append_assoc] at hbinary
    exact hbinary
  · next hlong =>
    have hne : Text.Base64.encode t ≠ [] := by
      rintro hnil
      rw [hnil] at hlong
      exact hlong (by decide)
    -- many lines: they stand in a block, as a text of several lines does
    have hline : binaryLine ≠ 0 := by decide
    obtain ⟨step, chomp, start, out, finish, hblock, heq⟩ := isBlock_written
      (isUtf8_of_forall (forall_mem_linesOf (p := (· < 0x80)) (by decide) hascii))
      (lineFeed_mem_linesOf hline hne)
    have hbinary := WritesText.binaryBlock h ((decode?_linesOf hline _).trans hdecode) hblock
    have hbar : ("!!binary |" : Text) = "!!binary " ++ "|" := by decide
    rw [heq]
    rw [hbar] at hbinary
    simp only [List.append_assoc] at hbinary ⊢
    exact hbinary

/-! ### Entries -/

/-- **Every text is written in a form that fits it.** -/
theorem writesText_scalar (t : Text) : WritesText t (scalar listed (.text t)) := by
  unfold scalar
  dsimp only
  cases hutf8 : t.isUtf8 with
  | false => exact writesText_binary hutf8
  | true =>
    rw [if_pos rfl]
    unfold form
    dsimp only
    -- the form that is chosen, from the strongest need down: lines, quotes, none, escapes, single
    -- quotes
    split_ifs with hlines hliteral hquoted hplain hescapes
    · obtain ⟨step, chomp, start, out, finish, hblock, heq⟩ :=
        isBlock_written hutf8 (List.contains_iff_mem.mp hlines)
      rw [heq]
      exact .block hblock
    · exact writesText_double hutf8
    · exact writesText_double hutf8
    · simp only [Bool.or_eq_true, not_or, Bool.not_eq_true', Bool.not_eq_false] at hquoted
      exact .plain (runes_eq_map_charsOf hutf8) (isPlain_of_plainOk hquoted.1.1 hplain)
    · exact writesText_double hutf8
    · exact writesText_single hutf8

/-- Every scalar is written as what it is. -/
theorem writes_scalar (v : Scalar) : Writes v (scalar listed v) := by
  cases v with
  | text t => exact .text (writesText_scalar t)
  | int n => exact .int n
  | bool b =>
    cases b with
    | true => exact .true
    | false => exact .false

/-- Fields are written line by line. -/
theorem fields_fields (start : Text) (fs : Record) : Fields start fs (fields listed start fs) := by
  induction fs generalizing start with
  | nil => exact .nil start
  | cons f fs ih =>
    have hcons : Fields start ((f.1, f.2) :: fs) _ := .cons (writes_scalar f.2) (ih "  ")
    unfold fields field
    rw [← List.append_assoc, ← List.append_assoc]
    exact hcons

/-- An entry starts with its dash. -/
theorem Fields.ne_nil {fs : Record} {out : Text} (h : Fields "- " fs out) (hne : fs ≠ []) : out ≠ [] := by
  cases h with
  | nil => exact absurd rfl hne
  | cons hvalue rest =>
    rw [List.append_assoc, List.append_assoc, List.append_assoc]
    exact List.cons_ne_nil _ _

/-- A list of entries is written with something. -/
theorem Entries.ne_nil {rs : List Row} {out : Text} (h : Entries rs out) : out ≠ [] := by
  cases h with
  | last entry fields => exact fields.ne_nil entry.ne_nil
  | cons entry fields rest => exact List.append_ne_nil_of_left_ne_nil (fields.ne_nil entry.ne_nil) _

/-- **The rows of a report are listed as the sequence of their entries.** -/
theorem listing_sequence (rs : List Row) : Listing rs (sequence 2 (rs.map Row.record)) := by
  cases rs with
  | nil => exact .nil
  | cons r rs =>
    refine .sequence ?_
    change Entries (r :: rs) (((r :: rs).map Row.record).flatMap (fields listed "- "))
    -- on the rows after the first one, as every list of entries has a last one
    induction rs generalizing r with
    | nil =>
      rw [List.map_cons, List.map_nil, List.flatMap_cons, List.flatMap_nil, List.append_nil]
      exact .last r.entry_record (fields_fields _ _)
    | cons r' rs ih =>
      rw [List.map_cons, List.flatMap_cons]
      exact .cons r.entry_record (fields_fields _ _) (ih r')

end Slang.Yaml
