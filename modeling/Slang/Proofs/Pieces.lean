import Slang.Token.Lexer
import Mathlib.Data.List.Infix
import Mathlib.Data.List.TakeWhile

/-!
# Pieces are longest matches

Which texts are pieces of source is said here without reading from left to right. `Shape w m` says
that the whole of `w` is a piece, and what it stands for: nothing for blanks and comments, and a kind
and a literal for a token. Shapes overlap at the start (`=` and `==`, a slash and a comment, a
keyword and a longer name), and the rule that decides is that of the longest match.

* `longest_piece`: what the lexer takes at a place is a piece, and no longer text at that place is.

What is never closed has a shape too: an opening quote or `/*` with all bytes that do not close it.
So the longest match is the closed form where there is one, and all of the source otherwise.
-/

namespace Slang.Lexer

/-! ### Words and marks -/

/-- The words that are not names. -/
def keywords : List (Text × Token.Kind) :=
  [("let", .kwLet), ("fn", .kwFn), ("return", .kwReturn), ("true", .kwTrue), ("false", .kwFalse),
    ("int", .typeLiteral), ("bool", .typeLiteral), ("string", .typeLiteral),
    ("void", .typeLiteral)]

/-- The operators and punctuation marks. -/
def marks : List (Text × Token.Kind) :=
  [("(", .lparen), (")", .rparen), ("\x7b", .lbrace), ("\x7d", .rbrace), ("=", .assign),
    ("+", .plus), ("-", .minus), ("*", .asterisk), ("/", .slash), ("!", .bang), (":", .colon),
    (",", .comma), (";", .semicolon), ("==", .eq), ("!=", .neq), ("&&", .and), ("||", .or)]

/-! ### Shapes -/

/-- **What stands between the quotes of a string**, and the content that it stands for. -/
inductive Escaped : Text → Text → Prop
  | nil : Escaped [] []
  | plain {b : UInt8} {raw content : Text} (hquote : b ≠ quote) (hback : b ≠ backslash)
      (h : Escaped raw content) : Escaped (b :: raw) (b :: content)
  | escape (e : UInt8) {raw content : Text} (h : Escaped raw content) :
      Escaped (backslash :: e :: raw) (unescape e :: content)

/-- The end of a block comment. -/
def closing : Text := [star, slash]

/-- **The pieces of source**, each with what it stands for. -/
inductive Shape : Text → Option (Token.Kind × Text) → Prop
  | blank {b : UInt8} (hb : isBlank b) : Shape [b] none
  | lineComment {body : Text} (hbody : Text.lineFeed ∉ body) :
      Shape (slash :: slash :: body) none
  -- the closing marks are the first ones after the opening
  | blockComment {body : Text} (hbody : ¬closing <:+: body ++ [star]) :
      Shape (slash :: star :: (body ++ closing)) none
  | keyword {w : Text} {kind : Token.Kind} (h : (w, kind) ∈ keywords) : Shape w (some (kind, w))
  | name {b : UInt8} {tail : Text} (hb : isWordStart b) (htail : ∀ c ∈ tail, isWordPart c)
      (hname : ∀ kind, (b :: tail, kind) ∉ keywords) :
      Shape (b :: tail) (some (.ident, b :: tail))
  | int {b : UInt8} {tail : Text} (hb : Text.isDigit b) (htail : ∀ c ∈ tail, Text.isDigit c) :
      Shape (b :: tail) (some (.int, b :: tail))
  | mark {w : Text} {kind : Token.Kind} (h : (w, kind) ∈ marks) : Shape w (some (kind, w))
  | string {raw content : Text} (h : Escaped raw content) :
      Shape (quote :: (raw ++ [quote])) (some (.string, content))
  | openString {raw content tail : Text} (h : Escaped raw content)
      (htail : tail = [] ∨ tail = [backslash]) :
      Shape (quote :: (raw ++ tail)) (some (.illegal, "unterminated string literal"))
  | openComment {body : Text} (hbody : ¬closing <:+: body) :
      Shape (slash :: star :: body) (some (.illegal, "unterminated block comment"))
  -- the literal is the character with the number of the byte
  | stray {b : UInt8} (hblank : ¬isBlank b) (hword : ¬isWordStart b) (hdigit : ¬Text.isDigit b)
      (hquote : b ≠ quote) (hmark : ∀ kind, ([b], kind) ∉ marks) :
      Shape [b] (some (.illegal, Text.ofChar (Char.ofNat b.toNat)))

/-- **The longest match at the start of a text.** -/
structure Longest (t w : Text) (m : Option (Token.Kind × Text)) : Prop where
  start : w <+: t
  shape : Shape w m
  longest : ∀ w' m', w' <+: t → Shape w' m' → w'.length ≤ w.length

/-- What a piece stands for. -/
def Piece.meaning : Piece → Option (Token.Kind × Text)
  | .skip _ => none
  | .token kind literal _ => some (kind, literal)

/-! ### How pieces begin -/

/-- The first bytes of pieces. -/
inductive Opening where
  | blank | word | digit | quote | slash | other
  deriving DecidableEq

/-- How a piece goes on is decided by its first byte. -/
def opening (b : UInt8) : Opening :=
  if isBlank b then .blank
  else if isWordStart b then .word
  else if Text.isDigit b then .digit
  else if b = quote then .quote
  else if b = slash then .slash
  else .other

/-- A property of all bytes, checked one by one. -/
theorem forall_byte {p : UInt8 → Prop} (h : ∀ n : Fin 256, p (UInt8.ofFin n)) (b : UInt8) : p b :=
  h b.toFin

/-- A letter or an underscore opens a word. -/
theorem opening_of_wordStart (b : UInt8) : isWordStart b = true → opening b = .word :=
  forall_byte (p := fun b => isWordStart b = true → opening b = .word) (by decide +kernel) b

/-- A digit opens a number. -/
theorem opening_of_digit (b : UInt8) : Text.isDigit b = true → opening b = .digit :=
  forall_byte (p := fun b => Text.isDigit b = true → opening b = .digit) (by decide +kernel) b

/-- A word: a first byte and more. -/
def isWord : Text → Bool
  | [] => false
  | b :: tail => isWordStart b && tail.all isWordPart

/-- A slash, or one or two bytes of a kind that begin nothing else. -/
def isMark (kind : Token.Kind) : Text → Bool
  | [b] => b == slash || (opening b == .other && markKind? b == some kind)
  | [b, c] => opening b == .other && pairKind? b c == some kind
  | _ => false

/-- Keywords are words. -/
theorem isWord_of_keyword : ∀ k ∈ keywords, isWord k.1 = true := by decide

/-- Marks are marks by their bytes. -/
theorem isMark_of_mark : ∀ k ∈ marks, isMark k.2 k.1 = true := by decide

/-- What may stand after the opening quote of a string, closed or not. -/
def InString (w : Text) : Prop :=
  ∃ raw content tail, Escaped raw content ∧ w = raw ++ tail ∧
    (tail = [quote] ∨ tail = [] ∨ tail = [backslash])

/-- What may stand after a slash: nothing, or the rest of a comment. -/
def AfterSlash (w : Text) : Prop :=
  w = [] ∨ (∃ body, w = slash :: body ∧ Text.lineFeed ∉ body) ∨
    (∃ body, w = star :: (body ++ closing) ∧ ¬closing <:+: body ++ [star]) ∨
    ∃ body, w = star :: body ∧ ¬closing <:+: body

/-- How a piece may go on after its first byte. -/
def Continues (b : UInt8) (w : Text) : Prop :=
  match opening b with
  | .blank => w = []
  | .word => ∀ c ∈ w, isWordPart c = true
  | .digit => ∀ c ∈ w, Text.isDigit c = true
  | .quote => InString w
  | .slash => AfterSlash w
  | .other => w = [] ∨ ∃ c, w = [c] ∧ (pairKind? b c).isSome

/-- A word goes on with parts of words. -/
theorem continues_word {b : UInt8} {tail : Text} (hb : isWordStart b = true)
    (htail : ∀ c ∈ tail, isWordPart c = true) : Continues b tail := by
  rwa [Continues, opening_of_wordStart b hb]

/-- **What has a shape goes on as its first byte says.** -/
theorem Shape.continues {t : Text} {m : Option (Token.Kind × Text)} (h : Shape t m) :
    ∃ b w, t = b :: w ∧ Continues b w := by
  cases h with
  | @blank b hb =>
    have hopening : opening b = .blank := if_pos hb
    exact ⟨b, [], rfl, by rw [Continues, hopening]⟩
  | @lineComment body hbody => exact ⟨slash, _, rfl, .inr (.inl ⟨body, rfl, hbody⟩)⟩
  | @blockComment body hbody => exact ⟨slash, _, rfl, .inr (.inr (.inl ⟨body, rfl, hbody⟩))⟩
  | keyword h =>
    have hword : isWord t = true := isWord_of_keyword _ h
    cases t with
    | nil => cases hword
    | cons b tail =>
      obtain ⟨hb, htail⟩ := Bool.and_eq_true_iff.mp hword
      exact ⟨b, tail, rfl, continues_word hb (List.all_eq_true.mp htail)⟩
  | @name b tail hb htail => exact ⟨b, tail, rfl, continues_word hb htail⟩
  | @int b tail hb htail => exact ⟨b, tail, rfl, by rwa [Continues, opening_of_digit b hb]⟩
  | mark h =>
    have hmark := isMark_of_mark _ h
    clear h
    -- a mark has one byte or two
    rcases t with _ | ⟨b, _ | ⟨c, _ | ⟨d, t⟩⟩⟩
    · cases hmark
    · rcases Bool.or_eq_true_iff.mp hmark with hb | hb
      · exact ⟨b, [], rfl, by rw [eq_of_beq hb]; exact .inl rfl⟩
      · obtain ⟨hb, -⟩ := Bool.and_eq_true_iff.mp hb
        exact ⟨b, [], rfl, by rw [Continues, eq_of_beq hb]; exact .inl rfl⟩
    · obtain ⟨hb, hpair⟩ := Bool.and_eq_true_iff.mp hmark
      refine ⟨b, [c], rfl, ?_⟩
      rw [Continues, eq_of_beq hb]
      exact .inr ⟨c, rfl, by rw [eq_of_beq hpair]; rfl⟩
    · cases hmark
  | @string raw content h => exact ⟨quote, _, rfl, raw, content, _, h, rfl, .inl rfl⟩
  | @openString raw content tail h htail =>
    exact ⟨quote, _, rfl, raw, content, tail, h, rfl, .inr htail⟩
  | @openComment body hbody => exact ⟨slash, _, rfl, .inr (.inr (.inr ⟨body, rfl, hbody⟩))⟩
  | @stray b hblank hword hdigit hquote hmark =>
    refine ⟨b, [], rfl, ?_⟩
    -- a stray byte opens nothing, not even a comment
    have hslash : b ≠ slash := by
      rintro rfl
      exact hmark .slash (by decide)
    rw [Continues, opening, if_neg hblank, if_neg hword, if_neg hdigit, if_neg hquote,
      if_neg hslash]
    exact .inl rfl

/-- Longest is what has a shape and is at least as long as all that may follow the first byte. -/
theorem longest_of_continues {b : UInt8} {rest : Text} {n : Nat}
    {m : Option (Token.Kind × Text)} (hshape : Shape (b :: rest.take n) m) (hn : n ≤ rest.length)
    (hmax : ∀ w, w <+: rest → Continues b w → w.length ≤ n) :
    Longest (b :: rest) (b :: rest.take n) m := by
  refine ⟨List.cons_prefix_cons.mpr ⟨rfl, List.take_prefix n rest⟩, hshape, ?_⟩
  intro w' m' hpre h
  obtain ⟨c, w, rfl, hw⟩ := h.continues
  obtain ⟨rfl, hrest⟩ := List.cons_prefix_cons.mp hpre
  rw [List.length_cons, List.length_cons, List.length_take_of_le hn]
  exact Nat.succ_le_succ (hmax w hrest hw)

/-! ### Runs of bytes -/

/-- Taking as many bytes as there are in front takes the ones in front. -/
theorem take_length_takeWhile (p : UInt8 → Bool) (t : Text) :
    t.take (t.takeWhile p).length = t.takeWhile p :=
  (List.prefix_iff_eq_take.mp (List.takeWhile_prefix p)).symm

/-- A beginning of which every byte satisfies `p` is no longer than the longest such beginning. -/
theorem length_le_takeWhile {p : UInt8 → Bool} {w t : Text} (hw : w <+: t)
    (hp : ∀ c ∈ w, p c = true) : w.length ≤ (t.takeWhile p).length := by
  obtain ⟨u, rfl⟩ := hw
  rw [List.takeWhile_append_of_pos hp, List.length_append]
  exact Nat.le_add_right _ _

/-- Every byte in front satisfies `p`. -/
theorem mem_takeWhile {p : UInt8 → Bool} {t : Text} : ∀ c ∈ t.takeWhile p, p c = true :=
  fun _ hc => List.mem_takeWhile_imp hc

/-- The kind of a word is that of the table, and a word that is not there is a name. -/
theorem shape_word {b : UInt8} {tail : Text} (hb : isWordStart b = true)
    (htail : ∀ c ∈ tail, isWordPart c = true) :
    Shape (b :: tail) (some (wordKind (b :: tail), b :: tail)) := by
  unfold wordKind
  split_ifs with h₁ h₂ h₃ h₄ h₅ h₆
  · exact .keyword (by rw [h₁]; decide)
  · exact .keyword (by rw [h₂]; decide)
  · exact .keyword (by rw [h₃]; decide)
  · exact .keyword (by rw [h₄]; decide)
  · exact .keyword (by rw [h₅]; decide)
  · simp only [Bool.or_eq_true, decide_eq_true_eq] at h₆
    rcases h₆ with ((h | h) | h) | h <;> exact .keyword (by rw [h]; decide)
  · refine .name hb htail fun kind hmem => ?_
    simp_all [keywords]

/-! ### Strings -/

/-- A closed string is read up to its closing quote. -/
theorem stringBody_of_escaped {raw content : Text} (h : Escaped raw content) (rest : Text) :
    stringBody (raw ++ quote :: rest) = some (content, raw.length + 1) := by
  induction h with
  | nil => rw [List.nil_append, stringBody.eq_def]; simp
  | plain hquote hback _ ih =>
    rw [List.cons_append, stringBody.eq_def]
    simp [hquote, hback, ih]
  | escape e _ ih =>
    rw [List.cons_append, List.cons_append, stringBody.eq_def]
    have hne : backslash ≠ quote := by decide
    simp [hne, ih]

/-- **A string that ends**: what is read is what stands before its quote, with escapes. -/
theorem exists_of_stringBody_eq_some {rest content : Text} {n : Nat}
    (h : stringBody rest = some (content, n)) :
    ∃ raw more, Escaped raw content ∧ rest = raw ++ quote :: more ∧ n = raw.length + 1 := by
  -- the end, the closing quote, a backslash at the end, an escape, any other byte
  fun_induction stringBody rest generalizing content n with
  | case1 => cases h
  | case2 more =>
    obtain ⟨rfl, rfl⟩ := Prod.mk.inj (Option.some.inj h)
    exact ⟨[], more, .nil, rfl, rfl⟩
  | case3 => cases h
  | case4 e more hquote ih =>
    obtain ⟨⟨s, k⟩, hbody, heq⟩ := Option.map_eq_some_iff.mp h
    obtain ⟨rfl, rfl⟩ := Prod.mk.inj heq
    obtain ⟨raw, more', hraw, rfl, rfl⟩ := ih hbody
    exact ⟨backslash :: e :: raw, more', .escape e hraw, rfl, rfl⟩
  | case5 b more hquote hback ih =>
    obtain ⟨⟨s, k⟩, hbody, heq⟩ := Option.map_eq_some_iff.mp h
    obtain ⟨rfl, rfl⟩ := Prod.mk.inj heq
    obtain ⟨raw, more', hraw, rfl, rfl⟩ := ih hbody
    exact ⟨b :: raw, more', .plain hquote hback hraw, rfl, rfl⟩

/-- A string that does not end goes up to the end of the text, or to a backslash there. -/
theorem exists_of_stringBody_eq_none {rest : Text} (h : stringBody rest = none) :
    ∃ raw content tail, Escaped raw content ∧ rest = raw ++ tail ∧
      (tail = [] ∨ tail = [backslash]) := by
  fun_induction stringBody rest with
  | case1 => exact ⟨[], [], [], .nil, rfl, .inl rfl⟩
  | case2 => cases h
  | case3 => exact ⟨[], [], [backslash], .nil, rfl, .inr rfl⟩
  | case4 e more hquote ih =>
    obtain ⟨raw, content, tail, hraw, rfl, htail⟩ := ih (Option.map_eq_none_iff.mp h)
    exact ⟨backslash :: e :: raw, _, tail, .escape e hraw, rfl, htail⟩
  | case5 b more hquote hback ih =>
    obtain ⟨raw, content, tail, hraw, rfl, htail⟩ := ih (Option.map_eq_none_iff.mp h)
    exact ⟨b :: raw, _, tail, .plain hquote hback hraw, rfl, htail⟩

/-- Nothing that follows an opening quote reaches past the closing one. -/
theorem length_le_of_inString {raw content w more : Text} (h : Escaped raw content)
    (hpre : w <+: raw ++ quote :: more) (hw : InString w) : w.length ≤ raw.length + 1 := by
  obtain ⟨raw', content', tail, h', rfl, htail⟩ := hw
  -- on what stands in the string, in step with what the other reading takes
  induction h generalizing raw' content' with
  | nil =>
    cases h' with
    | nil => rcases htail with rfl | rfl | rfl <;> simp
    | plain hquote hback h' =>
      obtain ⟨heq, -⟩ := List.cons_prefix_cons.mp hpre
      exact absurd heq hquote
    | escape e h' =>
      obtain ⟨heq, -⟩ := List.cons_prefix_cons.mp hpre
      exact absurd heq (by decide)
  | plain hquote hback h ih =>
    cases h' with
    | nil => rcases htail with rfl | rfl | rfl <;> simp
    | plain hquote' hback' h' =>
      obtain ⟨-, hpre⟩ := List.cons_prefix_cons.mp hpre
      exact Nat.succ_le_succ (ih _ _ h' hpre)
    | escape e h' =>
      obtain ⟨heq, -⟩ := List.cons_prefix_cons.mp hpre
      exact absurd heq.symm hback
  | escape e h ih =>
    cases h' with
    | nil => rcases htail with rfl | rfl | rfl <;> simp
    | plain hquote' hback' h' =>
      obtain ⟨heq, -⟩ := List.cons_prefix_cons.mp hpre
      exact absurd heq hback'
    | escape e' h' =>
      obtain ⟨-, hpre⟩ := List.cons_prefix_cons.mp hpre
      obtain ⟨-, hpre⟩ := List.cons_prefix_cons.mp hpre
      exact Nat.succ_le_succ (Nat.succ_le_succ (ih _ _ h' hpre))

/-- **No reading of a string is longer** than the one the lexer takes. -/
theorem longest_string (rest : Text) :
    Longest (quote :: rest) (quote :: rest.take (string rest).more) (string rest).meaning := by
  unfold string
  split
  · next content n hbody =>
    obtain ⟨raw, more, hraw, rfl, rfl⟩ := exists_of_stringBody_eq_some hbody
    have htake : (raw ++ quote :: more).take (raw.length + 1) = raw ++ [quote] := by
      simp [List.take_append]
    refine longest_of_continues ?_ (by simp [Piece.more]) fun w hpre hw => ?_
    · rw [Piece.more, htake]
      exact .string hraw
    · exact length_le_of_inString hraw hpre hw
  · next hbody =>
    -- all that is left goes with the quote
    obtain ⟨raw, content, tail, hraw, hrest, htail⟩ := exists_of_stringBody_eq_none hbody
    refine longest_of_continues ?_ (Nat.le_refl _) fun w hpre _ => hpre.length_le
    rw [Piece.more, List.take_length, hrest]
    exact .openString hraw htail

/-! ### Comments -/

/-- **A comment that ends** does so at the first mark for it. -/
theorem exists_of_commentEnd_eq_some {t : Text} {n : Nat} (h : commentEnd t = some n) :
    ∃ body more, t = body ++ closing ++ more ∧ n = body.length + 2 ∧
      ¬closing <:+: body ++ [star] := by
  fun_induction commentEnd t generalizing n with
  | case1 => cases h
  | case2 b rest hclose =>
    obtain rfl := Option.some.inj h
    obtain ⟨hb, hrest⟩ := Bool.and_eq_true_iff.mp hclose
    obtain rfl := of_decide_eq_true hb
    cases rest with
    | nil => cases hrest
    | cons c more =>
      obtain rfl : c = slash := Option.some.inj (eq_of_beq hrest)
      exact ⟨[], more, rfl, rfl, by decide⟩
  | case3 b rest hclose ih =>
    obtain ⟨k, hend, rfl⟩ := Option.map_eq_some_iff.mp h
    obtain ⟨body, more, rfl, rfl, hbody⟩ := ih hend
    refine ⟨b :: body, more, rfl, rfl, ?_⟩
    rw [List.cons_append, List.infix_cons_iff]
    rintro (hpre | hinfix)
    · -- the first byte would have closed the comment
      obtain ⟨rfl, hrest⟩ := List.cons_prefix_cons.mp hpre
      cases body with
      | nil => exact absurd hrest (by decide)
      | cons c body =>
        obtain ⟨rfl, -⟩ := List.cons_prefix_cons.mp hrest
        exact hclose (by simp)
    · exact hbody hinfix

/-- A comment that does not end has no mark for it. -/
theorem not_closing_of_commentEnd_eq_none {t : Text} (h : commentEnd t = none) :
    ¬closing <:+: t := by
  fun_induction commentEnd t with
  | case1 => decide
  | case2 => cases h
  | case3 b rest hclose ih =>
    rw [List.infix_cons_iff]
    rintro (hpre | hinfix)
    · obtain ⟨rfl, hrest⟩ := List.cons_prefix_cons.mp hpre
      obtain ⟨more, rfl⟩ := hrest
      exact hclose (by simp)
    · exact ih (Option.map_eq_none_iff.mp h) hinfix

/-- What has no closing marks ends before the first ones do. -/
theorem length_le_of_not_closing {body w t : Text} (hclose : body ++ closing <+: t) (hw : w <+: t)
    (hnot : ¬closing <:+: w) : w.length ≤ body.length + 1 := by
  by_contra hlong
  have hlen : (body ++ closing).length ≤ w.length := by
    rw [List.length_append]
    simp only [closing, List.length_cons, List.length_nil]
    omega
  have hpre : body ++ closing <+: w := List.prefix_of_prefix_length_le hclose hw hlen
  exact hnot ((List.suffix_append body closing).isInfix.trans hpre.isInfix)

/-- **No reading that begins with a slash is longer** than the one the lexer takes. -/
theorem longest_slashes (rest : Text) :
    Longest (slash :: rest) (slash :: rest.take (slashes rest).more) (slashes rest).meaning := by
  unfold slashes
  split
  · exact longest_of_continues (.mark (by decide)) (Nat.le_refl 0) fun w hpre _ => hpre.length_le
  next b body =>
  split
  · next hslash =>
    obtain rfl := hslash
    have htail : ∀ c ∈ (slash :: body).takeWhile (· != Text.lineFeed), c ≠ Text.lineFeed :=
      fun c hc => bne_iff_ne.mp (mem_takeWhile c hc)
    refine longest_of_continues ?_ (List.takeWhile_prefix _).length_le fun w hpre hw => ?_
    · rw [Piece.more, take_length_takeWhile]
      have hcons : (slash :: body).takeWhile (· != Text.lineFeed) =
          slash :: body.takeWhile (· != Text.lineFeed) := rfl
      rw [hcons] at htail ⊢
      exact .lineComment fun hmem => htail _ (List.mem_cons_of_mem _ hmem) rfl
    · -- a line comment: other readings would begin with another second byte
      rcases hw with rfl | ⟨body', rfl, hbody⟩ | ⟨body', rfl, -⟩ | ⟨body', rfl, -⟩
      · exact Nat.zero_le _
      · refine length_le_takeWhile hpre fun c hc => bne_iff_ne.mpr ?_
        rintro rfl
        rcases List.mem_cons.mp hc with heq | hmem
        · exact absurd heq (by decide)
        · exact hbody hmem
      · exact absurd (List.cons_prefix_cons.mp hpre).1 (by decide)
      · exact absurd (List.cons_prefix_cons.mp hpre).1 (by decide)
  next hslash =>
  split
  · next hstar =>
    obtain rfl := hstar
    split
    · next n hend =>
      obtain ⟨inner, more, rfl, rfl, hinner⟩ := exists_of_commentEnd_eq_some hend
      have hclose : inner ++ closing <+: inner ++ closing ++ more := List.prefix_append _ _
      have hlen : (inner ++ closing).length = inner.length + 2 := List.length_append
      refine longest_of_continues ?_ ?_ fun w hpre hw => ?_
      · rw [Piece.more, List.take_succ_cons, ← hlen, List.take_left]
        exact .blockComment hinner
      · rw [Piece.more, ← hlen]
        exact Nat.succ_le_succ hclose.length_le
      · rcases hw with rfl | ⟨body', rfl, -⟩ | ⟨body', rfl, hbody⟩ | ⟨body', rfl, hbody⟩
        · exact Nat.zero_le _
        · exact absurd (List.cons_prefix_cons.mp hpre).1 (by decide)
        · obtain ⟨-, hpre⟩ := List.cons_prefix_cons.mp hpre
          -- another comment cannot end later, as it would hold the mark that ends this one
          have hbefore : body' ++ [star] <+: inner ++ closing ++ more := by
            refine List.IsPrefix.trans ⟨[slash], ?_⟩ hpre
            rw [List.append_assoc]
            rfl
          have hle := length_le_of_not_closing hclose hbefore hbody
          simp only [closing, List.length_append, List.length_cons, List.length_nil,
            Piece.more] at hle ⊢
          omega
        · obtain ⟨-, hpre⟩ := List.cons_prefix_cons.mp hpre
          have hle := length_le_of_not_closing hclose hpre hbody
          simp only [List.length_cons, Piece.more]
          omega
    · next hend =>
      refine longest_of_continues ?_ (Nat.le_refl _) fun w hpre _ => hpre.length_le
      rw [Piece.more, List.take_length]
      exact .openComment (not_closing_of_commentEnd_eq_none hend)
  · next hstar =>
    have hshape : Shape [slash] (some (.slash, [slash])) := .mark (by decide)
    refine longest_of_continues hshape (Nat.zero_le _) fun w hpre hw => ?_
    rcases hw with rfl | ⟨body', rfl, -⟩ | ⟨body', rfl, -⟩ | ⟨body', rfl, -⟩
    · exact Nat.le_refl 0
    · exact absurd (List.cons_prefix_cons.mp hpre).1.symm hslash
    · exact absurd (List.cons_prefix_cons.mp hpre).1.symm hstar
    · exact absurd (List.cons_prefix_cons.mp hpre).1.symm hstar

/-! ### Marks and stray bytes -/

/-- What two bytes make is a mark. -/
theorem mem_marks_of_pairKind? {b c : UInt8} {kind : Token.Kind} (h : pairKind? b c = some kind) :
    ([b, c], kind) ∈ marks := by
  simp only [pairKind?, Bool.and_eq_true, decide_eq_true_eq] at h
  split_ifs at h with h₁ h₂ h₃ h₄
  · obtain ⟨⟨rfl, rfl⟩, rfl⟩ := And.intro h₁ (Option.some.inj h)
    decide
  · obtain ⟨⟨rfl, rfl⟩, rfl⟩ := And.intro h₂ (Option.some.inj h)
    decide
  · obtain ⟨⟨rfl, rfl⟩, rfl⟩ := And.intro h₃ (Option.some.inj h)
    decide
  · obtain ⟨⟨rfl, rfl⟩, rfl⟩ := And.intro h₄ (Option.some.inj h)
    decide

/-- What one byte makes is a mark. -/
theorem mem_marks_of_markKind? (b : UInt8) : ∀ kind ∈ markKind? b, ([b], kind) ∈ marks :=
  forall_byte (p := fun b => ∀ kind ∈ markKind? b, ([b], kind) ∈ marks) (by decide +kernel) b

/-- A mark of one byte is made by it. -/
theorem markKind?_of_mem_marks {b : UInt8} {kind : Token.Kind} (hslash : b ≠ slash)
    (h : ([b], kind) ∈ marks) : markKind? b = some kind := by
  rcases Bool.or_eq_true_iff.mp (isMark_of_mark _ h) with hb | hb
  · exact absurd (eq_of_beq hb) hslash
  · exact eq_of_beq (Bool.and_eq_true_iff.mp hb).2

section
variable {b : UInt8} (hblank : ¬isBlank b) (hword : ¬isWordStart b) (hdigit : ¬Text.isDigit b)
  (hquote : b ≠ quote) (hslash : b ≠ slash)
include hblank hword hdigit hquote hslash

/-- A byte of no other class opens a mark. -/
theorem opening_eq_other : opening b = .other := by
  rw [opening, if_neg hblank, if_neg hword, if_neg hdigit, if_neg hquote, if_neg hslash]

/-- A byte alone, where no mark of two bytes begins. -/
theorem longest_single {rest : Text} (hpair : ∀ c ∈ rest.head?, pairKind? b c = none) :
    Longest (b :: rest) (b :: rest.take (single b).more) (single b).meaning := by
  -- a longer reading would be a mark of two bytes
  have hmax : ∀ w, w <+: rest → Continues b w → w.length ≤ 0 := by
    intro w hpre hw
    rw [Continues, opening_eq_other hblank hword hdigit hquote hslash] at hw
    rcases hw with rfl | ⟨c, rfl, hc⟩
    · exact Nat.le_refl 0
    · obtain ⟨more, rfl⟩ := hpre
      rw [hpair c rfl] at hc
      cases hc
  unfold single
  split
  · next kind hkind =>
    have hshape : Shape [b] (some (kind, [b])) := .mark (mem_marks_of_markKind? b kind hkind)
    exact longest_of_continues hshape (Nat.zero_le _) hmax
  · next hnone =>
    refine longest_of_continues ?_ (Nat.zero_le _) hmax
    refine .stray hblank hword hdigit hquote fun kind hmem => ?_
    rw [markKind?_of_mem_marks hslash hmem] at hnone
    cases hnone

/-- **A mark of two bytes comes before one of a single byte.** -/
theorem longest_mark (rest : Text) :
    Longest (b :: rest) (b :: rest.take (mark b rest).more) (mark b rest).meaning := by
  unfold mark
  split
  · exact longest_single hblank hword hdigit hquote hslash fun _ hc => by cases hc
  next c more =>
  split
  · next kind hpair =>
    have hshape : Shape [b, c] (some (kind, [b, c])) := .mark (mem_marks_of_pairKind? hpair)
    refine longest_of_continues hshape (Nat.succ_le_succ (Nat.zero_le _)) fun w hpre hw => ?_
    rw [Continues, opening_eq_other hblank hword hdigit hquote hslash] at hw
    rcases hw with rfl | ⟨c, rfl, -⟩
    · exact Nat.zero_le 1
    · exact Nat.le_refl 1
  · next hpair =>
    refine longest_single hblank hword hdigit hquote hslash fun c' hc => ?_
    obtain rfl := Option.some.inj hc
    exact hpair

end

/-! ### Every piece -/

/-- **The lexer takes the longest piece.** -/
theorem longest_piece (b : UInt8) (rest : Text) :
    Longest (b :: rest) (b :: rest.take (piece b rest).more) (piece b rest).meaning := by
  unfold piece
  -- one class of first bytes after the other, in the order of the lexer
  split
  · next hblank =>
    refine longest_of_continues (.blank hblank) (Nat.zero_le _) fun w _ hw => ?_
    have hopening : opening b = .blank := if_pos hblank
    rw [Continues, hopening] at hw
    exact Nat.le_of_eq (congrArg List.length hw)
  next hblank =>
  split
  · next hword =>
    refine longest_of_continues ?_ (List.takeWhile_prefix _).length_le fun w hpre hw => ?_
    · rw [word, Piece.more, take_length_takeWhile]
      exact shape_word hword mem_takeWhile
    · rw [Continues, opening_of_wordStart b hword] at hw
      exact length_le_takeWhile hpre hw
  next hword =>
  split
  · next hdigit =>
    refine longest_of_continues ?_ (List.takeWhile_prefix _).length_le fun w hpre hw => ?_
    · rw [number, Piece.more, take_length_takeWhile]
      exact .int hdigit mem_takeWhile
    · rw [Continues, opening_of_digit b hdigit] at hw
      exact length_le_takeWhile hpre hw
  next hdigit =>
  split
  · next hquote =>
    rw [hquote]
    exact longest_string rest
  next hquote =>
  split
  · next hslash =>
    rw [hslash]
    exact longest_slashes rest
  · next hslash => exact longest_mark hblank hword hdigit hquote hslash rest

end Slang.Lexer
