import Slang.Proofs.Numerals
import Slang.Proofs.Pieces
import Slang.Tree.Printer

/-!
# Texts that spell tokens

A text that is put together from the written forms of tokens is read as these tokens only if no
token runs into what follows it. `Spells t ks` says so piece by piece: the tokens of `t` are `ks`, and
each of them ends where it does for every text that goes on with the same byte, or with one of the
few bytes that extend nothing (`soft`). Texts of this kind can be joined (`Spells.append`), and their
lines can be indented (`Spells.indented`), since no token reaches over the end of a line.

What is printed is a phrase of a grammar, and only the property of being one matters about its
tokens. `Renders t P` says that all tokens that `t` spells have property `P`, wherever they stand.
-/

namespace Slang

/-- What a token is, apart from its place. -/
def Token.key (t : Token) : Token.Kind × Text := (t.kind, t.literal)

namespace Lexer

/-- Bytes that extend no token: the line feed, the space, parentheses, the comma, the colon and the
semicolon. -/
def softBytes : List UInt8 := [10, 32, 40, 41, 44, 58, 59]

/-- Whether a text extends no token that stands in front of it. -/
def soft : Text → Bool
  | [] => true
  | b :: _ => softBytes.contains b

/-- **The text `t` spells the tokens `ks`**, whatever stands before it. -/
inductive Spells : Text → List (Token.Kind × Text) → Prop
  | nil : Spells [] []
  | blank {b : UInt8} {t : Text} {ks : List (Token.Kind × Text)} (hb : isBlank b = true)
      (h : Spells t ks) : Spells (b :: t) ks
  | token {b : UInt8} {w t literal : Text} {kind : Token.Kind} {ks : List (Token.Kind × Text)}
      (hpiece : ∀ t', soft t' = true ∨ t'.head? = t.head? →
        piece b (w ++ t') = .token kind literal w.length)
      (hbytes : ∀ c ∈ b :: w, c ≠ 0 ∧ c ≠ Text.lineFeed) (h : Spells t ks) :
      Spells (b :: (w ++ t)) ((kind, literal) :: ks)

/-- The bytes of a closed text are checked one by one. -/
theorem bytes_of_all {t : Text} (h : t.all (fun c => c != 0 && c != Text.lineFeed) = true) :
    ∀ c ∈ t, c ≠ 0 ∧ c ≠ Text.lineFeed := by
  intro c hc
  obtain ⟨hzero, hline⟩ := Bool.and_eq_true_iff.mp (List.all_eq_true.mp h c hc)
  exact ⟨bne_iff_ne.mp hzero, bne_iff_ne.mp hline⟩

variable {b : UInt8} {t u v w literal : Text} {kind : Token.Kind}
  {ks ls : List (Token.Kind × Text)} {P Q : List Token → Prop}

/-- Whether a text is soft depends on its first byte. -/
theorem soft_of_head? (h : u.head? = v.head?) : soft u = soft v := by
  cases u with
  | nil => rw [List.head?_eq_none_iff.mp h.symm]
  | cons b u =>
    obtain ⟨v', rfl⟩ := List.head?_eq_some_iff.mp h.symm
    rfl

namespace Spells

/-- What a text spells is what the lexer reads. -/
theorem map_key_tokensFrom (h : Spells t ks) (p : Position) :
    (tokensFrom p t).map Token.key = ks := by
  induction h generalizing p with
  | nil => rw [tokensFrom, List.map_nil]
  | @blank b t ks hb h ih =>
    have hpiece : piece b t = .skip 0 := if_pos hb
    rw [tokensFrom, hpiece]
    exact ih _
  | @token b w t literal kind ks hpiece hbytes h ih =>
    rw [tokensFrom, hpiece t (.inr rfl)]
    dsimp only
    rw [List.map_cons, List.drop_left, ih]
    rfl

/-- What spells tokens has no zero byte. -/
theorem ne_zero (h : Spells t ks) : ∀ c ∈ t, c ≠ 0 := by
  induction h with
  | nil => exact List.forall_mem_nil _
  | blank hb h ih =>
    refine List.forall_mem_cons.mpr ⟨?_, ih⟩
    rintro rfl
    cases hb
  | token hpiece hbytes h ih =>
    obtain ⟨hb, hw⟩ := List.forall_mem_cons.mp hbytes
    refine List.forall_mem_cons.mpr ⟨hb.1, fun c hc => ?_⟩
    exact (List.mem_append.mp hc).elim (fun hc => (hw c hc).1) (ih c)

/-- The whole of such a text is read. -/
theorem map_key_tokens (h : Spells t ks) : (tokens t).map Token.key = ks := by
  have hreadable : readable t = t :=
    List.takeWhile_eq_self_iff.mpr fun c hc => bne_iff_ne.mpr (h.ne_zero c hc)
  rw [tokens, hreadable]
  exact h.map_key_tokensFrom .start

/-- **Texts can be joined** where the second extends nothing. -/
theorem append (hu : Spells u ks) (hv : Spells v ls) (hsoft : soft v = true) :
    Spells (u ++ v) (ks ++ ls) := by
  induction hu with
  | nil => exact hv
  | blank hb h ih => exact .blank hb ih
  | @token b w t literal kind ks hpiece hbytes h ih =>
    rw [List.cons_append, List.append_assoc]
    refine .token (fun t' ht' => hpiece t' (ht'.elim .inl fun hhead => ?_)) hbytes ih
    cases t with
    | nil => exact .inl (by rw [soft_of_head? hhead, List.nil_append, hsoft])
    | cons c t => exact .inr hhead

end Spells

/-! ### Indented lines -/

/-- A tab after every line feed. -/
def reindent : Text → Text
  | [] => []
  | b :: t => if b = Text.lineFeed then b :: 9 :: reindent t else b :: reindent t

/-- An indented text is one with a tab after each line feed. -/
theorem indented_eq (t : Text) : t.indented = 9 :: (reindent t ++ [Text.lineFeed]) := by
  induction t with
  | nil => rfl
  | cons b t ih =>
    unfold Text.indented at ih ⊢
    rw [Text.split, reindent]
    split
    · next hb =>
      rw [List.flatMap_cons, ih, hb]
      rfl
    · -- the first byte joins the first line
      cases hsplit : Text.split Text.lineFeed t with
      | nil => exact absurd hsplit (Text.split_ne_nil _ t)
      | cons line lines =>
        rw [hsplit, List.flatMap_cons] at ih
        dsimp only
        rw [List.flatMap_cons]
        exact congrArg (fun l => 9 :: b :: l) (List.cons.inj ih).2

/-- A text of one line is not changed by indenting. -/
theorem reindent_append (h : ∀ c ∈ w, c ≠ Text.lineFeed) (t : Text) :
    reindent (w ++ t) = w ++ reindent t := by
  induction w with
  | nil => rfl
  | cons b w ih =>
    obtain ⟨hb, hw⟩ := List.forall_mem_cons.mp h
    rw [List.cons_append, reindent, if_neg hb, ih hw, List.cons_append]

/-- Indenting does not change the first byte. -/
theorem head?_reindent (b : UInt8) (t : Text) : (reindent (b :: t)).head? = some b := by
  rw [reindent]
  split <;> rfl

/-- **Indented text spells the same tokens.** -/
theorem Spells.reindent (hu : Spells u ks) (hv : Spells v ls) :
    Spells (reindent u ++ Text.lineFeed :: v) (ks ++ ls) := by
  induction hu with
  | nil => exact .blank rfl hv
  | @blank b t ks hb h ih =>
    rw [Lexer.reindent]
    split
    · exact .blank hb (.blank rfl ih)
    · exact .blank hb ih
  | @token b w t literal kind ks hpiece hbytes h ih =>
    have hline : ∀ c ∈ b :: w, c ≠ Text.lineFeed := fun c hc => (hbytes c hc).2
    rw [← List.cons_append, reindent_append hline, List.append_assoc, List.cons_append]
    refine .token (fun t' ht' => hpiece t' (ht'.elim .inl fun hhead => ?_)) hbytes ih
    -- the byte after the token is the one that was there, or the line feed at the end
    cases t with
    | nil => exact .inl (soft_of_head? hhead)
    | cons c t =>
      refine .inr (hhead.trans ?_)
      rw [List.head?_append, head?_reindent]
      rfl

/-- **Lines can be indented**, and nothing else of them is changed. -/
theorem Spells.indented (hu : Spells u ks) (hv : Spells v ls) :
    Spells (u.indented ++ v) (ks ++ ls) := by
  rw [indented_eq, List.cons_append, List.append_assoc, List.singleton_append]
  exact .blank rfl (hu.reindent hv)

/-! ### Properties of tokens -/

/-- **All tokens that `t` spells have property `P`.** -/
def Renders (t : Text) (P : List Token → Prop) : Prop :=
  ∃ ks, Spells t ks ∧ ∀ ts, ts.map Token.key = ks → P ts

/-- Tokens with `P` and then tokens with `Q`. -/
def Joined (P Q : List Token → Prop) (ts : List Token) : Prop :=
  ∃ us vs, ts = us ++ vs ∧ P us ∧ Q vs

/-- A token of a kind, with a literal, and then tokens with `P`. -/
def Leads (kind : Token.Kind) (literal : Text) (P : List Token → Prop) (ts : List Token) : Prop :=
  ∃ t us, ts = t :: us ∧ t.kind = kind ∧ t.literal = literal ∧ P us

namespace Renders

/-- What a text renders holds of its tokens. -/
theorem tokens (h : Renders t P) : P (tokens t) := by
  obtain ⟨ks, hspells, hP⟩ := h
  exact hP _ hspells.map_key_tokens

/-- A weaker property. -/
theorem imp (h : Renders t P) (hPQ : ∀ ts, P ts → Q ts) : Renders t Q := by
  obtain ⟨ks, hspells, hP⟩ := h
  exact ⟨ks, hspells, fun ts hts => hPQ ts (hP ts hts)⟩

/-- No text renders no tokens. -/
theorem nil : Renders [] (· = []) := ⟨[], .nil, fun _ => List.map_eq_nil_iff.mp⟩

/-- A space before a text. -/
theorem space (h : Renders t P) : Renders (" " ++ t) P := by
  obtain ⟨ks, hspells, hP⟩ := h
  exact ⟨ks, .blank rfl hspells, hP⟩

/-- A line feed before a text. -/
theorem line (h : Renders t P) : Renders ("\n" ++ t) P := by
  obtain ⟨ks, hspells, hP⟩ := h
  exact ⟨ks, .blank rfl hspells, hP⟩

/-- Tokens that spell one list after another. -/
theorem joined {ks ls : List (Token.Kind × Text)} (hP : ∀ ts, ts.map Token.key = ks → P ts)
    (hQ : ∀ ts, ts.map Token.key = ls → Q ts) (ts : List Token)
    (h : ts.map Token.key = ks ++ ls) : Joined P Q ts := by
  obtain ⟨us, vs, rfl, hus, hvs⟩ := List.map_eq_append_iff.mp h
  exact ⟨us, vs, rfl, hP us hus, hQ vs hvs⟩

/-- **Texts can be rendered one after another** where the second extends nothing. -/
theorem append (hu : Renders u P) (hv : Renders v Q) (hsoft : soft v = true) :
    Renders (u ++ v) (Joined P Q) := by
  obtain ⟨ks, hu, hP⟩ := hu
  obtain ⟨ls, hv, hQ⟩ := hv
  exact ⟨ks ++ ls, hu.append hv hsoft, joined hP hQ⟩

/-- An indented text before another. -/
theorem indented (hu : Renders u P) (hv : Renders v Q) : Renders (u.indented ++ v) (Joined P Q) := by
  obtain ⟨ks, hu, hP⟩ := hu
  obtain ⟨ls, hv, hQ⟩ := hv
  exact ⟨ks ++ ls, hu.indented hv, joined hP hQ⟩

/-- **A token before a text**, where the lexer does not read on. -/
theorem token
    (hpiece : ∀ t', soft t' = true ∨ t'.head? = t.head? →
      piece b (w ++ t') = .token kind literal w.length)
    (hbytes : ∀ c ∈ b :: w, c ≠ 0 ∧ c ≠ Text.lineFeed) (h : Renders t P) :
    Renders (b :: (w ++ t)) (Leads kind literal P) := by
  obtain ⟨ks, hspells, hP⟩ := h
  refine ⟨_, .token hpiece hbytes hspells, fun ts hts => ?_⟩
  obtain ⟨u, us, rfl, hu, hus⟩ := List.map_eq_cons_iff.mp hts
  obtain ⟨hkind, hliteral⟩ := Prod.mk.inj hu
  exact ⟨u, us, rfl, hkind, hliteral, hP us hus⟩

/-- A token that is followed by a byte that extends nothing. -/
theorem token_of_soft
    (hpiece : ∀ t', soft t' = true → piece b (w ++ t') = .token kind literal w.length)
    (hbytes : ∀ c ∈ b :: w, c ≠ 0 ∧ c ≠ Text.lineFeed) (h : Renders t P) (hsoft : soft t = true) :
    Renders (b :: (w ++ t)) (Leads kind literal P) := by
  refine token (fun t' ht' => hpiece t' (ht'.elim id fun hhead => ?_)) hbytes h
  rw [soft_of_head? hhead, hsoft]

end Renders

/-! ### Words -/

/-- A word ends where a soft text begins. -/
theorem takeWhile_of_soft {p : UInt8 → Bool} (hp : ∀ c : UInt8, soft [c] = true → p c = false)
    (hw : ∀ c ∈ w, p c = true) (hsoft : soft t = true) : (w ++ t).takeWhile p = w := by
  rw [List.takeWhile_append_of_pos hw]
  cases t with
  | nil => rw [List.takeWhile_nil, List.append_nil]
  | cons c t => rw [List.takeWhile_cons_of_neg (by rw [hp c hsoft]; decide), List.append_nil]

/-- A soft byte is no part of a word. -/
theorem not_isWordPart_of_soft (c : UInt8) (h : soft [c] = true) : isWordPart c = false := by
  have hsoft : softBytes.all (fun c => !isWordPart c) = true := rfl
  have hc := List.all_eq_true.mp hsoft c (List.contains_iff_mem.mp h)
  rwa [Bool.not_eq_true'] at hc

/-- A soft byte is no digit. -/
theorem not_isDigit_of_soft (c : UInt8) (h : soft [c] = true) : Text.isDigit c = false :=
  (Bool.or_eq_false_iff.mp (not_isWordPart_of_soft c h)).2

/-- The parts of words are neither zero bytes nor line feeds. -/
theorem bytes_of_isWordPart {c : UInt8} (h : isWordPart c = true) :
    c ≠ 0 ∧ c ≠ Text.lineFeed := by
  constructor <;> rintro rfl <;> cases h

/-- A byte that begins a word or a numeral is no blank. -/
theorem not_isBlank {c : UInt8} {o : Opening} (h : opening c = o) (ho : o ≠ .blank) :
    ¬isBlank c = true := by
  intro hblank
  have hopening : opening c = .blank := if_pos hblank
  exact ho (h.symm.trans hopening)

/-- **A word is read as one**, of whatever kind it is. -/
theorem Renders.word (hw : isWord w = true) (hkind : wordKind w = kind) (h : Renders t P)
    (hsoft : soft t = true) : Renders (w ++ t) (Leads kind w P) := by
  cases w with
  | nil => cases hw
  | cons b tail =>
    obtain ⟨hb, htail⟩ := Bool.and_eq_true_iff.mp hw
    have hpart : ∀ c ∈ tail, isWordPart c = true := List.all_eq_true.mp htail
    have hfirst : isWordPart b = true := Bool.or_eq_true_iff.mpr (.inl hb)
    refine token_of_soft (fun t' ht' => ?_) (fun c hc => ?_) h hsoft
    · have hblank := not_isBlank (opening_of_wordStart b hb) (by decide)
      rw [piece, if_neg hblank, if_pos hb, Lexer.word,
        takeWhile_of_soft not_isWordPart_of_soft hpart ht', hkind]
    · exact bytes_of_isWordPart ((List.mem_cons.mp hc).elim (fun hc => hc ▸ hfirst) (hpart c))

/-! ### Numerals -/

/-- Digits are parts of words. -/
theorem isWordPart_of_isDigit {c : UInt8} (h : Text.isDigit c = true) : isWordPart c = true :=
  Bool.or_eq_true_iff.mpr (.inr h)

/-- Digits do not begin a word. -/
theorem not_isWordStart_of_isDigit {c : UInt8} (h : Text.isDigit c = true) :
    ¬isWordStart c = true := fun hword =>
  absurd ((opening_of_digit c h).symm.trans (opening_of_wordStart c hword)) (by decide)

/-- **A number is read as itself.** -/
theorem Renders.numeral (n : Nat) (h : Renders t P) (hsoft : soft t = true) :
    Renders (Text.ofNat n ++ t) (Leads .int (Text.ofNat n) P) := by
  have hdigits := Text.isDigit_ofNat n
  have hne := Text.ofNat_ne_nil n
  -- only the digits matter from here
  generalize Text.ofNat n = w at hdigits hne ⊢
  cases w with
  | nil => exact absurd rfl hne
  | cons b tail =>
    obtain ⟨hb, htail⟩ := List.forall_mem_cons.mp hdigits
    refine token_of_soft (fun t' ht' => ?_) (fun c hc => ?_) h hsoft
    · have hblank := not_isBlank (opening_of_digit b hb) (by decide)
      rw [piece, if_neg hblank, if_neg (not_isWordStart_of_isDigit hb), if_pos hb, number,
        takeWhile_of_soft not_isDigit_of_soft htail ht']
    · exact bytes_of_isWordPart (isWordPart_of_isDigit (hdigits c hc))

/-! ### Quoted strings -/

/-- The bytes that quoting writes with escapes that strings have: printable ASCII, the line feed and
the tab. -/
def Quotable (b : UInt8) : Prop := (32 ≤ b ∧ b < 127) ∨ b = 10 ∨ b = 9

instance (b : UInt8) : Decidable (Quotable b) :=
  inferInstanceAs (Decidable ((32 ≤ b ∧ b < 127) ∨ b = 10 ∨ b = 9))

instance (t : Text) : Decidable (∀ b ∈ t, Quotable b) := List.decidableBAll Quotable t

/-- How a byte is written between quotes. -/
def quotedByte (b : UInt8) : Text := Rune.quoted (.char (Char.ofNat b.toNat))

/-- The byte after the backslash of an escape. -/
def escapeByte (b : UInt8) : UInt8 := if b = 10 then 110 else if b = 9 then 116 else b

/-- **How a byte is quoted.** It is a character of its own, and it stands for itself, or a backslash
and a byte stand for it. -/
structure Escapes (b : UInt8) : Prop where
  ascii : b < 0x80
  bytes : ∀ c ∈ quotedByte b, c ≠ 0 ∧ c ≠ Text.lineFeed
  form : (quotedByte b = [b] ∧ b ≠ quote ∧ b ≠ backslash) ∨
    (quotedByte b = [backslash, escapeByte b] ∧ unescape (escapeByte b) = b)

/-- A byte that may stand in a string is escaped or stands for itself. -/
theorem escapes_of_quotable {b : UInt8} (hb : Quotable b) : Escapes b := by
  have hall := forall_byte (p := fun b => Quotable b → b < 0x80 ∧
    (quotedByte b).all (fun c => c != 0 && c != Text.lineFeed) = true ∧
    ((quotedByte b = [b] ∧ b ≠ quote ∧ b ≠ backslash) ∨
      (quotedByte b = [backslash, escapeByte b] ∧ unescape (escapeByte b) = b))) (by decide +kernel)
  obtain ⟨hascii, hbytes, hform⟩ := hall b hb
  exact ⟨hascii, bytes_of_all hbytes, hform⟩

/-- A quoted text has each of its bytes quoted. -/
theorem quoted_eq {s : Text} (hs : ∀ b ∈ s, Quotable b) :
    s.quoted = quote :: (s.flatMap quotedByte ++ [quote]) := by
  -- the bytes are below 128, so that each of them is a character
  have hrunes : s.runes.flatMap Rune.quoted = s.flatMap quotedByte := by
    induction s with
    | nil => rw [Text.runes]; rfl
    | cons b s ih =>
      obtain ⟨hb, hs⟩ := List.forall_mem_cons.mp hs
      have hfirst : Rune.first b s = (.char (Char.ofNat b.toNat), 0) :=
        if_pos (escapes_of_quotable hb).ascii
      rw [Text.runes, hfirst, List.flatMap_cons, List.flatMap_cons, List.drop_zero,
        ih hs]
      rfl
  rw [Text.quoted, hrunes]
  rfl

/-- What is quoted is read back. -/
theorem escaped_of_quotable {s : Text} (hs : ∀ b ∈ s, Quotable b) :
    Escaped (s.flatMap quotedByte) s := by
  induction s with
  | nil => exact .nil
  | cons b s ih =>
    obtain ⟨hb, hs⟩ := List.forall_mem_cons.mp hs
    rw [List.flatMap_cons]
    rcases (escapes_of_quotable hb).form with ⟨hplain, hquote, hback⟩ | ⟨hescape, heq⟩
    · rw [hplain]
      exact .plain hquote hback (ih hs)
    · have hnext := Escaped.escape (escapeByte b) (ih hs)
      rw [heq] at hnext
      rw [hescape]
      exact hnext

/-- **A quoted string is read as what was quoted.** -/
theorem Renders.quoted {s : Text} (hs : ∀ b ∈ s, Quotable b) (h : Renders t P) :
    Renders (s.quoted ++ t) (Leads .string s P) := by
  have hescaped := escaped_of_quotable hs
  rw [quoted_eq hs, List.cons_append]
  refine token (fun t' _ => ?_) (fun c hc => ?_) h
  · rw [List.append_assoc, List.singleton_append, List.length_append, List.length_singleton]
    change string _ = _
    rw [string, stringBody_of_escaped hescaped]
  · -- neither the quotes nor what stands between them is a line feed
    rcases List.mem_cons.mp hc with rfl | hc
    · decide
    · rcases List.mem_append.mp hc with hc | hc
      · obtain ⟨b, hb, hc⟩ := List.mem_flatMap.mp hc
        exact (escapes_of_quotable (hs b hb)).bytes c hc
      · obtain rfl := List.mem_singleton.mp hc
        decide

/-! ### Marks -/

/-- The marks that no byte extends. -/
def closedMarks : List (Text × Token.Kind) :=
  [("(", .lparen), (")", .rparen), ("\x7b", .lbrace), ("\x7d", .rbrace), ("-", .minus),
    (":", .colon), (",", .comma), (";", .semicolon)]

/-- Some marks are read as themselves, whatever follows. -/
theorem piece_closedMark : ∀ k ∈ closedMarks, ∃ b, k.1 = [b] ∧ (b ≠ 0 ∧ b ≠ Text.lineFeed) ∧
    ∀ t, piece b t = .token k.2 k.1 0 := by
  simp only [closedMarks, List.forall_mem_cons]
  refine ⟨?_, ?_, ?_, ?_, ?_, ?_, ?_, ?_, List.forall_mem_nil _⟩ <;>
    exact ⟨_, rfl, by decide, fun t => by cases t <;> rfl⟩

/-- A mark that nothing extends. -/
theorem Renders.closed (w : Text) (kind : Token.Kind) (hm : (w, kind) ∈ closedMarks)
    (h : Renders t P) : Renders (w ++ t) (Leads kind w P) := by
  obtain ⟨b, rfl, hb, hpiece⟩ := piece_closedMark (w, kind) hm
  refine token (fun t' _ => hpiece t') (fun c hc => ?_) h
  obtain rfl := List.mem_singleton.mp hc
  exact hb

/-- A mark that nothing extends, at the end. -/
theorem Renders.last (w : Text) (kind : Token.Kind) (hm : (w, kind) ∈ closedMarks) :
    Renders w (Leads kind w (· = [])) := by
  have h := Renders.closed w kind hm nil
  rwa [List.append_nil] at h

/-- A semicolon at the end. -/
theorem Renders.semicolon : Renders ";" (Leads .semicolon ";" (· = [])) :=
  .last ";" .semicolon (by decide)

/-- A closing bracket at the end. -/
theorem Renders.rparen : Renders ")" (Leads .rparen ")" (· = [])) := .last ")" .rparen (by decide)

/-- A closing brace at the end. -/
theorem Renders.rbrace : Renders "\x7d" (Leads .rbrace "\x7d" (· = [])) :=
  .last "\x7d" .rbrace (by decide)

/-- A property of all texts that extend nothing, checked byte by byte. -/
theorem forall_soft {p : Text → Prop} (hnil : p [])
    (hcons : ∀ c ∈ softBytes, ∀ t, p (c :: t)) (t : Text)
    (ht : soft t = true) : p t := by
  cases t with
  | nil => exact hnil
  | cons c t => exact hcons c (List.contains_iff_mem.mp ht) t

/-- The bytes of marks are neither zero bytes nor line feeds. -/
theorem bytes_of_mark {k : Text × Token.Kind} (hk : k ∈ marks) :
    ∀ c ∈ k.1, c ≠ 0 ∧ c ≠ Text.lineFeed := by
  have hall : marks.all (fun k => k.1.all fun c => c != 0 && c != Text.lineFeed) = true := by
    decide
  exact bytes_of_all (List.all_eq_true.mp hall k hk)

/-- No mark of two bytes ends in a soft byte. -/
theorem pairKind?_of_soft (b : UInt8) {c : UInt8} (hc : c ∈ softBytes) : pairKind? b c = none := by
  have hall : softBytes.all (fun c => c != 61 && c != 38 && c != 124) = true := rfl
  have hne := List.all_eq_true.mp hall c hc
  simp only [Bool.and_eq_true, bne_iff_ne] at hne
  simp [pairKind?, hne]

/-- A byte that extends nothing makes no pair. -/
theorem mark_of_soft (b : UInt8) : ∀ t, soft t = true → mark b t = single b :=
  forall_soft rfl fun c hc t => by rw [mark, pairKind?_of_soft b hc]

/-- A byte that extends nothing begins no comment. -/
theorem slashes_of_soft : ∀ t, soft t = true → slashes t = .token .slash [slash] 0 := by
  refine forall_soft rfl fun c hc t => ?_
  have hall : softBytes.all (fun c => c != slash && c != star) = true := rfl
  have hne := List.all_eq_true.mp hall c hc
  simp only [Bool.and_eq_true, bne_iff_ne] at hne
  rw [slashes, if_neg hne.1, if_neg hne.2]

/-- A byte of no other class is read as a mark. -/
theorem piece_of_opening (h : opening b = .other) (t : Text) : piece b t = mark b t := by
  unfold opening at h
  split_ifs at h with h₁ h₂ h₃ h₄ h₅
  rw [piece, if_neg h₁, if_neg h₂, if_neg h₃, if_neg h₄, if_neg h₅]

/-- **A mark before a soft text is read as itself.** -/
theorem piece_mark_of_soft (hm : (w, kind) ∈ marks) :
    ∃ b tail, w = b :: tail ∧
      ∀ t, soft t = true → piece b (tail ++ t) = .token kind w tail.length := by
  have hmark := isMark_of_mark _ hm
  -- a mark has one byte or two; a slash is apart, as it may begin a comment
  rcases w with _ | ⟨b, _ | ⟨c, _ | ⟨d, w⟩⟩⟩
  · cases hmark
  · refine ⟨b, [], rfl, fun t ht => ?_⟩
    rcases Bool.or_eq_true_iff.mp hmark with hb | hb
    · obtain rfl := eq_of_beq hb
      have hkind : kind = .slash :=
        (by decide : ∀ k ∈ marks, k.1 = [slash] → k.2 = .slash) _ hm rfl
      rw [hkind]
      exact slashes_of_soft t ht
    · obtain ⟨hopening, hkind⟩ := Bool.and_eq_true_iff.mp hb
      rw [List.nil_append, piece_of_opening (eq_of_beq hopening), mark_of_soft b t ht, single,
        eq_of_beq hkind]
      rfl
  · obtain ⟨hopening, hkind⟩ := Bool.and_eq_true_iff.mp hmark
    refine ⟨b, [c], rfl, fun t _ => ?_⟩
    rw [List.singleton_append, piece_of_opening (eq_of_beq hopening), mark, eq_of_beq hkind]
    rfl
  · cases hmark

/-- Any mark, with a space on each side. -/
theorem Renders.spaced (hm : (w, kind) ∈ marks) (h : Renders t P) :
    Renders (" " ++ (w ++ (" " ++ t))) (Leads kind w P) := by
  have hbytes := bytes_of_mark hm
  obtain ⟨b, tail, rfl, hpiece⟩ := piece_mark_of_soft hm
  exact (token_of_soft hpiece hbytes h.space rfl).space

/-- An exclamation mark, before anything but a sign of equality. -/
theorem Renders.bang (h : Renders t P) (ht : t.head? ≠ some 61) :
    Renders ("!" ++ t) (Leads .bang "!" P) := by
  -- before an equals sign it would be another mark
  have hpiece : ∀ t' : Text, t'.head? ≠ some 61 → piece 33 t' = .token .bang [33] 0 := by
    intro t' ht'
    cases t' with
    | nil => rfl
    | cons c t' =>
      have hc : c ≠ 61 := fun hc => ht' (congrArg some hc)
      have hpair : pairKind? 33 c = none := by simp [pairKind?, hc]
      change Lexer.mark 33 (c :: t') = _
      rw [Lexer.mark, hpair]
      rfl
  refine token (b := 33) (w := []) (fun t' ht' => hpiece t' ?_) (bytes_of_all rfl) h
  rcases ht' with hsoft | hhead
  · exact forall_soft (p := fun t => t.head? ≠ some 61) (by decide) (by simp [softBytes]) t' hsoft
  · rw [hhead]
    exact ht

end Lexer
end Slang
