import Slang.Diagnostic.Semantic
import Slang.Proofs.Numerals
import Slang.Proofs.Presence
import Slang.Proofs.Runes
import Slang.Tree.Printer

/-!
# Messages on one line

A message is put together from fixed words, numerals, names of types and kinds, and texts that come
from the source. Fixed words and numerals have no line feed, so a message has one only if a text
that it shows as it is has one. `SemanticProblem.texts` lists these texts for a semantic problem;
for a syntax error they are literals of tokens (`Token.Raises`).

Words, integers and marks of a source have no line feed, and what the lexer cannot read has a
literal of its own (`Lexer.oneLine_tokens`). The content of a string may have one, written as it is
or with an escape. So a syntax error is on one line unless it shows a string that is not
(`Fault.Raised.oneLine_or_shown`).
-/

namespace Slang

namespace Text

/-! ### Texts -/

/-- **A text on one line**: no byte of it ends the line. -/
def OneLine (t : Text) : Prop := lineFeed ∉ t

instance (t : Text) : Decidable t.OneLine := inferInstanceAs (Decidable (lineFeed ∉ t))

theorem oneLine_nil : OneLine [] := List.not_mem_nil

@[simp] theorem oneLine_append {t u : Text} : OneLine (t ++ u) ↔ t.OneLine ∧ u.OneLine := by
  simp only [OneLine, List.mem_append, not_or]

/-- Bytes of a class to which the line feed does not belong. -/
theorem oneLine_of_forall {t : Text} {p : UInt8 → Bool} (h : ∀ b ∈ t, p b)
    (hp : p lineFeed = false) : t.OneLine := by
  intro hmem
  exact Bool.false_ne_true (hp.symm.trans (h lineFeed hmem))

theorem oneLine_flatMap {α : Type} {l : List α} {f : α → Text} (h : ∀ a ∈ l, (f a).OneLine) :
    OneLine (l.flatMap f) := by
  intro hmem
  obtain ⟨a, ha, hmem⟩ := List.mem_flatMap.mp hmem
  exact h a ha hmem

theorem oneLine_joinWith {sep : Text} (hsep : sep.OneLine) {l : List Text}
    (h : ∀ t ∈ l, t.OneLine) : OneLine (joinWith sep l) := by
  induction l using joinWith.induct with
  | case1 => exact oneLine_nil
  | case2 t => exact h t List.mem_cons_self
  | case3 t ts hts ih =>
    obtain ⟨ht, hrest⟩ := List.forall_mem_cons.mp h
    rw [joinWith]
    · exact oneLine_append.mpr ⟨oneLine_append.mpr ⟨ht, hsep⟩, ih hrest⟩
    · exact hts

@[simp] theorem oneLine_ofNat (n : Nat) : OneLine (ofNat n) :=
  oneLine_of_forall (isDigit_ofNat n) (by decide)

@[simp] theorem oneLine_ofInt (n : Int) : OneLine (ofInt n) := by
  unfold ofInt
  split
  · simp +decide
  · simp

/-! ### Quoted texts -/

/-- A number is that of the line feed only if it is ten. -/
theorem lineFeed_ne_ofNat {n : Nat} (hn : n < 256) (h : n ≠ 10) : lineFeed ≠ UInt8.ofNat n := by
  intro heq
  have hmod : 10 = n % 256 := congrArg UInt8.toNat heq
  omega

/-- Only the line feed is written with a line feed. -/
theorem oneLine_ofChar {c : Char} (h : c.toNat ≠ 10) : OneLine (ofChar c) := fun hmem =>
  h (toNat_of_mem_ofChar (by decide) hmem)

theorem lineFeed_ne_hexDigit (n : Nat) : lineFeed ≠ hexDigit n := by
  unfold hexDigit
  have hlt : n % 16 < 16 := Nat.mod_lt n (by decide)
  split
  · exact lineFeed_ne_ofNat (by omega) (by omega)
  · exact lineFeed_ne_ofNat (by omega) (by omega)

@[simp] theorem oneLine_hex (width n : Nat) : OneLine (hex width n) := by
  induction width generalizing n with
  | zero => exact oneLine_nil
  | succ width ih =>
    rw [hex, oneLine_append]
    refine ⟨ih (n / 16), ?_⟩
    unfold OneLine
    rw [List.mem_singleton]
    exact lineFeed_ne_hexDigit n

theorem oneLine_shortEscape? {c : Char} {e : Text} (h : Rune.shortEscape? c = some e) :
    e.OneLine := by
  unfold Rune.shortEscape? at h
  split at h
  all_goals first
    | cases h; decide
    | cases h

/-- A control character is not printable, so the line feed is written by its name. -/
theorem oneLine_rune (r : Rune) : r.quoted.OneLine := by
  cases r with
  | stray b => simp +decide [Rune.quoted]
  | char c =>
    rw [Rune.quoted]
    split
    · decide
    · split
      · decide
      · split
        · next hprintable =>
          -- what is shown as it is cannot be the line feed
          refine oneLine_ofChar fun hfeed => ?_
          rw [isPrintable, hfeed] at hprintable
          exact absurd hprintable (by decide)
        · split
          · next e he => exact oneLine_shortEscape? he
          · split
            · simp +decide
            · split
              · simp +decide
              · simp +decide

/-- **A quoted text is on one line**, whatever it holds. -/
@[simp] theorem oneLine_quoted (t : Text) : t.quoted.OneLine := by
  unfold quoted
  rw [oneLine_append, oneLine_append]
  exact ⟨⟨by decide, oneLine_flatMap fun r _ => oneLine_rune r⟩, by decide⟩

end Text

/-! ### Semantic problems -/

@[simp] theorem Ty.oneLine_name (ty : Ty) : ty.name.OneLine := by
  cases ty with
  | invalid | int | bool | string | void | function => decide
  | unknown code => exact (by decide : Ty.invalid.name.OneLine)

@[simp] theorem Token.Kind.oneLine_name (kind : Token.Kind) : kind.name.OneLine := by
  cases kind <;> decide

namespace SemanticProblem

/-- **The texts that a message shows as they are.** -/
def texts : SemanticProblem → List Text
  | redeclared name _ | duplicateParameter name | parameterTy name _ => [name]
  | voidInitializer name | voidInferred name | assignMismatch _ name _ => [name]
  | variableTy name _ | assignUndeclared name => [name]
  | assignTarget _ name | voidAssigned name | undeclared name | functionAsValue name => [name]
  | inferredRecursion name | undeclaredFunction name | notAFunction name _ | arity name .. => [name]
  | returnTy function _ | missingReturn function _ | voidReturned function => [function]
  | inconsistentReturn function .. | valueFromVoid function => [function]
  | returnMismatch _ function _ | argument _ function .. => [function]
  | shadows name described _ => [name, described]
  | unbindable name cause => [name, cause.message]
  | unexpected cause => [cause.message]
  | unusedResult written => [written]
  | literalOverflow literal => [literal]
  | unaryMismatch op _ => [op.spelling]
  | binaryMismatch _ op _ => [op.spelling]
  | nestedFunction | folding _ => []

theorem oneLine_named {name : Text} : (named name).OneLine ↔ name.OneLine := by
  simp +decide [named]

/-- **A message is on one line if and only if the texts are that it shows.** -/
theorem oneLine_message (p : SemanticProblem) :
    p.message.OneLine ↔ ∀ t ∈ p.texts, t.OneLine := by
  cases p with
  | redeclared name line => cases line <;> simp +decide [message, texts, oneLine_named]
  | folding cause => cases cause <;> decide
  | _ => simp +decide [message, texts, oneLine_named]

end SemanticProblem

/-! ### Syntax errors -/

/-- **A token on one line**, as far as its literal is not the content of a string. -/
def Token.OneLine (t : Token) : Prop := t.kind ≠ .string → t.literal.OneLine

namespace Lexer

/-- Words of the language and marks are on one line. -/
theorem oneLine_keyword : ∀ k ∈ keywords, k.1.OneLine := by decide

theorem oneLine_mark : ∀ k ∈ marks, k.1.OneLine := by decide

/-- The character with the number of a byte is the line feed only for a blank. -/
theorem isBlank_of_char (b : UInt8) : (Char.ofNat b.toNat).toNat = 10 → isBlank b = true :=
  forall_byte (p := fun b => (Char.ofNat b.toNat).toNat = 10 → isBlank b = true)
    (by decide +kernel) b

/-- **Only a string has a literal of more than one line.** -/
theorem oneLine_tokens (src : Text) : ∀ t ∈ tokens src, t.OneLine := by
  intro t ht hkind
  obtain ⟨w, hshape⟩ := shape_of_mem_tokensFrom .start (readable src) t ht
  generalize t.kind = kind, t.literal = literal at hshape hkind
  -- by the shape of the token; only strings may hold a line feed
  cases hshape with
  | keyword h => exact oneLine_keyword _ h
  | name hb htail =>
    have hstart : isWordPart _ = true := Bool.or_eq_true_iff.mpr (.inl hb)
    exact Text.oneLine_of_forall (List.forall_mem_cons.mpr ⟨hstart, htail⟩) (by decide)
  | int hb htail =>
    exact Text.oneLine_of_forall (List.forall_mem_cons.mpr ⟨hb, htail⟩) (by decide)
  | mark h => exact oneLine_mark _ h
  | string => exact absurd rfl hkind
  | openString | openComment => decide
  | stray hblank => exact Text.oneLine_ofChar fun hfeed => hblank (isBlank_of_char _ hfeed)

end Lexer

open SyntaxProblem in
/-- A problem is on one line, or it shows the token that raises it and the token is not. -/
theorem Token.Raises.oneLine_or_shown {all : List Token}
    (hall : ∀ s ∈ all, s.OneLine) {t : Token} (ht : t ∈ all) {p : SyntaxProblem}
    (h : t.Raises all p) :
    p.message.OneLine ∨ ¬t.literal.OneLine ∧ shown t.kind t.literal <:+: p.message := by
  have hplain {kind : Token.Kind} (hkind : t.kind = kind) (hne : kind ≠ .string) :
      t.literal.OneLine := hall t ht (hkind ▸ hne)
  by_cases hliteral : t.literal.OneLine
  · refine .inl ?_
    cases h with
    | bodyExpected hmem hname =>
      have hfunction := hall _ hmem (hname ▸ by decide)
      simp +decide [message, shown, hliteral, hfunction]
    | _ => simp +decide [message, shown, hliteral]
  · -- a literal that is shown without its kind belongs to a token that is no string
    cases h with
    | topLevelExpression hkind | noInitializer hkind | illegalToken hkind | integerTooLarge hkind
    | commaBeforeEnd hkind => exact absurd (hplain hkind (by decide)) hliteral
    | unknownType hkind => exact absurd (hplain (eq_of_beq hkind) (by decide)) hliteral
    | returnOutsideFunction | nestedFunction | commaBeforeParen | parameterName | calleeExpected =>
      exact .inl (by decide)
    | parameterEnd => exact .inl (by simp +decide [message])
    -- the token stands at the end of the message, or before a last word
    | unexpectedStart | bodyExpected | typeExpected | unclosedBlock | expressionExpected =>
      exact .inr ⟨hliteral, (List.suffix_append _ _).isInfix⟩
    | expectedNext | expected => exact .inr ⟨hliteral, List.infix_append _ _ _⟩

/-- **A syntax error is on one line unless it shows a string that is not.** -/
theorem Fault.Raised.oneLine_or_shown {src : Text} {f : Fault}
    (h : f.Raised (Lexer.eof src :: Lexer.tokens src)) :
    f.what.message.OneLine ∨
      ∃ t ∈ Lexer.tokens src, t.kind = .string ∧ ¬t.literal.OneLine ∧ f.pos = t.pos ∧
        SyntaxProblem.shown t.kind t.literal <:+: f.what.message := by
  have hall : ∀ s ∈ Lexer.eof src :: Lexer.tokens src, s.OneLine :=
    List.forall_mem_cons.mpr ⟨fun _ => Text.oneLine_nil, Lexer.oneLine_tokens src⟩
  obtain ⟨t, ht, hpos, hraises⟩ := h
  rcases hraises.oneLine_or_shown hall ht with hline | ⟨hliteral, hshown⟩
  · exact .inl hline
  · have hstring : t.kind = .string := by
      by_contra hne
      exact hliteral (hall t ht hne)
    -- the end of the source is no string
    rcases List.mem_cons.mp ht with rfl | ht
    · cases hstring
    · exact .inr ⟨t, ht, hstring, hliteral, hpos, hshown⟩

end Slang
