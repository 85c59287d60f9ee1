import Slang.Proofs.Pieces

/-!
# Nothing is lost and nothing is invented

The tokens of a source stand in stretches of it that follow each other, and all bytes outside these
stretches belong to blanks and comments. Every stretch is the longest match at its place, and so is
every blank and every comment between them (`tokenized_tokens`).

The lexer goes through a source piece by piece and keeps no offsets; `spans` keeps them. What holds
of a text from some offset on is carried over one piece to the left: a piece that is dropped
lengthens the gap in front of the first token (`Tokenized.skip`), and a token starts a new one
(`Tokenized.token`).
-/

namespace Slang.Lexer

/-- A stretch of a text: the bytes from `start` up to but without `stop`. -/
structure Span where
  start : Nat
  stop : Nat
  deriving DecidableEq, Repr

/-- The bytes of a stretch. -/
def Span.text (s : Text) (p : Span) : Text := (s.drop p.start).take (p.stop - p.start)

/-- **A stretch of `s` that is the longest match at its place.** -/
def Span.Matches (s : Text) (p : Span) (m : Option (Token.Kind × Text)) : Prop :=
  Longest (s.drop p.start) (p.text s) m

/-- **Blanks and comments**, one after the other, from one offset of `s` to another. -/
inductive Skipped (s : Text) : Nat → Nat → Prop
  | nil (a : Nat) : Skipped s a a
  | cons {a b c : Nat} (hab : a < b) (h : Span.Matches s ⟨a, b⟩ none) (hbc : Skipped s b c) :
      Skipped s a c

/-- The stretches before, between and after other stretches, up to `stop`. -/
def gaps (stop : Nat) : Nat → List Span → List Span
  | a, [] => [⟨a, stop⟩]
  | a, p :: ps => ⟨a, p.start⟩ :: gaps stop p.stop ps

/-- **A text from offset `a` on, cut into tokens.** -/
structure Tokenized (s : Text) (a : Nat) (ps : List Span) (ts : List Token) : Prop where
  from_start : ∀ p ∈ ps, a ≤ p.start
  nonempty : ∀ p ∈ ps, p.start < p.stop
  inside : ∀ p ∈ ps, p.stop ≤ s.length
  disjoint : ps.Pairwise fun p q => p.stop ≤ q.start
  outside : ∀ g ∈ gaps s.length a ps, Skipped s g.start g.stop
  longest : List.Forall₂ (fun p t => p.Matches s (some (t.kind, t.literal))) ps ts

/-! ### One piece more -/

section
variable {s : Text} {a b : Nat} {ps : List Span} {ts : List Token}

theorem tokenized_nil (s : Text) : Tokenized s s.length [] [] where
  from_start := nofun
  nonempty := nofun
  inside := nofun
  disjoint := .nil
  outside := by
    intro g hg
    obtain rfl := List.mem_singleton.mp hg
    exact .nil s.length
  longest := .nil

/-- Blanks and comments lengthen the first gap. -/
theorem Tokenized.skip (h : Tokenized s b ps ts) (hab : a < b)
    (hskip : Span.Matches s ⟨a, b⟩ none) : Tokenized s a ps ts where
  from_start p hp := Nat.le_trans (Nat.le_of_lt hab) (h.from_start p hp)
  nonempty := h.nonempty
  inside := h.inside
  disjoint := h.disjoint
  outside := by
    -- what is skipped lies before the first gap
    have houtside := h.outside
    cases ps with
    | nil =>
      simp only [gaps, List.mem_singleton, forall_eq] at houtside ⊢
      exact .cons hab hskip houtside
    | cons p ps =>
      simp only [gaps, List.forall_mem_cons] at houtside ⊢
      exact ⟨.cons hab hskip houtside.1, houtside.2⟩
  longest := h.longest

/-- A token stands right where the last piece ended. -/
theorem Tokenized.token (h : Tokenized s b ps ts) (hab : a < b) (hb : b ≤ s.length) {t : Token}
    (ht : Span.Matches s ⟨a, b⟩ (some (t.kind, t.literal))) :
    Tokenized s a (⟨a, b⟩ :: ps) (t :: ts) where
  from_start := List.forall_mem_cons.mpr
    ⟨Nat.le_refl a, fun p hp => Nat.le_trans (Nat.le_of_lt hab) (h.from_start p hp)⟩
  nonempty := List.forall_mem_cons.mpr ⟨hab, h.nonempty⟩
  inside := List.forall_mem_cons.mpr ⟨hb, h.inside⟩
  disjoint := .cons h.from_start h.disjoint
  outside := List.forall_mem_cons.mpr ⟨.nil a, h.outside⟩
  longest := .cons ht h.longest

end

/-! ### The whole source -/

/-- The stretches of the tokens of a text whose first byte has offset `a`. -/
def spansFrom (a : Nat) : Text → List Span
  | [] => []
  | b :: rest =>
    match piece b rest with
    | .skip n => spansFrom (a + (b :: rest.take n).length) (rest.drop n)
    | .token _ _ n =>
      ⟨a, a + (b :: rest.take n).length⟩ :: spansFrom (a + (b :: rest.take n).length) (rest.drop n)
termination_by t => t.length
decreasing_by all_goals (simp only [List.length_drop, List.length_cons]; omega)

/-- The stretches of the tokens of a source. -/
def spans (src : Text) : List Span := spansFrom 0 (readable src)

/-- The piece after `pre` is the longest match at its place. -/
theorem matches_piece (pre : Text) (b : UInt8) (rest : Text) :
    Span.Matches (pre ++ b :: rest)
      ⟨pre.length, pre.length + (b :: rest.take (piece b rest).more).length⟩
      (piece b rest).meaning := by
  have hlongest := longest_piece b rest
  have hdrop : (pre ++ b :: rest).drop pre.length = b :: rest := List.drop_left
  unfold Span.Matches Span.text
  rw [hdrop, Nat.add_sub_cancel_left, ← List.prefix_iff_eq_take.mp hlongest.start]
  exact hlongest

/-- **What the lexer reads, piece by piece, is a tokenization.** -/
theorem tokenized_tokensFrom (p : Position) (pre t : Text) :
    Tokenized (pre ++ t) pre.length (spansFrom pre.length t) (tokensFrom p t) := by
  -- on the pieces; what was read before stays in front
  induction p, t using tokensFrom.induct generalizing pre with
  | case1 p =>
    rw [spansFrom, tokensFrom, List.append_nil]
    exact tokenized_nil pre
  | case2 p b rest n hpiece ih =>
    have hmatches := matches_piece pre b rest
    have hnext := ih (pre ++ b :: rest.take n)
    rw [hpiece] at hmatches
    rw [List.append_assoc, List.cons_append, List.take_append_drop, List.length_append] at hnext
    rw [spansFrom, tokensFrom, hpiece]
    exact hnext.skip (Nat.lt_add_of_pos_right (Nat.succ_pos _)) hmatches
  | case3 p b rest kind literal n hpiece ih =>
    have hmatches := matches_piece pre b rest
    have hnext := ih (pre ++ b :: rest.take n)
    rw [hpiece] at hmatches
    rw [List.append_assoc, List.cons_append, List.take_append_drop, List.length_append] at hnext
    rw [spansFrom, tokensFrom, hpiece]
    refine hnext.token (Nat.lt_add_of_pos_right (Nat.succ_pos _)) ?_ hmatches
    rw [List.length_append]
    exact Nat.add_le_add_left (Nat.succ_le_succ (List.take_prefix n rest).length_le) _

/-- Every token has the kind and the literal of a shape. -/
theorem shape_of_mem_tokensFrom (p : Position) (t : Text) :
    ∀ a ∈ tokensFrom p t, ∃ w, Shape w (some (a.kind, a.literal)) := by
  induction p, t using tokensFrom.induct with
  | case1 p =>
    rw [tokensFrom]
    exact List.forall_mem_nil _
  | case2 p b rest n hpiece ih =>
    rw [tokensFrom, hpiece]
    exact ih
  | case3 p b rest kind literal n hpiece ih =>
    -- a piece is the longest text of some shape
    have hshape := (longest_piece b rest).shape
    rw [hpiece] at hshape
    rw [tokensFrom, hpiece]
    intro a ha
    rcases List.mem_cons.mp ha with rfl | ha
    · exact ⟨_, hshape⟩
    · exact ih a ha

theorem ne_eof_of_keyword : ∀ k ∈ keywords, k.2 ≠ .eof := by decide

theorem ne_eof_of_mark : ∀ k ∈ marks, k.2 ≠ .eof := by decide

/-- No token is the end of the source. -/
theorem kind_ne_eof (src : Text) : ∀ a ∈ tokens src, a.kind ≠ .eof := by
  intro a ha
  obtain ⟨w, hshape⟩ := shape_of_mem_tokensFrom .start (readable src) a ha
  intro hend
  rw [hend] at hshape
  cases hshape with
  | keyword h => exact absurd rfl (ne_eof_of_keyword _ h)
  | mark h => exact absurd rfl (ne_eof_of_mark _ h)

end Slang.Lexer
