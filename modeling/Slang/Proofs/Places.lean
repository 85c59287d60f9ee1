import Slang.Proofs.Layout
import Slang.Proofs.Pieces.Spans

/-!
# Positions are exact

The lexer never looks back: it takes the position of a token from the bytes that it has passed over
since the last one. Here positions are compared with what can be read off the source at any offset:
the line counts the line feeds before it, and the column the bytes since the last of them
(`StandsAt`). So tokens have the positions of their first bytes, and no two of them are equal
(`positions_exact`).

The end of a source is reported at its last byte, and on a line that has none at column zero.
-/

namespace Slang

namespace Position

theorem line_after (p : Position) (t : Text) :
    (p.after t).line = p.line + t.count Text.lineFeed := by
  induction t generalizing p with
  | nil => simp
  | cons b t ih =>
    rw [after_cons, ih, List.count_cons, next]
    by_cases hb : b = Text.lineFeed
    · simp only [hb, if_true, beq_self_eq_true]
      omega
    · simp [hb]

/-- A column counts from the last line feed. -/
theorem column_after (p : Position) (t : Text) :
    (Text.lineFeed ∉ t ∧ (p.after t).column = p.column + t.length) ∨
      ∃ body tail, t = body ++ Text.lineFeed :: tail ∧ Text.lineFeed ∉ tail ∧
        (p.after t).column = tail.length + 1 := by
  induction t generalizing p with
  | nil => exact .inl ⟨List.not_mem_nil, by simp⟩
  | cons b t ih =>
    rw [after_cons]
    rcases ih (p.next b) with ⟨hmem, hcolumn⟩ | ⟨body, tail, rfl, hmem, hcolumn⟩
    · -- no line feed in the rest: this byte is the last one, or there is none
      by_cases hb : b = Text.lineFeed
      · refine .inr ⟨[], t, by rw [hb]; rfl, hmem, ?_⟩
        rw [hcolumn, next, if_pos hb]
        exact Int.add_comm 1 _
      · refine .inl ⟨?_, ?_⟩
        · rintro (_ | ⟨_, h⟩)
          · exact hb rfl
          · exact hmem h
        · rw [hcolumn, next, if_neg hb, List.length_cons]
          push_cast
          omega
    · exact .inr ⟨b :: body, tail, rfl, hmem, hcolumn⟩

end Position

namespace Lexer

/-- **Where the byte with offset `a` of a source stands.** The offset of the last line feed before
it is the number of bytes before that. -/
structure StandsAt (src : Text) (a : Nat) (p : Position) : Prop where
  line : p.line = 1 + (src.take a).count Text.lineFeed
  column : (Text.lineFeed ∉ src.take a ∧ p.column = (a : Int) + 1) ∨
    ∃ before tail, src.take a = before ++ Text.lineFeed :: tail ∧ Text.lineFeed ∉ tail ∧
      p.column = (a : Int) - before.length

theorem standsAt_after {src : Text} {a : Nat} (ha : a ≤ src.length) :
    StandsAt src a (Position.start.after (src.take a)) := by
  have hlen : (src.take a).length = a := List.length_take_of_le ha
  refine ⟨Position.line_after .start _, ?_⟩
  rcases Position.column_after .start (src.take a) with
    ⟨hmem, hcolumn⟩ | ⟨body, tail, htake, hmem, hcolumn⟩
  · refine .inl ⟨hmem, ?_⟩
    rw [hcolumn, hlen]
    exact Int.add_comm 1 _
  · refine .inr ⟨body, tail, htake, hmem, ?_⟩
    rw [htake, List.length_append, List.length_cons] at hlen
    rw [hcolumn]
    omega

/-- A token has the position of its first byte. -/
theorem pos_tokensFrom (pre t : Text) :
    List.Forall₂ (fun p u => u.pos = Position.start.after ((pre ++ t).take p.start))
      (spansFrom pre.length t) (tokensFrom (Position.start.after pre) t) := by
  generalize hp : Position.start.after pre = p
  induction p, t using tokensFrom.induct generalizing pre with
  | case1 p =>
    rw [spansFrom, tokensFrom]
    exact .nil
  | case2 p b rest n hpiece ih =>
    -- the rest is read from behind this piece
    have hnext := ih (pre ++ b :: rest.take n) (by rw [Position.after_append, hp])
    rw [List.append_assoc, List.cons_append, List.take_append_drop, List.length_append] at hnext
    rw [spansFrom, tokensFrom, hpiece]
    exact hnext
  | case3 p b rest kind literal n hpiece ih =>
    have hnext := ih (pre ++ b :: rest.take n) (by rw [Position.after_append, hp])
    rw [List.append_assoc, List.cons_append, List.take_append_drop, List.length_append] at hnext
    rw [spansFrom, tokensFrom, hpiece]
    refine .cons ?_ hnext
    dsimp only
    rw [List.take_left, hp]

/-- **Every token has the position of its first byte.** -/
theorem standsAt_tokens (src : Text) :
    List.Forall₂ (fun p t => StandsAt src p.start t.pos) (spans src) (tokens src) := by
  have htokenized := tokenized_tokensFrom .start [] (readable src)
  have hreadable : readable src <+: src := List.takeWhile_prefix _
  have hpos : List.Forall₂ (fun p t => t.pos = Position.start.after ((readable src).take p.start))
      (spans src) (tokens src) :=
    pos_tokensFrom [] (readable src)
  have hmem := (List.forall₂_and_left (p := (· ∈ spans src)) _ _).mpr ⟨fun p hp => hp, hpos⟩
  refine hmem.imp ?_
  rintro p t ⟨hp, ht⟩
  -- tokens lie before the first zero byte, where the source and its readable part are the same
  have hstart : p.start ≤ (readable src).length :=
    Nat.le_trans (Nat.le_of_lt (htokenized.nonempty p hp)) (htokenized.inside p hp)
  have htake : (readable src).take p.start = src.take p.start := by
    obtain ⟨rest, hrest⟩ := hreadable
    calc (readable src).take p.start = (readable src ++ rest).take p.start :=
          (List.take_append_of_le_length hstart).symm
      _ = src.take p.start := by rw [hrest]
  rw [ht, htake]
  exact standsAt_after (Nat.le_trans hstart hreadable.length_le)

/-- **Positions are exact.** Every token has the position of the byte that it starts with, so
positions grow from token to token and no two tokens are equal. The end has the line of the last
byte that is read, and its column counts the bytes of that line. -/
theorem positions_exact (src : Text) :
    (∃ ps, Tokenized (readable src) 0 ps (tokens src) ∧
        List.Forall₂ (fun p t => StandsAt src p.start t.pos) ps (tokens src)) ∧
      ((tokens src).Pairwise fun t u => t.pos.line < u.pos.line ∨
        t.pos.line = u.pos.line ∧ t.pos.column < u.pos.column) ∧
      (tokens src).Nodup ∧
      (eof src).pos.line = 1 + (readable src).count Text.lineFeed ∧
      ((Text.lineFeed ∉ readable src ∧ (eof src).pos.column = (readable src).length) ∨
        ∃ before tail, readable src = before ++ Text.lineFeed :: tail ∧ Text.lineFeed ∉ tail ∧
          (eof src).pos.column = tail.length) := by
  have hbefore := pairwise_tokens src
  refine ⟨⟨spans src, tokenized_tokensFrom .start [] _, standsAt_tokens src⟩,
    hbefore.imp Position.before_iff.mp, ?_, Position.line_after .start _, ?_⟩
  · -- no position comes before itself
    refine hbefore.imp fun {t u} h heq => ?_
    rw [heq, Position.before_iff] at h
    omega
  · rcases Position.column_after .start (readable src) with
      ⟨hmem, hcolumn⟩ | ⟨body, tail, heq, hmem, hcolumn⟩
    · refine .inl ⟨hmem, ?_⟩
      change (Position.start.after (readable src)).column - 1 = _
      rw [hcolumn]
      change (1 : Int) + _ - 1 = _
      omega
    · refine .inr ⟨body, tail, heq, hmem, ?_⟩
      change (Position.start.after (readable src)).column - 1 = _
      rw [hcolumn]
      omega

end Lexer
end Slang
