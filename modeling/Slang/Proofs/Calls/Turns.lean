import Slang.Proofs.Calls

/-!
# Turns of the loops

The loops over a program and over a block have no counter. Each turn reads a statement and compares
the next token with the one at which it began. Tokens of one source are pairwise different, and none
of them is the end (`Distinct`), so this tells whether the statement took any token, and a turn goes
on further ahead whatever its statement did (`Moves`).

A statement that is built has taken tokens (`Parsed.Advances`), since it ends with a semicolon or a
brace. So it is enough to compare tokens after a statement that was dropped.
-/

namespace Slang.Parser

variable {α : Type} {eof : Token}

/-! ### Turns of a loop -/

/-- Tokens that are pairwise different, and none of them is the end. -/
def Distinct (eof : Token) (ts : List Token) : Prop := (ts ++ [eof]).Nodup

theorem Distinct.of_suffix {ts us : List Token} (h : Distinct eof ts) (hus : us <:+ ts) :
    Distinct eof us :=
  h.sublist (hus.sublist.append_right [eof])

/-- Further ahead stands another token, or the end. -/
theorem Distinct.headD_drop_ne {t : Token} {rest : List Token} (h : Distinct eof (t :: rest))
    (k : Nat) : (rest.drop k).headD eof ≠ t := by
  have hnot : t ∉ rest ++ [eof] := (List.nodup_cons.mp h).1
  intro heq
  cases hrest : rest.drop k with
  | nil =>
    rw [hrest, List.headD_nil] at heq
    exact hnot (List.mem_append_right rest (List.mem_singleton.mpr heq.symm))
  | cons s us =>
    rw [hrest, List.headD_cons] at heq
    have hmem : s ∈ rest.drop k := hrest ▸ List.mem_cons_self
    exact hnot (List.mem_append_left [eof] (heq ▸ List.mem_of_mem_drop hmem))

/-- A statement that is not dropped has taken tokens. -/
def Parsed.Advances (p : Parsed Stmt) : Prop := p.node.isSome → 0 < p.taken

/-- **A loop that compares tokens goes on where one that counts them does.** -/
theorem turn_eq {t : Token} {rest : List Token} {p : Parsed Stmt} (h : Distinct eof (t :: rest))
    (hp : p.Advances) : turn eof (t :: rest) p = max p.taken 1 := by
  unfold turn
  cases htaken : p.taken with
  | zero =>
    have hnone : p.node.isNone := by
      cases hnode : p.node with
      | none => rfl
      | some s => exact absurd (hp (hnode ▸ rfl)) (htaken ▸ Nat.lt_irrefl 0)
    exact if_pos ⟨hnone, rfl⟩
  | succ k =>
    have hne : ((t :: rest).drop (k + 1)).headD eof ≠ t := h.headD_drop_ne k
    rw [if_neg fun hsame => hne hsame.2]
    exact (Nat.max_eq_left (Nat.le_add_left 1 k)).symm

/-- **What a turn of a loop can do**: its statement was built from tokens, or it was dropped and
recovery took tokens, or it was dropped where it began and the loop goes on one token ahead. -/
inductive Moves (eof : Token) (ts : List Token) (p : Parsed Stmt) : Prop
  | built (hnode : p.node.isSome) (htaken : 0 < p.taken) (hturn : turn eof ts p = p.taken)
  | recovered (hnode : p.node = none) (htaken : 0 < p.taken) (hturn : turn eof ts p = p.taken)
  | forced (hnode : p.node = none) (htaken : p.taken = 0) (hturn : turn eof ts p = 1)

theorem moves_of_advances {t : Token} {rest : List Token} {p : Parsed Stmt}
    (h : Distinct eof (t :: rest)) (hp : p.Advances) : Moves eof (t :: rest) p := by
  have hturn := turn_eq h hp
  rcases Nat.eq_zero_or_pos p.taken with hzero | hpos
  · rw [hzero] at hturn
    refine .forced ?_ hzero hturn
    cases hnode : p.node with
    | none => rfl
    | some s => exact absurd (hp (hnode ▸ rfl)) (hzero ▸ Nat.lt_irrefl 0)
  · rw [Nat.max_eq_left hpos] at hturn
    cases hnode : p.node with
    | none => exact .recovered hnode hpos hturn
    | some s => exact .built (hnode ▸ rfl) hpos hturn

/-- Whatever a turn does, it leaves fewer tokens. -/
theorem Moves.length_lt {t : Token} {rest : List Token} {p : Parsed Stmt}
    (h : Moves eof (t :: rest) p) :
    ((t :: rest).drop (turn eof (t :: rest) p)).length < (t :: rest).length := by
  have hpos : 0 < turn eof (t :: rest) p := by
    cases h with
    | built _ htaken hturn | recovered _ htaken hturn => rwa [hturn]
    | forced _ _ hturn => rw [hturn]; exact Nat.one_pos
  rw [List.length_drop]
  exact Nat.sub_lt (Nat.succ_pos _) hpos

/-! ### Statements that are built take tokens -/

section

theorem advances_dropped (ts : List Token) (fs : List Fault) (k : Nat) :
    (Parsed.dropped ts fs k : Parsed Stmt).Advances := nofun

theorem advances_droppedFunction (ts : List Token) (f : Fault) (k : Nat) :
    (Parsed.droppedFunction ts f k : Parsed Stmt).Advances := nofun

variable (eof)

theorem advances_finish (ts : List Token) (node : Stmt) (fs : List Fault) (k : Nat) :
    (finish eof ts node fs k).Advances := by
  unfold finish
  split
  · next n hexpect =>
    -- the semicolon is one token
    intro _
    unfold expect at hexpect
    dsimp only at hexpect
    split at hexpect
    · obtain ⟨-, rfl⟩ := Reply.ok.inj hexpect
      exact Nat.succ_pos k
    · cases hexpect
  · exact advances_dropped ts _ k

theorem advances_letStmt (t : Token) (rest : List Token) : (letStmt eof t rest).Advances := by
  unfold letStmt
  dsimp only
  split
  · exact advances_dropped _ _ _
  · exact advances_finish eof _ _ _ _

theorem advances_assignStmt (name sign : Token) (rest : List Token) :
    (assignStmt eof name sign rest).Advances := by
  unfold assignStmt
  dsimp only
  split
  · exact advances_dropped _ _ _
  · exact advances_finish eof _ _ _ _

theorem advances_returnStmt (depth : Nat) (t : Token) (rest : List Token) :
    (returnStmt eof depth t rest).Advances := by
  unfold returnStmt
  dsimp only
  split
  · exact advances_finish eof _ _ _ _
  · split
    · exact advances_dropped _ _ _
    · exact advances_finish eof _ _ _ _

theorem advances_exprStmt (t : Token) (rest : List Token) : (exprStmt eof t rest).Advances := by
  unfold exprStmt
  dsimp only
  split
  · exact advances_dropped _ _ _
  · exact advances_finish eof _ _ _ _

theorem pos_of_shift {r : Reply α} {a : α} {n k : Nat} (h : r.shift (n + 1) = .ok a k) : 0 < k := by
  cases r with
  | ok b m =>
    obtain ⟨-, rfl⟩ := Reply.ok.inj h
    exact Nat.add_pos_left (Nat.succ_pos n) m
  | fail f m => cases h

theorem advances_function (depth : Nat) (t : Token) (rest : List Token) :
    (function eof depth t rest).Advances := by
  unfold function
  dsimp only
  split
  · exact advances_droppedFunction _ _ _
  · next k hhead =>
    have hk : 0 < k := by
      unfold fnHead at hhead
      dsimp only at hhead
      split at hhead
      · cases hhead
      · exact pos_of_shift hhead
    exact fun _ => Nat.add_pos_left hk _

/-- **A statement of a body takes a token if it is kept.** -/
theorem advances_statement (depth : Nat) (t : Token) (rest : List Token) :
    (statement eof depth (t :: rest)).Advances := by
  rw [statement.eq_def]
  dsimp only
  -- by the kind of the first token
  split
  · exact advances_letStmt eof t rest
  · exact advances_returnStmt eof depth t rest
  · exact fun _ => Nat.succ_pos _
  · exact fun hnode => by cases hnode
  · split
    · split
      · exact advances_assignStmt eof t _ _
      · exact advances_exprStmt eof t _
    · exact advances_exprStmt eof t []
  · exact advances_exprStmt eof t rest

theorem advances_topLevel (t : Token) (rest : List Token) : (topLevel eof t rest).Advances := by
  unfold topLevel
  dsimp only
  split
  · exact advances_letStmt eof t rest
  · exact advances_function eof 0 t rest
  · split
    · split
      · exact advances_assignStmt eof t _ _
      · exact advances_dropped _ _ _
    · exact advances_dropped _ _ _
  · exact advances_dropped _ _ _
  · exact advances_dropped _ _ _

end

end Slang.Parser
