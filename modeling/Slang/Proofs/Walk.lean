import Slang.Proofs.Nesting

/-!
# The order of scopes

Analysis makes the scope of a body or a block when it comes to it, and leaves it for good at its
end. So the scopes around a new scope are the last scope that was made with those around it, or the
outermost of these: this is `Table.InOrder`. It makes the order in which scopes are made the order
in which they are walked:

* `InOrder.subtree_eq`: walking a scope lists the scopes that it is around, in the order of making;
* `InOrder.subtree_root`: walking the first scope lists all of them.
-/

namespace Slang.Table

/-- **Scopes in the order in which they are read.** -/
structure InOrder (t : Table) : Prop where
  /-- The first scope is a root. -/
  root : ∀ s, t.scope? 0 = some s → s.outer = []
  /-- Scopes are made inside the last one that was made, or inside one around it. -/
  next : ∀ j s s', t.scope? j = some s → t.scope? (j + 1) = some s' → s'.outer <:+ j :: s.outer
  /-- No other scope is a root. -/
  inner : ∀ j s, t.scope? (j + 1) = some s → s.outer ≠ []

namespace InOrder

variable {t : Table} {i j k : Nat}

/-! ### Chains -/

theorem chain_zero (h : t.InOrder) (h0 : 0 < t.scopes.length) : t.chain 0 = [0] := by
  obtain ⟨s, hs⟩ := exists_scope? h0
  rw [chain_of_scope? hs, h.root s hs]

theorem chain_succ (h : t.InOrder) (hj : j + 1 < t.scopes.length) :
    ∃ outer, t.chain (j + 1) = (j + 1) :: outer ∧ outer <:+ t.chain j ∧ outer ≠ [] := by
  obtain ⟨s', hs'⟩ := exists_scope? hj
  obtain ⟨s, hs⟩ := exists_scope? (Nat.lt_of_succ_lt hj)
  refine ⟨s'.outer, chain_of_scope? hs', ?_, h.inner j s' hs'⟩
  rw [chain_of_scope? hs]
  exact h.next j s s' hs hs'

/-- What is left of a chain from one of its scopes on is the chain of that scope. -/
theorem le_and_chain_of_suffix (h : t.InOrder) {p : Nat} {rest : List Nat}
    (hrest : p :: rest <:+ t.chain j) : p ≤ j ∧ t.chain p = p :: rest := by
  have hj := lt_of_mem_chain (hrest.subset List.mem_cons_self)
  induction j with
  | zero =>
    rw [h.chain_zero hj, List.suffix_cons_iff] at hrest
    rcases hrest with heq | hrest
    · obtain ⟨rfl, rfl⟩ := List.cons.inj heq
      exact ⟨Nat.le_refl _, h.chain_zero hj⟩
    · cases List.suffix_nil.mp hrest
  | succ j ih =>
    -- the scope itself, or one around it, which lies around the scope made before, too
    obtain ⟨outer, hchain, houter, -⟩ := h.chain_succ hj
    rw [hchain, List.suffix_cons_iff] at hrest
    rcases hrest with heq | hrest
    · obtain ⟨rfl, rfl⟩ := List.cons.inj heq
      exact ⟨Nat.le_refl _, hchain⟩
    · obtain ⟨hle, hp⟩ := ih (hrest.trans houter) (Nat.lt_of_succ_lt hj)
      exact ⟨Nat.le_succ_of_le hle, hp⟩

/-- Scopes in the order in which they are read lie in each other. -/
theorem nested (h : t.InOrder) : t.Nested := by
  intro i s hs
  cases i with
  | zero => exact .inl (h.root s hs)
  | succ j =>
    obtain ⟨outer, hchain, houter, -⟩ := h.chain_succ (scope?_lt hs)
    obtain rfl := (List.cons.inj ((chain_of_scope? hs).symm.trans hchain)).2
    cases hrest : s.outer with
    | nil => exact .inl rfl
    | cons p rest =>
      obtain ⟨hle, hp⟩ := h.le_and_chain_of_suffix (hrest ▸ houter)
      exact .inr ⟨p, Nat.lt_succ_of_le hle, hp.symm⟩

/-- A scope other than `j + 1` that is around `j + 1` is around `j`. -/
theorem mem_chain_pred (h : t.InOrder) (hi : i ∈ t.chain (j + 1)) (hne : i ≠ j + 1) :
    i ∈ t.chain j := by
  obtain ⟨outer, hchain, hsuffix, -⟩ := h.chain_succ (lt_of_mem_chain hi)
  rw [hchain] at hi
  exact hsuffix.subset ((List.mem_cons.mp hi).resolve_left hne)

/-- **What a scope is around comes without a break**: once it is left, it is never entered again. -/
theorem mem_chain_of_le (h : t.InOrder) (hi : i ∈ t.chain k) (hij : i ≤ j) (hjk : j ≤ k) :
    i ∈ t.chain j := by
  induction k with
  | zero =>
    obtain rfl : j = 0 := Nat.le_zero.mp hjk
    exact hi
  | succ k ih =>
    rcases Nat.le_succ_iff.mp hjk with hjk | rfl
    · exact ih (h.mem_chain_pred hi (by omega)) hjk
    · exact hi

theorem zero_mem_chain (h : t.InOrder) (hj : j < t.scopes.length) : 0 ∈ t.chain j := by
  induction j with
  | zero => exact mem_chain_self hj
  | succ j ih =>
    obtain ⟨outer, hchain, hsuffix, hne⟩ := h.chain_succ hj
    rw [hchain]
    refine List.mem_cons_of_mem _ ?_
    -- the chain of `j` ends with the first scope, and so does what is left of it
    have hroot : [0] <:+ t.chain j := by
      rw [← h.chain_zero (Nat.zero_lt_of_lt hj)]
      exact h.nested.chain_suffix (ih (Nat.lt_of_succ_lt hj))
    rcases List.suffix_or_suffix_of_suffix hroot hsuffix with hle | hle
    · exact hle.subset List.mem_cons_self
    · rcases List.suffix_cons_iff.mp hle with rfl | hle
      · exact List.mem_cons_self
      · exact absurd (List.suffix_nil.mp hle) hne

/-! ### Walks -/

/-- Scopes inside a child come before the next child. -/
theorem lt_of_children (h : t.InOrder) {c c' : Nat} (hc : c ∈ t.children i)
    (hc' : c' ∈ t.children i) (hlt : c < c') (hj : c ∈ t.chain j) : j < c' := by
  refine Nat.lt_of_not_le fun hle => ?_
  -- otherwise the first child would be around the second, and so around their common parent
  have hmem := h.mem_chain_of_le hj (Nat.le_of_lt hlt) hle
  obtain ⟨hi, hchain'⟩ := h.nested.mem_children.mp hc'
  rw [hchain'] at hmem
  have hmem := (List.mem_cons.mp hmem).resolve_left (Nat.ne_of_lt hlt)
  have hci := h.nested.le_of_mem_chain hmem
  have := (lt_of_mem_children hc).1
  omega

/-- **Walking a scope** lists the scopes that it is around, in the order of making. -/
theorem subtree_eq (h : t.InOrder) (i : Nat) (hi : i < t.scopes.length) :
    t.subtree i = (List.range t.scopes.length).filter (fun j => i ∈ t.chain j) := by
  have hmem : ∀ {i j : Nat}, j ∈ (List.range t.scopes.length).filter (fun j => i ∈ t.chain j) ↔
      i ∈ t.chain j := by
    intro i j
    simp only [List.mem_filter, List.mem_range, decide_eq_true_eq, and_iff_right_iff_imp]
    exact lt_of_mem_chain
  rw [subtree_unfold hi]
  -- by induction from the last scope backwards: children come later
  have ih : (t.children i).flatMap t.subtree = (t.children i).flatMap fun c =>
      (List.range t.scopes.length).filter (fun j => c ∈ t.chain j) := by
    refine List.flatMap_congr fun c hc => ?_
    have hlt := lt_of_mem_children hc
    exact h.subtree_eq c hlt.2
  rw [ih]
  refine List.Pairwise.eq_of_mem_iff (r := (· < ·)) ?_ (List.pairwise_lt_range.filter _) ?_
  · rw [List.pairwise_cons, List.pairwise_flatMap]
    refine ⟨fun j hj => ?_, fun c _ => List.pairwise_lt_range.filter _, ?_⟩
    · obtain ⟨c, hc, hj⟩ := List.mem_flatMap.mp hj
      exact Nat.lt_of_lt_of_le (lt_of_mem_children hc).1 (h.nested.le_of_mem_chain (hmem.mp hj))
    · have hsorted : (t.children i).Pairwise (· < ·) := List.pairwise_lt_range.filter _
      refine hsorted.imp_of_mem fun hc hc' hlt j hj k hk => ?_
      exact Nat.lt_of_lt_of_le (h.lt_of_children hc hc' hlt (hmem.mp hj))
        (h.nested.le_of_mem_chain (hmem.mp hk))
  · intro j
    rw [hmem, h.nested.mem_chain_iff hi, List.mem_cons, List.mem_flatMap]
    simp only [hmem]
termination_by t.scopes.length - i

/-- **Walking the first scope** lists all scopes. -/
theorem subtree_root (h : t.InOrder) (h0 : 0 < t.scopes.length) :
    t.subtree 0 = List.range t.scopes.length := by
  rw [h.subtree_eq 0 h0]
  refine List.filter_eq_self.mpr fun j hj => ?_
  exact decide_eq_true (h.zero_mem_chain (List.mem_range.mp hj))

end InOrder

end Slang.Table
