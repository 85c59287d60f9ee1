import Mathlib.Data.List.Sort
import Slang.Proofs.Table

/-!
# How scopes lie in each other

A scope keeps the scopes around it as a list. In every table that is built by making one scope after
the other, that list is the chain of one earlier scope: this is `Table.Nested`. Everything that a
tree of scopes is expected to do follows from it.

* `Nested.chain_suffix`: the scopes around a scope are around every scope inside it;
* `Nested.mem_subtree`, `Nested.nodup_subtree`: walking a scope comes to the scopes inside it, and
  to each of them once;
* `Nested.walk_eq_filter`: a walk that does not enter some scopes leaves out what is inside them, and
  nothing else.
-/

namespace Slang.Table

/-! ### Roots -/

theorem root_of_singleton {t : Table} {i : ScopeId} (h : t.chain i = [i]) : t.root i = i := by
  rw [root, h]
  rfl

/-- A scope inside another one has its root. The two may be read off two tables. -/
theorem root_of_cons {t t' : Table} {i p : ScopeId} (hp : p ∈ t.chain p)
    (h : t'.chain i = i :: t.chain p) : t'.root i = t.root p := by
  obtain ⟨first, rest, hchain⟩ := List.exists_cons_of_ne_nil (List.ne_nil_of_mem hp)
  rw [root, root, h, hchain, List.getLastD_cons, List.getLastD_cons, List.getLastD_cons]

/-- **Scopes that lie in each other**: a scope is a root, or lies directly inside an earlier one. -/
def Nested (t : Table) : Prop :=
  ∀ i s, t.scope? i = some s → s.outer = [] ∨ ∃ p, p < i ∧ s.outer = t.chain p

namespace Nested

variable {t : Table} {i j k : Nat}

/-! ### Chains -/

/-- A chain starts with its scope, and goes on as the chain of an earlier one or not at all. -/
theorem chain_cases (h : t.Nested) (hj : j < t.scopes.length) :
    t.chain j = [j] ∨ ∃ p, p < j ∧ t.chain j = j :: t.chain p := by
  obtain ⟨s, hs⟩ := exists_scope? hj
  rw [chain_of_scope? hs]
  rcases h j s hs with houter | ⟨p, hp, houter⟩
  · exact .inl (by rw [houter])
  · exact .inr ⟨p, hp, by rw [houter]⟩

/-- **Induction along chains**: from the scope around a scope to the scope itself. A number without a
scope has no chain. -/
theorem chain_induction (h : t.Nested) {motive : ScopeId → Prop}
    (nothing : ∀ j, t.chain j = [] → motive j)
    (root : ∀ j, t.chain j = [j] → motive j)
    (inner : ∀ j p, p < j → t.chain j = j :: t.chain p → p ∈ t.chain p → motive p → motive j)
    (j : ScopeId) : motive j := by
  induction j using Nat.strongRecOn with
  | ind j ih =>
    by_cases hj : j < t.scopes.length
    · rcases h.chain_cases hj with hchain | ⟨p, hp, hchain⟩
      · exact root j hchain
      · exact inner j p hp hchain (mem_chain_self (Nat.lt_trans hp hj)) (ih p hp)
    · exact nothing j (chain_eq_nil (Nat.not_lt.mp hj))

theorem le_of_mem_chain (h : t.Nested) (hi : i ∈ t.chain j) : i ≤ j := by
  induction j using h.chain_induction with
  | nothing j hchain => cases hchain ▸ hi
  | root j hchain =>
    rw [hchain] at hi
    exact Nat.le_of_eq (List.mem_singleton.mp hi)
  | inner j p hp hchain hself ih =>
    rw [hchain] at hi
    rcases List.mem_cons.mp hi with rfl | hi
    · exact Nat.le_refl _
    · exact Nat.le_of_lt (Nat.lt_of_le_of_lt (ih hi) hp)

/-- Chains lead to earlier and earlier scopes. -/
theorem pairwise_chain (h : t.Nested) (j : ScopeId) : (t.chain j).Pairwise (· > ·) := by
  induction j using h.chain_induction with
  | nothing j hchain => exact hchain ▸ .nil
  | root j hchain => exact hchain ▸ List.pairwise_singleton _ _
  | inner j p hp hchain hself ih =>
    rw [hchain, List.pairwise_cons]
    exact ⟨fun o ho => Nat.lt_of_le_of_lt (h.le_of_mem_chain ho) hp, ih⟩

/-- The scopes around a scope are those in its chain but the scope itself. -/
theorem mem_tail_chain (h : t.Nested) : i ∈ (t.chain j).tail ↔ i ∈ t.chain j ∧ i ≠ j := by
  by_cases hj : j < t.scopes.length
  · obtain ⟨s, hs⟩ := exists_scope? hj
    have hpairwise := h.pairwise_chain j
    rw [chain_of_scope? hs] at hpairwise ⊢
    rw [List.tail_cons, List.mem_cons]
    constructor
    · intro hi
      exact ⟨.inr hi, Nat.ne_of_lt (List.rel_of_pairwise_cons hpairwise hi)⟩
    · rintro ⟨hi, hne⟩
      exact hi.resolve_left hne
  · simp [chain_eq_nil (Nat.not_lt.mp hj)]

/-- **From every scope in a chain on, it is the chain of that scope.** -/
theorem chain_of_suffix (h : t.Nested) {rest : List ScopeId} (hrest : i :: rest <:+ t.chain j) :
    t.chain i = i :: rest := by
  -- from the scope outwards: what is left of its chain is a chain
  induction j using h.chain_induction with
  | nothing j hchain => cases List.suffix_nil.mp (hchain ▸ hrest)
  | root j hchain =>
    rw [hchain, List.suffix_cons_iff] at hrest
    rcases hrest with heq | hrest
    · obtain ⟨rfl, rfl⟩ := List.cons.inj heq
      exact hchain
    · cases List.suffix_nil.mp hrest
  | inner j p hp hchain hself ih =>
    rw [hchain, List.suffix_cons_iff] at hrest
    rcases hrest with heq | hrest
    · obtain ⟨rfl, rfl⟩ := List.cons.inj heq
      exact hchain
    · exact ih hrest

/-- The scopes around a scope are around every scope inside it. -/
theorem chain_suffix (h : t.Nested) (hi : i ∈ t.chain j) : t.chain i <:+ t.chain j := by
  obtain ⟨pre, rest, hchain⟩ := List.append_of_mem hi
  have hsuffix : i :: rest <:+ t.chain j := hchain ▸ List.suffix_append pre (i :: rest)
  rw [h.chain_of_suffix hsuffix]
  exact hsuffix

/-- A tree is what has its root around it. -/
theorem root_eq_iff {r : Nat} (h : t.Nested) (hr : t.chain r = [r]) :
    r ∈ t.chain j ↔ j < t.scopes.length ∧ t.root j = r := by
  induction j using h.chain_induction with
  | nothing j hchain =>
    rw [hchain]
    refine iff_of_false List.not_mem_nil fun hj => ?_
    exact List.not_mem_nil (hchain ▸ mem_chain_self hj.1)
  | root j hchain =>
    rw [root_of_singleton hchain, hchain, List.mem_singleton, eq_comm]
    exact (and_iff_right (lt_of_mem_chain (hchain ▸ List.mem_cons_self : j ∈ t.chain j))).symm
  | inner j p hp hchain hself ih =>
    have hj : j < t.scopes.length :=
      lt_of_mem_chain (hchain ▸ List.mem_cons_self : j ∈ t.chain j)
    -- a scope that lies within another one is no root
    have hne : r ≠ j := by
      rintro rfl
      rw [hr] at hchain
      exact List.ne_nil_of_mem hself (List.cons.inj hchain).2.symm
    rw [root_of_cons hself hchain, hchain, List.mem_cons, or_iff_right hne, ih]
    exact and_congr_left fun _ => iff_of_true (Nat.lt_trans hp hj) hj

theorem root_le (h : t.Nested) (j : ScopeId) : t.root j ≤ j := by
  induction j using h.chain_induction with
  | nothing j hchain => rw [root, hchain]; exact Nat.le_refl _
  | root j hchain => rw [root_of_singleton hchain]
  | inner j p hp hchain hself ih =>
    rw [root_of_cons hself hchain]
    exact Nat.le_trans ih (Nat.le_of_lt hp)

theorem mem_chain_trans (h : t.Nested) (hij : i ∈ t.chain j) (hjk : j ∈ t.chain k) :
    i ∈ t.chain k :=
  (h.chain_suffix hjk).subset hij

/-! ### Children -/

/-- **The children of a scope** are those whose chain goes on with its own. -/
theorem mem_children (h : t.Nested) : j ∈ t.children i ↔ i ∈ t.chain i ∧
    t.chain j = j :: t.chain i := by
  simp only [children, List.mem_filter, List.mem_range, Bool.and_eq_true, decide_eq_true_eq,
    beq_iff_eq]
  constructor
  · rintro ⟨hj, hij, hhead⟩
    obtain ⟨s, hs, hhead⟩ := Option.map_eq_some_iff.mp hhead
    obtain ⟨rest, houter⟩ := List.head?_eq_some_iff.mp hhead
    have hchain : t.chain j = j :: i :: rest := by rw [chain_of_scope? hs, houter]
    have hsuffix : i :: rest <:+ t.chain j := hchain ▸ List.suffix_cons j (i :: rest)
    exact ⟨mem_chain_self (Nat.lt_trans hij hj), by rw [hchain, h.chain_of_suffix hsuffix]⟩
  · rintro ⟨hi, hchain⟩
    obtain ⟨s, hs⟩ := exists_scope? (lt_of_mem_chain (hchain ▸ List.mem_cons_self : j ∈ t.chain j))
    obtain ⟨si, hsi⟩ := exists_scope? (lt_of_mem_chain hi)
    have houter := (List.cons.inj ((chain_of_scope? hs).symm.trans hchain)).2
    -- chains fall, so that a child comes later than the scope
    have hpairwise := h.pairwise_chain j
    rw [hchain] at hpairwise
    rw [chain_of_scope? hsi] at houter
    exact ⟨scope?_lt hs, List.rel_of_pairwise_cons hpairwise hi,
      by rw [hs, Option.map_some, houter]; rfl⟩

/-- A scope is inside another one if it is inside one of its children. -/
theorem mem_chain_iff (h : t.Nested) (hi : i < t.scopes.length) :
    i ∈ t.chain j ↔ j = i ∨ ∃ c ∈ t.children i, c ∈ t.chain j := by
  constructor
  · intro hij
    induction j using h.chain_induction with
    | nothing j hchain => cases hchain ▸ hij
    | root j hchain =>
      rw [hchain] at hij
      exact .inl (List.mem_singleton.mp hij).symm
    | inner j p hp hchain hself ih =>
      rw [hchain] at hij
      rcases List.mem_cons.mp hij with rfl | hij
      · exact .inl rfl
      -- the scope before `i` in the chain is a child of `i`
      rcases ih hij with rfl | ⟨c, hc, hcp⟩
      · exact .inr ⟨j, h.mem_children.mpr ⟨hself, hchain⟩, hchain ▸ List.mem_cons_self⟩
      · exact .inr ⟨c, hc, hchain ▸ List.mem_cons_of_mem j hcp⟩
  · rintro (rfl | ⟨c, hc, hcj⟩)
    · exact mem_chain_self hi
    · obtain ⟨hi, hchain⟩ := h.mem_children.mp hc
      exact h.mem_chain_trans (hchain ▸ List.mem_cons_of_mem c hi) hcj

/-- No scope is inside two children of one scope. -/
theorem children_unique (h : t.Nested) {c c' : ScopeId} (hc : c ∈ t.children i)
    (hc' : c' ∈ t.children i) (hj : c ∈ t.chain j) (hj' : c' ∈ t.chain j) : c = c' := by
  have hchain := (h.mem_children.mp hc).2
  have hchain' := (h.mem_children.mp hc').2
  -- both chains end that of `j`, and they have the same length
  have hlength : (t.chain c).length = (t.chain c').length := by
    rw [hchain, hchain', List.length_cons, List.length_cons]
  have hsuffix := List.suffix_of_suffix_length_le (h.chain_suffix hj) (h.chain_suffix hj')
    (Nat.le_of_eq hlength)
  have heq := hsuffix.eq_of_length hlength
  rw [hchain, hchain'] at heq
  exact (List.cons.inj heq).1

end Nested

/-! ### Walks -/

theorem subtree_unfold {t : Table} {i : ScopeId} (hi : i < t.scopes.length) :
    t.subtree i = i :: (t.children i).flatMap t.subtree := by
  obtain ⟨s, hs⟩ := exists_scope? hi
  rw [subtree, walk, hs]
  simp only [Option.any_some, if_true, List.flatMap_subtype, List.unattach_attach]
  rfl

namespace Nested

variable {t : Table} {i j : Nat}

/-- **A walk comes to what is inside a scope.** -/
theorem mem_subtree (h : t.Nested) (i : ScopeId) (hi : i < t.scopes.length) :
    j ∈ t.subtree i ↔ i ∈ t.chain j := by
  rw [subtree_unfold hi, h.mem_chain_iff hi, List.mem_cons, List.mem_flatMap]
  -- from the last scope backwards: children come later
  have ih : ∀ c ∈ t.children i, j ∈ t.subtree c ↔ c ∈ t.chain j := by
    intro c hc
    have hlt := lt_of_mem_children hc
    exact h.mem_subtree c hlt.2
  refine or_congr_right ⟨?_, ?_⟩
  · rintro ⟨c, hc, hj⟩
    exact ⟨c, hc, (ih c hc).mp hj⟩
  · rintro ⟨c, hc, hj⟩
    exact ⟨c, hc, (ih c hc).mpr hj⟩
termination_by t.scopes.length - i

/-- **A walk comes to no scope twice.** -/
theorem nodup_subtree (h : t.Nested) (i : ScopeId) (hi : i < t.scopes.length) :
    (t.subtree i).Nodup := by
  have hinside : ∀ c ∈ t.children i, ∀ j, j ∈ t.subtree c ↔ c ∈ t.chain j :=
    fun c hc j => h.mem_subtree c (lt_of_mem_children hc).2
  rw [subtree_unfold hi, List.nodup_cons, List.nodup_flatMap]
  refine ⟨fun hmem => ?_, fun c hc => ?_, ?_⟩
  · -- the scope itself comes before its children, so it is in none of their trees
    obtain ⟨c, hc, hj⟩ := List.mem_flatMap.mp hmem
    have hle := h.le_of_mem_chain ((hinside c hc i).mp hj)
    exact Nat.not_lt.mpr hle (lt_of_mem_children hc).1
  · have hlt := lt_of_mem_children hc
    exact h.nodup_subtree c hlt.2
  · -- a scope in the trees of two children would lie within both
    have hsorted : (t.children i).Pairwise (· < ·) := List.pairwise_lt_range.filter _
    refine hsorted.imp_of_mem fun {c c'} hc hc' hlt j hj hj' => ?_
    have heq := h.children_unique hc hc' ((hinside c hc j).mp hj) ((hinside c' hc' j).mp hj')
    exact Nat.ne_of_lt hlt heq
termination_by t.scopes.length - i

/-- Between a scope and one inside it there is the scope itself, and what is inside its child. -/
theorem forall_between (h : t.Nested) {c : ScopeId} (hc : c ∈ t.children i) (hcj : c ∈ t.chain j)
    (p : ScopeId → Prop) :
    (∀ o ∈ (t.chain j).tail, i ∈ t.chain o → p o) ↔
      p i ∧ ∀ o ∈ (t.chain j).tail, c ∈ t.chain o → p o := by
  obtain ⟨hi, hchain⟩ := h.mem_children.mp hc
  have hic : i ∈ t.chain c := hchain ▸ List.mem_cons_of_mem c hi
  constructor
  · intro hall
    refine ⟨hall i ?_ hi, fun o ho hco => hall o ho (h.mem_chain_trans hic hco)⟩
    -- the scope itself lies between, above its child
    have hlt := Nat.lt_of_lt_of_le (lt_of_mem_children hc).1 (h.le_of_mem_chain hcj)
    exact h.mem_tail_chain.mpr ⟨h.mem_chain_trans hic hcj, Nat.ne_of_lt hlt⟩
  · rintro ⟨hpi, hall⟩ o ho hio
    rcases (h.mem_chain_iff (lt_of_mem_chain hi)).mp hio with rfl | ⟨c', hc', hco⟩
    · exact hpi
    · -- that child has `j` inside it as well, so it is `c`
      have hc'j := h.mem_chain_trans hco (h.mem_tail_chain.mp ho).1
      obtain rfl := h.children_unique hc' hc hc'j hcj
      exact hall o ho hco

/-- **What a walk leaves out.** A walk that enters only some scopes comes to a scope if it enters all
scopes between the one that it starts with and that scope. -/
theorem walk_eq_filter (h : t.Nested) (enter : Scope → Bool) (i : ScopeId)
    (hi : i < t.scopes.length) :
    t.walk enter i = (t.subtree i).filter fun j =>
      ∀ o ∈ (t.chain j).tail, i ∈ t.chain o → (t.scope? o).any enter := by
  have hfirst : ∀ o ∈ (t.chain i).tail, i ∈ t.chain o → (t.scope? o).any enter := by
    intro o ho hio
    obtain ⟨ho, hne⟩ := h.mem_tail_chain.mp ho
    exact absurd (Nat.le_antisymm (h.le_of_mem_chain ho) (h.le_of_mem_chain hio)) hne
  have hinside : ∀ c ∈ t.children i, ∀ j ∈ t.subtree c, c ∈ t.chain j :=
    fun c hc j => (h.mem_subtree c (lt_of_mem_children hc).2).mp
  rw [subtree_unfold hi, List.filter_cons, if_pos (decide_eq_true hfirst), List.filter_flatMap, walk]
  split
  · next henter =>
    rw [List.flatMap_subtype (g := fun c => t.walk enter c) (fun _ _ => rfl), List.unattach_attach]
    refine congrArg _ (List.flatMap_congr fun c hc => ?_)
    have hlt := lt_of_mem_children hc
    rw [h.walk_eq_filter enter c hlt.2]
    refine List.filter_congr fun j hj => decide_eq_decide.mpr ?_
    rw [h.forall_between hc (hinside c hc j hj)]
    exact (and_iff_right henter).symm
  · next henter =>
    -- all that is inside `i` has it around, and it is not entered
    refine congrArg _ (Eq.symm (List.flatMap_eq_nil_iff.mpr fun c hc => ?_))
    refine List.filter_eq_nil_iff.mpr fun j hj hall => henter ?_
    exact ((h.forall_between hc (hinside c hc j hj) _).mp (of_decide_eq_true hall)).1
termination_by t.scopes.length - i

end Nested
end Slang.Table
