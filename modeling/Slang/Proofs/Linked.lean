import Slang.Scope.Linked
import Slang.Proofs.Forest

/-!
# Tables and linked scopes

A table computes from the list of its scopes what a linked scope keeps in fields of its own: the map
beside the order, the children, and the counter of the tree. This module runs the same calls on both
and shows that nothing tells them apart (`linked_of_calls`): they refuse the same calls, with the same
errors, and every question has the same answer afterwards.

* `Linked.Simulates` relates a store to a table. It is kept by each call (`Simulates.run`), and with it
  goes that both give the same answer;
* `Linked.Reads` lists the questions. A store that simulates a table answers them alike
  (`Simulates.reads`);
* `Linked.Store.run_refused`: a call that fails leaves every field of every scope as it was.
-/

namespace Slang

/-- A name that is bound newly is found, and the others are found as before. -/
theorem Scope.find?_concat {x : Scope} {y : Text} (hfree : x.find? y = none) (k : SymbolId)
    (z : Text) : Scope.find? { x with names := x.names ++ [(y, k)] } z =
      if y = z then some k else x.find? z := by
  rw [find?, List.find?_append, find?] at *
  by_cases hyz : y = z
  · subst hyz
    rw [Option.map_eq_none_iff.mp hfree]
    simp
  · simp [hyz]

namespace Table

variable {t : Table} {outer : Option ScopeId} {name : Text}

/-! ### What a new scope changes -/

/-- A new root has number 0 and nothing around it. -/
theorem scope?_addScope_none (t : Table) (name : Text) :
    (t.addScope none name).1.scope? t.scopes.length = some ⟨0, name, [], []⟩ :=
  List.getElem?_concat_length

/-- A new scope becomes the last child of the one around it. -/
theorem children_addScope (houter : ∀ o, outer = some o → o < t.scopes.length) (i : ScopeId) :
    (t.addScope outer name).1.children i =
      t.children i ++ if outer = some i then [t.scopes.length] else [] := by
  rw [children, length_addScope, List.range_succ, List.filter_append]
  congr 1
  · refine List.filter_congr fun j hj => ?_
    rw [scope?_addScope_of_lt _ _ (List.mem_range.mp hj)]
  · rw [List.filter_singleton]
    -- the new scope is a child of the scope it was made in, and of no other
    cases outer with
    | none => simp [scope?_addScope_none]
    | some o =>
      have ho := houter o rfl
      obtain ⟨so, hso⟩ := exists_scope? ho
      obtain ⟨n, hnew⟩ := scope?_addScope_self t o name
      rw [hnew, chain_of_scope? hso]
      by_cases hoi : o = i
      · subst hoi
        simp [ho]
      · simp [hoi, beq_false_of_ne hoi]

/-- A new scope counts in its own tree. -/
theorem treeSize_addScope (r : ScopeId) : (t.addScope outer name).1.treeSize r =
    t.treeSize r + if (t.addScope outer name).1.root t.scopes.length = r then 1 else 0 := by
  -- the scopes from before have the roots they had
  have hold : (List.range t.scopes.length).filter
      (fun i => (t.addScope outer name).1.root i == r) =
        (List.range t.scopes.length).filter fun i => t.root i == r := by
    refine List.filter_congr fun j hj => ?_
    rw [root_addScope_of_lt _ _ (List.mem_range.mp hj)]
  rw [treeSize, treeSize, length_addScope, List.range_succ, List.filter_append, List.length_append,
    hold, List.filter_singleton]
  by_cases hr : (t.addScope outer name).1.root t.scopes.length = r
  · simp [hr]
  · rw [if_neg hr, beq_false_of_ne hr]
    rfl

/-- A new root is its own root. -/
theorem root_addScope_none (t : Table) (name : Text) :
    (t.addScope none name).1.root t.scopes.length = t.scopes.length :=
  root_of_singleton (chain_of_scope? (scope?_addScope_none t name))

/-- A new inner scope has the root of the scope it is made in. -/
theorem root_addScope_some {o : ScopeId} (ho : o < t.scopes.length) (name : Text) :
    (t.addScope (some o) name).1.root t.scopes.length = t.root o :=
  root_of_cons (mem_chain_self ho) (chain_addScope_self t o name)

/-- A scope that is not there has no children. -/
theorem children_eq_nil {i : ScopeId} (hi : t.scopes.length ≤ i) : t.children i = [] := by
  refine List.eq_nil_iff_forall_not_mem.mpr fun c hc => ?_
  have hlt := lt_of_mem_children hc
  exact Nat.not_lt.mpr hi (Nat.lt_trans hlt.1 hlt.2)

/-- A tree whose root is not there is empty. -/
theorem Nested.treeSize_eq_zero (h : t.Nested) {r : ScopeId} (hr : t.scopes.length ≤ r) :
    t.treeSize r = 0 := by
  rw [treeSize, List.length_eq_zero_iff, List.filter_eq_nil_iff]
  intro i hi heq
  have hlt := Nat.lt_of_le_of_lt (h.root_le i) (List.mem_range.mp hi)
  exact Nat.not_lt.mpr hr (eq_of_beq heq ▸ hlt)

/-! ### What a new name leaves -/

theorem length_bound (t : Table) (sc : ScopeId) (b : Text × SymbolId) :
    (t.bound sc b).scopes.length = t.scopes.length :=
  List.length_modify _ _ _

theorem root_bound (t : Table) (sc : ScopeId) (b : Text × SymbolId) (i : ScopeId) :
    (t.bound sc b).root i = t.root i := by
  rw [root, root, chain_bound]

theorem treeSize_bound (t : Table) (sc : ScopeId) (b : Text × SymbolId) (r : ScopeId) :
    (t.bound sc b).treeSize r = t.treeSize r := by
  simp only [treeSize, length_bound, root_bound]

theorem children_bound (t : Table) (sc : ScopeId) (b : Text × SymbolId) (i : ScopeId) :
    (t.bound sc b).children i = t.children i := by
  rw [children, children, length_bound]
  refine List.filter_congr fun j hj => ?_
  rw [scope?_bound]
  split
  · cases t.scope? j <;> rfl
  · rfl

/-! ### What calls refuse -/

/-- The error that a call answers with, if it is refused. -/
def Call.refusal (t : Table) (c : Call) : Option SymbolError :=
  match c.answer t with
  | .ok _ => none
  | .error e => some e

/-- What each of some calls answers. -/
def refusals (t : Table) : List Call → List (Option SymbolError)
  | [] => []
  | c :: calls => c.refusal t :: refusals (c.run t) calls

end Table

namespace Linked

open Table

/-! ### Maps -/

namespace NameMap

/-- A name that is put into a map is found there, and the others are found as before. -/
theorem get?_put (m : NameMap) (x : Text) (k : SymbolId) (y : Text) :
    (m.put x k).get? y = if x = y then some k else m.get? y := by
  unfold get? put
  rw [List.lookup_cons]
  by_cases hxy : x = y
  · simp [hxy]
  · have hyx : (y == x) = false := beq_eq_false_iff_ne.mpr (Ne.symm hxy)
    rw [hyx, if_neg hxy]
    -- what is taken out has another name
    induction m with
    | nil => rfl
    | cons e m ih =>
      obtain ⟨z, l⟩ := e
      by_cases hzx : z = x
      · subst hzx
        simp [List.lookup_cons, hyx, ih]
      · simp [List.lookup_cons, hzx, ih]

end NameMap

/-! ### Making records -/

/-- A list with one more entry has the old entries and that one. -/
theorem getElem?_concat_cases {α : Type} {l : List α} {a b : α} {i : Nat}
    (h : (l ++ [a])[i]? = some b) : i < l.length ∧ l[i]? = some b ∨ i = l.length ∧ b = a := by
  by_cases hi : i < l.length
  · rw [List.getElem?_append_left hi] at h
    exact .inl ⟨hi, h⟩
  · have hlt := (List.getElem?_eq_some_iff.mp h).1
    rw [List.length_append, List.length_singleton] at hlt
    obtain rfl : i = l.length := Nat.le_antisymm (Nat.le_of_lt_succ hlt) (Nat.not_lt.mp hi)
    rw [List.getElem?_concat_length] at h
    exact .inr ⟨rfl, (Option.some.inj h).symm⟩

namespace Store

variable {s : Store} {o : ScopeId} {p : Node} {v : Nat}

/-- **What an inner scope adds to a store**: a node, an entry in the children of the scope around, and
one more number. -/
theorem addInner_eq (hp : s.node? o = some p) (hv : s.counters[p.counter]? = some v) (name : Text) :
    s.addInner o name =
      { s with
        nodes := (s.nodes ++ [(⟨some o, name, v + 1, [], [], [], p.counter⟩ : Node)]).modify o
          fun p => { p with children := p.children ++ [s.nodes.length] }
        counters := s.counters.set p.counter (v + 1) } := by
  rw [addInner, hp]
  simp only [hv, Option.getD_some]

/-- A record at most gets the new scope as a child. -/
theorem node?_addInner (hp : s.node? o = some p) (hv : s.counters[p.counter]? = some v) {name : Text}
    {i : ScopeId} {n : Node} (hn : (s.addInner o name).node? i = some n) :
    (∃ n₀, i < s.nodes.length ∧ s.node? i = some n₀ ∧
      n = { n₀ with children := n₀.children ++ if some o = some i then [s.nodes.length] else [] }) ∨
    i = s.nodes.length ∧ n = ⟨some o, name, v + 1, [], [], [], p.counter⟩ := by
  rw [addInner_eq hp hv, node?, List.getElem?_modify] at hn
  obtain ⟨n₀, hn₀, rfl⟩ := Option.map_eq_some_iff.mp hn
  rcases getElem?_concat_cases hn₀ with ⟨hi, hn₀⟩ | ⟨rfl, rfl⟩
  · refine .inl ⟨n₀, hi, hn₀, ?_⟩
    by_cases hoi : o = i
    · simp [hoi]
    · simp [hoi]
  · refine .inr ⟨rfl, ?_⟩
    rw [if_neg (Nat.ne_of_lt (List.getElem?_eq_some_iff.mp hp).1)]

end Store

/-! ### Calls on a store -/

namespace Store

/-- What a call answers, and the store after it. -/
def run (s : Store) : Call → Option SymbolError × Store
  | .make sym => (none, s.addSymbol sym)
  | .enter outer name => (none, s.addScope outer name)
  | .define sc k => s.define sc k
  | .reference sc k => s.bind sc k

/-- What calls answer, and the store after them. -/
def runAll (s : Store) : List Call → List (Option SymbolError) × Store
  | [] => ([], s)
  | c :: calls =>
    let rest := (s.run c).2.runAll calls
    ((s.run c).1 :: rest.1, rest.2)

/-- A name that is refused leaves the store as it is. -/
theorem bind_refused {s : Store} {id : ScopeId} {k : SymbolId} {e : SymbolError}
    (h : (s.bind id k).1 = some e) : (s.bind id k).2 = s := by
  unfold bind at h ⊢
  split at h
  · rfl
  · split at h
    · rfl
    · cases h

/-- **A call that fails leaves everything as it was**, in any store. -/
theorem run_refused {s : Store} {c : Call} {e : SymbolError} (h : (s.run c).1 = some e) :
    (s.run c).2 = s := by
  cases c with
  | make => cases h
  | enter => cases h
  | reference sc k => exact bind_refused h
  | define sc k =>
    rw [run, define] at h ⊢
    split at h
    · cases h
    · exact bind_refused h

end Store

/-! ### The simulation -/

/-- **A record is that of a scope** of a table. -/
structure Mirrors (t : Table) (i : ScopeId) (n : Node) (x : Scope) : Prop where
  outer : n.outer = x.outer.head?
  name : n.name = x.name
  number : n.number = x.number
  /-- The map finds under a name what the scope lists under it. -/
  symbols : ∀ y, n.symbols.get? y = x.find? y
  order : n.order = x.names.map Prod.fst
  children : n.children = t.children i

/-- **A store simulates a table**: same symbols, scope by scope a record of it, and for every tree a
counter of its own that stands at the number of its last scope. -/
structure Simulates (s : Store) (t : Table) : Prop where
  symbols : s.symbols = t.symbols
  length : s.nodes.length = t.scopes.length
  node : ∀ i n x, s.node? i = some n → t.scope? i = some x → Mirrors t i n x
  counter : ∀ i n, s.node? i = some n →
    ∃ v, s.counters[n.counter]? = some v ∧ v + 1 = t.treeSize (t.root i)
  /-- Scopes have their counter in common exactly with those of their tree. -/
  shared : ∀ i j n m, s.node? i = some n → s.node? j = some m →
    (n.counter = m.counter ↔ t.root i = t.root j)

namespace Mirrors

variable {t : Table} {i : ScopeId} {n : Node} {x : Scope}

/-- Both layers agree on which scopes are roots. -/
theorem isGlobal (h : Mirrors t i n x) : n.isGlobal = x.isRoot := by
  rw [Node.isGlobal, Scope.isRoot, h.outer]
  cases x.outer <;> rfl

/-- Both layers make the same augmented names. -/
theorem augment (h : Mirrors t i n x) (name : Text) : n.augment name = x.augment name := by
  rw [Node.augment, Scope.augment, h.isGlobal, h.number]

/-- The record of a scope that gets no children. -/
theorem of_children (h : Mirrors t i n x) {t' : Table} (hc : t'.children i = t.children i) :
    Mirrors t' i n x :=
  { h with children := h.children.trans hc.symm }

end Mirrors

/-- Nothing simulates nothing. -/
theorem simulates_empty : Simulates .empty .empty where
  symbols := rfl
  length := rfl
  node := fun _ _ _ hn => nomatch hn
  counter := fun _ _ hn => nomatch hn
  shared := fun _ _ _ _ hn => nomatch hn

namespace Simulates

variable {s : Store} {t : Table} {log : List Binding}

theorem symbol? (h : Simulates s t) (k : SymbolId) : s.symbol? k = t.symbol? k := by
  rw [Store.symbol?, h.symbols]
  rfl

theorem exists_node? (h : Simulates s t) {i : ScopeId} {x : Scope} (hx : t.scope? i = some x) :
    ∃ n, s.node? i = some n ∧ Mirrors t i n x := by
  have hi : i < s.nodes.length := h.length ▸ scope?_lt hx
  have hn : s.node? i = some s.nodes[i] := List.getElem?_eq_getElem hi
  exact ⟨_, hn, h.node i _ x hn hx⟩

theorem exists_scope? (h : Simulates s t) {i : ScopeId} {n : Node} (hn : s.node? i = some n) :
    ∃ x, t.scope? i = some x ∧ Mirrors t i n x := by
  have hi : i < t.scopes.length := h.length ▸ (List.getElem?_eq_some_iff.mp hn).1
  obtain ⟨x, hx⟩ := Table.exists_scope? hi
  exact ⟨x, hx, h.node i n x hn hx⟩

theorem node?_eq_none (h : Simulates s t) {i : ScopeId} (hx : t.scope? i = none) :
    s.node? i = none := by
  rw [Table.scope?, List.getElem?_eq_none_iff] at hx
  exact List.getElem?_eq_none (h.length ▸ hx)

theorem lookupHere (h : Simulates s t) (i : ScopeId) (y : Text) :
    s.lookupHere i y = t.findIn? i y := by
  unfold Store.lookupHere Table.findIn?
  cases hx : t.scope? i with
  | none => rw [h.node?_eq_none hx]; rfl
  | some x =>
    obtain ⟨n, hn, hm⟩ := h.exists_node? hx
    rw [hn, Option.bind_some, Option.bind_some, hm.symbols]

/-! ### Each call keeps the simulation -/

/-- A symbol is added in both layers. -/
theorem addSymbol (h : Simulates s t) (sym : Symbol) :
    Simulates (s.addSymbol sym) (t.addSymbol sym).1 where
  symbols := congrArg (· ++ [sym]) h.symbols
  length := h.length
  node := fun i n x hn hx => (h.node i n x hn hx).of_children rfl
  counter := h.counter
  shared := h.shared

/-- A root begins a tree of its own, with a new counter. -/
theorem addRoot (h : Simulates s t) (hforest : Forest t log) (name : Text) :
    Simulates (s.addRoot name) (t.addScope none name).1 := by
  have hroot := root_addScope_none t name
  -- old scopes keep their roots and counters, and both are older than the new ones
  have hold : ∀ i n, s.node? i = some n → n.counter < s.counters.length ∧
      (t.addScope none name).1.root i = t.root i ∧ t.root i < t.scopes.length := by
    intro i n hn
    obtain ⟨v, hv, -⟩ := h.counter i n hn
    have hi : i < t.scopes.length := h.length ▸ (List.getElem?_eq_some_iff.mp hn).1
    exact ⟨(List.getElem?_eq_some_iff.mp hv).1, root_addScope_of_lt none name hi,
      Nat.lt_of_le_of_lt (hforest.nested.root_le i) hi⟩
  have hchildren : ∀ i, (t.addScope none name).1.children i = t.children i := by
    intro i
    rw [children_addScope (by simp)]
    simp
  refine ⟨h.symbols, ?_, fun i n x hn hx => ?_, fun i n hn => ?_, fun i j n m hn hm => ?_⟩
  · simp [Store.addRoot, length_addScope, h.length]
  · rcases getElem?_concat_cases hn with ⟨hi, hn⟩ | ⟨rfl, rfl⟩
    · rw [scope?_addScope_of_lt _ _ (h.length ▸ hi)] at hx
      exact (h.node i n x hn hx).of_children (hchildren i)
    · rw [h.length, scope?_addScope_none] at hx
      obtain rfl := Option.some.inj hx
      have hnil : t.children s.nodes.length = [] := children_eq_nil (Nat.le_of_eq h.length.symm)
      exact ⟨rfl, rfl, rfl, fun _ => rfl, rfl, by rw [hchildren, hnil]⟩
  · rcases getElem?_concat_cases hn with ⟨-, hn⟩ | ⟨rfl, rfl⟩
    · obtain ⟨v, hv, hsize⟩ := h.counter i n hn
      obtain ⟨hlt, hsame, hrlt⟩ := hold i n hn
      refine ⟨v, (List.getElem?_append_left hlt).trans hv, ?_⟩
      rw [hsame, treeSize_addScope, hroot, if_neg (Nat.ne_of_gt hrlt), hsize, Nat.add_zero]
    · refine ⟨0, List.getElem?_concat_length, ?_⟩
      rw [h.length, hroot, treeSize_addScope, hroot, if_pos rfl,
        hforest.nested.treeSize_eq_zero (Nat.le_refl _)]
  · rcases getElem?_concat_cases hn with ⟨-, hn⟩ | ⟨rfl, rfl⟩ <;>
      rcases getElem?_concat_cases hm with ⟨-, hm⟩ | ⟨rfl, rfl⟩
    · rw [(hold i n hn).2.1, (hold j m hm).2.1]
      exact h.shared i j n m hn hm
    · obtain ⟨hlt, hsame, hrlt⟩ := hold i n hn
      rw [h.length, hroot, hsame]
      exact iff_of_false (Nat.ne_of_lt hlt) (Nat.ne_of_lt hrlt)
    · obtain ⟨hlt, hsame, hrlt⟩ := hold j m hm
      rw [h.length, hroot, hsame]
      exact iff_of_false (Nat.ne_of_gt hlt) (Nat.ne_of_gt hrlt)
    · exact iff_of_true rfl rfl

/-- A scope inside another one takes the next number of the tree, counts on the counter that it has in
common with it, and becomes its last child. -/
theorem addInner (h : Simulates s t) {o : ScopeId} (ho : o < t.scopes.length) (name : Text) :
    Simulates (s.addInner o name) (t.addScope (some o) name).1 := by
  obtain ⟨xo, hxo⟩ := Table.exists_scope? ho
  obtain ⟨p, hp, -⟩ := h.exists_node? hxo
  obtain ⟨v, hv, hsize⟩ := h.counter o p hp
  have hroot := root_addScope_some ho name
  have hchildren : ∀ i, (t.addScope (some o) name).1.children i =
      t.children i ++ if some o = some i then [t.scopes.length] else [] :=
    children_addScope fun _ hsome => Option.some.inj hsome ▸ ho
  -- counters and roots of all records are those of old ones
  have hold : ∀ i n, (s.addInner o name).node? i = some n → ∃ i₀ n₀, s.node? i₀ = some n₀ ∧
      n.counter = n₀.counter ∧ (t.addScope (some o) name).1.root i = t.root i₀ := by
    intro i n hn
    rcases Store.node?_addInner hp hv hn with ⟨n₀, hi, hn₀, rfl⟩ | ⟨rfl, rfl⟩
    · exact ⟨i, n₀, hn₀, rfl, root_addScope_of_lt (some o) name (h.length ▸ hi)⟩
    · exact ⟨o, p, hp, rfl, h.length ▸ hroot⟩
  refine ⟨?_, ?_, fun i n x hn hx => ?_, fun i n hn => ?_, fun i j n m hn hm => ?_⟩
  · rw [Store.addInner_eq hp hv]
    exact h.symbols
  · rw [Store.addInner_eq hp hv]
    simp [length_addScope, h.length]
  · rcases Store.node?_addInner hp hv hn with ⟨n₀, hi, hn₀, rfl⟩ | ⟨rfl, rfl⟩
    · rw [scope?_addScope_of_lt _ _ (h.length ▸ hi)] at hx
      have hm := h.node i n₀ x hn₀ hx
      exact { hm with children := by rw [hchildren, hm.children, h.length] }
    · have hnew : (t.addScope (some o) name).1.scope? t.scopes.length =
          some ⟨t.treeSize (t.root o), name, t.chain o, []⟩ := List.getElem?_concat_length
      rw [h.length] at hx ⊢
      obtain rfl := Option.some.inj (hnew.symm.trans hx)
      refine ⟨?_, rfl, hsize, fun _ => rfl, rfl, ?_⟩
      · rw [chain_of_scope? hxo]
        rfl
      · rw [hchildren, children_eq_nil (Nat.le_refl _),
          if_neg fun hsome => Nat.ne_of_lt ho (Option.some.inj hsome)]
        rfl
  · obtain ⟨i₀, n₀, hn₀, hcounter, hi₀⟩ := hold i n hn
    obtain ⟨w, hw, hsize₀⟩ := h.counter i₀ n₀ hn₀
    rw [hcounter, hi₀, treeSize_addScope, hroot, Store.addInner_eq hp hv, ← hsize₀]
    by_cases hsame : p.counter = n₀.counter
    · -- in the tree of the new scope both go one on
      have hvw : v = w := Option.some.inj (hv.symm.trans (hsame ▸ hw))
      refine ⟨v + 1, ?_, ?_⟩
      · rw [hsame]
        exact List.getElem?_set_self (List.getElem?_eq_some_iff.mp hw).1
      · rw [if_pos ((h.shared o i₀ p n₀ hp hn₀).mp hsame), hvw]
    · refine ⟨w, (List.getElem?_set_ne hsame).trans hw, ?_⟩
      rw [if_neg fun heq => hsame ((h.shared o i₀ p n₀ hp hn₀).mpr heq), Nat.add_zero]
  · obtain ⟨i₀, n₀, hn₀, hni, hi₀⟩ := hold i n hn
    obtain ⟨j₀, m₀, hm₀, hmj, hj₀⟩ := hold j m hm
    rw [hni, hmj, hi₀, hj₀]
    exact h.shared i₀ j₀ n₀ m₀ hn₀ hm₀

/-- **A scope is added in both layers**, a root or an inner one. -/
theorem addScope (h : Simulates s t) (hforest : Forest t log) {outer : Option ScopeId}
    (houter : ∀ o, outer = some o → o < t.scopes.length) (name : Text) :
    Simulates (s.addScope outer name) (t.addScope outer name).1 := by
  cases outer with
  | none => exact h.addRoot hforest name
  | some o => exact h.addInner (houter o rfl) name

/-- A name is bound that the scope does not have: it goes into the map and to the end of the order. -/
theorem bound (h : Simulates s t) {sc : ScopeId} {y : Text} (hfree : t.findIn? sc y = none)
    (k : SymbolId) : Simulates (s.bound sc y k) (t.bound sc (y, k)) := by
  -- a record keeps its counter
  have hnode : ∀ i n, (s.bound sc y k).node? i = some n → ∃ n₀, s.node? i = some n₀ ∧
      n.counter = n₀.counter ∧
      n = if sc = i then { n₀ with symbols := n₀.symbols.put y k, order := n₀.order ++ [y] }
        else n₀ := by
    intro i n hn
    rw [Store.bound, Store.node?, List.getElem?_modify] at hn
    obtain ⟨n₀, hn₀, rfl⟩ := Option.map_eq_some_iff.mp hn
    refine ⟨n₀, hn₀, ?_, ?_⟩ <;> split <;> rfl
  refine ⟨h.symbols, ?_, fun i n x hn hx => ?_, fun i n hn => ?_, fun i j n m hn hm => ?_⟩
  · rw [length_bound, ← h.length]
    exact List.length_modify _ _ _
  · obtain ⟨n₀, hn₀, -, rfl⟩ := hnode i n hn
    rw [scope?_bound] at hx
    split
    · next hi =>
      subst hi
      rw [if_pos rfl] at hx
      obtain ⟨x₀, hx₀, rfl⟩ := Option.map_eq_some_iff.mp hx
      have hm := h.node sc n₀ x₀ hn₀ hx₀
      rw [findIn?, hx₀, Option.bind_some] at hfree
      refine { hm with symbols := fun z => ?_, order := ?_, children := ?_ }
      · rw [NameMap.get?_put, hm.symbols, Scope.find?_concat hfree]
      · simp [hm.order]
      · rw [children_bound, hm.children]
    · next hi =>
      rw [if_neg hi] at hx
      exact (h.node i n₀ x hn₀ hx).of_children (children_bound t sc (y, k) i)
  · obtain ⟨n₀, hn₀, hcounter, -⟩ := hnode i n hn
    rw [hcounter, treeSize_bound, root_bound]
    exact h.counter i n₀ hn₀
  · obtain ⟨n₀, hn₀, hni, -⟩ := hnode i n hn
    obtain ⟨m₀, hm₀, hmj, -⟩ := hnode j m hm
    rw [hni, hmj, root_bound, root_bound]
    exact h.shared i j n₀ m₀ hn₀ hm₀

/-- Symbols change in both alike. -/
theorem modify (h : Simulates s t) (k : SymbolId) (f : Symbol → Symbol) :
    Simulates { s with symbols := s.symbols.modify k f } (t.modify k f) where
  symbols := congrArg (fun symbols => symbols.modify k f) h.symbols
  length := h.length
  node := fun i n x hn hx => (h.node i n x hn hx).of_children rfl
  counter := h.counter
  shared := h.shared

/-- Both refuse a name that the scope has. -/
theorem bind_taken (h : Simulates s t) {sc : ScopeId} {k prev : SymbolId} {x p : Symbol}
    (hx : t.symbol? k = some x) (hprev : t.findIn? sc x.name = some prev)
    (hp : t.symbol? prev = some p) :
    s.bind sc k = (some (.alreadyDeclared x.name p.line), s) := by
  simp only [Store.bind, h.symbol?, hx, h.lookupHere, hprev, Option.bind_some, hp]

/-- Both bind any other name. -/
theorem bind_free (h : Simulates s t) {sc : ScopeId} {k : SymbolId} {x : Symbol}
    (hx : t.symbol? k = some x) (hfree : t.findIn? sc x.name = none) :
    s.bind sc k = (none, s.bound sc x.name k) := by
  simp only [Store.bind, h.symbol?, hx, h.lookupHere, hfree, Option.bind_none]

/-- **Each call has the same answer in both, and keeps the simulation.** -/
theorem run (h : Simulates s t) (hforest : Forest t log) {c : Call} (hfits : c.Fits t) :
    (s.run c).1 = c.refusal t ∧ Simulates (s.run c).2 (c.run t) := by
  -- the calls that bind go the same way
  have hbinds : ∀ sc k, c ∈ [Call.define sc k, .reference sc k] →
      sc < t.scopes.length ∧ k < t.symbols.length →
      (s.run c).1 = c.refusal t ∧ Simulates (s.run c).2 (c.run t) := by
    rintro sc k hc ⟨hsc, hk⟩
    obtain ⟨xs, hxs⟩ := Table.exists_scope? hsc
    obtain ⟨n, hn, hm⟩ := h.exists_node? hxs
    have hx : t.symbol? k = some t.symbols[k] := List.getElem?_eq_getElem hk
    cases hfind : t.findIn? sc t.symbols[k].name with
    | some prev =>
      obtain ⟨p, hp, hall⟩ := hforest.answers.taken sc k _ prev hx hfind
      obtain ⟨hanswer, hrun⟩ := hall c hc
      have hstore : s.run c = (some (.alreadyDeclared t.symbols[k].name p.line), s) := by
        rcases List.mem_pair.mp hc with rfl | rfl
        · simp only [Store.run, Store.define, h.bind_taken hx hfind hp]
        · exact h.bind_taken hx hfind hp
      rw [hstore, hrun, Call.refusal, hanswer]
      exact ⟨rfl, h⟩
    | none =>
      obtain ⟨href, hdef⟩ := hforest.answers.free sc xs k _ hxs hx hfind
      rcases List.mem_pair.mp hc with rfl | rfl
      · have hstore : s.run (.define sc k) = (none, { s.bound sc t.symbols[k].name k with
            symbols := (s.bound sc t.symbols[k].name k).symbols.modify k fun sym =>
              { sym with augmented := xs.augment sym.name } }) := by
          simp only [Store.run, Store.define, h.bind_free hx hfind, hn, hm.augment]
        rw [hstore, Call.refusal, Call.run, hdef]
        exact ⟨rfl, (h.bound hfind k).modify k _⟩
      · rw [Store.run, h.bind_free hx hfind, Call.refusal, Call.run, href]
        exact ⟨rfl, h.bound hfind k⟩
  cases c with
  | make sym => exact ⟨rfl, h.addSymbol sym⟩
  | enter outer name =>
    refine ⟨rfl, h.addScope hforest ?_ name⟩
    rintro o rfl
    exact hfits
  | define sc k => exact hbinds sc k List.mem_cons_self hfits
  | reference sc k => exact hbinds sc k (List.mem_cons_of_mem _ List.mem_cons_self) hfits

/-- **Calls have the same answers in both, and keep the simulation.** -/
theorem runAll {calls : List Call} (h : Simulates s t) (hforest : Forest t log)
    (hfit : FitAll t calls) :
    (s.runAll calls).1 = refusals t calls ∧ Simulates (s.runAll calls).2 (t.runAll calls) := by
  induction calls generalizing s t log with
  | nil => exact ⟨rfl, h⟩
  | cons c calls ih =>
    obtain ⟨hanswer, hnext⟩ := h.run hforest hfit.1
    obtain ⟨hanswers, hlast⟩ := ih hnext (hforest.run hfit.1) hfit.2
    exact ⟨congrArg₂ List.cons hanswer hanswers, hlast⟩

end Simulates

/-! ### Questions -/

/-- **A store and a table answer every question alike.** -/
structure Reads (s : Store) (t : Table) : Prop where
  symbol : ∀ k, s.symbol? k = t.symbol? k
  label : ∀ i, (s.node? i).map (fun n => (n.name, n.number)) =
    (t.scope? i).map fun x => (x.name, x.number)
  isGlobal : ∀ i, (s.node? i).map Node.isGlobal = (t.scope? i).map Scope.isRoot
  depth : ∀ i, s.depth i = ((t.scope? i).map Scope.depth).getD 0
  lookupHere : ∀ i y, s.lookupHere i y = t.findIn? i y
  lookup : ∀ i y, s.lookup i y = t.find? i y
  symbolsOf : ∀ i, s.symbolsOf i = t.symbolsOf i
  children : ∀ i, s.children i = t.children i
  /-- Two walks that enter the same scopes come to the same scopes in the same order. -/
  walk : ∀ (enter : Node → Bool) (enter' : Scope → Bool),
    (∀ i n x, s.node? i = some n → t.scope? i = some x → enter n = enter' x) →
    ∀ i, s.walk enter i = t.walk enter' i

namespace Simulates

variable {s : Store} {t : Table} {log : List Binding}

/-- What records and scopes have in common can be read off both. -/
theorem map_node? {α : Type} (h : Simulates s t) {f : Node → α} {g : Scope → α}
    (hfg : ∀ i n x, Mirrors t i n x → f n = g x) (i : ScopeId) :
    (s.node? i).map f = (t.scope? i).map g := by
  cases hx : t.scope? i with
  | none => rw [h.node?_eq_none hx]; rfl
  | some x =>
    obtain ⟨n, hn, hm⟩ := h.exists_node? hx
    rw [hn]
    exact congrArg some (hfg i n x hm)

/-- The children that a node keeps are those that the table computes. -/
theorem children (h : Simulates s t) (i : ScopeId) : s.children i = t.children i := by
  unfold Store.children
  cases hx : t.scope? i with
  | none =>
    rw [h.node?_eq_none hx, children_eq_nil (List.getElem?_eq_none_iff.mp hx)]
    rfl
  | some x =>
    obtain ⟨n, hn, hm⟩ := h.exists_node? hx
    rw [hn]
    exact hm.children

/-- The scope around a scope is the next one in its chain. -/
theorem outer (h : Simulates s t) (i : ScopeId) :
    (s.node? i).bind (·.outer) = (t.chain i).tail.head? := by
  unfold chain
  cases hx : t.scope? i with
  | none => rw [h.node?_eq_none hx]; rfl
  | some x =>
    obtain ⟨n, hn, hm⟩ := h.exists_node? hx
    rw [hn]
    exact hm.outer

/-- Going outwards from scope to scope follows the chain. -/
theorem lookup (h : Simulates s t) (hforest : Forest t log) (i : ScopeId) (y : Text) :
    s.lookup i y = t.find? i y := by
  unfold find?
  -- on the way outwards: a node refers to the next one, and the table has the whole chain
  induction i using hforest.nested.chain_induction with
  | nothing i hchain =>
    have hx : t.scope? i = none := by
      cases hx : t.scope? i with
      | none => rfl
      | some x => cases (chain_of_scope? hx).symm.trans hchain
    rw [Store.lookup, h.outer, h.lookupHere, hchain, findIn?, hx]
    rfl
  | root i hchain =>
    rw [Store.lookup, h.outer, h.lookupHere, hchain]
    cases hy : t.findIn? i y <;> simp [hy]
  | inner i p hp hchain hself ih =>
    obtain ⟨xp, hxp⟩ := Table.exists_scope? (lt_of_mem_chain hself)
    have hhead : (t.chain p).head? = some p := by rw [chain_of_scope? hxp]; rfl
    rw [Store.lookup, h.outer, h.lookupHere, hchain, List.tail_cons, hhead, List.findSome?_cons]
    cases hy : t.findIn? i y with
    | some k => rfl
    | none => exact (if_pos hp).trans ih

/-- The depth that is counted along the nodes is the length of the chain. -/
theorem depth (h : Simulates s t) (hforest : Forest t log) (i : ScopeId) :
    s.depth i = (t.chain i).tail.length := by
  induction i using hforest.nested.chain_induction with
  | nothing i hchain => rw [Store.depth, h.outer, hchain]; rfl
  | root i hchain => rw [Store.depth, h.outer, hchain]; rfl
  | inner i p hp hchain hself ih =>
    obtain ⟨xp, hxp⟩ := Table.exists_scope? (lt_of_mem_chain hself)
    rw [Store.depth, h.outer, hchain, List.tail_cons]
    rw [chain_of_scope? hxp] at ih ⊢
    exact (if_pos hp).trans (congrArg (· + 1) ih)

/-- Going through the order and asking the map lists what the scope lists. -/
theorem symbolsOf (h : Simulates s t) (hforest : Forest t log) (i : ScopeId) :
    s.symbolsOf i = t.symbolsOf i := by
  unfold Store.symbolsOf Table.symbolsOf
  cases hx : t.scope? i with
  | none => rw [h.node?_eq_none hx]
  | some x =>
    obtain ⟨n, hn, hm⟩ := h.exists_node? hx
    rw [hn]
    dsimp only
    rw [hm.order, List.filterMap_map]
    refine List.filterMap_congr fun b hb => ?_
    have hb' : (b.1, b.2) ∈ t.namesOf i := by
      rw [namesOf, hx]
      exact hb
    -- a name is in the map because it is the name of a binding, which no other one repeats
    have hfound : x.find? b.1 = some b.2 := by
      have hin := (hforest.records.found i b.1 b.2).mpr hb'
      rwa [findIn?, hx] at hin
    rw [Function.comp_apply, hm.symbols, hfound]
    exact h.symbol? b.2

/-- Both layers walk alike, where they agree on which scopes to enter. -/
theorem walk (h : Simulates s t) {enter : Node → Bool} {enter' : Scope → Bool}
    (henter : ∀ i n x, s.node? i = some n → t.scope? i = some x → enter n = enter' x)
    (i : ScopeId) : s.walk enter i = t.walk enter' i := by
  have hany : (s.node? i).any enter = (t.scope? i).any enter' := by
    cases hx : t.scope? i with
    | none => rw [h.node?_eq_none hx]; rfl
    | some x =>
      obtain ⟨n, hn, -⟩ := h.exists_node? hx
      rw [hn]
      exact henter i n x hn hx
  rw [Store.walk, Table.walk, hany, h.children]
  split
  · rw [List.flatMap_subtype (g := fun c => t.walk enter' c) (fun _ _ => rfl), List.unattach_attach]
    refine congrArg _ (List.flatMap_congr fun c hc => ?_)
    -- from the last scope backwards: children come later
    have hlt := lt_of_mem_children hc
    rw [if_pos ⟨hlt.1, h.length ▸ hlt.2⟩, h.walk henter c]
  · rfl
termination_by t.scopes.length - i

/-- **Everything that is read from the two layers is the same.** -/
theorem reads (h : Simulates s t) (hforest : Forest t log) : Reads s t where
  symbol := h.symbol?
  label := h.map_node? fun _ n x hm => by rw [hm.name, hm.number]
  isGlobal := h.map_node? fun _ n x hm => hm.isGlobal
  depth := by
    intro i
    rw [h.depth hforest, chain]
    cases t.scope? i <;> rfl
  lookupHere := h.lookupHere
  lookup := h.lookup hforest
  symbolsOf := h.symbolsOf hforest
  children := h.children
  walk := fun _ _ henter => h.walk henter

end Simulates

/-- **Nothing tells linked scopes from a table.** After any calls, each of which speaks of scopes and
symbols that are there: both refused the same of these calls, with the same errors, and both answer
every question alike. -/
theorem linked_of_calls (calls : List Call) (hfit : FitAll .empty calls) :
    (Store.empty.runAll calls).1 = refusals .empty calls ∧
      Simulates (Store.empty.runAll calls).2 (Table.runAll .empty calls) ∧
      Reads (Store.empty.runAll calls).2 (Table.runAll .empty calls) := by
  obtain ⟨hanswers, hsim⟩ := simulates_empty.runAll forest_empty hfit
  exact ⟨hanswers, hsim, hsim.reads (forest_empty.runAll hfit)⟩

/-- Two trees have a counter each, and one call was refused. -/
example : ((Store.empty.runAll twoTrees).2.nodes.map fun n => (n.counter, n.number, n.children)) =
      [(0, 0, [1]), (0, 1, [3]), (1, 0, [4]), (0, 2, []), (1, 1, [])] ∧
    (Store.empty.runAll twoTrees).2.counters = [2, 1] ∧
    (Store.empty.runAll twoTrees).1[7]? = some (some (.alreadyDeclared "f" 1)) := by
  decide

end Linked
end Slang
