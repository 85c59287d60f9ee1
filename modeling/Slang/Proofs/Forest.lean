import Slang.Proofs.Nesting

/-!
# The forest of scopes

Symbols are made, scopes are opened and names are bound by calls, in any order and on any scopes of
any trees. This module says what a table is like after any calls (`forest_of_calls`):

* `Table.Records`: every scope has the names that were bound in it, in that order, each once;
* `Table.Numbered`: every tree numbers its scopes from zero, and inner scopes after outer ones;
* `Table.Walked`: a walk comes to every scope inside once, parents first;
* `Table.LooksUp`: a name stands for the binding of the nearest scope that has it;
* `Table.Answers`: a name is refused where the scope has it, and then nothing changes;
* `Table.Later`: calls keep the scopes, the bindings and the symbols that are there.

The invariant behind it is `Forest`. It holds in the beginning (`forest_empty`), each call keeps it
(`Forest.run`), and so do all calls (`Forest.runAll`).
-/

namespace Slang.Table

/-! ### Calls -/

/-- A call of one of the operations. -/
inductive Call where
  /-- Make a symbol. -/
  | make (s : Symbol)
  /-- Make a scope: a root, or a scope inside `outer`. -/
  | enter (outer : Option ScopeId) (name : Text)
  /-- Bind a symbol, and give it the augmented name of the scope. -/
  | define (sc : ScopeId) (k : SymbolId)
  /-- Bind a symbol that belongs elsewhere. -/
  | reference (sc : ScopeId) (k : SymbolId)
  deriving DecidableEq, Repr

/-- A name that was bound: in which scope, and to which symbol. -/
abbrev Binding := ScopeId × Text × SymbolId

namespace Call

/-- The scopes and symbols of a call are there. -/
def Fits (t : Table) : Call → Prop
  | make _ | enter none _ => True
  | enter (some o) _ => o < t.scopes.length
  | define sc k | reference sc k => sc < t.scopes.length ∧ k < t.symbols.length

instance (t : Table) : (c : Call) → Decidable (c.Fits t)
  | make _ | enter none _ => inferInstanceAs (Decidable True)
  | enter (some o) _ => inferInstanceAs (Decidable (o < t.scopes.length))
  | define sc k | reference sc k =>
    inferInstanceAs (Decidable (sc < t.scopes.length ∧ k < t.symbols.length))

/-- What a call answers. -/
def answer (t : Table) : Call → Except SymbolError Table
  | make s => .ok (t.addSymbol s).1
  | enter outer name => .ok (t.addScope outer name).1
  | define sc k => t.define sc k
  | reference sc k => t.bind sc k

/-- The table after a call. -/
def run (t : Table) (c : Call) : Table :=
  match c.answer t with
  | .ok t' => t'
  | .error _ => t

/-- The names that a call asks to bind: one, if it is a call that binds. -/
def asked (t : Table) : Call → List Binding
  | define sc k | reference sc k => ((t.symbol? k).map fun s => (sc, s.name, k)).toList
  | make _ | enter .. => []

/-- The names that a call binds: what it asks for if it succeeds. -/
def made (t : Table) (c : Call) : List Binding :=
  match c.answer t with
  | .ok _ => c.asked t
  | .error _ => []

end Call

/-- The table after calls. -/
def runAll (t : Table) (calls : List Call) : Table := calls.foldl Call.run t

/-- The names that calls bind, in that order. -/
def bindings (t : Table) : List Call → List Binding
  | [] => []
  | c :: calls => c.made t ++ bindings (c.run t) calls

/-- Every call speaks of scopes and symbols that are there when it comes. -/
def FitAll (t : Table) : List Call → Prop
  | [] => True
  | c :: calls => c.Fits t ∧ FitAll (c.run t) calls

instance decidableFitAll : (t : Table) → (calls : List Call) → Decidable (FitAll t calls)
  | _, [] => inferInstanceAs (Decidable True)
  | t, c :: calls =>
    have := decidableFitAll (c.run t) calls
    inferInstanceAs (Decidable (c.Fits t ∧ FitAll (c.run t) calls))

/-! ### What holds of a table -/

/-- The scopes of the tree with a root, in the order of making. -/
def tree (t : Table) (r : ScopeId) : List ScopeId :=
  (List.range t.scopes.length).filter fun i => t.root i == r

/-- **A table records bindings**: each scope lists the names that were bound in it. -/
structure Records (t : Table) (log : List Binding) : Prop where
  /-- The names of a scope are those that were bound there, in that order. -/
  order : ∀ i, t.namesOf i = (log.filter (·.1 == i)).map (·.2)
  /-- No scope lists a name twice. -/
  nodup : ∀ i, ((t.namesOf i).map Prod.fst).Nodup
  /-- What is found under a name is what is listed. -/
  found : ∀ i x k, t.findIn? i x = some k ↔ (x, k) ∈ t.namesOf i
  /-- A symbol is bound to its own name. -/
  key : ∀ i, ∀ b ∈ t.namesOf i, ∃ s, t.symbol? b.2 = some s ∧ s.name = b.1

/-- **Trees number their scopes.** -/
structure Numbered (t : Table) : Prop where
  /-- The numbers of a tree count from zero in the order of making. -/
  tree : ∀ r s, t.scope? r = some s → s.outer = [] →
    (t.tree r).filterMap (fun i => (t.scope? i).map (·.number)) = List.range (t.tree r).length
  /-- A root has the first number and nothing around it. -/
  root : ∀ i s, t.scope? i = some s → s.outer = [] → s.number = 0 ∧ s.depth = 0
  /-- Any other scope is numbered after the one directly around it, and lies one deeper. -/
  inner : ∀ i s o rest, t.scope? i = some s → s.outer = o :: rest →
    ∃ p, t.scope? o = some p ∧ s.outer = o :: p.outer ∧ p.number < s.number ∧
      s.depth = p.depth + 1

/-- **Walks come to every scope inside.** -/
structure Walked (t : Table) : Prop where
  /-- The children of a scope are those directly inside it, in the order of making. -/
  children : ∀ i, (t.children i).Pairwise (· < ·) ∧
    ∀ j, j ∈ t.children i ↔ ∃ s, t.scope? j = some s ∧ s.outer.head? = some i
  /-- A walk comes to a scope first, and then to what is inside its children. -/
  parents : ∀ i, i < t.scopes.length → t.subtree i = i :: (t.children i).flatMap t.subtree
  /-- It comes to no scope twice. -/
  once : ∀ i, i < t.scopes.length → (t.subtree i).Nodup
  /-- It comes to those scopes that have the first one around them, or are it. -/
  all : ∀ i j, i < t.scopes.length → (j ∈ t.subtree i ↔ i ∈ t.chain j)
  /-- A root has its tree inside. -/
  tree : ∀ r s, t.scope? r = some s → s.outer = [] → (t.subtree r).Perm (t.tree r)
  /-- Where a walk does not enter a scope, it leaves out what is inside that scope, and only that. -/
  skips : ∀ enter i, i < t.scopes.length → t.walk enter i = (t.subtree i).filter fun j =>
    ∀ o ∈ (t.chain j).tail, i ∈ t.chain o → (t.scope? o).any enter

/-- **A name stands for the binding of the nearest scope that has it.** -/
structure LooksUp (t : Table) : Prop where
  nearest : ∀ i x k, t.find? i x = some k ↔ ∃ near o far, t.chain i = near ++ o :: far ∧
    t.findIn? o x = some k ∧ ∀ o' ∈ near, t.findIn? o' x = none
  nowhere : ∀ i x, t.find? i x = none ↔ ∀ o ∈ t.chain i, t.findIn? o x = none

/-- **What calls that bind answer.** -/
structure Answers (t : Table) : Prop where
  /-- A name that the scope has is refused, with the line of the symbol that it is bound to. Nothing
  changes then. -/
  taken : ∀ sc k s prev, t.symbol? k = some s → t.findIn? sc s.name = some prev →
    ∃ p, t.symbol? prev = some p ∧ ∀ c ∈ [Call.define sc k, .reference sc k],
      c.answer t = .error (.alreadyDeclared s.name p.line) ∧ c.run t = t
  /-- Any other name is bound, and a definition changes the augmented name. -/
  free : ∀ sc x k s, t.scope? sc = some x → t.symbol? k = some s → t.findIn? sc s.name = none →
    (Call.reference sc k).answer t = .ok (t.bound sc (s.name, k)) ∧
    (Call.define sc k).answer t = .ok ((t.bound sc (s.name, k)).modify k fun s =>
      { s with augmented := x.augment s.name })

/-- **A later state of a table**: nothing of what was there is lost. -/
structure Later (t t' : Table) : Prop where
  /-- A scope stays where it is with its number, and at most gets more names. -/
  scope : ∀ i s, t.scope? i = some s → ∃ s', t'.scope? i = some s' ∧
    s'.number = s.number ∧ s'.name = s.name ∧ s'.outer = s.outer ∧ s.names <+: s'.names
  /-- A binding stays. -/
  binding : ∀ i x k, t.findIn? i x = some k → t'.findIn? i x = some k
  /-- Of a symbol, only the augmented name may change. -/
  symbol : ∀ k s, t.symbol? k = some s → ∃ a, t'.symbol? k = some { s with augmented := a }

/-! ### The invariant -/

/-- **The invariant of a table that was built by calls**, with the bindings that they made. -/
structure Forest (t : Table) (log : List Binding) : Prop where
  nested : t.Nested
  /-- The number of a scope counts the scopes that its tree had before. -/
  number : ∀ i s, t.scope? i = some s →
    s.number = ((List.range i).filter fun j => t.root j == t.root i).length
  order : ∀ i, t.namesOf i = (log.filter (·.1 == i)).map (·.2)
  nodup : ∀ i, ((t.namesOf i).map Prod.fst).Nodup
  key : ∀ i, ∀ b ∈ t.namesOf i, ∃ s, t.symbol? b.2 = some s ∧ s.name = b.1

theorem forest_empty : Forest .empty [] where
  nested := fun _ _ hs => nomatch hs
  number := fun _ _ hs => nomatch hs
  order := fun _ => rfl
  nodup := fun _ => List.nodup_nil
  key := fun _ _ hb => nomatch hb

/-! ### Calls, one by one -/

namespace Forest

variable {t : Table} {log : List Binding}

/-- A name that a scope has is bound to a symbol. -/
theorem symbol_of_findIn? (h : Forest t log) {sc : ScopeId} {x : Text} {k : SymbolId}
    (hx : t.findIn? sc x = some k) : ∃ s, t.symbol? k = some s ∧ s.name = x := by
  rw [findIn?_eq_lookup] at hx
  exact h.key sc (x, k) (mem_of_lookup hx)

/-- **The answers of the calls**: a name that is taken is refused, and a free one is bound. -/
theorem answers (h : Forest t log) : Answers t where
  taken := by
    intro sc k s prev hs hprev
    obtain ⟨p, hp, -⟩ := h.symbol_of_findIn? hprev
    have hbind : t.bind sc k = .error (.alreadyDeclared s.name p.line) := by
      simp only [bind, hs, hprev, Option.bind_some, hp]
    -- both calls refuse in the same words, and leave the table
    refine ⟨p, hp, fun c hc => ?_⟩
    have hanswer : c.answer t = .error (.alreadyDeclared s.name p.line) := by
      rcases List.mem_pair.mp hc with rfl | rfl
      · rw [Call.answer, define, hbind]
        rfl
      · exact hbind
    exact ⟨hanswer, by rw [Call.run, hanswer]⟩
  free := by
    intro sc x k s hx hs hfree
    have hnone : (t.findIn? sc s.name).bind t.symbol? = none := by rw [hfree]; rfl
    exact ⟨bind_eq hs hnone, define_of_scope hs hnone hx⟩

end Forest

/-- **What a call does**: it adds a symbol or a scope, binds one new name, or nothing. -/
inductive Call.Does (t : Table) : Call → List Binding → Table → Prop
  | make (s : Symbol) : Does t (.make s) [] (t.addSymbol s).1
  | enter (outer : Option ScopeId) (name : Text) (h : ∀ o, outer = some o → o < t.scopes.length) :
    Does t (.enter outer name) [] (t.addScope outer name).1
  | refuse (c : Call) : Does t c [] t
  | bind (c : Call) {sc : ScopeId} {k : SymbolId} {s : Symbol} (f : Symbol → Symbol)
    (hf : ∀ s, ∃ a, f s = { s with augmented := a }) (hsc : sc < t.scopes.length)
    (hs : t.symbol? k = some s) (hfree : t.findIn? sc s.name = none) :
    Does t c [(sc, s.name, k)] ((t.bound sc (s.name, k)).modify k f)

theorem Forest.does {t : Table} {log : List Binding} (h : Forest t log) {c : Call}
    (hfits : c.Fits t) : c.Does t (c.made t) (c.run t) := by
  -- the calls that bind go the same way
  have hbinds : ∀ sc k, c ∈ [Call.define sc k, .reference sc k] →
      sc < t.scopes.length ∧ k < t.symbols.length → c.Does t (c.made t) (c.run t) := by
    rintro sc k hc ⟨hsc, hk⟩
    obtain ⟨x, hx⟩ := exists_scope? hsc
    have hs : t.symbol? k = some t.symbols[k] := List.getElem?_eq_getElem hk
    cases hfind : t.findIn? sc t.symbols[k].name with
    | some prev =>
      obtain ⟨p, -, hall⟩ := h.answers.taken sc k _ prev hs hfind
      obtain ⟨hanswer, hrun⟩ := hall c hc
      rw [Call.made, hanswer, hrun]
      exact .refuse c
    | none =>
      obtain ⟨href, hdef⟩ := h.answers.free sc x k _ hx hs hfind
      rcases List.mem_pair.mp hc with rfl | rfl
      · have hasked : (Call.define sc k).asked t = [(sc, t.symbols[k].name, k)] := by
          rw [Call.asked, hs]
          rfl
        rw [Call.made, Call.run, hdef, hasked]
        exact .bind _ _ (fun s => ⟨_, rfl⟩) hsc hs hfind
      · have hasked : (Call.reference sc k).asked t = [(sc, t.symbols[k].name, k)] := by
          rw [Call.asked, hs]
          rfl
        have hid : t.bound sc (t.symbols[k].name, k) =
            (t.bound sc (t.symbols[k].name, k)).modify k id := by
          rw [modify, List.modify_id]
        rw [Call.made, Call.run, href, hasked, hid]
        exact .bind _ id (fun s => ⟨s.augmented, rfl⟩) hsc hs hfind
  cases c with
  | make s => exact .make s
  | enter outer name =>
    refine .enter outer name ?_
    rintro o rfl
    exact hfits
  | define sc k => exact hbinds sc k List.mem_cons_self hfits
  | reference sc k => exact hbinds sc k (List.mem_cons_of_mem _ List.mem_cons_self) hfits

/-! ### Each call keeps the invariant -/

namespace Forest

variable {t : Table} {log : List Binding}

theorem addSymbol (h : Forest t log) (s : Symbol) : Forest (t.addSymbol s).1 log where
  nested := h.nested
  number := h.number
  order := h.order
  nodup := h.nodup
  key := by
    intro i b hb
    obtain ⟨x, hx, hname⟩ := h.key i b hb
    exact ⟨x, (symbol?_addSymbol_of_lt s (symbol?_lt hx)).trans hx, hname⟩

/-- A symbol gets its augmented name. -/
theorem modify (h : Forest t log) (k : SymbolId) {f : Symbol → Symbol}
    (hf : ∀ s, ∃ a, f s = { s with augmented := a }) : Forest (t.modify k f) log where
  nested := h.nested
  number := h.number
  order := h.order
  nodup := h.nodup
  key := by
    intro i b hb
    obtain ⟨x, hx, hname⟩ := h.key i b hb
    rw [symbol?_modify, hx]
    split
    · obtain ⟨a, ha⟩ := hf x
      exact ⟨f x, rfl, by rw [ha]; exact hname⟩
    · exact ⟨x, rfl, hname⟩

/-- A name is bound that the scope does not have. -/
theorem bound (h : Forest t log) {sc : ScopeId} {k : SymbolId} {s : Symbol}
    (hsc : sc < t.scopes.length) (hs : t.symbol? k = some s)
    (hfree : t.findIn? sc s.name = none) :
    Forest (t.bound sc (s.name, k)) (log ++ [(sc, s.name, k)]) where
  nested := by
    intro i x hx
    obtain ⟨x₀, hx₀, -, houter⟩ := scope?_of_bound hx
    rw [chain_bound, houter]
    exact h.nested i x₀ hx₀
  number := by
    intro i x hx
    obtain ⟨x₀, hx₀, hnumber, -⟩ := scope?_of_bound hx
    unfold root
    rw [chain_bound, hnumber]
    exact h.number i x₀ hx₀
  order := by
    intro i
    rw [List.filter_append, List.map_append, ← h.order]
    -- the log is split by scopes: the new entry is the last one of its own
    by_cases hi : sc = i
    · subst hi
      rw [namesOf_bound hsc]
      simp
    · rw [namesOf_bound_of_ne t _ hi]
      simp [hi]
  nodup := Distinct.bound h.nodup hsc (findIn?_eq_none_iff.mp hfree)
  key := by
    intro i b hb
    by_cases hi : sc = i
    · subst hi
      rw [namesOf_bound hsc] at hb
      rcases List.mem_append.mp hb with hb | hb
      · exact h.key sc b hb
      · obtain rfl := List.mem_singleton.mp hb
        exact ⟨s, hs, rfl⟩
    · rw [namesOf_bound_of_ne t _ hi] at hb
      exact h.key i b hb

/-- A scope is made: the root of a new tree, or the last one in the tree of `outer`. -/
theorem addScope (h : Forest t log) (outer : Option ScopeId) (name : Text)
    (houter : ∀ o, outer = some o → o < t.scopes.length) :
    Forest (t.addScope outer name).1 log where
  nested := by
    intro i s hs
    rcases scope?_of_addScope hs with hs | ⟨rfl, -, hroot, hinner⟩
    · have hi := scope?_lt hs
      rcases h.nested i s hs with hnil | ⟨p, hp, hchain⟩
      · exact .inl hnil
      · exact .inr ⟨p, hp, by rw [chain_addScope_of_lt _ _ (Nat.lt_trans hp hi), hchain]⟩
    · cases outer with
      | none => exact .inl (hroot rfl).2
      | some o =>
        have ho := houter o rfl
        exact .inr ⟨o, ho, by rw [chain_addScope_of_lt _ _ ho, (hinner o rfl).2]⟩
  number := by
    intro i s hs
    have hle : i ≤ t.scopes.length := by
      have hlt := scope?_lt hs
      rw [length_addScope] at hlt
      exact Nat.le_of_lt_succ hlt
    have hroots : ∀ r, (List.range i).filter (fun j => (t.addScope outer name).1.root j == r) =
        (List.range i).filter fun j => t.root j == r := by
      intro r
      refine List.filter_congr fun j hj => ?_
      have hj := Nat.lt_of_lt_of_le (List.mem_range.mp hj) hle
      rw [root_addScope_of_lt _ _ hj]
    rw [hroots]
    rcases scope?_of_addScope hs with hs | ⟨rfl, -, hroot, hinner⟩
    · rw [root_addScope_of_lt _ _ (scope?_lt hs)]
      exact h.number i s hs
    · cases outer with
      | none =>
        -- the scopes that were there before are in the trees of earlier roots
        obtain ⟨hnumber, hnil⟩ := hroot rfl
        rw [root_of_singleton (by rw [chain_of_scope? hs, hnil]), hnumber, eq_comm,
          List.length_eq_zero_iff, List.filter_eq_nil_iff]
        intro j hj heq
        have hlt := Nat.lt_of_le_of_lt (h.nested.root_le j) (List.mem_range.mp hj)
        exact Nat.ne_of_lt hlt (eq_of_beq heq)
      | some o =>
        obtain ⟨hnumber, hchain⟩ := hinner o rfl
        rw [root_of_cons (mem_chain_self (houter o rfl)) (by rw [chain_of_scope? hs, hchain]),
          hnumber]
        rfl
  order := by
    intro i
    rw [namesOf_addScope, h.order]
  nodup := by
    intro i
    rw [namesOf_addScope]
    exact h.nodup i
  key := by
    intro i b hb
    rw [namesOf_addScope] at hb
    exact h.key i b hb

/-- **Each call keeps the invariant.** -/
theorem run (h : Forest t log) {c : Call} (hfits : c.Fits t) :
    Forest (c.run t) (log ++ c.made t) := by
  have hdoes := h.does hfits
  generalize c.run t = t', c.made t = made at hdoes ⊢
  cases hdoes with
  | make s => exact (List.append_nil log).symm ▸ h.addSymbol s
  | enter outer name houter => exact (List.append_nil log).symm ▸ h.addScope outer name houter
  | refuse => exact (List.append_nil log).symm ▸ h
  | bind _ f hf hsc hs hfree => exact (h.bound hsc hs hfree).modify _ hf

/-- **All calls keep the invariant.** -/
theorem runAll {calls : List Call} (h : Forest t log) (hfit : FitAll t calls) :
    Forest (t.runAll calls) (log ++ t.bindings calls) := by
  induction calls generalizing t log with
  | nil => exact (List.append_nil log).symm ▸ h
  | cons c calls ih =>
    rw [bindings, ← List.append_assoc]
    exact ih (h.run hfit.1) hfit.2

end Forest

/-! ### What stays -/

namespace Later

variable {t t' t'' : Table}

theorem refl (t : Table) : Later t t where
  scope := fun _ s hs => ⟨s, hs, rfl, rfl, rfl, List.prefix_rfl⟩
  binding := fun _ _ _ h => h
  symbol := fun _ s hs => ⟨s.augmented, hs⟩

/-- A table is later than those that came before. -/
theorem trans (h : Later t t') (h' : Later t' t'') : Later t t'' where
  scope := by
    intro i s hs
    obtain ⟨s', hs', hnumber, hname, houter, hnames⟩ := h.scope i s hs
    obtain ⟨s'', hs'', hnumber', hname', houter', hnames'⟩ := h'.scope i s' hs'
    exact ⟨s'', hs'', hnumber'.trans hnumber, hname'.trans hname, houter'.trans houter,
      hnames.trans hnames'⟩
  binding := fun i x k hx => h'.binding i x k (h.binding i x k hx)
  symbol := by
    intro k s hs
    obtain ⟨a, ha⟩ := h.symbol k s hs
    obtain ⟨a', ha'⟩ := h'.symbol k _ ha
    exact ⟨a', ha'⟩

/-- With its scopes and the names of its symbols, a table keeps its bindings. -/
theorem of_scope_symbol
    (hscope : ∀ i s, t.scope? i = some s → ∃ s', t'.scope? i = some s' ∧
      s'.number = s.number ∧ s'.name = s.name ∧ s'.outer = s.outer ∧ s.names <+: s'.names)
    (hsymbol : ∀ k s, t.symbol? k = some s → ∃ a, t'.symbol? k = some { s with augmented := a }) :
    Later t t' where
  scope := hscope
  symbol := hsymbol
  binding := by
    intro i x k hx
    obtain ⟨s, hs, hfind⟩ := Option.bind_eq_some_iff.mp hx
    obtain ⟨s', hs', -, -, -, more, hmore⟩ := hscope i s hs
    refine Option.bind_eq_some_iff.mpr ⟨s', hs', ?_⟩
    -- the first binding of a name is among the old ones
    obtain ⟨b, hb, rfl⟩ := Option.map_eq_some_iff.mp hfind
    rw [Scope.find?, ← hmore, List.find?_append, hb]
    rfl

/-- **A call makes a later table.** -/
theorem run {log : List Binding} (h : Forest t log) {c : Call} (hfits : c.Fits t) :
    Later t (c.run t) := by
  have hdoes := h.does hfits
  generalize c.run t = t', c.made t = made at hdoes ⊢
  -- one case for each thing a call can do
  cases hdoes with
  | make s =>
    refine of_scope_symbol (refl t).scope fun k x hx => ⟨x.augmented, ?_⟩
    exact (symbol?_addSymbol_of_lt s (symbol?_lt hx)).trans hx
  | enter outer name =>
    refine of_scope_symbol (fun i s hs => ⟨s, ?_, rfl, rfl, rfl, List.prefix_rfl⟩) (refl t).symbol
    rw [scope?_addScope_of_lt _ _ (scope?_lt hs), hs]
  | refuse => exact refl t
  | @bind _ sc k s f hf hsc hs hfree =>
    refine of_scope_symbol (fun i x hx => ?_) fun i x hx => ?_
    · change ∃ x', (t.bound sc (s.name, k)).scope? i = some x' ∧ _
      rw [scope?_bound, hx]
      split
      · exact ⟨_, rfl, rfl, rfl, rfl, List.prefix_append _ _⟩
      · exact ⟨x, rfl, rfl, rfl, rfl, List.prefix_rfl⟩
    · -- binding changes the augmented name of one symbol, and nothing else of it
      obtain ⟨a, ha⟩ := hf x
      have hx' : (t.bound sc (s.name, k)).symbol? i = some x := hx
      rw [symbol?_modify, hx']
      split
      · exact ⟨a, congrArg some ha⟩
      · exact ⟨x.augmented, rfl⟩

theorem runAll {log : List Binding} {calls : List Call} (h : Forest t log)
    (hfit : FitAll t calls) : Later t (t.runAll calls) := by
  induction calls generalizing t log with
  | nil => exact refl t
  | cons c calls ih => exact (run h hfit.1).trans (ih (h.run hfit.1) hfit.2)

end Later

/-! ### What the invariant says -/

/-- The places of the members of a set among the numbers below `n` count from zero. -/
theorem map_length_filter_range (p : Nat → Bool) (n : Nat) :
    ((List.range n).filter p).map (fun i => ((List.range i).filter p).length) =
      List.range ((List.range n).filter p).length := by
  induction n with
  | zero => rfl
  | succ n ih =>
    rw [List.range_succ, List.filter_append, List.map_append, ih]
    by_cases hn : p n
    · simp [hn, List.range_succ]
    · simp [hn]

namespace Forest

variable {t : Table} {log : List Binding}

/-- The number of a scope, in a form that counts along its tree. -/
theorem number_eq (h : Forest t log) {r i : ScopeId} (hi : i ∈ t.tree r) :
    (t.scope? i).map (·.number) =
      some ((List.range i).filter fun j => t.root j == r).length := by
  obtain ⟨hi, hroot⟩ := List.mem_filter.mp hi
  obtain ⟨s, hs⟩ := exists_scope? (List.mem_range.mp hi)
  rw [hs, Option.map_some, h.number i s hs, eq_of_beq hroot]

theorem records (h : Forest t log) : Records t log where
  order := h.order
  nodup := h.nodup
  key := h.key
  found := by
    intro i x k
    rw [findIn?_eq_lookup]
    exact ⟨mem_of_lookup, lookup_of_mem (h.nodup i)⟩

theorem numbered (h : Forest t log) : Numbered t where
  tree := by
    intro r s hs hnil
    have hcount : (t.tree r).filterMap (fun i => (t.scope? i).map (·.number)) =
        (t.tree r).map fun i => ((List.range i).filter fun j => t.root j == r).length := by
      rw [List.filterMap_congr fun i hi => h.number_eq hi]
      exact congrFun List.filterMap_eq_map _
    rw [hcount]
    exact map_length_filter_range (fun j => t.root j == r) t.scopes.length
  root := by
    intro i s hs hnil
    refine ⟨?_, by rw [Scope.depth, hnil]; rfl⟩
    have hchain : t.chain i = [i] := by rw [chain_of_scope? hs, hnil]
    rw [h.number i s hs, root_of_singleton hchain, List.length_eq_zero_iff,
      List.filter_eq_nil_iff]
    intro j hj heq
    have hlt := Nat.lt_of_le_of_lt (h.nested.root_le j) (List.mem_range.mp hj)
    exact Nat.ne_of_lt hlt (eq_of_beq heq)
  inner := by
    intro i s o rest hs houter
    have hchain : t.chain i = i :: o :: rest := by rw [chain_of_scope? hs, houter]
    have hchain' := h.nested.chain_of_suffix (hchain ▸ List.suffix_cons i (o :: rest))
    have ho : o ∈ t.chain o := hchain' ▸ List.mem_cons_self
    obtain ⟨p, hp⟩ := exists_scope? (lt_of_mem_chain ho)
    have hrest : p.outer = rest := by
      rw [chain_of_scope? hp] at hchain'
      exact (List.cons.inj hchain').2
    refine ⟨p, hp, by rw [houter, hrest], ?_, by rw [Scope.depth, houter, ← hrest]; rfl⟩
    -- both count scopes of one tree, and only the inner one counts the outer one
    have hoi : o < i := by
      have hpairwise := h.nested.pairwise_chain i
      rw [hchain] at hpairwise
      exact List.rel_of_pairwise_cons hpairwise List.mem_cons_self
    have hroot : t.root i = t.root o := root_of_cons ho (by rw [hchain, hchain'])
    have hsub : ((List.range o).filter (fun j => t.root j == t.root o) ++ [o]).Sublist
        ((List.range i).filter fun j => t.root j == t.root o) := by
      have hlast : [o].filter (fun j => t.root j == t.root o) = [o] := by simp
      rw [← hlast, ← List.filter_append, ← List.range_succ]
      exact (List.range_sublist.mpr hoi).filter _
    have hlength := hsub.length_le
    rw [List.length_append] at hlength
    rw [h.number i s hs, h.number o p hp, hroot]
    exact hlength

/-- **The walk of a forest** visits each scope below the root once, parents first. -/
theorem walked (h : Forest t log) : Walked t where
  children := by
    intro i
    refine ⟨List.pairwise_lt_range.filter _, fun j => ?_⟩
    simp only [Table.children, List.mem_filter, List.mem_range, Bool.and_eq_true,
      decide_eq_true_eq, beq_iff_eq, Option.map_eq_some_iff]
    constructor
    · rintro ⟨-, -, s, hs, hhead⟩
      exact ⟨s, hs, hhead⟩
    · rintro ⟨s, hs, hhead⟩
      obtain ⟨rest, houter⟩ := List.head?_eq_some_iff.mp hhead
      -- a scope has a greater number than the scope around it, so that it is found among the later
      -- ones
      have hpairwise := h.nested.pairwise_chain j
      rw [chain_of_scope? hs, houter] at hpairwise
      exact ⟨scope?_lt hs, List.rel_of_pairwise_cons hpairwise List.mem_cons_self, s, hs, hhead⟩
  parents := fun i hi => subtree_unfold hi
  once := h.nested.nodup_subtree
  all := fun i j hi => h.nested.mem_subtree i hi
  tree := by
    intro r s hs hnil
    have hr := scope?_lt hs
    have hchain : t.chain r = [r] := by rw [chain_of_scope? hs, hnil]
    -- both lists have each scope of the tree once
    refine (List.perm_ext_iff_of_nodup (h.nested.nodup_subtree r hr)
      (List.nodup_range.filter _)).mpr fun j => ?_
    rw [h.nested.mem_subtree r hr, h.nested.root_eq_iff hchain, List.mem_filter,
      List.mem_range, beq_iff_eq]
  skips := h.nested.walk_eq_filter

end Forest

theorem looksUp (t : Table) : LooksUp t where
  nearest := fun _ _ _ => List.findSome?_eq_some_iff
  nowhere := fun _ _ => List.findSome?_eq_none_iff

/-- **A table is a forest of scopes, whatever the calls that built it.** After any calls, each of
which speaks of scopes and symbols that are there: scopes list the bindings that were made in them;
the trees number their scopes; walks come to every scope inside and leave out what is inside a scope
that is not entered; names stand for their nearest bindings; a name that a scope has is refused, and
then nothing changes; and whatever comes later, scopes, bindings and symbols stay. -/
theorem forest_of_calls (calls : List Call) (hfit : FitAll .empty calls) :
    Records (runAll .empty calls) (bindings .empty calls) ∧ Numbered (runAll .empty calls) ∧
      Walked (runAll .empty calls) ∧ LooksUp (runAll .empty calls) ∧
      Answers (runAll .empty calls) ∧
      ∀ later, FitAll (runAll .empty calls) later →
        Later (runAll .empty calls) (runAll (runAll .empty calls) later) := by
  have hforest : Forest (runAll .empty calls) (bindings .empty calls) :=
    forest_empty.runAll hfit
  exact ⟨hforest.records, hforest.numbered, hforest.walked, looksUp _, hforest.answers,
    fun _ hlater => Later.runAll hforest hlater⟩

/-- Two trees, with one symbol bound in both of them and one name refused. -/
def twoTrees : List Call :=
  [.enter none "a", .make (.plainFunction "f" 1), .enter (some 0) "b", .enter none "c",
    .define 1 0, .reference 2 0, .make (.plainFunction "f" 7), .define 2 1, .enter (some 1) "d",
    .define 3 1, .enter (some 2) "e"]

/-- The bindings that these calls make: the second symbol is refused in the second tree. -/
def twoTreesBindings : List Binding := [(1, "f", 0), (2, "f", 0), (3, "f", 1)]

/-- These calls fit, and record their bindings. -/
theorem forest_twoTrees :
    FitAll .empty twoTrees ∧ Records (runAll .empty twoTrees) twoTreesBindings := by
  have hfit : FitAll .empty twoTrees := by decide
  have hbindings : bindings .empty twoTrees = twoTreesBindings := by decide
  exact ⟨hfit, hbindings ▸ (forest_of_calls twoTrees hfit).1⟩

end Slang.Table
