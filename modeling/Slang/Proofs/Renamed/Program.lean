import Slang.Proofs.Alike.Program
import Slang.Proofs.Renamed

/-!
# Two runs on whole programs

The two runs of a `Renaming` go through the statements of a program in step. Both look names up in
corresponding scopes, so they find corresponding symbols, and what they declare and open gets
corresponding numbers. So the relation between their tables is kept by each operation
(`Renaming.Tables`) and by each function of the analysis, up to `renamed_hoistAll` and
`renamed_checkTops` for the two passes over a program.
-/

namespace Slang.Analysis

open Typing

variable {m : Renaming}

/-! ### Tables -/

namespace Renaming.Tables

variable {t t' : Table}

/-- Both runs add a symbol, the next one of each. -/
theorem addSymbol (h : m.Tables t t') {s s' : Symbol} (hs : m.Symbols t.symbols.length s s')
    (hadmitted : s.Admitted t.symbols.length) :
    m.Tables (t.addSymbol s).1 (t'.addSymbol s').1 where
  scopes := h.scopes
  symbols := by
    intro k x hx
    have hlast : m.symbol t.symbols.length = t'.symbols.length := h.nextSymbol 0
    -- the symbols from before are untouched; the one at the end is the new one, in both tables
    by_cases hk : k < t.symbols.length
    · rw [Table.symbol?_addSymbol_of_lt s hk] at hx
      obtain ⟨x', hx', hsymbols⟩ := h.symbols k x hx
      exact ⟨x', (Table.symbol?_addSymbol_of_lt s' (Table.symbol?_lt hx')).trans hx', hsymbols⟩
    · have hlt := Table.symbol?_lt hx
      simp only [Table.addSymbol, List.length_append, List.length_singleton] at hlt
      obtain rfl : k = t.symbols.length :=
        Nat.le_antisymm (Nat.le_of_lt_succ hlt) (Nat.not_lt.mp hk)
      obtain rfl := Option.some.inj ((Table.symbol?_addSymbol_self t s).symm.trans hx)
      exact ⟨s', hlast ▸ Table.symbol?_addSymbol_self t' s', hs⟩
  nextScope := h.nextScope
  nextSymbol := by
    intro n
    simp only [Table.addSymbol, List.length_append, List.length_singleton, Nat.add_assoc]
    exact h.nextSymbol (1 + n)
  tree := h.tree
  tree' := h.tree'
  valid := (Table.extends_addSymbol globalScope t hadmitted.typed).valid h.valid
  closed := h.closed.addSymbol hadmitted
  confined := h.confined.addSymbol s

/-- Both runs change one symbol, in ways that correspond. -/
theorem modify (h : m.Tables t t') {k : SymbolId} {f f' : Symbol → Symbol}
    (hf : ∀ s s', t.symbol? k = some s → m.Symbols k s s' → m.Symbols k (f s) (f' s'))
    (hsame : ∀ s, Symbol.Same s (f s)) (hclosed : (t.modify k f).Closed) :
    m.Tables (t.modify k f) (t'.modify (m.symbol k) f') where
  scopes := h.scopes
  symbols := by
    intro j x hx
    rw [Table.symbol?_modify] at hx
    rw [Table.symbol?_modify]
    -- only one symbol changes, and a renaming takes no other symbol to its image
    by_cases hj : k = j
    · subst hj
      rw [if_pos rfl] at hx ⊢
      obtain ⟨x₀, hx₀, rfl⟩ := Option.map_eq_some_iff.mp hx
      obtain ⟨x', hx', hsymbols⟩ := h.symbols k x₀ hx₀
      exact ⟨f' x', by rw [hx']; rfl, hf x₀ x' hx₀ hsymbols⟩
    · rw [if_neg hj] at hx
      rw [if_neg fun heq => hj (m.symbol_injective heq)]
      exact h.symbols j x hx
  nextScope := h.nextScope
  nextSymbol := by
    simp only [Table.modify, List.length_modify]
    exact h.nextSymbol
  tree := h.tree
  tree' := h.tree'
  valid := (Table.extends_modify globalScope t k hsame).valid h.valid
  closed := hclosed
  confined := h.confined.modify k f

/-- **Both runs put a name into a scope**, the name of a symbol that is shown or that the whole program
already lists. -/
theorem bound (h : m.Tables t t') {sc : ScopeId} {b : Text × SymbolId} {s : Symbol}
    (hs : t.symbol? b.2 = some s) (hname : s.name = b.1)
    (hshown : m.shown b.2 = true ∨ t.findIn? globalScope b.1 = some b.2) :
    m.Tables (t.bound sc b) (t'.bound (m.scope sc) (m.binding b)) where
  scopes := by
    intro i x hx
    rw [Table.scope?_bound] at hx
    rw [Table.scope?_bound]
    -- the other scopes keep their names; in this one, both lists get one more at their end
    by_cases hi : sc = i
    · subst hi
      rw [if_pos rfl] at hx ⊢
      obtain ⟨x₀, hx₀, rfl⟩ := Option.map_eq_some_iff.mp hx
      obtain ⟨x', hx', hscopes⟩ := h.scopes sc x₀ hx₀
      refine ⟨{ x' with names := x'.names ++ [m.binding b] }, by rw [hx']; rfl, ?_⟩
      exact ⟨hscopes.number, hscopes.number', hscopes.name, hscopes.outer, hscopes.names.append b⟩
    · rw [if_neg hi] at hx
      rw [if_neg fun heq => hi (m.scope_injective heq)]
      exact h.scopes i x hx
  symbols := h.symbols
  nextScope := by
    simp only [Table.bound, List.length_modify]
    exact h.nextScope
  nextSymbol := h.nextSymbol
  tree := h.tree.bound sc b
  tree' := h.tree'.bound _ _
  valid := (Table.extends_bound sc hs hname).valid h.valid
  closed := h.closed.bound sc b
  confined := h.confined.bound fun _ => hshown

/-- A scope is made in both runs. -/
theorem addScope (h : m.Tables t t') {sc : ScopeId} (hlt : sc < t.scopes.length)
    (hsc : m.base ≤ sc ∨ sc = globalScope ∧ m.base = t.scopes.length) (name : Text) :
    m.Tables (t.addScope (some sc) name).1 (t'.addScope (some (m.scope sc)) name).1 where
  scopes := by
    intro i x hx
    have hlast : m.scope t.scopes.length = t'.scopes.length := h.nextScope 0
    have hlt' := h.scope_lt hlt
    -- a scope from before, or the new one, which has no names yet
    by_cases hi : i < t.scopes.length
    · rw [Table.scope?_addScope_of_lt _ _ hi] at hx
      rw [Table.scope?_addScope_of_lt _ _ (h.scope_lt hi)]
      exact h.scopes i x hx
    · have hle := Table.scope?_lt hx
      rw [Table.length_addScope] at hle
      obtain rfl : i = t.scopes.length := Nat.le_antisymm (Nat.le_of_lt_succ hle) (Nat.not_lt.mp hi)
      obtain rfl := Option.some.inj ((h.tree.scope?_addScope_self hlt name).symm.trans hx)
      refine ⟨⟨t'.scopes.length, name, t'.chain (m.scope sc), []⟩, ?_, rfl, hlast.symm, rfl,
        h.chain sc, .nil⟩
      rw [hlast]
      exact h.tree'.scope?_addScope_self hlt' name
  symbols := h.symbols
  nextScope := by
    intro n
    rw [Table.length_addScope, Table.length_addScope, Nat.add_assoc, Nat.add_assoc]
    exact h.nextScope (1 + n)
  nextSymbol := h.nextSymbol
  tree := h.tree.addScope hlt name
  tree' := h.tree'.addScope (h.scope_lt hlt) name
  valid := h.valid.addScope hlt name
  closed := h.closed.addScope (some sc) name
  confined := h.confined.addScope h.valid hlt hsc name

/-- A new name is bound in both runs. -/
theorem bind (h : m.Tables t t') {sc : ScopeId} {k : SymbolId} {s : Symbol}
    (hs : t.symbol? k = some s) (hfree : t.findIn? sc s.name = none)
    (hshown : m.shown k = true ∨ t.findIn? globalScope s.name = some k) :
    ∃ u u', t.bind sc k = .ok u ∧ t'.bind (m.scope sc) (m.symbol k) = .ok u' ∧ m.Tables u u' := by
  obtain ⟨s', hs', hsymbols⟩ := h.symbols k s hs
  have hfree' : t'.findIn? (m.scope sc) s'.name = none := by
    rw [hsymbols.name, h.findIn?, hfree]
    rfl
  refine ⟨_, _, Table.bind_eq hs (by rw [hfree]; rfl), Table.bind_eq hs' (by rw [hfree']; rfl), ?_⟩
  rw [hsymbols.name]
  exact h.bound (b := (s.name, k)) hs rfl hshown

/-- A new name is defined in both runs. Its augmented name has the number of the scope, which is
that of the scope in the table. -/
theorem define (h : m.Tables t t') {sc : ScopeId} {k : SymbolId} {s : Symbol}
    (hsc : sc < t.scopes.length) (hs : t.symbol? k = some s)
    (hfree : t.findIn? sc s.name = none)
    (hshown : m.shown k = true ∨ t.findIn? globalScope s.name = some k) :
    ∃ u u', t.define sc k = .ok u ∧ t'.define (m.scope sc) (m.symbol k) = .ok u' ∧
      m.Tables u u' := by
  obtain ⟨s', hs', hsymbols⟩ := h.symbols k s hs
  obtain ⟨x, hx⟩ := Table.exists_scope? hsc
  obtain ⟨x', hx', hscopes⟩ := h.scopes sc x hx
  have hfree' : t'.findIn? (m.scope sc) s'.name = none := by
    rw [hsymbols.name, h.findIn?, hfree]
    rfl
  refine ⟨_, _, Table.define_of_scope hs (by rw [hfree]; rfl) hx,
    Table.define_of_scope hs' (by rw [hfree']; rfl) hx', ?_⟩
  rw [hsymbols.name]
  have hbound : m.Tables (t.bound sc (s.name, k)) (t'.bound (m.scope sc) (m.binding (s.name, k))) :=
    h.bound hs rfl hshown
  refine hbound.modify (fun y y' _ hy => ⟨hy.name, hy.line, hy.inferred, ?_, hy.content⟩)
    (Symbol.same_of_augmented fun y => ⟨_, rfl⟩)
    (hbound.closed.modify k fun y => ⟨rfl, rfl, .inr ?_⟩)
  · -- the augmented names: the plain one in the scope of the whole program, else with the numbers of
    -- both scopes
    unfold Scope.augment Scope.isRoot
    rw [hscopes.outer, hscopes.number, hscopes.number', hy.name]
    cases x.outer with
    | nil => exact .inl ⟨rfl, rfl⟩
    | cons o outer => exact .inr ⟨sc, rfl, rfl⟩
  · -- the number in the augmented name is that of a scope
    have hlt : sc < (t.bound sc (s.name, k)).scopes.length := by
      simpa only [Table.bound, List.length_modify] using hsc
    dsimp only
    unfold Scope.augment
    rw [hscopes.number]
    split
    · exact .inl rfl
    · exact .inr ⟨sc, hlt, rfl⟩

end Renaming.Tables

/-! ### States -/

/-- **The states of both runs**; outside functions it does not matter which returns were read. -/
structure Renaming.States (m : Renaming) (inside : Bool) (st st' : State) : Prop where
  table : m.Tables st.table st'.table
  returns : inside = true → st'.returns = st.returns
  found : ∃ fs fs', st.found = m.before ++ fs ∧ st'.found = m.before' ++ fs' ∧ m.Findings fs fs'

namespace Renaming.States

variable {inside : Bool} {st st' : State}

/-- Both runs report findings that correspond. -/
theorem report (h : m.States inside st st') {fs fs' : List Finding} (hfs : m.Findings fs fs') :
    m.States inside (st.report fs) (st'.report fs') := by
  obtain ⟨gs, gs', hgs, hgs', hfound⟩ := h.found
  refine ⟨h.table, h.returns, gs ++ fs, gs' ++ fs', ?_, ?_, hfound.append hfs⟩
  · rw [State.found_report, hgs, List.append_assoc]
  · rw [State.found_report, hgs', List.append_assoc]

/-- Both runs report the same problem. -/
theorem problem (h : m.States inside st st') (tok : Token) (p : SemanticProblem) :
    m.States inside (st.problem tok p) (st'.problem tok p) :=
  h.report (.refl _)

/-- Both runs write an event that is no finding. -/
theorem note (h : m.States inside st st') {e e' : Event} (he : e.finding? = none)
    (he' : e'.finding? = none) : m.States inside (st.note e) (st'.note e') := by
  refine ⟨h.table, h.returns, ?_⟩
  rw [st.found_note he, st'.found_note he']
  exact h.found

/-- Both runs go on with other tables. -/
theorem withTable (h : m.States inside st st') {t t' : Table} (ht : m.Tables t t') :
    m.States inside { st with table := t } { st' with table := t' } :=
  ⟨ht, h.returns, h.found⟩

/-- Both runs go on with the same returns. -/
theorem withReturns (h : m.States inside st st') (inside' : Bool) (r : Returns) :
    m.States inside' { st with returns := r } { st' with returns := r } :=
  ⟨h.table, fun _ => rfl, h.found⟩

/-- Both runs have seen a return. -/
theorem markReturned (h : m.States inside st st') :
    m.States inside st.markReturned st'.markReturned :=
  ⟨h.table, fun hin => by simp only [State.markReturned, h.returns hin], h.found⟩

/-- Outside functions. -/
theorem leave (h : m.States inside st st') : m.States false st st' :=
  ⟨h.table, fun hin => absurd hin Bool.false_ne_true, h.found⟩

end Renaming.States

/-! ### Binding names -/

section
variable {ctx ctx' : Context} {st st' : State}

/-- What a declaration hides is the same in both runs. -/
theorem renamed_shadowing (hctx : m.Contexts ctx ctx') {t t' : Table} (ht : m.Tables t t')
    (name : Text) : shadowing ctx' t' name = shadowing ctx t name := by
  unfold shadowing
  rw [hctx.options, hctx.scope, ht.findOutside?]
  rcases ht.bind_symbol? (t.findOutside? ctx.scope name) with
    ⟨hs, hs'⟩ | ⟨k, s, s', hs, hs', hsymbols⟩
  · rw [hs, hs']
  · rw [hs, hs']
    dsimp only
    rw [hsymbols.describe, hsymbols.line]

/-- A name is bound in both runs, if a new name is. -/
theorem renamed_bindName (hctx : m.Contexts ctx ctx') {inside : Bool}
    (h : m.States inside st st') {binder : Binder} {k : SymbolId} {s s' : Symbol}
    (hs : m.Symbols k s s')
    (hbinder : st.table.findIn? ctx.scope s.name = none → ∃ u u',
      binder st.table ctx.scope k = .ok u ∧
        binder st'.table (m.scope ctx.scope) (m.symbol k) = .ok u' ∧ m.Tables u u')
    (tok : Token) :
    m.States inside (bindName ctx binder s k tok st)
      (bindName ctx' binder s' (m.symbol k) tok st') := by
  unfold bindName
  rw [hctx.scope, hs.name, h.table.findIn?]
  rcases h.table.bind_symbol? (st.table.findIn? ctx.scope s.name) with
    ⟨hp, hp'⟩ | ⟨j, p, p', hp, hp', hsymbols⟩
  · -- the name is free in the first run, hence in the second, and both report the same shadowing
    rw [hp, hp']
    dsimp only
    have hfree : st.table.findIn? ctx.scope s.name = none := by
      cases hfind : st.table.findIn? ctx.scope s.name with
      | none => rfl
      | some j =>
        obtain ⟨x, hx, -⟩ := h.table.valid.symbol_of_findIn? hfind
        rw [hfind, Option.bind_some, hx] at hp
        cases hp
    obtain ⟨u, u', hu, hu', htables⟩ := hbinder hfree
    have hreport : m.States inside
        (st.report ((shadowing ctx st.table s.name).map tok.finding))
        (st'.report ((shadowing ctx' st'.table s.name).map tok.finding)) := by
      rw [renamed_shadowing hctx h.table]
      exact h.report (.refl _)
    rw [State.table_report, State.table_report, hu, hu']
    exact hreport.withTable htables
  · rw [hp, hp']
    dsimp only
    -- the name is taken in both runs, and the message names the same line
    rw [hsymbols.line]
    exact h.problem tok _

/-- Both runs declare a symbol. -/
theorem renamed_declare (hctx : m.Contexts ctx ctx') (hsc : ctx.scope < st.table.scopes.length)
    {inside : Bool} (h : m.States inside st st') {s s' : Symbol}
    (hs : m.Symbols st.table.symbols.length s s')
    (hadmitted : s.Admitted st.table.symbols.length) (tok : Token) :
    m.States inside (declare ctx s tok st) (declare ctx' s' tok st') := by
  have hnew : m.symbol st.table.symbols.length = st'.table.symbols.length := h.table.nextSymbol 0
  have hadd := h.withTable (h.table.addSymbol hs hadmitted)
  unfold declare State.addSymbol
  dsimp only [Table.addSymbol]
  rw [← hnew]
  refine renamed_bindName hctx hadd hs (fun hfree => ?_) tok
  exact hadd.table.define hsc (Table.symbol?_addSymbol_self st.table s) hfree
    (.inl (h.table.confined.fresh _ (Nat.le_refl _)))

/-! ### Declarations and assignments -/

/-- A variable that both runs make. -/
theorem Renaming.Symbols.ofValue (k : SymbolId) (name : Text) (line : Int) {v v' : Value}
    {c c' : Bool} (hty : v'.ty = v.ty) (hknown : c' = true → c = true ∧ v' = v)
    (hsame : m.lossy = false → v' = v ∧ c' = (c && m.shown k)) :
    m.Symbols k (.ofValue name line v c) (.ofValue name line v' c') :=
  ⟨rfl, rfl, rfl, .inl ⟨rfl, rfl⟩, .variable hty hknown hsame⟩

/-- A symbol that is made from its type has no value, so that both runs have the same one. -/
theorem renamed_ofTy (k : SymbolId) {ty : Ty} {name : Text} {line : Int} {s : Symbol}
    (h : Symbol.ofTy ty name line = .ok s) : m.Symbols k s s := by
  obtain ⟨v, -, rfl⟩ := ofTy_ok h
  exact .ofValue k name line rfl (fun hc => ⟨hc, rfl⟩) fun _ => ⟨rfl, by simp⟩

/-- A symbol with a value may be added to any table. -/
theorem admitted_ofValue (n : Nat) (name : Text) (line : Int) (v : Value) (c : Bool) :
    (Symbol.ofValue name line v c).Admitted n :=
  ⟨trivial, rfl, fun _ hp => nomatch hp⟩

/-- A symbol that is made from its type may be added to any table. -/
theorem admitted_of_ofTy {n : Nat} {ty : Ty} {name : Text} {line : Int} {s : Symbol}
    (h : Symbol.ofTy ty name line = .ok s) : s.Admitted n := by
  obtain ⟨v, -, rfl⟩ := ofTy_ok h
  exact admitted_ofValue n name line v false

/-- The symbol of a let statement may be added to any table. -/
theorem admitted_of_letSymbol {n : Nat} {name : Ident} {ty : Ty} {value : Option Value} {s : Symbol}
    {b : Bool} (h : letSymbol name ty value = .ok s) :
    ({ s with inferred := b } : Symbol).Admitted n := by
  obtain ⟨v, -, -, rfl⟩ := letSymbol_ok h
  exact ⟨trivial, rfl, fun _ hp => nomatch hp⟩

/-- The variable of a declaration is made in both runs or in none. -/
theorem renamed_letSymbol {k : SymbolId} (hk : m.shown k = true) (name : Ident) (ty : Ty)
    {v v' : Option Value} (hvalue : ∀ w, v' = some w → v = some w)
    (hsame : m.lossy = false → v' = v) (htyped : ∀ w, v = some w → w.ty = ty) :
    (∃ s s', letSymbol name ty v = .ok s ∧ letSymbol name ty v' = .ok s' ∧ m.Symbols k s s') ∨
      ∃ e, letSymbol name ty v = .error e ∧ letSymbol name ty v' = .error e := by
  cases v with
  | none =>
    obtain rfl : v' = none := by
      cases v' with
      | none => rfl
      | some w => cases hvalue w rfl
    cases hs : letSymbol name ty none with
    | ok s => exact .inl ⟨s, s, rfl, rfl, renamed_ofTy k hs⟩
    | error e => exact .inr ⟨e, rfl, rfl⟩
  | some w =>
    have hw := htyped w rfl
    have hleft : letSymbol name ty (some w) = .ok (.ofValue name.name name.token.line w true) := by
      unfold letSymbol Symbol.ofOperand
      dsimp only
      rw [if_pos hw]
    cases v' with
    | some w' =>
      obtain rfl := Option.some.inj (hvalue w' rfl)
      exact .inl ⟨_, _, hleft, hleft, .ofValue k _ _ rfl (fun hc => ⟨hc, rfl⟩)
        fun _ => ⟨rfl, by rw [hk]; rfl⟩⟩
    | none =>
      -- the second run makes a variable of the type of the value
      obtain ⟨d, hd⟩ : ∃ d, Value.default? ty = some d := by
        rw [← hw]
        cases w <;> exact ⟨_, rfl⟩
      have hright : letSymbol name ty none =
          .ok (.ofValue name.name name.token.line d false) := by
        unfold letSymbol Symbol.ofTy
        dsimp only
        rw [hd]
      refine .inl ⟨_, _, hleft, hright, .ofValue k _ _ ?_ (fun hc => nomatch hc) fun hl => ?_⟩
      · rw [Value.ty_of_default? hd, hw]
      · cases hsame hl

/-- The type of a declared variable is the same in both runs. -/
theorem renamed_letTy (name : Ident) (type : Option TypeNode) (value : Option Expr)
    {c c' : Checked} (hc : m.Checks c c') :
    (letTy name type value c').2 = (letTy name type value c).2 ∧
      ((letTy name type value c).1 = none ∧ (letTy name type value c').1 = none ∨
        ∃ ty v v', (letTy name type value c).1 = some (ty, v) ∧
          (letTy name type value c').1 = some (ty, v') ∧ (∀ w, v' = some w → v = some w) ∧
            (m.lossy = false → v' = v) ∧ ∀ w, v = some w → w.ty = ty) := by
  -- a written type is taken without a value wherever the value does not settle it
  have hunknown : ∀ ty : Ty, ∃ ty' v v', (some (ty, none) : Option (Ty × Option Value)) =
      some (ty', v) ∧ (some (ty, none) : Option (Ty × Option Value)) = some (ty', v') ∧
        (∀ w, v' = some w → v = some w) ∧ (m.lossy = false → v' = v) ∧
          ∀ w, v = some w → w.ty = ty' :=
    fun ty => ⟨ty, none, none, rfl, rfl, fun _ hw => hw, fun _ => rfl, fun _ hw => nomatch hw⟩
  unfold letTy
  rw [hc.ty]
  cases type with
  | none =>
    cases value with
    | none => exact ⟨rfl, .inl ⟨rfl, rfl⟩⟩
    | some e =>
      dsimp only
      -- no value to take the type from, then a value without a type
      split
      · exact ⟨rfl, .inl ⟨rfl, rfl⟩⟩
      · split
        · exact ⟨rfl, .inl ⟨rfl, rfl⟩⟩
        · exact ⟨rfl, .inr ⟨_, _, _, rfl, rfl, hc.value, hc.same, hc.typed⟩⟩
  | some tn =>
    cases value with
    | none => exact ⟨rfl, .inr (hunknown tn.ty)⟩
    | some e =>
      dsimp only
      split
      · exact ⟨rfl, .inr (hunknown tn.ty)⟩
      · split
        · next hty => exact ⟨rfl, .inr ⟨_, _, _, rfl, rfl, hc.value, hc.same,
            fun w hw => (hc.typed w hw).trans hty⟩⟩
        · split
          · exact ⟨rfl, .inr (hunknown tn.ty)⟩
          · exact ⟨rfl, .inr (hunknown tn.ty)⟩

/-- Both runs read a let statement: they report the same and declare corresponding symbols. -/
theorem renamed_checkLet (hctx : m.Contexts ctx ctx') (hplaced : m.Placed ctx)
    (hsc : ctx.scope < st.table.scopes.length) {inside : Bool} (h : m.States inside st st')
    (name : Ident) (type : Option TypeNode) (value : Option Expr) :
    m.States inside (checkLet ctx name type value st) (checkLet ctx' name type value st') := by
  have hinit : m.Checks ((value.map (check ctx st.table)).getD (.untyped []))
      ((value.map (check ctx' st'.table)).getD (.untyped [])) := by
    cases value with
    | none => exact .untyped .nil
    | some e => exact renamed_check hctx hplaced h.table e
  obtain ⟨hfindings, hresult⟩ := renamed_letTy name type value hinit
  have hreport := h.report (hinit.findings.append (.refl (letTy name type value
    ((value.map (check ctx st.table)).getD (.untyped []))).2))
  unfold checkLet
  dsimp only
  rw [hfindings]
  rcases hresult with ⟨hleft, hright⟩ | ⟨ty, v, v', hleft, hright, hvalue, hsame, htyped⟩
  · rw [hleft, hright]
    exact hreport
  · rw [hleft, hright]
    dsimp only
    -- what is declared from now on is shown: only older globals may be hidden
    have hk : m.shown st.table.symbols.length = true := h.table.confined.fresh _ (Nat.le_refl _)
    rcases renamed_letSymbol hk name ty hvalue hsame htyped with
      ⟨s, s', hs, hs', hsymbols⟩ | ⟨e, he, he'⟩
    · rw [hs, hs']
      have hdeclared : m.Symbols st.table.symbols.length { s with inferred := type.isNone }
          { s' with inferred := type.isNone } :=
        ⟨hsymbols.name, hsymbols.line, rfl, hsymbols.augmented, hsymbols.content⟩
      refine renamed_declare hctx ?_ hreport ?_ (admitted_of_letSymbol hs) _
      · exact hsc
      · exact hdeclared
    · rw [he, he']
      cases e <;> exact hreport.problem _ _

/-- Whether a symbol has a known value does not change its parameters and names. -/
theorem params_setCalculated (s : Symbol) (b : Bool) :
    (s.setCalculated b).params = s.params ∧ (s.setCalculated b).name = s.name ∧
      (s.setCalculated b).augmented = s.augmented := by
  unfold Symbol.setCalculated Symbol.params
  cases hc : s.content with
  | «variable» v c => exact ⟨rfl, rfl, rfl⟩
  | function ps result => simp [hc]

/-- An assignment does not change the parameters and names of a symbol. -/
theorem params_assigned (unknowable : Bool) (v : Option Value) (s : Symbol) :
    (assigned unknowable v s).params = s.params ∧ (assigned unknowable v s).name = s.name ∧
      (assigned unknowable v s).augmented = s.augmented := by
  unfold assigned
  split
  · next s' hs' =>
    cases unknowable with
    | true => cases hs'
    | false =>
      obtain ⟨w, -, hw⟩ := Option.bind_eq_some_iff.mp hs'
      unfold Symbol.store? at hw
      cases hc : s.content with
      | «variable» u c =>
        rw [hc] at hw
        dsimp only at hw
        split at hw
        · obtain rfl := Option.some.inj hw
          exact ⟨by simp only [Symbol.params, hc], rfl, rfl⟩
        · cases hw
      | function ps result =>
        rw [hc] at hw
        cases hw
  · exact params_setCalculated s false

/-- A variable of which nothing is known any more. -/
theorem Renaming.Symbols.setCalculated {k : SymbolId} {s s' : Symbol} (h : m.Symbols k s s') :
    m.Symbols k (s.setCalculated false) (s'.setCalculated false) := by
  unfold Symbol.setCalculated
  rcases h.cases with ⟨v, c, v', c', hc, hc', hty, -, hsame⟩ | ⟨ps, result, hc, hc'⟩
  · rw [hc, hc']
    exact ⟨h.name, h.line, h.inferred, h.augmented,
      .variable hty (fun hfalse => nomatch hfalse) fun hl => ⟨(hsame hl).1, rfl⟩⟩
  · rw [hc, hc']
    exact h

/-- A value is assigned in both runs. If it is stored, both runs show what is known of it. -/
theorem renamed_assigned {k : SymbolId} {unknowable : Bool}
    (hk : m.shown k = true ∨ unknowable = true) {v v' : Option Value}
    (hvalue : ∀ w, v' = some w → v = some w) (hsame : m.lossy = false → v' = v) {s s' : Symbol}
    (h : m.Symbols k s s') :
    m.Symbols k (assigned unknowable v s) (assigned unknowable v' s') := by
  rcases h.cases with ⟨u, c, u', c', hc, hc', hty, -, -⟩ | ⟨ps, result, hc, hc'⟩
  · cases unknowable with
    | true => exact h.setCalculated
    | false =>
      have hk := hk.resolve_right Bool.false_ne_true
      cases v' with
      | none =>
        rw [assigned_none]
        cases v with
        | none =>
          rw [assigned_none]
          exact h.setCalculated
        | some w =>
          rw [assigned_some hc]
          split
          · next hw =>
            -- the first run stores the value, the second forgets it: the type is the same
            have hforgotten :
                s'.setCalculated false = { s' with content := .variable u' false } := by
              unfold Symbol.setCalculated
              rw [hc']
            rw [hforgotten]
            exact ⟨h.name, h.line, h.inferred, h.augmented, .variable (hty.trans hw.symm)
              (fun hfalse => nomatch hfalse) fun hl => nomatch hsame hl⟩
          · exact h.setCalculated
      | some w =>
        rw [hvalue w rfl, assigned_some hc, assigned_some hc', hty]
        split
        · exact ⟨h.name, h.line, h.inferred, h.augmented,
            .variable rfl (fun _ => ⟨rfl, rfl⟩) fun _ => ⟨rfl, by rw [hk]; rfl⟩⟩
        · exact h.setCalculated
  · -- a function stays as it is
    have hleft : assigned unknowable v s = s := by
      cases unknowable <;> cases v <;> simp [assigned, Symbol.store?, Symbol.setCalculated, hc]
    have hright : assigned unknowable v' s' = s' := by
      cases unknowable <;> cases v' <;> simp [assigned, Symbol.store?, Symbol.setCalculated, hc']
    rw [hleft, hright]
    exact h

/-- Whether the value of a name can be known after an assignment is the same in both runs. -/
theorem renamed_isUnknowable (hctx : m.Contexts ctx ctx') {t t' : Table} (ht : m.Tables t t')
    (k : SymbolId) (x : Text) :
    isUnknowable ctx' t' (m.symbol k) x = isUnknowable ctx t k x := by
  unfold isUnknowable
  rw [hctx.fn]
  cases ctx.fn with
  | none => rfl
  | some f =>
    dsimp only [Option.map_some]
    rw [hctx.isGlobal ht]
    refine congrArg _ (Bool.eq_iff_iff.mpr ?_)
    rw [List.contains_iff_mem, List.contains_iff_mem]
    exact List.mem_map_of_injective m.symbol_injective

/-- **Both runs read an assignment.** Either the symbol is shown, and both runs store what they know, or
it is a global that a function assigns, and neither of them keeps a value. -/
theorem renamed_checkAssign (hctx : m.Contexts ctx ctx') (hplaced : m.Placed ctx) {inside : Bool}
    (h : m.States inside st st') (name : Ident) (e : Expr) :
    m.States inside (checkAssign ctx name e st) (checkAssign ctx' name e st') := by
  have hc := renamed_check hctx hplaced h.table e
  have hreport := h.report hc.findings
  unfold checkAssign
  dsimp only [State.table_report]
  rw [hctx.scope, h.table.find?]
  cases hfind : st.table.find? ctx.scope name.name with
  | none => exact hreport.problem _ _
  | some k =>
    dsimp only [Option.map_some]
    rcases h.table.symbol? k with ⟨hs, hs'⟩ | ⟨s, s', hs, hs', hsymbols⟩
    · rw [hs, hs']
      exact hreport.problem _ _
    · rw [hs, hs']
      dsimp only
      rw [renamed_isUnknowable hctx h.table, hsymbols.name, hsymbols.ty, hc.ty]
      have hclear := hreport.withTable (h.table.modify (k := k) (fun _ _ _ hs => hs.setCalculated)
        (fun s => Symbol.same_setCalculated s false) (h.table.closed.modify k fun s =>
          (params_setCalculated s false).imp id fun h => h.imp id .inl))
      rcases hsymbols.cases with ⟨v, c, v', c', hcontent, hcontent', hty, -, -⟩ |
        ⟨ps, result, hcontent, hcontent'⟩
      · rw [hcontent, hcontent']
        dsimp only
        rw [hty]
        split
        · exact hclear
        · split
          · exact hreport.problem _ _
          · split
            · exact hreport.problem _ _
            · -- where the second run hides something, the value is not kept
              have hkept : m.shown k = true ∨ isUnknowable ctx st.table k s.name = true := by
                refine (shown_or_global hctx hplaced h.table hfind hs).imp_right ?_
                rintro ⟨hglobal, hfn⟩
                obtain ⟨f, hf⟩ := Option.isSome_iff_exists.mp hfn
                simp only [isUnknowable, hf, hglobal, Bool.true_or]
              exact hreport.withTable (h.table.modify
                (fun _ _ _ hs => renamed_assigned hkept hc.value hc.same hs) (same_assigned _ _)
                (h.table.closed.modify k fun s =>
                  (params_assigned _ _ s).imp id fun h => h.imp id .inl))
      · rw [hcontent, hcontent']
        exact hreport.problem _ _

/-! ### Returns -/

/-- Both runs take the type of a return for their function. -/
theorem renamed_returnTy (h : m.States true st st') (f : Frame) (got : Ty) (hasValue : Bool)
    (tok : Token) :
    m.States true (returnTy f got hasValue tok st) (returnTy (m.frame f) got hasValue tok st') := by
  have hmarked := h.markReturned
  have hreturns := hmarked.returns rfl
  unfold returnTy Renaming.frame
  dsimp only
  -- without a declared type, the first return of the body gives the type; both runs have the same one
  cases f.declared with
  | none =>
    dsimp only
    unfold inferReturn
    rw [hreturns]
    cases st.markReturned.returns.first with
    | none => exact ⟨hmarked.table, fun _ => rfl, hmarked.found⟩
    | some b =>
      dsimp only
      split
      · exact hmarked
      · exact hmarked.problem _ _
  | some declared =>
    dsimp only
    unfold declaredReturn
    split
    · exact hmarked.problem _ _
    · split
      · exact hmarked.problem _ _
      · split
        · exact hmarked.problem _ _
        · exact hmarked

/-- Both runs read a return statement. -/
theorem renamed_checkReturn (hctx : m.Contexts ctx ctx') (hplaced : m.Placed ctx) {inside : Bool}
    (hinside : ctx.fn.isSome = true → inside = true) (h : m.States inside st st') (tok : Token)
    (value : Option Expr) :
    m.States inside (checkReturn ctx tok value st) (checkReturn ctx' tok value st') := by
  unfold checkReturn
  rw [hctx.fn]
  cases hfn : ctx.fn with
  | none => exact h
  | some f =>
    obtain rfl : inside = true := hinside (by rw [hfn]; rfl)
    cases value with
    | none => exact renamed_returnTy h f .void false tok
    | some e =>
      have hc := renamed_check hctx hplaced h.table e
      have hreport := h.report hc.findings
      dsimp only [Option.map_some]
      rw [hc.ty]
      split
      · exact hreport.markReturned
      · split
        · exact (hreport.problem _ _).markReturned
        · exact renamed_returnTy hreport f _ true _

/-! ### All statements -/

/-- Both runs read an expression that stands as a statement. -/
theorem renamed_checkExprStmt (hctx : m.Contexts ctx ctx') (hplaced : m.Placed ctx) {inside : Bool}
    (h : m.States inside st st') (e : Expr) :
    m.States inside (checkExprStmt ctx e st) (checkExprStmt ctx' e st') := by
  have hreport := h.report (renamed_check hctx hplaced h.table e).findings
  unfold checkExprStmt
  dsimp only
  split
  · exact hreport
  · exact hreport.problem _ _

/-- A block in both runs. -/
theorem Renaming.Contexts.block (hctx : m.Contexts ctx ctx') (ht : m.Tables st.table st'.table) :
    m.Contexts (blockContext ctx st) (blockContext ctx' st') :=
  ⟨hctx.options, hctx.global, hctx.global', (ht.nextScope 0).symm, hctx.fn, hctx.mutated,
    hctx.mutated'⟩

end

mutual

/-- **Statements in both runs.** -/
theorem renamed_checkStmt {ctx ctx' : Context} {st st' : State} {inside : Bool}
    (hctx : m.Contexts ctx ctx') (hplaced : m.Placed ctx)
    (hinside : ctx.fn.isSome = true → inside = true) (hsc : ctx.scope < st.table.scopes.length)
    (h : m.States inside st st') :
    (s : Stmt) → m.States inside (checkStmt ctx st s) (checkStmt ctx' st' s)
  | .letDecl _ name type value => by
    rw [checkStmt, checkStmt]
    exact renamed_checkLet hctx hplaced hsc h name type value
  | .assign _ name value => by
    rw [checkStmt, checkStmt]
    exact renamed_checkAssign hctx hplaced h name value
  | .ret tok value => by
    rw [checkStmt, checkStmt]
    exact renamed_checkReturn hctx hplaced hinside h tok value
  | .expr _ e => by
    rw [checkStmt, checkStmt]
    exact renamed_checkExprStmt hctx hplaced h e
  | .block _ body => by
    rw [checkStmt_block, checkStmt_block]
    have hstart : m.States inside (scopeStart ctx "block" st.returns st)
        (scopeStart ctx' "block" st'.returns st') := by
      unfold scopeStart
      rw [hctx.scope]
      exact h.withTable (h.table.addScope hsc (.inl hplaced.base) "block")
    exact renamed_checkStmts (hctx.block h.table)
      ⟨Nat.le_trans hplaced.base (Nat.le_of_lt hsc), hplaced.fn⟩ hinside
      (scope_lt_blockStart ctx st) hstart body
  | .fn head _ _ => by
    rw [checkStmt, checkStmt]
    exact h.problem _ _
  | .hole => by
    rw [checkStmt, checkStmt]
    exact h

/-- Both runs read some statements. -/
theorem renamed_checkStmts {ctx ctx' : Context} {st st' : State} {inside : Bool}
    (hctx : m.Contexts ctx ctx') (hplaced : m.Placed ctx)
    (hinside : ctx.fn.isSome = true → inside = true) (hsc : ctx.scope < st.table.scopes.length)
    (h : m.States inside st st') :
    (ss : List Stmt) → m.States inside (checkStmts ctx st ss) (checkStmts ctx' st' ss)
  | [] => by
    rw [checkStmts, checkStmts]
    exact h
  | s :: ss => by
    rw [checkStmts, checkStmts]
    exact renamed_checkStmts hctx hplaced hinside ((grows_checkStmt ctx st hsc s).scope_lt hsc)
      (renamed_checkStmt hctx hplaced hinside hsc h s) ss

end

section
variable {ctx ctx' : Context} {st st' : State} {inside : Bool}

/-! ### Functions -/

/-- Parameters are symbols that were made. -/
theorem lt_of_mem_makeParams {seen : List Text} {st : State} {ps : List ParamDecl} {q : Param}
    (hq : q ∈ (makeParams seen st ps).2) :
    q.id < (makeParams seen st ps).1.table.symbols.length := by
  fun_induction makeParams seen st ps with
  | case1 => cases hq
  | case2 seen st p ps name hseen ih => exact ih hq
  | case3 seen st p ps name hseen s hs st₁ id hadd st₂ rest hrest ih =>
    have hgrows := grows_makeParams globalScope (name :: seen) st₁ ps
    rw [hrest] at ih hgrows
    rcases List.mem_cons.mp hq with rfl | hq
    · obtain ⟨rfl, rfl⟩ := Prod.mk.inj hadd
      have hnew : st.table.symbols.length < (st.table.symbols ++ [s]).length := by simp
      exact hgrows.table.symbol_lt hnew
    · exact ih hq
  | case4 seen st p ps name hseen n ty hs ih => exact ih hq
  | case5 seen st p ps name hseen e hne hs ih => exact ih hq

/-- The symbol of a function may be added to a table that has its parameters. -/
theorem admitted_of_makeFunction {head : FnHead} {params : List Param} {result : Ty}
    {inferred : Bool} {st' : State} {s : Symbol} {n : Nat}
    (hparams : ∀ p ∈ params, IsValue p.ty ∧ p.id < n)
    (h : makeFunction head params result inferred st = (st', some s)) : s.Admitted n := by
  have htypes : ∀ p ∈ params, IsValue p.ty := fun p hp => (hparams p hp).1
  have hresult := (makeFunction_some h).2.2.2
  rw [makeFunction_eq htypes hresult] at h
  obtain rfl := Option.some.inj (Prod.mk.inj h).2
  exact ⟨⟨htypes, hresult⟩, rfl, fun p hp => (hparams p hp).2⟩

/-- Both runs add a symbol. -/
theorem renamed_addSymbol (h : m.States inside st st') {s s' : Symbol}
    (hs : m.Symbols st.table.symbols.length s s') (hadmitted : s.Admitted st.table.symbols.length) :
    m.States inside (st.addSymbol s).1 (st'.addSymbol s').1 :=
  h.withTable (h.table.addSymbol hs hadmitted)

/-- Both runs make the same parameters, under corresponding numbers. -/
theorem renamed_makeParams (seen : List Text) (h : m.States inside st st') (ps : List ParamDecl) :
    m.States inside (makeParams seen st ps).1 (makeParams seen st' ps).1 ∧
      (makeParams seen st' ps).2 = (makeParams seen st ps).2.map m.param ∧
        ∀ p ∈ (makeParams seen st ps).2, m.shown p.id = true := by
  induction ps generalizing seen st st' with
  | nil => exact ⟨h, rfl, fun p hp => (nomatch hp)⟩
  | cons p ps ih =>
    rw [makeParams, makeParams]
    dsimp only
    -- a parameter whose name was seen is reported and skipped, so both lists stay in step
    split
    · exact ih seen (h.problem _ _)
    · cases hs : Symbol.ofTy p.type.ty p.name.name p.name.token.line with
      | ok s =>
        have hadd := renamed_addSymbol h (renamed_ofTy _ hs) (admitted_of_ofTy hs)
        obtain ⟨hrest, hparams, hshown⟩ := ih (p.name.name :: seen) hadd
        have hnew : m.symbol st.table.symbols.length = st'.table.symbols.length :=
          h.table.nextSymbol 0
        refine ⟨hrest, ?_, fun q hq => ?_⟩
        · dsimp only
          rw [hparams, List.map_cons]
          unfold Renaming.param State.addSymbol Table.addSymbol
          dsimp only
          rw [hnew]
        · rcases List.mem_cons.mp hq with rfl | hq
          · exact h.table.confined.fresh _ (Nat.le_refl _)
          · exact hshown q hq
      | error e =>
        cases e <;> exact ih (p.name.name :: seen) (h.problem _ _)

/-- A function is made in both runs or in none; its signature refers to corresponding parameters. -/
theorem renamed_makeFunction (head : FnHead) (params : List Param) (result : Ty) (inferred : Bool)
    (h : m.States inside st st') :
    m.States inside (makeFunction head params result inferred st).1
        (makeFunction head (params.map m.param) result inferred st').1 ∧
      Option.Rel (fun s s' => ∀ k, m.Symbols k s s') (makeFunction head params result inferred st).2
        (makeFunction head (params.map m.param) result inferred st').2 := by
  -- what makes a parameter bad is its type and name, which a renaming keeps
  have hcheck : ∀ (index : Nat) (ps : List Param),
      Symbol.checkParams head.name.name index ((ps.map m.param).map some) =
        (Symbol.checkParams head.name.name index (ps.map some)).map (List.map m.param) := by
    intro index ps
    induction ps generalizing index with
    | nil => rfl
    | cons p ps ih =>
      simp only [List.map_cons, Symbol.checkParams, ih]
      unfold Renaming.param
      dsimp only
      split
      · rfl
      · cases Symbol.checkParams head.name.name (index + 1) (ps.map some) <;> rfl
  unfold makeFunction Symbol.ofSignature
  rw [hcheck]
  -- a result that no function may have, then parameters that none may have
  by_cases hreturnable : result.isReturnable = true
  · rw [if_pos hreturnable, if_pos hreturnable]
    cases Symbol.checkParams head.name.name 0 (params.map some) with
    | ok ps =>
      exact ⟨h, .some fun _ => ⟨rfl, rfl, rfl, .inl ⟨rfl, rfl⟩, .function ps result⟩⟩
    | error e =>
      dsimp only [Except.map]
      split
      · exact ⟨h.problem _ _, .none⟩
      · exact ⟨h.problem _ _, .none⟩
  · rw [if_neg hreturnable, if_neg hreturnable]
    exact ⟨h.problem _ _, .none⟩

/-- Binding a name leaves the names that are bound. -/
theorem findIn?_bindName {s : Symbol} {k : SymbolId} (hs : st.table.symbol? k = some s)
    (tok : Token) {i : ScopeId} {x : Text} {j : SymbolId} (hx : st.table.findIn? i x = some j) :
    (bindName ctx Table.bind s k tok st).table.findIn? i x = some j := by
  cases hold : (st.table.findIn? ctx.scope s.name).bind st.table.symbol? with
  | some prev =>
    rw [bindName_of_old hold]
    exact hx
  | none =>
    rw [bindName_of_new hold (Table.bind_eq hs hold)]
    exact Table.findIn?_bound hx ctx.scope (s.name, k)

/-- The parameters of a function are bound in both runs. -/
theorem renamed_bindParams (hctx : m.Contexts ctx ctx') (head : FnHead) (ps : List Param)
    (hps : ∀ p ∈ ps, m.shown p.id = true ∨ ∃ x, st.table.findIn? globalScope x = some p.id)
    (h : m.States inside st st') :
    m.States inside (bindParams ctx head st ps) (bindParams ctx' head st' (ps.map m.param)) := by
  induction ps generalizing st st' with
  | nil => exact h
  | cons p ps ih =>
    rw [List.map_cons, bindParams, bindParams]
    unfold Renaming.param
    dsimp only
    have hrest : ∀ q ∈ ps, m.shown q.id = true ∨
        ∃ x, st.table.findIn? globalScope x = some q.id :=
      fun q hq => hps q (List.mem_cons_of_mem p hq)
    -- a parameter whose symbol is missing is skipped in both runs
    rcases h.table.symbol? p.id with ⟨hs, hs'⟩ | ⟨s, s', hs, hs', hsymbols⟩
    · rw [hs, hs']
      exact ih hrest h
    · rw [hs, hs']
      dsimp only
      -- binding one parameter does not unbind what the whole program lists
      refine ih (fun q hq => (hrest q hq).imp_right ?_)
        (renamed_bindName hctx h hsymbols (fun hfree => ?_) _)
      · rintro ⟨x, hx⟩
        exact ⟨x, findIn?_bindName hs _ hx⟩
      · refine h.table.bind hs hfree ((hps p List.mem_cons_self).imp_right ?_)
        rintro ⟨x, hx⟩
        obtain ⟨y, hy, rfl⟩ := h.table.valid.symbol_of_findIn? hx
        obtain rfl := Option.some.inj (hy.symm.trans hs)
        exact hx

/-- A body in both runs. Either it lies where something may be hidden, or all that may be hidden is
in front of it. -/
theorem renamed_checkBody (hctx : m.Contexts ctx ctx') (hsc : ctx.scope < st.table.scopes.length)
    (hbase : m.base ≤ ctx.scope ∨ ctx.scope = globalScope ∧ m.base = st.table.scopes.length)
    (head : FnHead) (declared : Option Ty) (params : List Param)
    (hparams : ∀ p ∈ params, m.shown p.id = true ∨
      ∃ x, st.table.findIn? globalScope x = some p.id)
    (body : List Stmt) (h : m.States inside st st') :
    m.States true (checkBody ctx head declared params body st)
      (checkBody ctx' head declared (params.map m.param) body st') := by
  -- inside, the context is that of the new scope, with the same frame under the renaming
  have hbody : m.Contexts (bodyContext ctx head declared params st)
      (bodyContext ctx' head declared (params.map m.param) st') := by
    refine ⟨hctx.options, hctx.global, hctx.global', (h.table.nextScope 0).symm, ?_, hctx.mutated,
      hctx.mutated'⟩
    simp only [bodyContext, Renaming.frame, Option.map_some, List.map_map]
    rfl
  have hstart : m.States true (scopeStart ctx head.name.name ⟨false, none⟩ st)
      (scopeStart ctx' head.name.name ⟨false, none⟩ st') := by
    unfold scopeStart
    rw [hctx.scope]
    exact (h.withTable (h.table.addScope hsc hbase head.name.name)).withReturns true ⟨false, none⟩
  have hbound : ∀ p ∈ params, m.shown p.id = true ∨ ∃ x,
      (scopeStart ctx head.name.name ⟨false, none⟩ st).table.findIn? globalScope x = some p.id := by
    intro p hp
    refine (hparams p hp).imp_right ?_
    rintro ⟨x, hx⟩
    refine ⟨x, ?_⟩
    rw [Table.findIn?_eq_lookup] at hx ⊢
    exact (congrArg (·.lookup x) (Table.namesOf_addScope st.table (some ctx.scope) head.name.name
      globalScope)).trans hx
  -- in a body something may be hidden, as a function is being read
  have hplaced : m.Placed (bodyContext ctx head declared params st) := by
    refine ⟨?_, fun _ _ => rfl⟩
    rcases hbase with hbase | ⟨-, hbase⟩
    · exact Nat.le_trans hbase (Nat.le_of_lt hsc)
    · exact Nat.le_of_eq hbase
  rw [checkBody_eq, checkBody_eq]
  exact renamed_checkStmts hbody hplaced (fun _ => rfl)
    (scope_lt_bodyStart ctx head declared params st)
    (renamed_bindParams hbody head params hbound hstart) body

/-- Both runs read the body of a function with a declared result. -/
theorem renamed_checkDeclared (hctx : m.Contexts ctx ctx')
    (hsc : ctx.scope < st.table.scopes.length)
    (hbase : m.base ≤ ctx.scope ∨ ctx.scope = globalScope ∧ m.base = st.table.scopes.length)
    (head : FnHead) (params : List Param) (result : Ty)
    (hparams : ∀ p ∈ params, m.shown p.id = true ∨
      ∃ x, st.table.findIn? globalScope x = some p.id)
    (body : List Stmt) (h : m.States inside st st') :
    m.States true (checkDeclared ctx head params result body st)
      (checkDeclared ctx' head (params.map m.param) result body st') := by
  have hst := renamed_checkBody hctx hsc hbase head (some result) params hparams body h
  unfold checkDeclared
  dsimp only
  rw [hst.returns rfl]
  split
  · exact hst.problem _ _
  · exact hst

/-- A function is made and declared in both runs, or it is made in neither. -/
theorem renamed_declareFunction (hctx : m.Contexts ctx ctx')
    (hsc : ctx.scope < st.table.scopes.length) (h : m.States inside st st') (head : FnHead)
    {params : List Param}
    (hparams : ∀ p ∈ params, IsValue p.ty ∧ p.id < st.table.symbols.length) (result : Ty)
    (inferred : Bool) :
    (∃ st₁ st₂, makeFunction head params result inferred st = (st₁, none) ∧
      makeFunction head (params.map m.param) result inferred st' = (st₂, none) ∧
        m.States inside st₁ st₂) ∨
      ∃ st₁ st₂ s s', makeFunction head params result inferred st = (st₁, some s) ∧
        makeFunction head (params.map m.param) result inferred st' = (st₂, some s') ∧
          (∀ k, m.Symbols k s s') ∧ m.States inside (declare ctx s head.name.token st₁)
            (declare ctx' s' head.name.token st₂) := by
  obtain ⟨hnext, hsymbol⟩ := renamed_makeFunction head params result inferred h
  have hgrows := grows_makeFunction ctx.scope head params result inferred st
  -- the symbol is made in both runs or in neither
  cases hmake : makeFunction head params result inferred st with
  | mk st₁ o =>
    cases hmake' : makeFunction head (params.map m.param) result inferred st' with
    | mk st₂ o' =>
      rw [hmake, hmake'] at hsymbol hnext
      rw [hmake] at hgrows
      cases hsymbol with
      | none => exact .inl ⟨st₁, st₂, rfl, rfl, hnext⟩
      | @some s s' hs =>
        obtain ⟨rfl, -⟩ := makeFunction_some hmake
        exact .inr ⟨st₁, st₂, s, s', rfl, rfl, hs, renamed_declare hctx (hgrows.scope_lt hsc) hnext
          (hs _) (admitted_of_makeFunction hparams hmake) _⟩

/-- Where nothing is hidden, a function without a written type is read in both runs. -/
theorem renamed_checkInferred (hctx : m.Contexts ctx ctx') (hplaced : m.Placed ctx)
    (hsc : ctx.scope < st.table.scopes.length) (head : FnHead) (body : List Stmt)
    (h : m.States inside st st') :
    m.States true (checkInferred ctx head body st) (checkInferred ctx' head body st') := by
  obtain ⟨hmade, hparams, hshown⟩ := renamed_makeParams [] h head.params
  have hscmade : ctx.scope < (makeParams [] st head.params).1.table.scopes.length :=
    (grows_makeParams ctx.scope [] st head.params).scope_lt hsc
  have hst := renamed_checkBody hctx hscmade (.inl hplaced.base) head none
    (makeParams [] st head.params).2 (fun p hp => .inl (hshown p hp)) body hmade
  have hscbody := (grows_checkBody ctx _ hscmade head none (makeParams [] st head.params).2
    body).scope_lt hscmade
  unfold checkInferred
  dsimp only
  rw [hparams, hst.returns rfl]
  -- the parameters were made before the body was read
  have hvalues : ∀ p ∈ (makeParams [] st head.params).2, IsValue p.ty ∧
      p.id < (checkBody ctx head none (makeParams [] st head.params).2 body
        (makeParams [] st head.params).1).table.symbols.length :=
    fun p hp => ⟨isValue_of_mem_makeParams hp, Nat.lt_of_lt_of_le (lt_of_mem_makeParams hp)
      (grows_checkBody ctx _ hscmade head none _ body).table.symbols_le⟩
  rcases renamed_declareFunction hctx hscbody hst head hvalues
      (checkBody ctx head none (makeParams [] st head.params).2 body
        (makeParams [] st head.params).1).returns.ty true with
    ⟨st₁, st₂, hmake, hmake', hnext⟩ | ⟨st₁, st₂, s, s', hmake, hmake', -, hnext⟩
  · rw [hmake, hmake']
    exact hnext
  · rw [hmake, hmake']
    exact hnext.note rfl rfl

/-! ### Programs -/

/-- Both runs collect the signature of a statement. -/
theorem renamed_hoist (hctx : m.Contexts ctx ctx') (hsc : ctx.scope < st.table.scopes.length)
    (h : m.States inside st st') (s : Stmt) :
    m.States inside (hoist ctx st s).1 (hoist ctx' st' s).1 ∧
      Option.Rel (fun s s' => ∀ k, m.Symbols k s s') (hoist ctx st s).2 (hoist ctx' st' s).2 := by
  cases s with
  | fn head brace body =>
    unfold hoist
    dsimp only
    cases head.result with
    | none => exact ⟨h, .none⟩
    | some result =>
      obtain ⟨hmade, hparams, -⟩ := renamed_makeParams [] h head.params
      have hscmade : ctx.scope < (makeParams [] st head.params).1.table.scopes.length :=
        (grows_makeParams ctx.scope [] st head.params).scope_lt hsc
      dsimp only
      rw [hparams]
      rcases renamed_declareFunction hctx hscmade hmade head
          (fun _ hp => ⟨isValue_of_mem_makeParams hp, lt_of_mem_makeParams hp⟩) result.ty false with
        ⟨st₁, st₂, hmake, hmake', hnext⟩ | ⟨st₁, st₂, s, s', hmake, hmake', hs, hnext⟩
      · rw [hmake, hmake']
        exact ⟨hnext, .none⟩
      · rw [hmake, hmake']
        exact ⟨hnext.note rfl rfl, .some hs⟩
  | _ => exact ⟨h, .none⟩

/-- The statements of a program with their signatures in both runs. -/
abbrev Renaming.Hoisted (m : Renaming) (a b : Stmt × Option Symbol) : Prop :=
  b.1 = a.1 ∧ Option.Rel (fun s s' => ∀ k, m.Symbols k s s') a.2 b.2

/-- **The first pass in both runs.** -/
theorem renamed_hoistAll (hctx : m.Contexts ctx ctx') (hsc : ctx.scope < st.table.scopes.length)
    (h : m.States inside st st') (p : Program) :
    m.States inside (hoistAll ctx st p).1 (hoistAll ctx' st' p).1 ∧
      List.Forall₂ m.Hoisted (hoistAll ctx st p).2 (hoistAll ctx' st' p).2 := by
  induction p generalizing st st' with
  | nil => exact ⟨h, .nil⟩
  | cons s ss ih =>
    obtain ⟨hfirst, hsignature⟩ := renamed_hoist hctx hsc h s
    obtain ⟨hrest, hall⟩ := ih ((grows_hoist ctx st s).scope_lt hsc) hfirst
    exact ⟨hrest, .cons ⟨rfl, hsignature⟩ hall⟩

/-- A statement of the second pass in both runs, where nothing is hidden. -/
theorem renamed_checkTop (hctx : m.Contexts ctx ctx') (hplaced : m.Placed ctx)
    (hshown : ∀ k, m.shown k = true) (hfn : ctx.fn = none)
    (hsc : ctx.scope < st.table.scopes.length) (h : m.States false st st')
    {a b : Stmt × Option Symbol} (hab : m.Hoisted a b) :
    m.States false (checkTop ctx st a) (checkTop ctx' st' b) := by
  obtain ⟨s, signature⟩ := a
  obtain ⟨s', signature'⟩ := b
  obtain ⟨rfl, hsignature⟩ := hab
  have hinside : ctx.fn.isSome = true → false = true := by
    rw [hfn]
    exact id
  -- only functions treat their signature apart; any other statement is read as in a body
  cases s' with
  | fn head brace body =>
    unfold checkTop
    dsimp only at hsignature ⊢
    cases head.result with
    | none => exact (renamed_checkInferred hctx hplaced hsc head body h).leave
    | some result =>
      cases hsignature with
      | none => exact h
      | some hs =>
        dsimp only
        rw [(hs 0).params]
        exact (renamed_checkDeclared hctx hsc (.inl hplaced.base) head _ _
          (fun p _ => .inl (hshown p.id)) body h).leave
  | _ => exact renamed_checkStmt hctx hplaced hinside hsc h _

/-- **The second pass in both runs**, where nothing is hidden. -/
theorem renamed_checkTops (hctx : m.Contexts ctx ctx') (hplaced : m.Placed ctx)
    (hshown : ∀ k, m.shown k = true) (hfn : ctx.fn = none)
    (hsc : ctx.scope < st.table.scopes.length) (h : m.States false st st')
    {l l' : List (Stmt × Option Symbol)} (hl : List.Forall₂ m.Hoisted l l') :
    m.States false (l.foldl (checkTop ctx) st) (l'.foldl (checkTop ctx') st') := by
  induction hl generalizing st st' with
  | nil => exact h
  | @cons a b _ _ hab _ ih =>
    exact ih ((grows_checkTop ctx st hsc a).scope_lt hsc)
      (renamed_checkTop hctx hplaced hshown hfn hsc h hab)

/-- The first pass begins in the same state. -/
theorem renamed_startState (hshown : ∀ k, m.shown k = true)
    (hscope : ∀ n, m.scope (1 + n) = 1 + n) (hsymbol : ∀ n, m.symbol n = n)
    (hbefore : m.before = []) (hbefore' : m.before' = []) :
    m.States false startState startState := by
  -- before anything is read there is one scope, without names, and no symbol
  have honly : ∀ i s, startState.table.scope? i = some s →
      i = globalScope ∧ s = ⟨0, globalName, [], []⟩ := by
    intro i s hs
    rcases i with _ | i
    · exact ⟨rfl, (Option.some.inj hs).symm⟩
    · cases hs
  have htable : m.Tables startState.table startState.table :=
    { scopes := fun i s hs => by
        obtain ⟨rfl, rfl⟩ := honly i s hs
        rw [m.scope_global]
        exact ⟨_, hs, rfl, m.scope_global.symm, rfl, rfl, .nil⟩
      symbols := fun k s hs => (nomatch hs)
      nextScope := hscope
      nextSymbol := fun n => hsymbol (0 + n)
      tree := Table.oneTree_freshTable
      tree' := Table.oneTree_freshTable
      valid := valid_freshTable
      closed := ⟨fun k s hs => (nomatch hs), fun k s hs => (nomatch hs)⟩
      confined :=
        { outer := fun i s _ hs o ho => by
            obtain ⟨rfl, rfl⟩ := honly i s hs
            cases ho
          inside := fun i s hi hs => by
            obtain ⟨rfl, -⟩ := honly i s hs
            exact absurd hi (Nat.not_lt_zero _)
          names := fun i _ b _ => .inl (hshown b.2)
          fresh := fun k _ => hshown k } }
  exact ⟨htable, fun hfalse => absurd hfalse Bool.false_ne_true, [], [], by rw [hbefore]; rfl,
    by rw [hbefore']; rfl, .nil⟩

end

end Slang.Analysis
