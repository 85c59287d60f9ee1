import Slang.Analysis.Program
import Slang.Proofs.Table

/-!
# What analysis does to its state

Analysis only ever adds to what it has found, and it changes the table in the ways that
`Table.Extends` allows. Both are said at once by `State.Grows`, and each function of the analysis
has one lemma for it, whatever the program is. So the invariant of tables holds throughout, and a
state without errors comes from a state without errors.

`Table.Declared` says what a declaration does to a table when its name is new, and `declare_of_new`
and `declare_of_old` are the two ways in which a declaration can go.
-/

namespace Slang

open Typing

/-! ### Findings without errors -/

/-- Findings without an error among them. -/
def Clean (fs : List Finding) : Prop := ∀ f ∈ fs, f.what.severity ≠ .error

@[simp] theorem clean_nil : Clean [] := fun _ h => absurd h List.not_mem_nil

@[simp] theorem clean_append {fs gs : List Finding} : Clean (fs ++ gs) ↔ Clean fs ∧ Clean gs := by
  simp [Clean, or_imp, forall_and]

@[simp] theorem clean_finding {tok : Token} {p : SemanticProblem} :
    Clean [tok.finding p] ↔ p.severity ≠ .error := by
  simp [Clean, Token.finding]

/-- Findings of all entries of a list are clean if those of each entry are. -/
theorem clean_flatMap {α : Type} {l : List α} {f : α → List Finding} :
    Clean (l.flatMap f) ↔ ∀ a ∈ l, Clean (f a) := by
  simp only [Clean, List.mem_flatMap]
  constructor
  · intro h a ha x hx
    exact h x ⟨a, ha, hx⟩
  · rintro h x ⟨a, ha, hx⟩
    exact h a ha x hx

namespace Analysis

/-- What was found so far. -/
def State.found (st : State) : List Finding := st.trace.filterMap Event.finding?

/-- What is reported comes at the end. -/
theorem State.found_report (st : State) (fs : List Finding) :
    (st.report fs).found = st.found ++ fs := by
  unfold State.found State.report
  rw [List.filterMap_append, List.filterMap_map]
  exact congrArg _ List.filterMap_some

/-- Notes are no findings. -/
theorem State.found_note (st : State) {e : Event} (he : e.finding? = none) :
    (st.note e).found = st.found := by
  simp [State.found, State.note, he]

/-- A state in which no error has been found. -/
def State.Clean (st : State) : Prop := Slang.Clean (st.trace.filterMap Event.finding?)

@[simp] theorem State.table_report (st : State) (fs : List Finding) :
    (st.report fs).table = st.table := rfl

@[simp] theorem State.returns_report (st : State) (fs : List Finding) :
    (st.report fs).returns = st.returns := rfl

@[simp] theorem State.clean_report {st : State} {fs : List Finding} :
    (st.report fs).Clean ↔ st.Clean ∧ Slang.Clean fs := by
  change Slang.Clean (st.report fs).found ↔ _
  rw [State.found_report, clean_append]
  exact Iff.rfl

@[simp] theorem State.clean_problem {st : State} {tok : Token} {p : SemanticProblem} :
    (st.problem tok p).Clean ↔ st.Clean ∧ p.severity ≠ .error := by
  unfold State.problem
  rw [State.clean_report, clean_finding]

/-- What is known of a symbol has no part in what was found. -/
@[simp] theorem State.clean_modify {st : State} {id : SymbolId} {f : Symbol → Symbol} :
    (st.modify id f).Clean ↔ st.Clean := Iff.rfl

/-- The warnings about shadowing are no errors. -/
theorem clean_shadowing (ctx : Context) (t : Table) (name : Text) (tok : Token) :
    Clean ((shadowing ctx t name).map tok.finding) := by
  unfold shadowing
  split
  · split
    · simp [SemanticProblem.severity]
    · exact clean_nil
  · exact clean_nil

/-! ### Growing states -/

/-- **What reading the statements of scope `sc` may do to a state.** -/
structure State.Grows (sc : ScopeId) (st st' : State) : Prop where
  table : Table.Extends sc st.table st'.table
  trace : ∃ es, st'.trace = st.trace ++ es

namespace State.Grows

variable {sc : ScopeId} {st st' st'' : State}

theorem refl (sc : ScopeId) (st : State) : Grows sc st st := ⟨.refl sc st.table, [], by simp⟩

theorem trans (h : Grows sc st st') (h' : Grows sc st' st'') : Grows sc st st'' := by
  obtain ⟨es, hes⟩ := h.trace
  obtain ⟨es', hes'⟩ := h'.trace
  exact ⟨h.table.trans h'.table, es ++ es', by rw [hes', hes, List.append_assoc]⟩

/-- A state without errors comes from one without errors. -/
theorem clean (h : Grows sc st st') (hc : st'.Clean) : st.Clean := by
  obtain ⟨es, hes⟩ := h.trace
  unfold State.Clean at hc
  rw [hes, List.filterMap_append] at hc
  exact (clean_append.mp hc).1

/-- Only the table and the trace count. -/
theorem of_table (h : Table.Extends sc st.table st'.table) (htrace : st'.trace = st.trace) :
    Grows sc st st' :=
  ⟨h, [], by rw [htrace, List.append_nil]⟩

end State.Grows

section
variable (sc : ScopeId) (st : State)

/-- Findings are added at the end of the trace. -/
theorem grows_report (fs : List Finding) : st.Grows sc (st.report fs) := ⟨.refl sc st.table, _, rfl⟩

theorem grows_problem (tok : Token) (p : SemanticProblem) : st.Grows sc (st.problem tok p) :=
  grows_report sc st _

theorem grows_note (e : Event) : st.Grows sc (st.note e) := ⟨.refl sc st.table, _, rfl⟩

/-- A symbol may change in what is known of it. -/
theorem grows_modify (id : SymbolId) {f : Symbol → Symbol} (hf : ∀ s, Symbol.Same s (f s)) :
    st.Grows sc (st.modify id f) :=
  .of_table (Table.extends_modify sc st.table id hf) rfl

/-- A symbol may be added. -/
theorem grows_addSymbol {s : Symbol} (hs : s.Typed) : st.Grows sc (st.addSymbol s).1 :=
  .of_table (Table.extends_addSymbol sc st.table hs) rfl

end

/-! ### Binding names -/

section
variable {ctx : Context} {s : Symbol} {id : SymbolId} {tok : Token} {st : State}

/-- A name that the scope has is reported. -/
theorem bindName_of_old {binder : Binder} {prev : Symbol}
    (hold : (st.table.findIn? ctx.scope s.name).bind st.table.symbol? = some prev) :
    bindName ctx binder s id tok st = st.problem tok (.redeclared s.name (some prev.line)) := by
  unfold bindName
  rw [hold]

/-- A name that the scope does not have is bound, with a warning if it hides another one. -/
theorem bindName_of_new {binder : Binder} {t : Table}
    (hnew : (st.table.findIn? ctx.scope s.name).bind st.table.symbol? = none)
    (ht : binder st.table ctx.scope id = .ok t) :
    bindName ctx binder s id tok st =
      { st.report ((shadowing ctx st.table s.name).map tok.finding) with table := t } := by
  -- the binder is called after the warnings, which leave the table as it is
  have ht' : binder (st.report ((shadowing ctx st.table s.name).map tok.finding)).table
      ctx.scope id = .ok t := ht
  unfold bindName
  simp only [hnew, ht']

/-- The declaration of a name that the scope has is reported. Its symbol is made all the same, and stays
unbound. -/
theorem declare_of_old {prev : Symbol}
    (hold : (st.table.findIn? ctx.scope s.name).bind (st.addSymbol s).1.table.symbol? =
      some prev) :
    declare ctx s tok st =
      (st.addSymbol s).1.problem tok (.redeclared s.name (some prev.line)) :=
  bindName_of_old hold

/-- The declaration of a new name binds it, perhaps with a warning. -/
theorem declare_of_new (tok : Token)
    (hnew : (st.table.findIn? ctx.scope s.name).bind (st.addSymbol s).1.table.symbol? = none) :
    ∃ f : Symbol → Symbol, (∀ s, ∃ a, f s = { s with augmented := a }) ∧
      ∃ fs, Clean fs ∧ declare ctx s tok st =
        { st.report fs with
          table := ((st.table.addSymbol s).1.bound ctx.scope
            (s.name, st.table.symbols.length)).modify st.table.symbols.length f } := by
  -- what `define` may change beside the scope is the augmented name of the new symbol
  obtain ⟨f, hf, hdefine⟩ := Table.define_eq (Table.symbol?_addSymbol_self st.table s) hnew
  exact ⟨f, hf, _, clean_shadowing _ _ _ _, bindName_of_new hnew hdefine⟩

/-- A declaration is growth, whether its name is new or not. -/
theorem grows_declare (hs : s.Typed) : st.Grows ctx.scope (declare ctx s tok st) := by
  have hadd := grows_addSymbol ctx.scope st hs
  cases hx : (st.table.findIn? ctx.scope s.name).bind (st.addSymbol s).1.table.symbol? with
  | some prev =>
    rw [declare_of_old hx]
    exact hadd.trans (grows_problem ctx.scope _ tok _)
  | none =>
    obtain ⟨f, hf, fs, -, heq⟩ := declare_of_new tok hx
    -- three steps: the symbol is added, its name is bound, and it gets its augmented name
    have hsame := Symbol.same_of_augmented hf
    have hbound := Table.extends_bound ctx.scope
      (b := (s.name, st.table.symbols.length)) (Table.symbol?_addSymbol_self st.table s) rfl
    rw [heq]
    exact ⟨hadd.table.trans (hbound.trans (Table.extends_modify ctx.scope _ _ hsame)), _, rfl⟩

/-- **Declarations without errors** are those of new names. -/
theorem clean_declare (hv : st.table.Valid) (hs : s.Typed) :
    (declare ctx s tok st).Clean ↔
      st.Clean ∧ s.name ∉ (st.table.namesOf ctx.scope).map Prod.fst := by
  have hv' := (Table.extends_addSymbol ctx.scope st.table hs).valid hv
  -- the name is looked up after the symbol was added, which no scope notices
  have hiff := hv'.bind_findIn?_eq_none_iff ctx.scope s.name
  change (_ ↔ s.name ∉ (st.table.namesOf ctx.scope).map Prod.fst) at hiff
  rw [← hiff]
  cases hx : ((st.table.addSymbol s).1.findIn? ctx.scope s.name).bind
      (st.table.addSymbol s).1.symbol? with
  | some prev =>
    rw [declare_of_old hx, State.clean_problem]
    simp [SemanticProblem.severity]
  | none =>
    obtain ⟨f, -, fs, hfs, heq⟩ := declare_of_new tok hx
    rw [heq]
    change ((st.report fs).Clean ↔ _)
    simp [hfs]

/-- What the declaration of a new name does. -/
theorem declared_declare (tok : Token) (hv : st.table.Valid)
    (hsc : ctx.scope < st.table.scopes.length) (hs : s.Typed)
    (hnew : s.name ∉ (st.table.namesOf ctx.scope).map Prod.fst) :
    st.table.Declared ctx.scope s (declare ctx s tok st).table ∧
      (declare ctx s tok st).returns = st.returns := by
  have hv' := (Table.extends_addSymbol ctx.scope st.table hs).valid hv
  obtain ⟨f, hf, fs, -, heq⟩ := declare_of_new tok
    ((hv'.bind_findIn?_eq_none_iff ctx.scope s.name).mpr hnew)
  rw [heq]
  exact ⟨hv.declared hsc hs hf, rfl⟩

end

/-! ### Statements -/

/-- A variable that was made holds a value of its type, and the known value if there is one. -/
theorem letSymbol_ok {name : Ident} {ty : Ty} {value : Option Value} {s : Symbol}
    (h : letSymbol name ty value = .ok s) :
    ∃ v, v.ty = ty ∧ (∀ w, value = some w → v = w) ∧
      s = Symbol.ofValue name.name name.token.line v value.isSome := by
  unfold letSymbol at h
  cases value with
  | none =>
    change Symbol.ofTy ty name.name name.token.line = .ok s at h
    unfold Symbol.ofTy at h
    split at h
    · next v hv => exact ⟨v, Value.ty_of_default? hv, (fun _ hw => by cases hw), (Except.ok.inj h).symm⟩
    · cases h
  | some w =>
    change Symbol.ofOperand ty name.name name.token.line (.value w) = .ok s at h
    unfold Symbol.ofOperand at h
    dsimp only at h
    split at h
    · next hty =>
      exact ⟨w, hty, fun _ hw => Option.some.inj hw, (Except.ok.inj h).symm⟩
    · -- a value of another type never makes a symbol
      unfold Symbol.ofTy at h
      split at h <;> cases h

/-- A variable has no signature that could be unsound. -/
theorem typed_of_letSymbol {name : Ident} {ty : Ty} {value : Option Value} {s : Symbol} {b : Bool}
    (h : letSymbol name ty value = .ok s) : ({ s with inferred := b } : Symbol).Typed := by
  obtain ⟨v, -, -, rfl⟩ := letSymbol_ok h
  exact trivial

section
variable (ctx : Context) (st : State)

/-- What is known of the value of a declaration. -/
def letInit (ctx : Context) (t : Table) (value : Option Expr) : Checked :=
  (value.map (check ctx t)).getD (.untyped [])

/-- What follows the value of a declaration. -/
theorem grows_declareLet (name : Ident) (type : Option TypeNode) (value : Option Expr) :
    (st.report ((letInit ctx st.table value).findings ++
      (letTy name type value (letInit ctx st.table value)).2)).Grows ctx.scope
        (checkLet ctx name type value st) := by
  unfold checkLet letInit
  dsimp only
  -- nothing to declare, a variable that is declared, or a type without values
  split
  · exact .refl _ _
  · split
    · next hs => exact grows_declare (typed_of_letSymbol hs)
    · exact grows_problem _ _ _ _
    · exact grows_problem _ _ _ _

/-- Declarations only add to the state. -/
theorem grows_checkLet (name : Ident) (type : Option TypeNode) (value : Option Expr) :
    st.Grows ctx.scope (checkLet ctx name type value st) :=
  (grows_report _ _ _).trans (grows_declareLet ctx st name type value)

/-- An assignment changes what is known of a variable, and nothing else of it. -/
theorem same_assigned (unknowable : Bool) (value : Option Value) (s : Symbol) :
    Symbol.Same s (assigned unknowable value s) := by
  unfold assigned
  split
  · next s' hs' =>
    split at hs'
    · cases hs'
    · obtain ⟨v, -, hv⟩ := Option.bind_eq_some_iff.mp hs'
      exact Symbol.same_of_store? hv
  · exact Symbol.same_setCalculated s false

/-- What follows the value of an assignment. -/
theorem grows_writeAssign (name : Ident) (value : Expr) :
    (st.report (check ctx st.table value).findings).Grows ctx.scope
      (checkAssign ctx name value st) := by
  unfold checkAssign
  dsimp only
  -- every way out is a report, or a change of what is known of one symbol
  split
  · exact grows_problem _ _ _ _
  · split
    · exact grows_problem _ _ _ _
    · split
      · exact grows_problem _ _ _ _
      · split
        · exact grows_modify _ _ _ fun s => Symbol.same_setCalculated s false
        · split
          · exact grows_problem _ _ _ _
          · split
            · exact grows_problem _ _ _ _
            · exact grows_modify _ _ _ (same_assigned _ _)

/-- Assignments only add to the state. -/
theorem grows_checkAssign (name : Ident) (value : Expr) :
    st.Grows ctx.scope (checkAssign ctx name value st) :=
  (grows_report _ _ _).trans (grows_writeAssign ctx st name value)

/-- A state with other returns. -/
theorem grows_returns (sc : ScopeId) (r : Returns) : st.Grows sc { st with returns := r } :=
  .of_table (.refl sc st.table) rfl

/-- Whether a return was seen is not part of what grows. -/
theorem grows_markReturned (sc : ScopeId) : st.Grows sc st.markReturned := grows_returns st sc _

/-- Comparing the type of a return can only report something. -/
theorem grows_returnTy (sc : ScopeId) (f : Frame) (got : Ty) (hasValue : Bool) (tok : Token) :
    st.Grows sc (returnTy f got hasValue tok st) := by
  unfold returnTy
  split
  · refine (grows_markReturned st sc).trans ?_
    unfold inferReturn
    split
    · exact grows_returns _ _ _
    · split
      · exact .refl _ _
      · exact grows_problem _ _ _ _
  · refine (grows_markReturned st sc).trans ?_
    unfold declaredReturn
    split
    · exact grows_problem _ _ _ _
    · split
      · exact grows_problem _ _ _ _
      · split
        · exact grows_problem _ _ _ _
        · exact .refl _ _

/-- What follows the value of a return. -/
theorem grows_returnValue {f : Frame} (hfn : ctx.fn = some f) (tok : Token) (e : Expr) :
    (st.report (check ctx st.table e).findings).Grows ctx.scope
      (checkReturn ctx tok (some e) st) := by
  unfold checkReturn
  rw [hfn]
  dsimp only
  split
  · exact grows_markReturned _ _
  · split
    · exact (grows_problem _ _ _ _).trans (grows_markReturned _ _)
    · exact grows_returnTy _ _ _ _ _ _

/-- Returns only add to the state. -/
theorem grows_checkReturn (tok : Token) (value : Option Expr) :
    st.Grows ctx.scope (checkReturn ctx tok value st) := by
  -- outside a function a return is not looked at
  cases hfn : ctx.fn with
  | none =>
    unfold checkReturn
    rw [hfn]
    exact .refl _ _
  | some f =>
    cases value with
    | none =>
      unfold checkReturn
      rw [hfn]
      exact grows_returnTy _ _ _ _ _ _
    | some e => exact (grows_report _ _ _).trans (grows_returnValue ctx st hfn tok e)

/-- What follows an expression that is a statement. -/
theorem grows_unusedResult (e : Expr) :
    (st.report (check ctx st.table e).findings).Grows ctx.scope (checkExprStmt ctx e st) := by
  unfold checkExprStmt
  dsimp only
  split
  · exact .refl _ _
  · exact grows_problem _ _ _ _

/-- Expressions as statements only add to the state. -/
theorem grows_checkExprStmt (e : Expr) : st.Grows ctx.scope (checkExprStmt ctx e st) :=
  (grows_report _ _ _).trans (grows_unusedResult ctx st e)

end

/-- A scope that is there stays there. -/
theorem State.Grows.scope_lt {sc i : ScopeId} {st st' : State} (h : st.Grows sc st')
    (hi : i < st.table.scopes.length) : i < st'.table.scopes.length :=
  Nat.lt_of_lt_of_le hi h.table.scopes_le

/-- **Leaving an inner scope.** What happened in a new scope inside `sc` is growth of `sc`. -/
theorem State.Grows.of_inner {sc : ScopeId} {st st' : State} {name : Text}
    (hsc : sc < st.table.scopes.length)
    (h : State.Grows st.table.scopes.length
      { st with table := (st.table.addScope (some sc) name).1 } st') : st.Grows sc st' :=
  ⟨.of_inner hsc h.table, h.trace⟩

/-- A new scope takes the number after all others. -/
theorem lt_scopes_addScope (t : Table) (o : Option ScopeId) (name : Text) :
    t.scopes.length < (t.addScope o name).1.scopes.length := by
  simp [Table.addScope]

/-- The state in which a new scope inside the current one begins. -/
def scopeStart (ctx : Context) (name : Text) (r : Returns) (st : State) : State :=
  { st with table := (st.table.addScope (some ctx.scope) name).1, returns := r }

/-- What does not change while a block is read. -/
def blockContext (ctx : Context) (st : State) : Context :=
  { ctx with scope := st.table.scopes.length }

/-- The scope of a block is there when the block begins. -/
theorem scope_lt_blockStart (ctx : Context) (st : State) :
    (blockContext ctx st).scope < (scopeStart ctx "block" st.returns st).table.scopes.length :=
  lt_scopes_addScope st.table (some ctx.scope) "block"

/-- A block is read in a scope of its own, with the returns of the function around it. -/
theorem checkStmt_block (ctx : Context) (st : State) (tok : Token) (body : List Stmt) :
    checkStmt ctx st (.block tok body) =
      checkStmts (blockContext ctx st) (scopeStart ctx "block" st.returns st) body := by
  rw [checkStmt]
  rfl

mutual

theorem grows_checkStmt (ctx : Context) (st : State) (hsc : ctx.scope < st.table.scopes.length) :
    (s : Stmt) → st.Grows ctx.scope (checkStmt ctx st s)
  | .letDecl _ name type value => by
    rw [checkStmt]
    exact grows_checkLet ctx st name type value
  | .assign _ name value => by
    rw [checkStmt]
    exact grows_checkAssign ctx st name value
  | .ret tok value => by
    rw [checkStmt]
    exact grows_checkReturn ctx st tok value
  | .expr _ e => by
    rw [checkStmt]
    exact grows_checkExprStmt ctx st e
  | .block _ body => by
    rw [checkStmt_block]
    exact .of_inner hsc (grows_checkStmts _ _ (scope_lt_blockStart ctx st) body)
  | .fn head _ _ => by
    rw [checkStmt]
    exact grows_problem _ _ _ _
  | .hole => by
    rw [checkStmt]
    exact .refl _ _

/-- **Statements only add to the state.** -/
theorem grows_checkStmts (ctx : Context) (st : State) (hsc : ctx.scope < st.table.scopes.length) :
    (ss : List Stmt) → st.Grows ctx.scope (checkStmts ctx st ss)
  | [] => by
    rw [checkStmts]
    exact .refl _ _
  | s :: ss => by
    rw [checkStmts]
    have hs := grows_checkStmt ctx st hsc s
    exact hs.trans (grows_checkStmts ctx _ (hs.scope_lt hsc) ss)

end

/-! ### Functions -/

/-- A variable that is made from a type. -/
theorem ofTy_ok {ty : Ty} {name : Text} {line : Int} {s : Symbol}
    (h : Symbol.ofTy ty name line = .ok s) :
    ∃ v, v.ty = ty ∧ s = Symbol.ofValue name line v false := by
  unfold Symbol.ofTy at h
  split at h
  · next v hv => exact ⟨v, Value.ty_of_default? hv, (Except.ok.inj h).symm⟩
  · cases h

/-- Making the parameters of a function only adds to the state. -/
theorem grows_makeParams (sc : ScopeId) (seen : List Text) (st : State) (ps : List ParamDecl) :
    st.Grows sc (makeParams seen st ps).1 := by
  fun_induction makeParams seen st ps with
  | case1 => exact .refl _ _
  | case2 seen st p ps name hseen ih => exact (grows_problem _ _ _ _).trans ih
  -- the only case that makes a symbol
  | case3 seen st p ps name hseen s hs st₁ id hadd st₂ rest hrest ih =>
    obtain ⟨v, -, rfl⟩ := ofTy_ok hs
    have hgrows := grows_addSymbol sc st
      (s := Symbol.ofValue name p.name.token.line v false) trivial
    rw [hadd] at hgrows
    rw [hrest] at ih
    exact hgrows.trans ih
  | case4 seen st p ps name hseen n ty hs ih => exact (grows_problem _ _ _ _).trans ih
  | case5 seen st p ps name hseen e hne hs ih => exact (grows_problem _ _ _ _).trans ih

/-- Parameters are of types that variables have. -/
theorem isValue_of_mem_makeParams {seen : List Text} {st : State} {ps : List ParamDecl} {q : Param}
    (hq : q ∈ (makeParams seen st ps).2) : IsValue q.ty := by
  fun_induction makeParams seen st ps with
  | case1 => cases hq
  | case2 seen st p ps name hseen ih => exact ih hq
  | case3 seen st p ps name hseen s hs st₁ id hadd st₂ rest hrest ih =>
    rw [hrest] at ih
    rcases List.mem_cons.mp hq with rfl | hq
    · obtain ⟨v, -, rfl⟩ := ofTy_ok hs
      exact isValue_ty v
    · exact ih hq
  | case4 seen st p ps name hseen n ty hs ih => exact ih hq
  | case5 seen st p ps name hseen e hne hs ih => exact ih hq

/-- The types that a function may return, written out. -/
theorem isValue_or_void_of_isReturnable {ty : Ty} (h : ty.isReturnable = true) :
    IsValue ty ∨ ty = .void := by
  cases ty with
  | int => exact .inl .int
  | bool => exact .inl .bool
  | string => exact .inl .string
  | void => exact .inr rfl
  | invalid => cases h
  | function => cases h
  | unknown n => simp [Ty.isReturnable, Ty.returnable] at h

theorem exists_of_map_eq_ok {ε α β : Type} {f : α → β} {x : Except ε α} {b : β}
    (h : x.map f = .ok b) : ∃ a, x = .ok a ∧ f a = b := by
  cases x with
  | error e => cases h
  | ok a => exact ⟨a, rfl, Except.ok.inj h⟩

/-- Parameters that pass the check are those that were handed over. -/
theorem checkParams_ok {function : Text} {params ps : List Param} {index : Nat}
    (h : Symbol.checkParams function index (params.map some) = .ok ps) : ps = params := by
  induction params generalizing index ps with
  | nil => exact (Except.ok.inj h).symm
  | cons p params ih =>
    rw [List.map_cons, Symbol.checkParams] at h
    split at h
    · cases h
    · obtain ⟨qs, hqs, rfl⟩ := exists_of_map_eq_ok h
      rw [ih hqs]

/-- The symbol of a function. -/
theorem makeFunction_some {head : FnHead} {params : List Param} {result : Ty} {inferred : Bool}
    {st st' : State} {s : Symbol}
    (h : makeFunction head params result inferred st = (st', some s)) :
    st' = st ∧ s.name = head.name.name ∧ s.content = .function params result ∧
      (IsValue result ∨ result = .void) := by
  unfold makeFunction at h
  split at h
  · next sym hsym =>
    obtain ⟨rfl, rfl⟩ := Prod.mk.inj h |>.imp_right Option.some.inj
    unfold Symbol.ofSignature at hsym
    split at hsym
    · next hret =>
      obtain ⟨ps, hps, rfl⟩ := exists_of_map_eq_ok hsym
      obtain rfl := checkParams_ok hps
      exact ⟨rfl, rfl, rfl, isValue_or_void_of_isReturnable hret⟩
    · cases hsym
  · split at h <;> cases h

/-- A signature that was made is sound if its parameters are variables. -/
theorem typed_of_makeFunction {head : FnHead} {params : List Param} {result : Ty} {inferred : Bool}
    {st st' : State} {s : Symbol} (hparams : ∀ q ∈ params, IsValue q.ty)
    (h : makeFunction head params result inferred st = (st', some s)) : s.Typed := by
  obtain ⟨-, -, hc, hret⟩ := makeFunction_some h
  unfold Symbol.Typed
  rw [hc]
  exact ⟨hparams, hret⟩

/-- A signature that cannot be made is reported. -/
theorem grows_makeFunction (sc : ScopeId) (head : FnHead) (params : List Param) (result : Ty)
    (inferred : Bool) (st : State) :
    st.Grows sc (makeFunction head params result inferred st).1 := by
  unfold makeFunction
  split
  · exact .refl _ _
  · dsimp only
    split
    · exact grows_problem _ _ _ _
    · exact grows_problem _ _ _ _

/-- What does not change while the body of a function is read. -/
def bodyContext (ctx : Context) (head : FnHead) (declared : Option Ty) (params : List Param)
    (st : State) : Context :=
  { ctx with
    scope := st.table.scopes.length
    fn := some ⟨head.name.name, declared, params.map (·.id)⟩ }

/-- The state in which the body of a function begins: its parameters are bound. -/
def bodyStart (ctx : Context) (head : FnHead) (declared : Option Ty) (params : List Param)
    (st : State) : State :=
  bindParams (bodyContext ctx head declared params st) head
    (scopeStart ctx head.name.name ⟨false, none⟩ st) params

/-- A body is read from its start, in the context of its function. -/
theorem checkBody_eq (ctx : Context) (head : FnHead) (declared : Option Ty) (params : List Param)
    (body : List Stmt) (st : State) :
    checkBody ctx head declared params body st =
      checkStmts (bodyContext ctx head declared params st)
        (bodyStart ctx head declared params st) body :=
  rfl

/-- Binding a symbol that is there only adds to the state. -/
theorem grows_bindName_bind {ctx : Context} {s : Symbol} {id : SymbolId} {tok : Token} {st : State}
    (hsym : st.table.symbol? id = some s) :
    st.Grows ctx.scope (bindName ctx Table.bind s id tok st) := by
  cases hx : (st.table.findIn? ctx.scope s.name).bind st.table.symbol? with
  | some prev =>
    rw [bindName_of_old hx]
    exact grows_problem _ _ _ _
  | none =>
    rw [bindName_of_new hx (Table.bind_eq hsym hx)]
    exact ⟨Table.extends_bound _ hsym rfl, _, rfl⟩

/-- Binding parameters only adds to the state. -/
theorem grows_bindParams (ctx : Context) (head : FnHead) (st : State) (ps : List Param) :
    st.Grows ctx.scope (bindParams ctx head st ps) := by
  induction ps generalizing st with
  | nil => exact .refl _ _
  | cons p ps ih =>
    rw [bindParams]
    refine .trans ?_ (ih _)
    split
    · next s hs => exact grows_bindName_bind hs
    · exact .refl _ _

/-- The scope of a body is there when the body begins. -/
theorem scope_lt_bodyStart (ctx : Context) (head : FnHead) (declared : Option Ty)
    (params : List Param) (st : State) :
    (bodyContext ctx head declared params st).scope <
      (bodyStart ctx head declared params st).table.scopes.length :=
  (grows_bindParams _ head _ params).scope_lt
    (lt_scopes_addScope st.table (some ctx.scope) head.name.name)

section
variable (ctx : Context) (st : State)

/-- A body is read in a new scope. -/
theorem extends_checkBody (head : FnHead) (declared : Option Ty) (params : List Param)
    (body : List Stmt) :
    Table.Extends st.table.scopes.length
      (st.table.addScope (some ctx.scope) head.name.name).1
      (checkBody ctx head declared params body st).table :=
  (grows_bindParams (bodyContext ctx head declared params st) head
    (scopeStart ctx head.name.name ⟨false, none⟩ st) params).table.trans
    (grows_checkStmts _ _ (scope_lt_bodyStart ctx head declared params st) body).table

/-- What follows the body of a function without a written type: it is declared. -/
theorem grows_declareInferred (head : FnHead) (body : List Stmt) :
    (checkBody ctx head none (makeParams [] st head.params).2 body
      (makeParams [] st head.params).1).Grows ctx.scope (checkInferred ctx head body st) := by
  unfold checkInferred
  dsimp only
  have hmake := grows_makeFunction ctx.scope head (makeParams [] st head.params).2
    (checkBody ctx head none (makeParams [] st head.params).2 body
      (makeParams [] st head.params).1).returns.ty true
    (checkBody ctx head none (makeParams [] st head.params).2 body
      (makeParams [] st head.params).1)
  split
  · next st' hst' =>
    rw [hst'] at hmake
    exact hmake
  · next st' s hst' =>
    -- a symbol that was made leaves the state as it was before
    obtain ⟨rfl, -⟩ := makeFunction_some hst'
    have htyped := typed_of_makeFunction (fun _ => isValue_of_mem_makeParams) hst'
    exact (grows_declare htyped).trans (grows_note _ _ _)

/-- What follows the body of a function with a written type. -/
theorem grows_missingReturn (head : FnHead) (params : List Param) (result : Ty)
    (body : List Stmt) :
    (checkBody ctx head (some result) params body st).Grows ctx.scope
      (checkDeclared ctx head params result body st) := by
  unfold checkDeclared
  dsimp only
  split
  · exact grows_problem _ _ _ _
  · exact .refl _ _

variable (hsc : ctx.scope < st.table.scopes.length)
include hsc

/-- Bodies of functions only add to the state. -/
theorem grows_checkBody (head : FnHead) (declared : Option Ty) (params : List Param)
    (body : List Stmt) : st.Grows ctx.scope (checkBody ctx head declared params body st) := by
  rw [checkBody_eq]
  have hstart := grows_bindParams (bodyContext ctx head declared params st) head
    (scopeStart ctx head.name.name ⟨false, none⟩ st) params
  have hbody := grows_checkStmts _ _ (scope_lt_bodyStart ctx head declared params st) body
  -- the returns start afresh, and then a new scope is entered and left
  exact (grows_returns st ctx.scope ⟨false, none⟩).trans (.of_inner hsc (hstart.trans hbody))

/-- Functions with a written result type only add to the state. -/
theorem grows_checkDeclared (head : FnHead) (params : List Param) (result : Ty)
    (body : List Stmt) : st.Grows ctx.scope (checkDeclared ctx head params result body st) :=
  (grows_checkBody ctx st hsc head (some result) params body).trans
    (grows_missingReturn ctx st head params result body)

/-- Functions without a written result type only add to the state. -/
theorem grows_checkInferred (head : FnHead) (body : List Stmt) :
    st.Grows ctx.scope (checkInferred ctx head body st) := by
  have hparams := grows_makeParams ctx.scope [] st head.params
  have hbody := grows_checkBody ctx _ (hparams.scope_lt hsc) head none
    (makeParams [] st head.params).2 body
  exact (hparams.trans hbody).trans (grows_declareInferred ctx st head body)

/-- The second pass on one statement only adds to the state. -/
theorem grows_checkTop (s : Stmt × Option Symbol) : st.Grows ctx.scope (checkTop ctx st s) := by
  unfold checkTop
  split
  · split
    · exact grows_checkInferred ctx st hsc _ _
    · exact .refl _ _
    · exact grows_checkDeclared ctx st hsc _ _ _ _
  · exact grows_checkStmt ctx st hsc _

end

/-- The first pass on one statement only adds to the state. -/
theorem grows_hoist (ctx : Context) (st : State) (s : Stmt) :
    st.Grows ctx.scope (hoist ctx st s).1 := by
  unfold hoist
  split
  · next head _ _ =>
    split
    · exact .refl _ _
    · next result _ =>
      refine (grows_makeParams ctx.scope [] st head.params).trans ?_
      have hmake := grows_makeFunction ctx.scope head (makeParams [] st head.params).2 result.ty
        false (makeParams [] st head.params).1
      dsimp only
      split
      · next st' hst' =>
        rw [hst'] at hmake
        exact hmake
      · -- the signature was made, so its parameters are variables and it may be declared
        next st' s hst' =>
        obtain ⟨rfl, -⟩ := makeFunction_some hst'
        have htyped := typed_of_makeFunction (fun _ => isValue_of_mem_makeParams) hst'
        exact (grows_declare htyped).trans (grows_note _ _ _)
  · exact .refl _ _

/-- The first pass only adds to the state. -/
theorem grows_hoistAll (ctx : Context) (st : State) (p : Program) :
    st.Grows ctx.scope (hoistAll ctx st p).1 := by
  induction p generalizing st with
  | nil => exact .refl _ _
  | cons s ss ih =>
    exact (grows_hoist ctx st s).trans (ih _)

/-- **The second pass only adds to the state.** -/
theorem grows_checkTops (ctx : Context) (st : State) (hsc : ctx.scope < st.table.scopes.length)
    (l : List (Stmt × Option Symbol)) : st.Grows ctx.scope (l.foldl (checkTop ctx) st) := by
  induction l generalizing st with
  | nil => exact .refl _ _
  | cons s l ih =>
    have hs := grows_checkTop ctx st hsc s
    exact hs.trans (ih _ (hs.scope_lt hsc))

end Analysis
end Slang
