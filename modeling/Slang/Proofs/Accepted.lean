import Slang.Proofs.Growth

/-!
# Programs without errors

A program is accepted if its analysis reports no error; warnings do not count. Here each function of
the analysis is read backwards: what has to hold of a statement for the state after it to be without
errors, and what that state then is. Wrong statements have no part in it, so all later results about
accepted programs start from these lemmas and never look at a message again.

* `checkLet_inv` and `checkAssign_inv` are for statements;
* `makeParams_inv` gives the parameters of a function, and `bodyStart_spec` the names that its body
  sees first;
* `hoist_inv`, `checkInferred_inv` and `checkDeclared_inv` are for functions, of which a written
  result type decides when they are declared.
-/

namespace Slang

open Typing

namespace Analysis

/-- **Accepted programs**: no diagnostic of a fresh analyzer is an error. -/
def Accepted (options : Options) (p : Program) : Prop :=
  Diagnostic.hasErrors ((Analyzer.new options).analyze (some p)).1.diagnostics = false

instance (options : Options) (p : Program) : Decidable (Accepted options p) :=
  inferInstanceAs (Decidable (_ = false))

/-- The table after a program was analysed. -/
def analysed (options : Options) (p : Program) : Table :=
  ((Analyzer.new options).analyze (some p)).2.table

/-- A program is accepted if the state after both passes is without errors. -/
theorem accepted_iff {options : Options} {p : Program} :
    Accepted options p ↔ (checkProgram options p.globalWrites p).Clean := by
  -- an analyzer sorts what it found, which adds no error and loses none
  change List.any (List.mergeSort _ _) Diagnostic.isError = false ↔ _
  simp only [List.any_eq_false, List.mem_mergeSort, Analyzer.new, Analyzer.analyze,
    List.nil_append, List.mem_map, State.Clean, Clean]
  constructor
  · intro h f hf herr
    refine h f.diagnostic ⟨f, hf, rfl⟩ ?_
    simp [Diagnostic.isError, Finding.diagnostic, herr]
  · rintro h d ⟨f, hf, rfl⟩ herr
    exact h f hf (by simpa [Diagnostic.isError, Finding.diagnostic] using herr)

/-! ### The beginning -/

/-- What does not change while the statements of a program are read. -/
def topContext (options : Options) (mutated : List Text) : Context :=
  ⟨options, mutated, globalScope, globalScope, none⟩

/-- The state before a program is read. -/
def startState : State := ⟨freshTable, ⟨false, none⟩, []⟩

/-- A program is analysed in two passes: the signatures first, then the statements. -/
theorem checkProgram_eq (options : Options) (mutated : List Text) (p : Program) :
    checkProgram options mutated p =
      (hoistAll (topContext options mutated) startState p).2.foldl
        (checkTop (topContext options mutated))
        (hoistAll (topContext options mutated) startState p).1 :=
  rfl

/-- The table of the start is valid: one scope, no names and no symbols. -/
theorem valid_freshTable : freshTable.Valid where
  outer_lt := by
    intro i s hs
    rcases i with _ | i
    · obtain rfl := Option.some.inj hs
      exact fun o ho => absurd ho List.not_mem_nil
    · cases hs
  bound := by
    intro i s hs
    rcases i with _ | i
    · obtain rfl := Option.some.inj hs
      exact fun b hb => absurd hb List.not_mem_nil
    · cases hs
  typed := fun i s hs => by cases hs

/-- Nothing has been reported at the start. -/
theorem clean_startState : startState.Clean := clean_nil

/-- The top level is read in a scope that exists. -/
theorem scope_lt_startState (options : Options) (mutated : List Text) :
    (topContext options mutated).scope < startState.table.scopes.length :=
  Nat.zero_lt_one

/-! ### Declarations -/

section
variable {ctx : Context} {st : State} {name : Ident} {type : Option TypeNode} {value : Option Expr}

/-- The type of a let statement is reported as an error or not at all. -/
theorem clean_letTy {init : Checked} (h : Clean (letTy name type value init).2) :
    (letTy name type value init).2 = [] := by
  revert h
  unfold letTy
  -- no type and no value, a value alone, a type alone, both
  split
  · exact fun _ => rfl
  · split
    · exact fun _ => rfl
    · split
      · exact fun _ => rfl
      · split <;> simp [SemanticProblem.severity]
  · exact fun _ => rfl
  · split
    · exact fun _ => rfl
    · split
      · simp [SemanticProblem.severity]
      · exact fun _ => rfl

/-- A let statement without a usable type declares nothing. -/
theorem checkLet_of_none {fs : List Finding}
    (h : letTy name type value (letInit ctx st.table value) = (none, fs)) :
    checkLet ctx name type value st =
      st.report ((letInit ctx st.table value).findings ++ fs) := by
  unfold letInit at h ⊢
  unfold checkLet
  dsimp only
  rw [h]

/-- A let statement with a type declares its name. -/
theorem checkLet_of_ok {fs : List Finding} {ty : Ty} {v : Option Value} {s : Symbol}
    (h : letTy name type value (letInit ctx st.table value) = (some (ty, v), fs))
    (hs : letSymbol name ty v = .ok s) :
    checkLet ctx name type value st =
      declare ctx { s with inferred := type.isNone } name.token
        (st.report ((letInit ctx st.table value).findings ++ fs)) := by
  unfold letInit at h ⊢
  unfold checkLet
  dsimp only
  rw [h]
  dsimp only
  rw [hs]

/-- A symbol that cannot be made is an error. -/
theorem not_clean_checkLet {fs : List Finding} {ty : Ty} {v : Option Value} {e : SymbolError}
    (h : letTy name type value (letInit ctx st.table value) = (some (ty, v), fs))
    (hs : letSymbol name ty v = .error e) : ¬(checkLet ctx name type value st).Clean := by
  unfold letInit at h
  unfold checkLet
  dsimp only
  rw [h]
  dsimp only
  rw [hs]
  cases e <;> simp [SemanticProblem.severity]

/-- A declaration of a variable is without errors if its value is and its name is new. -/
theorem clean_checkLet {fs : List Finding} {ty : Ty} {v : Option Value} {s : Symbol}
    (hv : st.table.Valid)
    (h : letTy name type value (letInit ctx st.table value) = (some (ty, v), fs))
    (hs : letSymbol name ty v = .ok s) :
    (checkLet ctx name type value st).Clean ↔
      (st.Clean ∧ Clean (letInit ctx st.table value).findings ∧ Clean fs) ∧
        name.name ∉ (st.table.namesOf ctx.scope).map Prod.fst := by
  obtain ⟨w, -, -, rfl⟩ := letSymbol_ok hs
  have hv' : (st.report ((letInit ctx st.table value).findings ++ fs)).table.Valid := hv
  rw [checkLet_of_ok h hs, clean_declare hv' (typed_of_letSymbol hs),
    State.clean_report, clean_append]
  exact Iff.rfl

/-- What the declaration of a variable does. -/
theorem declared_checkLet {fs : List Finding} {ty : Ty} {v : Option Value} {s : Symbol}
    (hv : st.table.Valid) (hsc : ctx.scope < st.table.scopes.length)
    (h : letTy name type value (letInit ctx st.table value) = (some (ty, v), fs))
    (hs : letSymbol name ty v = .ok s)
    (hnew : name.name ∉ (st.table.namesOf ctx.scope).map Prod.fst) :
    st.table.Declared ctx.scope { s with inferred := type.isNone }
        (checkLet ctx name type value st).table ∧
      (checkLet ctx name type value st).returns = st.returns := by
  obtain ⟨w, -, -, rfl⟩ := letSymbol_ok hs
  rw [checkLet_of_ok h hs]
  have hv' : (st.report ((letInit ctx st.table value).findings ++ fs)).table.Valid := hv
  exact declared_declare name.token hv' hsc trivial hnew

/-- **Declarations without errors.** Either there is nothing to declare, for want of a type, or a
variable of a new name is declared. -/
theorem checkLet_inv (hv : st.table.Valid) (hsc : ctx.scope < st.table.scopes.length)
    (h : (checkLet ctx name type value st).Clean) :
    st.Clean ∧ Clean (letInit ctx st.table value).findings ∧
      (letTy name type value (letInit ctx st.table value) = (none, []) ∨
        ∃ ty v s, letTy name type value (letInit ctx st.table value) = (some (ty, v), []) ∧
          letSymbol name ty v = .ok s ∧
          name.name ∉ (st.table.namesOf ctx.scope).map Prod.fst ∧
          st.table.Declared ctx.scope { s with inferred := type.isNone }
            (checkLet ctx name type value st).table ∧
          (checkLet ctx name type value st).returns = st.returns) := by
  have hnil : Clean (letTy name type value (letInit ctx st.table value)).2 →
      (letTy name type value (letInit ctx st.table value)).2 = [] := clean_letTy
  -- no type: then nothing was reported only if nothing is wrong and nothing is declared
  rcases hty : letTy name type value (letInit ctx st.table value) with ⟨_ | ⟨ty, v⟩, fs⟩
  · rw [checkLet_of_none hty, State.clean_report, clean_append] at h
    rw [hty] at hnil
    obtain rfl := hnil h.2.2
    exact ⟨h.1, h.2.1, .inl rfl⟩
  · cases hs : letSymbol name ty v with
    | error e => exact absurd h (not_clean_checkLet hty hs)
    | ok s =>
      obtain ⟨⟨hst, hinit, hfs⟩, hnew⟩ := (clean_checkLet hv hty hs).mp h
      rw [hty] at hnil
      obtain rfl := hnil hfs
      exact ⟨hst, hinit, .inr ⟨ty, v, s, rfl, hs, hnew, declared_checkLet hv hsc hty hs hnew⟩⟩

end

/-! ### Assignments -/

section
variable {ctx : Context} {st : State} {name : Ident} {value : Expr}

/-- **Assignments without errors.** The name stands for a variable. Its value becomes what is known
of the expression or unknown, and nothing else changes. -/
theorem checkAssign_inv (h : (checkAssign ctx name value st).Clean) :
    st.Clean ∧ Clean (check ctx st.table value).findings ∧
      ∃ id s v calculated, st.table.find? ctx.scope name.name = some id ∧
        st.table.symbol? id = some s ∧ s.content = .variable v calculated ∧
        (checkAssign ctx name value st).returns = st.returns ∧
        (((check ctx st.table value).ty = .invalid ∧
          (checkAssign ctx name value st).table = st.table.modify id (·.setCalculated false)) ∨
        ((check ctx st.table value).ty = v.ty ∧
          (checkAssign ctx name value st).table = st.table.modify id
            (assigned (isUnknowable ctx st.table id s.name)
              (check ctx st.table value).value))) := by
  unfold checkAssign at h ⊢
  dsimp only [State.table_report] at h ⊢
  -- in the order of the checks; all but two of the ways through end in an error
  cases hid : st.table.find? ctx.scope name.name with
  | none =>
    rw [hid] at h
    simp [SemanticProblem.severity] at h
  | some id =>
    rw [hid] at h
    dsimp only at h ⊢
    cases hs : st.table.symbol? id with
    | none =>
      rw [hs] at h
      simp [SemanticProblem.severity] at h
    | some s =>
      rw [hs] at h
      dsimp only at h ⊢
      cases hc : s.content with
      | function ps result =>
        rw [hc] at h
        simp [SemanticProblem.severity] at h
      | «variable» v calculated =>
        rw [hc] at h
        dsimp only at h ⊢
        by_cases hinv : (check ctx st.table value).ty = .invalid
        · -- the error was found in the expression, if there is one
          rw [if_pos hinv] at h ⊢
          rw [State.clean_modify, State.clean_report] at h
          exact ⟨h.1, h.2, id, s, v, calculated, rfl, hs, hc, rfl, .inl ⟨hinv, rfl⟩⟩
        · rw [if_neg hinv] at h ⊢
          by_cases hvoid : (check ctx st.table value).ty = .void
          · rw [if_pos hvoid] at h
            simp [SemanticProblem.severity] at h
          · rw [if_neg hvoid] at h ⊢
            by_cases hty : (check ctx st.table value).ty = v.ty
            · rw [if_neg (not_not_intro hty)] at h ⊢
              rw [State.clean_modify, State.clean_report] at h
              exact ⟨h.1, h.2, id, s, v, calculated, rfl, hs, hc, rfl, .inr ⟨hty, rfl⟩⟩
            · rw [if_pos hty] at h
              simp [SemanticProblem.severity] at h

/-- An assignment of a value of the variable's type is without errors. -/
theorem clean_checkAssign {id : SymbolId} {s : Symbol} {v : Value} {calculated : Bool}
    (hid : st.table.find? ctx.scope name.name = some id) (hs : st.table.symbol? id = some s)
    (hc : s.content = .variable v calculated) (hst : st.Clean)
    (hvalue : Clean (check ctx st.table value).findings)
    (hty : (check ctx st.table value).ty = v.ty) : (checkAssign ctx name value st).Clean := by
  have hvalueTy := isValue_ty v
  rw [← hty] at hvalueTy
  unfold checkAssign
  dsimp only [State.table_report]
  rw [hid]
  dsimp only
  rw [hs]
  dsimp only
  rw [hc]
  dsimp only
  -- the three reasons for a report: no type, no value, another type
  rw [if_neg hvalueTy.ne_invalid, if_neg hvalueTy.ne_void, if_neg (not_not_intro hty)]
  simp [hst, hvalue]

end

/-! ### Other statements -/

section
variable (ctx : Context) (st : State)

/-- A return statement does not change the table. -/
theorem table_returnTy (f : Frame) (got : Ty) (hasValue : Bool) (tok : Token) :
    (returnTy f got hasValue tok st).table = st.table := by
  unfold returnTy
  -- the type of the function is taken from its returns, or is declared
  split
  · unfold inferReturn
    split
    · rfl
    · split <;> rfl
  · unfold declaredReturn
    split
    · rfl
    · split
      · rfl
      · split <;> rfl

/-- A return leaves the table as it is. -/
theorem table_checkReturn (tok : Token) (value : Option Expr) :
    (checkReturn ctx tok value st).table = st.table := by
  unfold checkReturn
  split
  · rfl
  · split
    · exact table_returnTy _ _ _ _ _
    · dsimp only
      split
      · rfl
      · split
        · rfl
        · exact table_returnTy _ _ _ _ _

/-- An expression leaves everything but the trace as it is. -/
theorem table_checkExprStmt (e : Expr) :
    (checkExprStmt ctx e st).table = st.table ∧ (checkExprStmt ctx e st).returns = st.returns := by
  unfold checkExprStmt
  dsimp only
  split <;> exact ⟨rfl, rfl⟩

/-- An expression that stands as a statement is an error only where the expression is. -/
theorem clean_checkExprStmt (e : Expr) :
    (checkExprStmt ctx e st).Clean ↔ st.Clean ∧ Clean (check ctx st.table e).findings := by
  unfold checkExprStmt
  dsimp only
  split <;> simp [SemanticProblem.severity]

end

/-! ### Parameters -/

/-- The types of values are those with a default value. -/
theorem isValue_iff_default? {ty : Ty} : IsValue ty ↔ ∃ v, Value.default? ty = some v := by
  constructor
  · intro h
    cases h <;> exact ⟨_, rfl⟩
  · rintro ⟨v, hv⟩
    rw [← Value.ty_of_default? hv]
    exact isValue_ty v

/-- **What making the parameters of a function does**: each is a variable of its own, made in order,
whose value is not known. -/
structure MadeParams (ps : List ParamDecl) (qs : List Param) (st st' : State) : Prop where
  trace : st'.trace = st.trace
  returns : st'.returns = st.returns
  scopes : st'.table.scopes = st.table.scopes
  length : st'.table.symbols.length = st.table.symbols.length + ps.length
  old : ∀ i, i < st.table.symbols.length → st'.table.symbol? i = st.table.symbol? i
  declared : qs.map (fun q => (q.name, q.ty)) = ps.map fun p => (p.name.name, p.type.ty)
  ids : qs.map (·.id) = List.range' st.table.symbols.length ps.length
  new : ∀ q ∈ qs, ∃ s v, st'.table.symbol? q.id = some s ∧ s.name = q.name ∧
    s.content = .variable v false ∧ v.ty = q.ty

/-- When the parameters of a function can be made. -/
structure DistinctParams (seen : List Text) (ps : List ParamDecl) : Prop where
  distinct : (ps.map fun p => p.name.name).Nodup
  unseen : ∀ p ∈ ps, p.name.name ∉ seen
  values : ∀ p ∈ ps, IsValue p.type.ty

/-- No parameters are distinct. -/
theorem distinctParams_nil (seen : List Text) : DistinctParams seen [] :=
  ⟨List.nodup_nil, fun _ h => absurd h List.not_mem_nil, fun _ h => absurd h List.not_mem_nil⟩

/-- **Distinct parameters**: the first is new, and the others differ from it as well. -/
theorem distinctParams_cons {seen : List Text} {p : ParamDecl} {ps : List ParamDecl} :
    DistinctParams seen (p :: ps) ↔
      (p.name.name ∉ seen ∧ IsValue p.type.ty) ∧ DistinctParams (p.name.name :: seen) ps := by
  constructor
  · rintro ⟨hd, hu, hv⟩
    rw [List.map_cons, List.nodup_cons] at hd
    refine ⟨⟨hu p List.mem_cons_self, hv p List.mem_cons_self⟩, hd.2, fun q hq => ?_,
      fun q hq => hv q (List.mem_cons_of_mem p hq)⟩
    rw [List.mem_cons, not_or]
    -- a later one of the same name would make the list repeat a name
    refine ⟨fun heq => hd.1 ?_, hu q (List.mem_cons_of_mem p hq)⟩
    exact heq ▸ List.mem_map_of_mem hq
  · rintro ⟨⟨hp, hpv⟩, hd, hu, hv⟩
    refine ⟨?_, ?_, ?_⟩
    · rw [List.map_cons, List.nodup_cons]
      refine ⟨fun hmem => ?_, hd⟩
      obtain ⟨q, hq, heq⟩ := List.mem_map.mp hmem
      exact hu q hq (heq ▸ List.mem_cons_self)
    · rintro q (_ | ⟨_, hq⟩)
      · exact hp
      · exact fun hmem => hu q hq (List.mem_cons_of_mem _ hmem)
    · rintro q (_ | ⟨_, hq⟩)
      · exact hpv
      · exact hv q hq

/-- A symbol can be made from its type if the type has values. -/
theorem ofTy_isOk_iff {ty : Ty} (name : Text) (line : Int) :
    (∃ s, Symbol.ofTy ty name line = .ok s) ↔ IsValue ty := by
  rw [isValue_iff_default?]
  unfold Symbol.ofTy
  cases Value.default? ty with
  | none =>
    constructor
    · rintro ⟨_, h⟩
      cases h
    · rintro ⟨_, h⟩
      cases h
  | some v => exact ⟨fun _ => ⟨v, rfl⟩, fun _ => ⟨_, rfl⟩⟩

/-- **Parameters without errors** have distinct names and types that variables have. -/
theorem clean_makeParams {seen : List Text} {st : State} {ps : List ParamDecl} :
    (makeParams seen st ps).1.Clean ↔ st.Clean ∧ DistinctParams seen ps := by
  -- a parameter that cannot be made leaves an error behind
  have hbad : ∀ {st : State} {tok : Token} {p : SemanticProblem} {ps : List ParamDecl}
      {seen : List Text}, p.severity = .error →
        ¬(makeParams seen (st.problem tok p) ps).1.Clean := by
    intro st tok p ps seen hp h
    have hst := (grows_makeParams globalScope seen (st.problem tok p) ps).clean h
    rw [State.clean_problem] at hst
    exact hst.2 hp
  fun_induction makeParams seen st ps with
  | case1 seen st => exact ⟨fun h => ⟨h, distinctParams_nil seen⟩, fun h => h.1⟩
  | case2 seen st p ps name hseen ih =>
    refine ⟨fun h => absurd h (hbad rfl), fun h => ?_⟩
    exact absurd (List.contains_iff_mem.mp hseen) (distinctParams_cons.mp h.2).1.1
  | case3 seen st p ps name hseen s hs st₁ id hadd st₂ rest hrest ih =>
    rw [hrest] at ih
    obtain rfl : st₁ = (st.addSymbol s).1 := by rw [hadd]
    have hp : p.name.name ∉ seen ∧ IsValue p.type.ty :=
      ⟨fun h => hseen (List.contains_iff_mem.mpr h), (ofTy_isOk_iff _ _).mp ⟨s, hs⟩⟩
    refine Iff.trans ih ?_
    rw [distinctParams_cons]
    exact ⟨fun h => ⟨h.1, hp, h.2⟩, fun h => ⟨h.1, h.2.2⟩⟩
  | case4 seen st p ps name hseen n ty hs ih =>
    refine ⟨fun h => absurd h (hbad rfl), fun h => ?_⟩
    obtain ⟨s, hs'⟩ := (ofTy_isOk_iff _ _).mpr (distinctParams_cons.mp h.2).1.2
    rw [hs] at hs'
    cases hs'
  | case5 seen st p ps name hseen e hne hs ih =>
    refine ⟨fun h => absurd h (hbad rfl), fun h => ?_⟩
    obtain ⟨s, hs'⟩ := (ofTy_isOk_iff _ _).mpr (distinctParams_cons.mp h.2).1.2
    rw [hs] at hs'
    cases hs'

/-- A parameter that is new and has values becomes a symbol. -/
theorem makeParams_cons {seen : List Text} {st : State} {p : ParamDecl} {ps : List ParamDecl}
    {s : Symbol} (hseen : p.name.name ∉ seen)
    (hs : Symbol.ofTy p.type.ty p.name.name p.name.token.line = .ok s) :
    makeParams seen st (p :: ps) =
      ((makeParams (p.name.name :: seen) (st.addSymbol s).1 ps).1,
        ⟨st.table.symbols.length, p.name.name, s.ty⟩ ::
          (makeParams (p.name.name :: seen) (st.addSymbol s).1 ps).2) := by
  rw [makeParams]
  rw [if_neg fun h => hseen (List.contains_iff_mem.mp h), hs]
  rfl

/-- **Distinct parameters are made one after the other.** -/
theorem makeParams_made {seen : List Text} (st : State) {ps : List ParamDecl}
    (h : DistinctParams seen ps) :
    MadeParams ps (makeParams seen st ps).2 st (makeParams seen st ps).1 := by
  induction ps generalizing seen st with
  | nil =>
    exact ⟨rfl, rfl, rfl, rfl, fun _ _ => rfl, rfl, rfl, fun _ hq => absurd hq List.not_mem_nil⟩
  | cons p ps ih =>
    obtain ⟨⟨hseen, hvalue⟩, hrest⟩ := distinctParams_cons.mp h
    obtain ⟨s, hs⟩ := (ofTy_isOk_iff p.name.name p.name.token.line).mpr hvalue
    rw [makeParams_cons hseen hs]
    obtain ⟨v, hv, rfl⟩ := ofTy_ok hs
    have hmade := @ih _ (st.addSymbol (.ofValue p.name.name p.name.token.line v false)).1 hrest
    -- the table has one more symbol, and the rest is made behind it
    have hlen :
        (st.addSymbol (.ofValue p.name.name p.name.token.line v false)).1.table.symbols.length =
          st.table.symbols.length + 1 := List.length_append
    refine ⟨hmade.trace, hmade.returns, hmade.scopes, ?_, fun i hi => ?_, ?_, ?_, ?_⟩
    · rw [hmade.length, hlen, List.length_cons]
      omega
    · rw [hmade.old i (by omega)]
      exact Table.symbol?_addSymbol_of_lt _ hi
    · rw [List.map_cons, List.map_cons, hmade.declared]
      simp only [Symbol.ty, Symbol.ofValue, hv]
    · rw [List.map_cons, hmade.ids, hlen, List.length_cons, List.range'_succ]
    · rintro q (_ | ⟨_, hq⟩)
      · -- the first symbol is not touched by the others
        refine ⟨.ofValue p.name.name p.name.token.line v false, v, ?_, rfl, rfl, rfl⟩
        exact (hmade.old st.table.symbols.length (by omega)).trans
          (Table.symbol?_addSymbol_self st.table _)
      · exact hmade.new q hq

/-- **Parameters that were made without errors.** -/
theorem makeParams_inv (sc : ScopeId) {st st' : State} {ps : List ParamDecl} {qs : List Param}
    (h : makeParams [] st ps = (st', qs)) (hclean : st'.Clean) :
    DistinctParams [] ps ∧ MadeParams ps qs st st' ∧ st.Grows sc st' := by
  have hdistinct : DistinctParams [] ps := (clean_makeParams.mp (by rw [h]; exact hclean)).2
  have hmade := makeParams_made st hdistinct
  have hgrown := grows_makeParams sc [] st ps
  rw [h] at hmade hgrown
  exact ⟨hdistinct, hmade, hgrown⟩

/-- The parameters of a function have values. -/
theorem isValue_of_makeParams {st st' : State} {ps : List ParamDecl} {qs : List Param}
    (h : makeParams [] st ps = (st', qs)) : ∀ q ∈ qs, IsValue q.ty := by
  intro q hq
  have hqs : (makeParams [] st ps).2 = qs := by rw [h]
  exact isValue_of_mem_makeParams (hqs ▸ hq)

/-! ### Bodies of functions -/

/-- Binding a symbol under a name that is new. -/
theorem bindName_bind_eq {ctx : Context} {st : State} {id : SymbolId} {s : Symbol} (tok : Token)
    (hv : st.table.Valid) (hsym : st.table.symbol? id = some s)
    (hnew : s.name ∉ (st.table.namesOf ctx.scope).map Prod.fst) :
    ∃ fs, Clean fs ∧ bindName ctx Table.bind s id tok st =
      { st.report fs with table := st.table.bound ctx.scope (s.name, id) } := by
  rw [← hv.bind_findIn?_eq_none_iff ctx.scope s.name] at hnew
  exact ⟨_, clean_shadowing _ _ _ _, bindName_of_new hnew (Table.bind_eq hsym hnew)⟩

/-- A parameter as a name of the scope of its function. -/
def Param.binding (q : Param) : Text × SymbolId := (q.name, q.id)

/-- **Binding parameters** of distinct names, in a scope that has none of them: they follow the
names that the scope has, and nothing else changes. -/
theorem bindParams_spec (ctx : Context) (head : FnHead) (st : State) (qs : List Param)
    (hv : st.table.Valid) (hsc : ctx.scope < st.table.scopes.length)
    (hsym : ∀ q ∈ qs, ∃ s, st.table.symbol? q.id = some s ∧ s.name = q.name)
    (hdistinct : (qs.map (·.name)).Nodup)
    (hnew : ∀ q ∈ qs, q.name ∉ (st.table.namesOf ctx.scope).map Prod.fst) :
    ((bindParams ctx head st qs).Clean ↔ st.Clean) ∧
      (bindParams ctx head st qs).returns = st.returns ∧
      (bindParams ctx head st qs).table.symbols = st.table.symbols ∧
      ∃ outer, st.table.frames ctx.scope = st.table.namesOf ctx.scope :: outer ∧
        (bindParams ctx head st qs).table.frames ctx.scope =
          (st.table.namesOf ctx.scope ++ qs.map Param.binding) :: outer := by
  induction qs generalizing st with
  | nil =>
    obtain ⟨outer, houter, -⟩ := Table.frames_bound hv hsc ([], 0)
    exact ⟨Iff.rfl, rfl, rfl, outer, houter, by simpa [bindParams] using houter⟩
  | cons q qs ih =>
    obtain ⟨s, hs, hname⟩ := hsym q List.mem_cons_self
    rw [List.map_cons, List.nodup_cons] at hdistinct
    obtain ⟨fs, hfs, heq⟩ := bindName_bind_eq (paramToken head q.name) hv hs
      (hname ▸ hnew q List.mem_cons_self)
    rw [hname] at heq
    have hstep : bindParams ctx head st (q :: qs) =
        bindParams ctx head
          { st.report fs with table := st.table.bound ctx.scope (q.name, q.id) } qs := by
      rw [bindParams, hs]
      dsimp only
      rw [heq]
    have hgrown := Table.extends_bound ctx.scope (b := (q.name, q.id)) hs hname
    have hnames := Table.namesOf_bound hsc (q.name, q.id)
    -- the other parameters are still new
    have hrest : ∀ r ∈ qs, r.name ∉
        ((st.table.bound ctx.scope (q.name, q.id)).namesOf ctx.scope).map Prod.fst := by
      intro r hr hmem
      rw [hnames, List.map_append, List.mem_append] at hmem
      rcases hmem with hmem | hmem
      · exact hnew r (List.mem_cons_of_mem q hr) hmem
      · have hrq : r.name = q.name := List.mem_singleton.mp hmem
        exact hdistinct.1 (hrq ▸ List.mem_map_of_mem hr)
    obtain ⟨hclean, hreturns, hsymbols, outer, hframes, hframes'⟩ :=
      @ih { st.report fs with table := st.table.bound ctx.scope (q.name, q.id) }
        (hgrown.valid hv) (Nat.lt_of_lt_of_le hsc hgrown.scopes_le)
        (fun r hr => hsym r (List.mem_cons_of_mem q hr)) hdistinct.2 hrest
    rw [hstep]
    refine ⟨hclean.trans ?_, hreturns, hsymbols, ?_⟩
    · change (st.report fs).Clean ↔ _
      simp [hfs]
    · obtain ⟨outer', houter, houter'⟩ := Table.frames_bound hv hsc (q.name, q.id)
      have hsame : outer = outer' := by
        have := hframes.symm.trans houter'
        exact (List.cons.inj this).2
      refine ⟨outer', houter, ?_⟩
      rw [hframes', hsame]
      change ((st.table.bound ctx.scope (q.name, q.id)).namesOf ctx.scope ++ _) :: _ = _
      rw [hnames, List.append_assoc]
      rfl

section
variable {ctx : Context} {head : FnHead} {declared : Option Ty} {qs : List Param} {st : State}

/-- A new scope keeps the table valid. -/
theorem valid_scopeStart (hv : st.table.Valid) (hsc : ctx.scope < st.table.scopes.length)
    (name : Text) (r : Returns) : (scopeStart ctx name r st).table.Valid :=
  hv.addScope hsc name

/-- The table is valid when the body of a function is entered. -/
theorem valid_bodyStart (hv : st.table.Valid) (hsc : ctx.scope < st.table.scopes.length)
    (head : FnHead) (declared : Option Ty) (qs : List Param) :
    (bodyStart ctx head declared qs st).table.Valid :=
  (grows_bindParams _ head _ qs).table.valid (valid_scopeStart hv hsc _ _)

/-- **The beginning of a body.** Its scope has the parameters, inside the scopes around the
function; nothing is known yet of its returns. -/
theorem bodyStart_spec (head : FnHead) (declared : Option Ty) (hv : st.table.Valid)
    (hsc : ctx.scope < st.table.scopes.length)
    (hsym : ∀ q ∈ qs, ∃ s, st.table.symbol? q.id = some s ∧ s.name = q.name)
    (hdistinct : (qs.map (·.name)).Nodup) :
    ((bodyStart ctx head declared qs st).Clean ↔ st.Clean) ∧
      (bodyStart ctx head declared qs st).returns = ⟨false, none⟩ ∧
      (bodyStart ctx head declared qs st).table.symbols = st.table.symbols ∧
      (bodyStart ctx head declared qs st).table.frames
          (bodyContext ctx head declared qs st).scope =
        qs.map Param.binding :: st.table.frames ctx.scope := by
  have hframes := Table.frames_addScope hv hsc head.name.name
  -- the new scope has no names yet, so that no parameter shadows another in it
  have hempty : (st.table.addScope (some ctx.scope) head.name.name).1.namesOf
      st.table.scopes.length = [] := by
    obtain ⟨n, hself⟩ := Table.scope?_addScope_self st.table ctx.scope head.name.name
    unfold Table.namesOf
    rw [hself]
  obtain ⟨hclean, hreturns, hsymbols, outer, houter, houter'⟩ :=
    bindParams_spec (bodyContext ctx head declared qs st) head
      (scopeStart ctx head.name.name ⟨false, none⟩ st) qs
      (valid_scopeStart hv hsc _ _) (lt_scopes_addScope st.table (some ctx.scope) head.name.name)
      hsym hdistinct (fun q _ hmem => by
        change q.name ∈ ((st.table.addScope (some ctx.scope) head.name.name).1.namesOf
          st.table.scopes.length).map Prod.fst at hmem
        rw [hempty] at hmem
        cases hmem)
  refine ⟨hclean, hreturns, hsymbols, houter'.trans ?_⟩
  -- the scopes around the body are those around the function
  have hsame := houter.symm.trans hframes
  rw [(List.cons.inj hsame).2]
  exact congrArg (· :: _) (by rw [(List.cons.inj hsame).1]; rfl)

end

/-! ### Functions -/

/-- A note is no finding. -/
theorem State.clean_note {st : State} {e : Event} (he : e.finding? = none) :
    (st.note e).Clean ↔ st.Clean := by
  unfold State.Clean State.note
  rw [List.filterMap_append, List.filterMap_cons, he, List.filterMap_nil, List.append_nil]

/-- A function that cannot be made leaves an error behind. -/
theorem not_clean_makeFunction {head : FnHead} {params : List Param} {result : Ty}
    {inferred : Bool} {st st' : State}
    (h : makeFunction head params result inferred st = (st', none)) : ¬st'.Clean := by
  unfold makeFunction at h
  split at h
  · cases h
  · dsimp only at h
    split at h <;> obtain ⟨rfl, -⟩ := Prod.mk.inj h <;> simp [SemanticProblem.severity]

/-- The symbol of a function with a given signature. -/
def functionSymbol (head : FnHead) (params : List Param) (result : Ty) (inferred : Bool) : Symbol :=
  ⟨head.name.name, head.name.token.line, inferred, head.name.name, .function params result⟩

/-- The symbol of a function is typed if its parameters and its result are. -/
theorem typed_functionSymbol {head : FnHead} {params : List Param} {result : Ty} {inferred : Bool}
    (hparams : ∀ q ∈ params, IsValue q.ty) (hresult : IsValue result ∨ result = .void) :
    (functionSymbol head params result inferred).Typed :=
  ⟨hparams, hresult⟩

/-- The symbol of a function can be made if its parameters and its result are values. -/
theorem makeFunction_eq {head : FnHead} {params : List Param} {result : Ty} {inferred : Bool}
    {st : State} (hparams : ∀ q ∈ params, IsValue q.ty)
    (hresult : IsValue result ∨ result = .void) :
    makeFunction head params result inferred st =
      (st, some (functionSymbol head params result inferred)) := by
  -- the types of parameters are refused only where no variable has them
  have hcheck : ∀ n, Symbol.checkParams head.name.name n (params.map some) = .ok params := by
    intro n
    induction params generalizing n with
    | nil => rfl
    | cons q qs ih =>
      have hq := hparams q List.mem_cons_self
      have hrest := ih (fun r hr => hparams r (List.mem_cons_of_mem q hr)) (n + 1)
      rw [List.map_cons, Symbol.checkParams, if_neg, hrest]
      · rfl
      · rintro (h | h | h) <;> rw [h] at hq <;> cases hq
  have hreturnable : result.isReturnable = true := by
    rcases hresult with h | rfl
    · cases h <;> rfl
    · rfl
  unfold makeFunction Symbol.ofSignature
  rw [if_pos hreturnable, hcheck]
  rfl

section
variable {ctx : Context} {st : State} {head : FnHead} {params : List Param} {result : Ty}

/-- A function is declared under its name, with its signature. -/
def State.declareFunction (st : State) (ctx : Context) (head : FnHead) (params : List Param)
    (result : Ty) (inferred : Bool) : State :=
  declare ctx (functionSymbol head params result inferred) head.name.token st

/-- **Functions declared without errors**: the name is new. -/
theorem declareFunction_inv {inferred : Bool} (hv : st.table.Valid)
    (hsc : ctx.scope < st.table.scopes.length) (hparams : ∀ q ∈ params, IsValue q.ty)
    (hresult : IsValue result ∨ result = .void)
    (h : (st.declareFunction ctx head params result inferred).Clean) :
    head.name.name ∉ (st.table.namesOf ctx.scope).map Prod.fst ∧
      st.table.Declared ctx.scope (functionSymbol head params result inferred)
        (st.declareFunction ctx head params result inferred).table := by
  have htyped : (functionSymbol head params result inferred).Typed :=
    typed_functionSymbol hparams hresult
  have hnew := ((clean_declare hv htyped).mp h).2
  exact ⟨hnew, (declared_declare head.name.token hv hsc htyped hnew).1⟩

/-- What reading a function without a written type comes to, if its signature is sound. -/
theorem checkInferred_eq (ctx : Context) (body : List Stmt) {st₁ : State}
    (hmake : makeParams [] st head.params = (st₁, params))
    (hresult : IsValue (checkBody ctx head none params body st₁).returns.ty ∨
      (checkBody ctx head none params body st₁).returns.ty = .void) :
    ∃ e : Event, e.finding? = none ∧ checkInferred ctx head body st =
      ((checkBody ctx head none params body st₁).declareFunction ctx head params
        (checkBody ctx head none params body st₁).returns.ty true).note e := by
  unfold checkInferred
  rw [hmake]
  dsimp only
  rw [makeFunction_eq (isValue_of_makeParams hmake) hresult]
  exact ⟨_, rfl, rfl⟩

/-- **Inferred functions without errors.** -/
theorem checkInferred_inv (hsc : ctx.scope < st.table.scopes.length) {body : List Stmt}
    (h : (checkInferred ctx head body st).Clean) :
    ∃ st₁ qs st₂, makeParams [] st head.params = (st₁, qs) ∧ st₁.Clean ∧
      st₂ = checkBody ctx head none qs body st₁ ∧ st₂.Clean ∧
      (IsValue st₂.returns.ty ∨ st₂.returns.ty = .void) ∧
      (st₂.declareFunction ctx head qs st₂.returns.ty true).Clean ∧
      (checkInferred ctx head body st).table =
        (st₂.declareFunction ctx head qs st₂.returns.ty true).table := by
  have hgrows := grows_makeParams ctx.scope [] st head.params
  rcases hparams : makeParams [] st head.params with ⟨st₁, qs⟩
  rw [hparams] at hgrows
  have hvalues := isValue_of_makeParams hparams
  have hbody := grows_checkBody ctx st₁ (hgrows.scope_lt hsc) head none qs body
  -- the symbol cannot be made, which is an error, or it is declared with what the body returns
  rcases hmake : makeFunction head qs (checkBody ctx head none qs body st₁).returns.ty true
      (checkBody ctx head none qs body st₁) with ⟨st₃, _ | s⟩
  · unfold checkInferred at h
    rw [hparams] at h
    dsimp only at h
    rw [hmake] at h
    exact absurd h (not_clean_makeFunction hmake)
  · have hresult := (makeFunction_some hmake).2.2.2
    obtain ⟨e, he, heq⟩ := checkInferred_eq ctx body hparams hresult
    rw [heq, State.clean_note he] at h
    have hclean := (grows_declare (typed_functionSymbol hvalues hresult)).clean h
    exact ⟨st₁, qs, _, rfl, hbody.clean hclean, rfl, hclean, hresult, h, by rw [heq]; rfl⟩

/-- What declaring a function ahead of everything else comes to, if its signature is sound. -/
theorem hoist_eq (ctx : Context) (brace : Option Token) (body : List Stmt) {type : TypeNode}
    {st₁ : State} (htype : head.result = some type)
    (hmake : makeParams [] st head.params = (st₁, params))
    (hresult : IsValue type.ty ∨ type.ty = .void) :
    ∃ (e : Event) (s : Symbol), e.finding? = none ∧ s.params = params ∧
      hoist ctx st (.fn head brace body) =
        ((st₁.declareFunction ctx head params type.ty false).note e, some s) := by
  unfold hoist
  dsimp only
  rw [htype]
  dsimp only
  rw [hmake]
  dsimp only
  rw [makeFunction_eq (isValue_of_makeParams hmake) hresult]
  exact ⟨_, _, rfl, rfl, rfl⟩

/-- **Declarations ahead of everything else, without errors.** -/
theorem hoist_inv {brace : Option Token} {body : List Stmt} {type : TypeNode}
    (htype : head.result = some type) (h : (hoist ctx st (.fn head brace body)).1.Clean) :
    ∃ st₁ qs, makeParams [] st head.params = (st₁, qs) ∧ st₁.Clean ∧
      (IsValue type.ty ∨ type.ty = .void) ∧
      (st₁.declareFunction ctx head qs type.ty false).Clean ∧
      (hoist ctx st (.fn head brace body)).1.table =
        (st₁.declareFunction ctx head qs type.ty false).table ∧
      ∃ s, (hoist ctx st (.fn head brace body)).2 = some s ∧ s.params = qs := by
  rcases hparams : makeParams [] st head.params with ⟨st₁, qs⟩
  have hvalues := isValue_of_makeParams hparams
  -- the same with the written type
  rcases hmake : makeFunction head qs type.ty false st₁ with ⟨st₃, _ | s⟩
  · unfold hoist at h
    dsimp only at h
    rw [htype] at h
    dsimp only at h
    rw [hparams] at h
    dsimp only at h
    rw [hmake] at h
    exact absurd h (not_clean_makeFunction hmake)
  · have hresult := (makeFunction_some hmake).2.2.2
    obtain ⟨e, s', he, hs', heq⟩ := hoist_eq ctx brace body htype hparams hresult
    rw [heq]
    rw [heq, State.clean_note he] at h
    have hclean := (grows_declare (typed_functionSymbol hvalues hresult)).clean h
    exact ⟨st₁, qs, rfl, hclean, hresult, h, rfl, s', rfl, hs'⟩

/-- **Functions with a written type, without errors.** -/
theorem checkDeclared_inv {body : List Stmt}
    (h : (checkDeclared ctx head params result body st).Clean) :
    (checkBody ctx head (some result) params body st).Clean ∧
      (result ≠ .void → (checkBody ctx head (some result) params body st).returns.seen = true) ∧
      checkDeclared ctx head params result body st =
        checkBody ctx head (some result) params body st := by
  unfold checkDeclared at h ⊢
  dsimp only at h ⊢
  split at h
  · simp [SemanticProblem.severity] at h
  · next hseen =>
    rw [if_neg hseen]
    exact ⟨h, fun hne => by simpa [hne] using hseen, rfl⟩

end

/-! ### The second pass, by statement -/

section
variable (ctx : Context) (st : State) (signature : Option Symbol)

/-- A let statement is read alike at the top level. -/
theorem checkTop_letDecl (tok : Token) (name : Ident) (type : Option TypeNode)
    (value : Option Expr) :
    checkTop ctx st (.letDecl tok name type value, signature) =
      checkLet ctx name type value st := by
  rw [checkTop, checkStmt]
  exact fun _ _ _ h => Stmt.noConfusion h

/-- So is an assignment. -/
theorem checkTop_assign (tok : Token) (name : Ident) (e : Expr) :
    checkTop ctx st (.assign tok name e, signature) = checkAssign ctx name e st := by
  rw [checkTop, checkStmt]
  exact fun _ _ _ h => Stmt.noConfusion h

/-- A function without a written result type is read by its body first. -/
theorem checkTop_inferred {head : FnHead} (h : head.result = none) (brace : Option Token)
    (body : List Stmt) :
    checkTop ctx st (.fn head brace body, signature) = checkInferred ctx head body st := by
  unfold checkTop
  simp only [h]

/-- A function whose signature could not be made is not read. -/
theorem checkTop_unsigned {head : FnHead} {type : TypeNode} (h : head.result = some type)
    (brace : Option Token) (body : List Stmt) :
    checkTop ctx st (.fn head brace body, none) = st := by
  unfold checkTop
  simp only [h]

/-- A function with a written result type is read with the parameters of its signature. -/
theorem checkTop_declared {head : FnHead} {type : TypeNode} (h : head.result = some type)
    (brace : Option Token) (body : List Stmt) (s : Symbol) :
    checkTop ctx st (.fn head brace body, some s) =
      checkDeclared ctx head s.params type.ty body st := by
  unfold checkTop
  simp only [h]

end

end Analysis
end Slang
