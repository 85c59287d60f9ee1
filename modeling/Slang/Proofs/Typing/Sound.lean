import Slang.Proofs.Typing.Expression

/-!
# Accepted programs are well-formed

Soundness of analysis for the static rules. Each statement that is checked without an error is an
instance of a rule, in the environment that the table shows at its place; the environment after it
is what the table then shows. Returns are compared with what is known so far about the result type
(`Frame.Collects`), and only at the end of a function with each other.

Whether constants are computed plays no part here.
-/

namespace Slang

open Typing

namespace Analysis

/-! ### Declarations -/

section
variable {ctx : Context} {st : State} {name : Ident} {type : Option TypeNode} {value : Option Expr}

/-- What a declaration takes its type from, by the rules. -/
theorem declares_of_letTy (hv : st.table.Valid) (hvalue : ∀ e ∈ value, e.Whole)
    (hinit : Clean (letInit ctx st.table value).findings) {ty : Ty} {v : Option Value}
    (h : letTy name type value (letInit ctx st.table value) = (some (ty, v), [])) :
    Declares (st.table.view ctx.scope) type value ty := by
  cases value with
  | none =>
    cases type with
    | none => cases h
    | some tn =>
      obtain ⟨rfl, -⟩ := Prod.mk.inj (Option.some.inj (Prod.mk.inj h).1)
      exact .written
  | some e =>
    have htype : HasType (st.table.view ctx.scope) e (check ctx st.table e).ty :=
      hasType_check hv (hvalue e rfl) hinit
    have hne := ne_invalid_of_hasType hv htype
    -- the value has a type, so what is left are the ways to compare it with the written one
    change letTy name type (some e) (check ctx st.table e) = _ at h
    unfold letTy at h
    cases type with
    | none =>
      dsimp only at h
      rw [if_neg hne] at h
      split at h
      · cases h
      · obtain ⟨rfl, -⟩ := Prod.mk.inj (Option.some.inj (Prod.mk.inj h).1)
        exact .inferred htype
    | some tn =>
      dsimp only at h
      rw [if_neg hne] at h
      split at h
      · next hty =>
        obtain ⟨rfl, -⟩ := Prod.mk.inj (Option.some.inj (Prod.mk.inj h).1)
        exact .both (hty ▸ htype)
      · split at h <;> cases (Prod.mk.inj h).2

/-- A declaration with a type or a value always has something to declare. -/
theorem letTy_ne_none (hv : st.table.Valid) (hone : type.isSome ∨ value.isSome)
    (hvalue : ∀ e ∈ value, e.Whole) (hinit : Clean (letInit ctx st.table value).findings) :
    letTy name type value (letInit ctx st.table value) ≠ (none, []) := by
  intro h
  cases type with
  | some tn =>
    cases value with
    | none => cases h
    | some e =>
      unfold letTy at h
      dsimp only at h
      -- with a written type there is always a type
      repeat' split at h
      all_goals cases h
  | none =>
    cases value with
    | none => rcases hone with hone | hone <;> cases hone
    | some e =>
      -- without one, the value has a type, as nothing was reported in it
      have hne := ne_invalid_of_hasType hv (hasType_check hv (hvalue e rfl) hinit)
      change letTy name none (some e) (check ctx st.table e) = _ at h
      unfold letTy at h
      dsimp only at h
      rw [if_neg hne] at h
      split at h <;> cases h

/-- **Declarations without errors, in trees without gaps**: a variable of a new name is declared, of
a type that the rules give it. -/
theorem checkLet_proper_inv (hv : st.table.Valid) (hsc : ctx.scope < st.table.scopes.length)
    (hone : type.isSome ∨ value.isSome) (hvalue : ∀ e ∈ value, e.Whole)
    (h : (checkLet ctx name type value st).Clean) :
    Clean (letInit ctx st.table value).findings ∧
      ∃ ty v s, letTy name type value (letInit ctx st.table value) = (some (ty, v), []) ∧
        letSymbol name ty v = .ok s ∧
        Declares (st.table.view ctx.scope) type value ty ∧
        name.name ∉ (st.table.namesOf ctx.scope).map Prod.fst ∧
        st.table.Declared ctx.scope { s with inferred := type.isNone }
          (checkLet ctx name type value st).table ∧
        (checkLet ctx name type value st).returns = st.returns := by
  obtain ⟨-, hinit, hnone | ⟨ty, v, s, hty, hs, hrest⟩⟩ := checkLet_inv hv hsc h
  · exact absurd hnone (letTy_ne_none hv hone hvalue hinit)
  · exact ⟨hinit, ty, v, s, hty, hs, declares_of_letTy hv hvalue hinit hty, hrest⟩

end

/-- The view after a declaration: one more variable. -/
theorem view_of_letSymbol {sc : ScopeId} {t t' : Table} {name : Ident} {ty : Ty}
    {v : Option Value} {s : Symbol} {b : Bool} (hs : letSymbol name ty v = .ok s) (hv : t.Valid)
    (h : t.Declared sc { s with inferred := b } t') :
    IsValue ty ∧ ∃ names Γ, t.view sc = names :: Γ ∧
      t'.view sc = (names ++ [(name.name, .variable ty)]) :: Γ := by
  obtain ⟨w, rfl, -, rfl⟩ := letSymbol_ok hs
  exact ⟨isValue_ty w, h.view hv⟩

/-! ### Returns -/

/-- **What returns of types `rs` add to what is known about the returns of a function.** A written
result type is that of all of them; an inferred one is that of the first. -/
structure Frame.Collects (f : Frame) (r : Returns) (rs : List Ty) (r' : Returns) : Prop where
  seen : r'.seen = true ↔ r.seen = true ∨ rs ≠ []
  written : ∀ d, f.declared = some d → ∀ ty ∈ rs, ty = d
  first : f.declared = none → r'.first.map Prod.fst = (r.first.map Prod.fst).or rs.head?
  inferred : f.declared = none → ∀ ty ∈ rs, r'.first.map Prod.fst = some ty

theorem Frame.Collects.nil (f : Frame) (r : Returns) : f.Collects r [] r where
  seen := by simp
  written := fun _ _ _ h => absurd h List.not_mem_nil
  first := fun _ => by simp
  inferred := fun _ _ h => absurd h List.not_mem_nil

/-- **The returns of one part and then of another**: the first of them gives the type. -/
theorem Frame.Collects.append {f : Frame} {r r' r'' : Returns} {qs rs : List Ty}
    (h : f.Collects r qs r') (h' : f.Collects r' rs r'') : f.Collects r (qs ++ rs) r'' where
  seen := by
    rw [h'.seen, h.seen, or_assoc, ne_eq, ne_eq, ne_eq, List.append_eq_nil_iff, not_and_or]
  written := fun d hd ty hty => by
    rcases List.mem_append.mp hty with hty | hty
    · exact h.written d hd ty hty
    · exact h'.written d hd ty hty
  first := fun hd => by
    rw [h'.first hd, h.first hd, Option.or_assoc, List.head?_append]
  inferred := fun hd ty hty => by
    rcases List.mem_append.mp hty with hty | hty
    · rw [h'.first hd, h.inferred hd ty hty]
      rfl
    · exact h'.inferred hd ty hty

/-- One return more: it is seen, and what is known of the first is now known of it too. -/
theorem Frame.Collects.one {f : Frame} {r r' : Returns} {got : Ty} (hseen : r'.seen = true)
    (hwritten : ∀ d, f.declared = some d → got = d)
    (hfirst : f.declared = none →
      r'.first.map Prod.fst = some got ∧ ∀ ty, r.first.map Prod.fst = some ty → ty = got) :
    f.Collects r [got] r' where
  seen := by simp [hseen]
  written := fun d hd ty hty => List.mem_singleton.mp hty ▸ hwritten d hd
  first := fun hd => by
    obtain ⟨hgot, hold⟩ := hfirst hd
    rw [hgot]
    cases hr : r.first.map Prod.fst with
    | none => rfl
    | some ty =>
      rw [hold ty hr]
      rfl
  inferred := fun hd ty hty => List.mem_singleton.mp hty ▸ (hfirst hd).1

/-- **Returns without errors.** -/
theorem returnTy_inv {f : Frame} {got : Ty} (hasValue : Bool) {tok : Token} (st : State)
    (hvoid : hasValue = false → got = .void) (h : (returnTy f got hasValue tok st).Clean) :
    f.Collects st.returns [got] (returnTy f got hasValue tok st).returns := by
  unfold returnTy at h ⊢
  cases hd : f.declared with
  | none =>
    rw [hd] at h
    dsimp only at h ⊢
    unfold inferReturn at h ⊢
    -- no type is written, and the first return decides
    have hno : ∀ d, f.declared = some d → got = d := by
      intro d hd'
      rw [hd] at hd'
      cases hd'
    have hreturns : st.markReturned.returns.first = st.returns.first := rfl
    rw [hreturns] at h ⊢
    rcases hfirst : st.returns.first with _ | ⟨first, line⟩
    · refine .one rfl hno fun _ => ⟨rfl, ?_⟩
      simp [hfirst]
    · rw [hfirst] at h
      dsimp only at h ⊢
      by_cases hty : first = got
      · rw [if_pos hty]
        refine .one rfl hno fun _ => ⟨?_, ?_⟩
        · rw [hreturns, hfirst, hty]
          rfl
        · simp [hfirst, hty]
      · rw [if_neg hty] at h
        simp [SemanticProblem.severity] at h
  | some d =>
    rw [hd] at h
    dsimp only at h ⊢
    -- a type is written, and the return is compared with it
    have hgot : got = d := by
      unfold declaredReturn at h
      split at h
      · simp [SemanticProblem.severity] at h
      · split at h
        · simp [SemanticProblem.severity] at h
        · split at h
          · simp [SemanticProblem.severity] at h
          · next h₁ h₂ h₃ =>
            cases hasValue with
            | true => simpa using h₃
            | false =>
              rw [hvoid rfl]
              simpa [eq_comm] using h₂
    refine .one ?_ (fun d' hd' => hgot.trans (Option.some.inj (hd.symm.trans hd')))
      fun hd' => absurd (hd.symm.trans hd') (Option.some_ne_none d)
    unfold declaredReturn
    repeat' split
    all_goals rfl

section
variable {ctx : Context} {st : State} {f : Frame} {tok : Token}

theorem checkReturn_none_inv (hfn : ctx.fn = some f) (h : (checkReturn ctx tok none st).Clean) :
    f.Collects st.returns [.void] (checkReturn ctx tok none st).returns := by
  unfold checkReturn at h ⊢
  rw [hfn] at h ⊢
  exact returnTy_inv false st (fun _ => rfl) h

/-- Whatever becomes of a return, the findings of its value come first. -/
theorem clean_of_checkReturn (hfn : ctx.fn = some f) {e : Expr}
    (h : (checkReturn ctx tok (some e) st).Clean) : Clean (check ctx st.table e).findings := by
  unfold checkReturn at h
  rw [hfn] at h
  dsimp only at h
  split at h
  · exact (State.clean_report.mp h).2
  · split at h
    · exact (State.clean_report.mp (State.clean_problem.mp h).1).2
    · exact (State.clean_report.mp ((grows_returnTy _ ctx.scope _ _ _ _).clean h)).2

/-- **A return of a value that has a type.** -/
theorem checkReturn_typed_inv (hfn : ctx.fn = some f) {e : Expr}
    (hty : (check ctx st.table e).ty ≠ .invalid)
    (h : (checkReturn ctx tok (some e) st).Clean) :
    (check ctx st.table e).ty ≠ .void ∧
      f.Collects st.returns [(check ctx st.table e).ty]
        (checkReturn ctx tok (some e) st).returns := by
  unfold checkReturn at h ⊢
  rw [hfn] at h ⊢
  dsimp only at h ⊢
  rw [if_neg hty] at h ⊢
  split at h
  · have herr := (State.clean_problem.mp h).2
    exact absurd rfl herr
  · next hvoid =>
    rw [if_neg hvoid]
    exact ⟨hvoid, returnTy_inv true (st.report _) Bool.noConfusion h⟩

theorem checkReturn_some_inv (hv : st.table.Valid) (hfn : ctx.fn = some f) {e : Expr}
    (hw : e.Whole) (h : (checkReturn ctx tok (some e) st).Clean) :
    ∃ ty, HasType (st.table.view ctx.scope) e ty ∧ ty ≠ .void ∧
      f.Collects st.returns [ty] (checkReturn ctx tok (some e) st).returns := by
  have htype := hasType_check hv hw (clean_of_checkReturn hfn h)
  exact ⟨_, htype, checkReturn_typed_inv hfn (ne_invalid_of_hasType hv htype) h⟩

end

/-! ### Bodies -/

/-- A statement that leaves the frames of its scope as they are changes nothing in the view. -/
theorem view_checkAssign {ctx : Context} {st : State} {name : Ident} {e : Expr}
    (hv : st.table.Valid) (h : (checkAssign ctx name e st).Clean) :
    (checkAssign ctx name e st).table.view ctx.scope = st.table.view ctx.scope ∧
      (checkAssign ctx name e st).returns = st.returns := by
  obtain ⟨-, -, id, s, v, c, -, -, -, hreturns, htable⟩ := checkAssign_inv h
  refine ⟨(grows_checkAssign ctx st name e).table.view_eq hv ?_, hreturns⟩
  rcases htable with ⟨-, htable⟩ | ⟨-, htable⟩ <;> rw [htable] <;> rfl

/-- **Assignments without errors**: the name stands for a variable of the value's type. -/
theorem checkAssign_sound {ctx : Context} {st : State} {name : Ident} {e : Expr}
    (hv : st.table.Valid) (hw : e.Whole) (h : (checkAssign ctx name e st).Clean) :
    ∃ ty, (st.table.view ctx.scope).find? name.name = some (.variable ty) ∧
      HasType (st.table.view ctx.scope) e ty := by
  obtain ⟨-, hvalue, id, s, v, c, hid, hs, hc, -, htable⟩ := checkAssign_inv h
  have htype := hasType_check hv hw hvalue
  refine ⟨v.ty, ?_, ?_⟩
  · rw [hv.find?_view_eq_some hid hs, Symbol.entry, hc]
  · rcases htable with ⟨hinv, -⟩ | ⟨hty, -⟩
    · exact absurd hinv (ne_invalid_of_hasType hv htype)
    · exact hty ▸ htype

/-- The view after a block is that before it. -/
theorem view_of_inner {t t' : Table} {sc : ScopeId} {name : Text} (hv : t.Valid)
    (hsc : sc < t.scopes.length)
    (h : Table.Extends t.scopes.length (t.addScope (some sc) name).1 t') :
    t'.view sc = t.view sc :=
  (Table.Extends.of_inner hsc h).view_eq hv (h.frames_of_inner hv hsc)

/-- **Soundness on bodies.** Statements of a function that are checked without errors obey the
rules, and their returns are collected. -/
theorem body_of_checkStmts {f : Frame} (ctx : Context) (st : State) (hfn : ctx.fn = some f)
    (hv : st.table.Valid) (hsc : ctx.scope < st.table.scopes.length) (ss : List Stmt)
    (hss : ∀ s ∈ ss, s.Proper) (h : (checkStmts ctx st ss).Clean) :
    ∃ rs, Body (st.table.view ctx.scope) ss ((checkStmts ctx st ss).table.view ctx.scope) rs ∧
      f.Collects st.returns rs (checkStmts ctx st ss).returns := by
  -- on the size of the statements: a block is read by a second call, before the rest of its scope
  match ss with
  | [] =>
    rw [checkStmts]
    exact ⟨[], .nil, .nil f st.returns⟩
  | s :: ss =>
    rw [checkStmts] at h ⊢
    have hgrows := grows_checkStmt ctx st hsc s
    have hs := (grows_checkStmts ctx _ (hgrows.scope_lt hsc) ss).clean h
    obtain ⟨rs, hrest, hcollects⟩ := body_of_checkStmts ctx (checkStmt ctx st s) hfn
      (hgrows.table.valid hv) (hgrows.scope_lt hsc) ss
      (fun s' hs' => hss s' (List.mem_cons_of_mem s hs')) h
    have hproper := hss s List.mem_cons_self
    cases hproper with
    | letDecl hone hvalue =>
      rw [checkStmt] at hs hrest hcollects ⊢
      obtain ⟨-, ty, v, sym, -, hsym, hdeclares, hnew, hdeclared, hreturns⟩ :=
        checkLet_proper_inv hv hsc hone hvalue hs
      obtain ⟨hty, names, Γ, hview, hview'⟩ := view_of_letSymbol hsym hv hdeclared
      rw [hview'] at hrest
      rw [hreturns] at hcollects
      rw [← hv.map_fst_of_view hview] at hnew
      rw [hview] at hdeclares ⊢
      exact ⟨rs, .letDecl hdeclares hty hnew hrest, hcollects⟩
    | assign he =>
      rw [checkStmt] at hs hrest hcollects ⊢
      obtain ⟨ty, hname, htype⟩ := checkAssign_sound hv he hs
      obtain ⟨hview, hreturns⟩ := view_checkAssign hv hs
      rw [hview] at hrest
      rw [hreturns] at hcollects
      exact ⟨rs, .assign hname htype hrest, hcollects⟩
    | @ret tok value hvalue =>
      rw [checkStmt] at hs hrest hcollects ⊢
      rw [table_checkReturn] at hrest
      cases value with
      | none => exact ⟨_, .ret hrest, (checkReturn_none_inv hfn hs).append hcollects⟩
      | some e =>
        obtain ⟨ty, htype, hvoid, hone⟩ := checkReturn_some_inv hv hfn (hvalue e rfl) hs
        exact ⟨_, .retValue htype hvoid hrest, hone.append hcollects⟩
    | @block tok body hbody =>
      rw [checkStmt_block] at hs hrest hcollects ⊢
      have hinner := scope_lt_blockStart ctx st
      have hvalid := valid_scopeStart hv hsc "block" st.returns
      obtain ⟨qs, hblock, hcollects'⟩ :=
        body_of_checkStmts (blockContext ctx st) _ hfn hvalid hinner body hbody hs
      have hgrown := grows_checkStmts (blockContext ctx st) _ hinner body
      have hview : (scopeStart ctx "block" st.returns st).table.view (blockContext ctx st).scope =
        [] :: st.table.view ctx.scope := Table.view_addScope hv hsc "block"
      -- the names of the block are gone after it, its returns are not
      rw [view_of_inner hv hsc hgrown.table] at hrest
      rw [hview] at hblock
      exact ⟨qs ++ rs, .block hblock hrest, hcollects'.append hcollects⟩
    | expr he =>
      rw [checkStmt] at hs hrest hcollects ⊢
      obtain ⟨htable, hreturns⟩ := table_checkExprStmt ctx st _
      rw [htable] at hrest
      rw [hreturns] at hcollects
      have htype := hasType_check hv he ((clean_checkExprStmt ctx st _).mp hs).2
      exact ⟨rs, .expr htype hrest, hcollects⟩
termination_by sizeOf ss

/-! ### Functions -/

/-- **The variables of a function's parameters**, as they were declared. -/
structure HasParams (t : Table) (head : FnHead) (qs : List Param) : Prop where
  declared : qs.map (fun q => (q.name, q.ty)) =
    head.params.map fun p => (p.name.name, p.type.ty)
  symbols : ∀ q ∈ qs, ∃ s, t.symbol? q.id = some s ∧ s.name = q.name ∧ s.entry = .variable q.ty

theorem MadeParams.hasParams {head : FnHead} {qs : List Param} {st st' : State}
    (h : MadeParams head.params qs st st') : HasParams st'.table head qs where
  declared := h.declared
  symbols := fun q hq => by
    obtain ⟨s, v, hs, hname, hc, hty⟩ := h.new q hq
    exact ⟨s, hs, hname, by rw [Symbol.entry, hc, ← hty]⟩

theorem HasParams.mono {sc : ScopeId} {t t' : Table} {head : FnHead} {qs : List Param}
    (h : HasParams t head qs) (hgrown : Table.Extends sc t t') : HasParams t' head qs where
  declared := h.declared
  symbols := fun q hq => by
    obtain ⟨s, hs, hname, hentry⟩ := h.symbols q hq
    obtain ⟨s', hs', hsame⟩ := hgrown.symbol_same _ s hs
    exact ⟨s', hs', hsame.name.trans hname, hsame.entry.trans hentry⟩

theorem HasParams.names {t : Table} {head : FnHead} {qs : List Param} (h : HasParams t head qs) :
    qs.map (·.name) = head.params.map fun p => p.name.name := by
  have := congrArg (List.map Prod.fst) h.declared
  simpa [List.map_map, Function.comp_def] using this

theorem HasParams.types {t : Table} {head : FnHead} {qs : List Param} (h : HasParams t head qs) :
    qs.map (·.ty) = head.params.map fun p => p.type.ty := by
  have := congrArg (List.map Prod.snd) h.declared
  simpa [List.map_map, Function.comp_def] using this

/-- Parameters in the view are variables of their types. -/
theorem HasParams.reveal {t : Table} {head : FnHead} {qs : List Param} (h : HasParams t head qs) :
    t.reveal (qs.map Param.binding) = paramNames head := by
  have hreveal : t.reveal (qs.map Param.binding) =
      (qs.map fun q => (q.name, q.ty)).map fun b => (b.1, Entry.variable b.2) := by
    rw [Table.reveal, List.filterMap_map, List.map_map, ← List.filterMap_eq_map]
    refine List.filterMap_congr fun q hq => ?_
    obtain ⟨s, hs, -, hentry⟩ := h.symbols q hq
    simp [Param.binding, hs, hentry]
  rw [hreveal, h.declared, List.map_map]
  rfl

section
variable {ctx : Context} {st : State} {head : FnHead} {declared : Option Ty} {qs : List Param}

/-- **The view in which a body begins**: the parameters, inside the scopes around the function. -/
theorem view_bodyStart (declared : Option Ty) (hv : st.table.Valid)
    (hsc : ctx.scope < st.table.scopes.length)
    (hparams : HasParams st.table head qs) (hdistinct : DistinctParams [] head.params) :
    (bodyStart ctx head declared qs st).table.view (bodyContext ctx head declared qs st).scope =
      paramNames head :: st.table.view ctx.scope := by
  obtain ⟨-, -, hsymbols, hframes⟩ := bodyStart_spec head declared hv hsc
    (fun q hq => (hparams.symbols q hq).imp fun s hs => ⟨hs.1, hs.2.1⟩)
    (hparams.names ▸ hdistinct.distinct)
  have hreveal : (bodyStart ctx head declared qs st).table.reveal = st.table.reveal := by
    funext names
    unfold Table.reveal Table.symbol?
    rw [hsymbols]
  rw [Table.view, hframes, List.map_cons, hreveal, hparams.reveal]
  rfl

/-- **Soundness on functions.** -/
theorem body_of_checkBody (declared : Option Ty) {body : List Stmt} (hv : st.table.Valid)
    (hsc : ctx.scope < st.table.scopes.length) (hparams : HasParams st.table head qs)
    (hdistinct : DistinctParams [] head.params) (hbody : ∀ s ∈ body, s.Proper)
    (h : (checkBody ctx head declared qs body st).Clean) :
    ∃ Γ' rs, Body (paramNames head :: st.table.view ctx.scope) body Γ' rs ∧
      Frame.Collects ⟨head.name.name, declared, qs.map (·.id)⟩ ⟨false, none⟩ rs
        (checkBody ctx head declared qs body st).returns := by
  obtain ⟨-, hreturns, -, -⟩ := bodyStart_spec head declared hv hsc
    (fun q hq => (hparams.symbols q hq).imp fun s hs => ⟨hs.1, hs.2.1⟩)
    (hparams.names ▸ hdistinct.distinct)
  have hvalid := valid_bodyStart hv hsc head declared qs
  rw [checkBody_eq] at h ⊢
  obtain ⟨rs, hrules, hcollects⟩ := body_of_checkStmts _ _ rfl hvalid
    (scope_lt_bodyStart ctx head declared qs st) body hbody h
  rw [view_bodyStart declared hv hsc hparams hdistinct] at hrules
  rw [hreturns] at hcollects
  exact ⟨_, rs, hrules, hcollects⟩

theorem functionOk_of_checkDeclared {body : List Stmt} {result : Ty} {global : Names}
    (hv : st.table.Valid) (hsc : ctx.scope < st.table.scopes.length)
    (hview : st.table.view ctx.scope = [global]) (hparams : HasParams st.table head qs)
    (hdistinct : DistinctParams [] head.params) (hresult : IsValue result ∨ result = .void)
    (hbody : ∀ s ∈ body, s.Proper) (h : (checkDeclared ctx head qs result body st).Clean) :
    FunctionOk global head body result := by
  obtain ⟨hclean, hseen, -⟩ := checkDeclared_inv h
  obtain ⟨Γ', rs, hrules, hcollects⟩ := body_of_checkBody _ hv hsc hparams hdistinct hbody hclean
  rw [hview] at hrules
  refine ⟨hdistinct.distinct, hdistinct.values, hresult, Γ', rs, hrules,
    hcollects.written result rfl, fun hne => ?_⟩
  simpa using hcollects.seen.mp (hseen hne)

/-- The inferred type is that of the first return, or `void` without one. -/
theorem ty_eq_getD (r : Returns) : r.ty = (r.first.map Prod.fst).getD .void := by
  unfold Returns.ty
  cases r.first <;> rfl

/-- The inferred type is that of the returns. -/
theorem ty_of_collects {f : Frame} {rs : List Ty} {r : Returns} (hf : f.declared = none)
    (h : f.Collects ⟨false, none⟩ rs r) :
    (∀ ty ∈ rs, ty = r.ty) ∧ (r.ty ≠ .void → rs ≠ []) := by
  rw [ty_eq_getD]
  refine ⟨fun ty hmem => by rw [h.inferred hf ty hmem, Option.getD_some], ?_⟩
  -- without a return there is no first one, and the type is `void`
  rintro hne rfl
  exact hne (by rw [h.first hf]; rfl)

theorem entry_declareFunction {head : FnHead} {qs : List Param} {t : Table} {result : Ty}
    (h : HasParams t head qs) :
    Entry.function (qs.map (·.ty)) result = signature head result := by
  rw [h.types]
  rfl

/-- A scope that was declared into: one more function. -/
theorem view_declareFunction {inferred : Bool} {result : Ty} {names : Names} {Γ : Env}
    (hv : st.table.Valid) (hsc : ctx.scope < st.table.scopes.length)
    (hparams : HasParams st.table head qs) (hvalues : ∀ q ∈ qs, IsValue q.ty)
    (hresult : IsValue result ∨ result = .void) (hview : st.table.view ctx.scope = names :: Γ)
    (h : (st.declareFunction ctx head qs result inferred).Clean) :
    head.name.name ∉ names.map Prod.fst ∧
      (st.declareFunction ctx head qs result inferred).table.view ctx.scope =
        (names ++ [(head.name.name, signature head result)]) :: Γ := by
  obtain ⟨hnew, hdeclared⟩ := declareFunction_inv hv hsc hvalues hresult h
  obtain ⟨names', Γ', hview', hview''⟩ := hdeclared.view hv
  obtain ⟨rfl, rfl⟩ := List.cons.inj (hview'.symm.trans hview)
  rw [← hv.map_fst_of_view hview] at hnew
  refine ⟨hnew, hview''.trans ?_⟩
  rw [← entry_declareFunction hparams]
  rfl

theorem values_of_hasParams {t : Table} (h : HasParams t head qs)
    (hdistinct : DistinctParams [] head.params) : ∀ q ∈ qs, IsValue q.ty := by
  intro q hq
  have hmem : q.ty ∈ qs.map (·.ty) := List.mem_map_of_mem hq
  rw [h.types] at hmem
  obtain ⟨p, hp, hty⟩ := List.mem_map.mp hmem
  exact hty ▸ hdistinct.values p hp

theorem functionOk_of_checkInferred {body : List Stmt} {global : Names} (hv : st.table.Valid)
    (hsc : ctx.scope < st.table.scopes.length) (hview : st.table.view ctx.scope = [global])
    (hbody : ∀ s ∈ body, s.Proper) (h : (checkInferred ctx head body st).Clean) :
    ∃ result, FunctionOk global head body result ∧ head.name.name ∉ global.map Prod.fst ∧
      (checkInferred ctx head body st).table.view ctx.scope =
        [global ++ [(head.name.name, signature head result)]] := by
  obtain ⟨st₁, qs, st₂, hmake, hclean₁, hst₂, hclean₂, hresult, hdeclare, htable⟩ :=
    checkInferred_inv hsc h
  obtain ⟨hdistinct, hmade, hgrown₁⟩ := makeParams_inv ctx.scope hmake hclean₁
  have hv₁ := hgrown₁.table.valid hv
  have hsc₁ := hgrown₁.scope_lt hsc
  have hparams := hmade.hasParams
  have hview₁ : st₁.table.view ctx.scope = [global] := by
    rw [hgrown₁.table.view_eq hv (Table.frames_of_scopes hmade.scopes), hview]
  -- the body does not see the function, which is declared only after it
  have hgrown₂ := grows_checkBody ctx st₁ hsc₁ head none qs body
  rw [← hst₂] at hgrown₂
  obtain ⟨Γ', rs, hrules, hcollects⟩ := body_of_checkBody none hv₁ hsc₁ hparams
    hdistinct hbody (hst₂ ▸ hclean₂)
  rw [← hst₂] at hcollects
  rw [hview₁] at hrules
  obtain ⟨hall, hsome⟩ := ty_of_collects rfl hcollects
  have hview₂ : st₂.table.view ctx.scope = [global] := by
    rw [hst₂, view_of_inner hv₁ hsc₁ (extends_checkBody ctx st₁ head none qs body), hview₁]
  obtain ⟨hnew, hview₃⟩ := view_declareFunction (hgrown₂.table.valid hv₁) (hgrown₂.scope_lt hsc₁)
    (hparams.mono hgrown₂.table) (values_of_hasParams hparams hdistinct) hresult hview₂ hdeclare
  exact ⟨_, ⟨hdistinct.distinct, hdistinct.values, hresult, Γ', rs, hrules, hall, hsome⟩, hnew,
    htable ▸ hview₃⟩

end

/-! ### Programs -/

/-- **The signature of a statement.** A function with a written type has one, and its parameters are
variables of the table. -/
def Signed (t : Table) (s : Stmt × Option Symbol) : Prop :=
  ∀ head brace body type, s.1 = .fn head brace body → head.result = some type →
    DistinctParams [] head.params ∧ (IsValue type.ty ∨ type.ty = .void) ∧
      ∃ sym, s.2 = some sym ∧ HasParams t head sym.params

theorem Signed.mono {sc : ScopeId} {t t' : Table} {s : Stmt × Option Symbol} (h : Signed t s)
    (hgrown : Table.Extends sc t t') : Signed t' s := by
  intro head brace body type hs htype
  obtain ⟨hdistinct, hresult, sym, hsym, hparams⟩ := h head brace body type hs htype
  exact ⟨hdistinct, hresult, sym, hsym, hparams.mono hgrown⟩

/-- A statement without a name to declare ahead is left alone by the first pass. -/
theorem hoist_of_hoistedName_eq_none (ctx : Context) (st : State) {s : Stmt}
    (h : hoistedName s = none) :
    hoist ctx st s = (st, none) ∧ Signed st.table (s, none) := by
  cases s with
  | fn head brace body =>
    have hresult : head.result = none := by simpa [hoistedName] using h
    refine ⟨by simp [hoist, hresult], fun head' brace' body' type hs htype => ?_⟩
    obtain ⟨rfl, -, -⟩ := Stmt.fn.inj hs
    rw [hresult] at htype
    cases htype
  | _ => exact ⟨rfl, fun _ _ _ _ hs => by cases hs⟩

theorem hoisted_cons (s : Stmt) (p : Program) :
    hoisted (s :: p) = (hoistedName s).toList ++ hoisted p := by
  unfold hoisted
  rw [List.filterMap_cons]
  cases hoistedName s <;> rfl

/-- The first pass on one statement, without errors. -/
theorem hoist_sound {ctx : Context} {st : State} {s : Stmt} {names : Names} (hv : st.table.Valid)
    (hsc : ctx.scope < st.table.scopes.length) (hview : st.table.view ctx.scope = [names])
    (hnodup : (names.map Prod.fst).Nodup) (h : (hoist ctx st s).1.Clean) :
    (hoist ctx st s).1.table.view ctx.scope = [names ++ (hoistedName s).toList] ∧
      ((names ++ (hoistedName s).toList).map Prod.fst).Nodup ∧
      Signed (hoist ctx st s).1.table (s, (hoist ctx st s).2) := by
  cases hname : hoistedName s with
  | none =>
    obtain ⟨hhoist, hsigned⟩ := hoist_of_hoistedName_eq_none ctx st hname
    rw [hhoist]
    simpa [hview, hnodup] using hsigned
  | some b =>
    cases s with
    | fn head brace body =>
      obtain ⟨type, htype, rfl⟩ : ∃ type, head.result = some type ∧
          (head.name.name, signature head type.ty) = b := by
        simpa [hoistedName] using hname
      obtain ⟨st₁, qs, hmake, hclean₁, hresult, hdeclare, htable, sym, hsym, hqs⟩ :=
        hoist_inv htype h
      obtain ⟨hdistinct, hmade, hgrown₁⟩ := makeParams_inv ctx.scope hmake hclean₁
      have hparams := hmade.hasParams
      have hvalues := values_of_hasParams hparams hdistinct
      have hview₁ : st₁.table.view ctx.scope = [names] := by
        rw [hgrown₁.table.view_eq hv (Table.frames_of_scopes hmade.scopes), hview]
      obtain ⟨hnew, hview₂⟩ := view_declareFunction (hgrown₁.table.valid hv)
        (hgrown₁.scope_lt hsc) hparams hvalues hresult hview₁ hdeclare
      have hgrown₂ : st₁.Grows ctx.scope (st₁.declareFunction ctx head qs type.ty false) :=
        grows_declare (typed_functionSymbol hvalues hresult)
      refine ⟨?_, ?_, ?_⟩
      · rw [htable]
        exact hview₂
      · rw [Option.toList_some, List.map_append, List.map_singleton]
        -- the new name is not among the old ones, or there would be an error
        refine List.nodup_append.mpr ⟨hnodup, by simp, fun a ha b hb hab => hnew ?_⟩
        have hb : b = head.name.name := List.mem_singleton.mp hb
        exact hb ▸ hab ▸ ha
      · intro head' brace' body' type' hs htype'
        obtain ⟨rfl, -, -⟩ := Stmt.fn.inj hs
        obtain rfl := Option.some.inj (htype.symm.trans htype')
        refine ⟨hdistinct, hresult, sym, hsym, ?_⟩
        rw [htable, hqs]
        exact hparams.mono hgrown₂.table
    | _ => cases hname

/-- **The first pass without errors**: the global scope has the functions with a written type, under
distinct names, and each of them has its signature. -/
theorem hoistAll_sound {ctx : Context} {st : State} {p : Program} {names : Names}
    (hv : st.table.Valid) (hsc : ctx.scope < st.table.scopes.length)
    (hview : st.table.view ctx.scope = [names]) (hnodup : (names.map Prod.fst).Nodup)
    (h : (hoistAll ctx st p).1.Clean) :
    (hoistAll ctx st p).1.table.view ctx.scope = [names ++ hoisted p] ∧
      ((names ++ hoisted p).map Prod.fst).Nodup ∧
      (hoistAll ctx st p).2.map Prod.fst = p ∧
      ∀ s ∈ (hoistAll ctx st p).2, Signed (hoistAll ctx st p).1.table s := by
  -- on the statements; names are added at the end, in the order of the source
  induction p generalizing st names with
  | nil => exact ⟨by simpa [hoistAll, hoisted] using hview, by simpa [hoisted] using hnodup, rfl,
      fun s hs => absurd hs List.not_mem_nil⟩
  | cons s p ih =>
    have hgrown := grows_hoist ctx st s
    have hrest := grows_hoistAll ctx (hoist ctx st s).1 p
    obtain ⟨hview₁, hnodup₁, hsigned⟩ := hoist_sound hv hsc hview hnodup (hrest.clean h)
    obtain ⟨hview₂, hnodup₂, hfst, hall⟩ :=
      ih (hgrown.table.valid hv) (hgrown.scope_lt hsc) hview₁ hnodup₁ h
    rw [hoisted_cons, ← List.append_assoc]
    refine ⟨hview₂, hnodup₂, congrArg (s :: ·) hfst, ?_⟩
    rintro s' (_ | ⟨_, hs'⟩)
    · exact hsigned.mono hrest.table
    · exact hall s' hs'

/-- **Soundness on top-level statements.** -/
theorem topLevel_of_checkTops {ctx : Context} {st : State} {l : List (Stmt × Option Symbol)}
    {global : Names} (hv : st.table.Valid) (hsc : ctx.scope < st.table.scopes.length)
    (hview : st.table.view ctx.scope = [global]) (hproper : ∀ s ∈ l, s.1.ProperTop)
    (hsigned : ∀ s ∈ l, Signed st.table s) (h : (l.foldl (checkTop ctx) st).Clean) :
    TopLevel global (l.map Prod.fst) := by
  induction l generalizing st global with
  | nil => exact .nil
  | cons s l ih =>
    obtain ⟨s, signature⟩ := s
    have hgrown := grows_checkTop ctx st hsc (s, signature)
    have hclean := (grows_checkTops ctx _ (hgrown.scope_lt hsc) l).clean h
    -- signatures outlive a statement, so only the view is left to each case
    have ih := fun (global' : Names)
        (hview' : (checkTop ctx st (s, signature)).table.view ctx.scope = [global']) =>
      ih (hgrown.table.valid hv) (hgrown.scope_lt hsc) hview'
        (fun s' hs' => hproper s' (List.mem_cons_of_mem _ hs'))
        (fun s' hs' => (hsigned s' (List.mem_cons_of_mem _ hs')).mono hgrown.table) h
    have hs : s.ProperTop := hproper _ List.mem_cons_self
    cases hs with
    | letDecl hone hvalue =>
      rw [checkTop_letDecl] at hclean ih
      obtain ⟨-, ty, v, sym, -, hsym, hdeclares, hnew, hdeclared, -⟩ :=
        checkLet_proper_inv hv hsc hone hvalue hclean
      obtain ⟨hty, names, Γ, hview', hview''⟩ := view_of_letSymbol hsym hv hdeclared
      obtain ⟨rfl, rfl⟩ := List.cons.inj (hview'.symm.trans hview)
      rw [hview'] at hdeclares
      rw [← hv.map_fst_of_view hview] at hnew
      exact .letDecl hdeclares hty hnew (ih _ hview'')
    | assign he =>
      rw [checkTop_assign] at hclean ih
      obtain ⟨ty, hname, htype⟩ := checkAssign_sound hv he hclean
      rw [hview] at hname htype
      exact .assign hname htype (ih _ ((view_checkAssign hv hclean).1.trans hview))
    | @fn head brace body hbody =>
      cases hresult : head.result with
      | none =>
        rw [checkTop_inferred _ _ _ hresult] at hclean ih
        obtain ⟨result, hok, hnew, hview'⟩ := functionOk_of_checkInferred hv hsc hview hbody hclean
        exact .inferred hresult hok hnew (ih _ hview')
      | some type =>
        obtain ⟨hdistinct, hreturn, sym, rfl, hparams⟩ :=
          hsigned _ List.mem_cons_self head brace body type rfl hresult
        rw [checkTop_declared _ _ hresult] at hclean ih
        have hok := functionOk_of_checkDeclared hv hsc hview hparams hdistinct hreturn hbody hclean
        refine .declared hresult hok (ih _ ?_)
        rw [(checkDeclared_inv hclean).2.2, ← hview]
        exact view_of_inner hv hsc (extends_checkBody ctx st head (some type.ty) sym.params body)

/-- **Soundness.** A program without gaps in which no error is found is well-formed. -/
theorem wellFormed_of_checkProgram {options : Options} {mutated : List Text} {p : Program}
    (hproper : ∀ s ∈ p, s.ProperTop) (h : (checkProgram options mutated p).Clean) :
    WellFormed p := by
  have hsc := scope_lt_startState options mutated
  have hgrown := grows_hoistAll (topContext options mutated) startState p
  rw [checkProgram_eq] at h
  have hclean := (grows_checkTops _ _ (hgrown.scope_lt hsc) _).clean h
  have hview : startState.table.view (topContext options mutated).scope = [[]] := rfl
  obtain ⟨hview₁, hnodup, hfst, hsigned⟩ :=
    hoistAll_sound valid_freshTable hsc hview List.nodup_nil hclean
  refine ⟨hnodup, ?_⟩
  have htop := topLevel_of_checkTops (hgrown.table.valid valid_freshTable) (hgrown.scope_lt hsc)
    hview₁ (fun s hs => hproper s.1 (hfst ▸ List.mem_map_of_mem hs)) hsigned h
  rw [hfst] at htop
  exact htop

end Analysis
end Slang
