import Slang.Proofs.Typing.Sound

/-!
# Well-formed programs are accepted

Completeness of analysis for the static rules, where constants are not computed. The induction is on
the derivation: each rule is an instance of a statement that is checked without an error, in a state
whose table shows the environment of the rule. Together with soundness this settles which programs
analysis accepts (`accepted_iff_wellFormed`).

With constants, analysis also rejects programs whose constants overflow or divide by zero, so there
only soundness holds.
-/

namespace Slang

open Typing

namespace Analysis

/-! ### Declarations and assignments -/

section
variable {ctx : Context} {st : State} {name : Ident} {type : Option TypeNode} {value : Option Expr}

/-- A let statement that declares a type is taken to have it. -/
theorem letTy_of_declares (name : Ident) (hfold : ctx.options.fold = false)
    (hv : st.table.Valid) {ty : Ty} (h : Declares (st.table.view ctx.scope) type value ty)
    (hty : IsValue ty) :
    letTy name type value (letInit ctx st.table value) = (some (ty, none), []) ∧
      Clean (letInit ctx st.table value).findings := by
  cases h with
  | written => exact ⟨rfl, clean_nil⟩
  | both he =>
    have hcheck := check_of_hasType hv hfold he
    -- the value is checked without a report, and has the type that it was given
    have hinit : letInit ctx st.table (some _) = .ofTy ty [] := hcheck
    rw [hinit]
    exact ⟨by simp [letTy, Checked.ofTy, hty.ne_invalid], clean_nil⟩
  | inferred he =>
    have hcheck := check_of_hasType hv hfold he
    have hinit : letInit ctx st.table (some _) = .ofTy ty [] := hcheck
    rw [hinit]
    exact ⟨by simp [letTy, Checked.ofTy, hty.ne_invalid, hty.ne_void], clean_nil⟩

/-- **Completeness on declarations.** -/
theorem checkLet_complete (hfold : ctx.options.fold = false) (hv : st.table.Valid)
    (hsc : ctx.scope < st.table.scopes.length) (hst : st.Clean) {ty : Ty} {names : Names} {Γ : Env}
    (hview : st.table.view ctx.scope = names :: Γ)
    (h : Declares (names :: Γ) type value ty) (hty : IsValue ty)
    (hnew : name.name ∉ names.map Prod.fst) :
    (checkLet ctx name type value st).Clean ∧
      (checkLet ctx name type value st).returns = st.returns ∧
      (checkLet ctx name type value st).table.view ctx.scope =
        (names ++ [(name.name, .variable ty)]) :: Γ := by
  rw [← hview] at h
  obtain ⟨hletTy, hinit⟩ := letTy_of_declares name hfold hv h hty
  -- no value is known, so the symbol is made from the type alone
  obtain ⟨s, hs⟩ := (ofTy_isOk_iff name.name name.token.line).mpr hty
  have hs : letSymbol name ty none = .ok s := hs
  rw [hv.map_fst_of_view hview] at hnew
  obtain ⟨hdeclared, hreturns⟩ := declared_checkLet hv hsc hletTy hs hnew
  obtain ⟨-, names', Γ', hview', hview''⟩ := view_of_letSymbol hs hv hdeclared
  obtain ⟨rfl, rfl⟩ := List.cons.inj (hview'.symm.trans hview)
  exact ⟨(clean_checkLet hv hletTy hs).mpr ⟨⟨hst, hinit, clean_nil⟩, hnew⟩, hreturns, hview''⟩

/-- **Completeness on assignments.** -/
theorem checkAssign_complete {e : Expr} (hfold : ctx.options.fold = false) (hv : st.table.Valid)
    (hst : st.Clean) {ty : Ty}
    (hname : (st.table.view ctx.scope).find? name.name = some (.variable ty))
    (he : HasType (st.table.view ctx.scope) e ty) : (checkAssign ctx name e st).Clean := by
  obtain ⟨i, s, hi, hs, -, hentry⟩ := hv.exists_of_find?_view hname
  obtain ⟨v, c, hc, rfl⟩ := Symbol.entry_eq_variable hentry
  have hcheck := check_of_hasType hv hfold he
  exact clean_checkAssign hi hs hc hst (by rw [hcheck]; exact clean_nil) (by rw [hcheck]; rfl)

end

/-! ### Returns -/

/-- **A function that so far agrees with a result type**: the written type is this one, or else that
of the first return is. -/
structure Frame.Expects (f : Frame) (r : Returns) (want : Ty) : Prop where
  written : ∀ d, f.declared = some d → d = want
  first : f.declared = none → ∀ ty, r.first.map Prod.fst = some ty → ty = want

/-- Returns of the expected type leave a function in agreement with it. -/
theorem Frame.Expects.collect {f : Frame} {r r' : Returns} {rs : List Ty} {want : Ty}
    (h : f.Expects r want) (hrs : ∀ ty ∈ rs, ty = want) (hcollects : f.Collects r rs r') :
    f.Expects r' want where
  written := h.written
  first := fun hd ty hty => by
    rw [hcollects.first hd, Option.or_eq_some_iff] at hty
    rcases hty with hty | ⟨-, hty⟩
    · exact h.first hd ty hty
    · exact hrs ty (List.mem_of_mem_head? hty)

theorem clean_returnTy {f : Frame} {want : Ty} {hasValue : Bool} {tok : Token} {st : State}
    (hst : st.Clean) (h : f.Expects st.returns want) (hvalue : hasValue = true ↔ want ≠ .void) :
    (returnTy f want hasValue tok st).Clean := by
  unfold returnTy
  cases hd : f.declared with
  | none =>
    dsimp only
    unfold inferReturn
    have hreturns : st.markReturned.returns.first = st.returns.first := rfl
    rw [hreturns]
    rcases hfirst : st.returns.first with _ | ⟨first, line⟩
    · exact hst
    · have hty : first = want := h.first hd first (by simp [hfirst])
      dsimp only
      rw [if_pos hty]
      exact hst
  | some d =>
    obtain rfl := h.written d hd
    dsimp only
    unfold declaredReturn
    -- a value where none is wanted, none where one is, and one of another type
    rw [if_neg (fun hbad => hvalue.mp hbad.2 hbad.1),
      if_neg (fun hbad => hbad.2 (hvalue.mpr hbad.1)), if_neg (fun hbad => hbad.1 rfl)]
    exact hst

section
variable {ctx : Context} {st : State} {f : Frame} {tok : Token}

theorem checkReturn_none_complete (tok : Token) (hfn : ctx.fn = some f) (hst : st.Clean)
    (h : f.Expects st.returns .void) : (checkReturn ctx tok none st).Clean := by
  unfold checkReturn
  rw [hfn]
  exact clean_returnTy hst h (by simp)

/-- A return statement with a value of the expected type is accepted. -/
theorem checkReturn_some_complete (tok : Token) (hfold : ctx.options.fold = false)
    (hv : st.table.Valid) (hfn : ctx.fn = some f) (hst : st.Clean) {e : Expr} {ty : Ty}
    (he : HasType (st.table.view ctx.scope) e ty) (hty : ty ≠ .void)
    (h : f.Expects st.returns ty) :
    (checkReturn ctx tok (some e) st).Clean ∧
      f.Collects st.returns [ty] (checkReturn ctx tok (some e) st).returns := by
  have hne := ne_invalid_of_hasType hv he
  -- the value has a type, and it is not void
  have hreturn : checkReturn ctx tok (some e) st = returnTy f ty true e.token (st.report []) := by
    unfold checkReturn
    rw [hfn]
    dsimp only
    rw [check_of_hasType hv hfold he]
    simp [Checked.ofTy, hne, hty]
  have hclean : (returnTy f ty true e.token (st.report [])).Clean :=
    clean_returnTy (State.clean_report.mpr ⟨hst, clean_nil⟩) h (by simp [hty])
  rw [hreturn]
  exact ⟨hclean, returnTy_inv true (st.report []) Bool.noConfusion hclean⟩

end

/-! ### Bodies -/

/-- **Completeness on bodies.** -/
theorem checkStmts_complete {f : Frame} {want : Ty} {Γ Γ' : Env} {ss : List Stmt} {rs : List Ty}
    (h : Body Γ ss Γ' rs) {ctx : Context} {st : State} (hfold : ctx.options.fold = false)
    (hfn : ctx.fn = some f) (hv : st.table.Valid) (hsc : ctx.scope < st.table.scopes.length)
    (hst : st.Clean) (hview : st.table.view ctx.scope = Γ) (hrs : ∀ ty ∈ rs, ty = want)
    (hexpects : f.Expects st.returns want) :
    (checkStmts ctx st ss).Clean ∧ f.Collects st.returns rs (checkStmts ctx st ss).returns ∧
      (checkStmts ctx st ss).table.view ctx.scope = Γ' := by
  -- on the derivation; the returns so far agree with `want`, and each rule keeps it so
  induction h generalizing ctx st with
  | nil =>
    rw [checkStmts]
    exact ⟨hst, .nil f st.returns, hview⟩
  | @letDecl names Γ Γ' t name type value ty ss rs hvalue hty hnew hrest ih =>
    rw [checkStmts, checkStmt]
    obtain ⟨hclean, hreturns, hview'⟩ :=
      checkLet_complete hfold hv hsc hst hview hvalue hty hnew
    have hgrown := grows_checkLet ctx st name type value
    have hnext := ih hfold hfn (hgrown.table.valid hv) (hgrown.scope_lt hsc) hclean hview' hrs
    rw [hreturns] at hnext
    exact hnext hexpects
  | @assign Γ Γ' t name e ty ss rs hname he hrest ih =>
    rw [checkStmts, checkStmt]
    subst hview
    have hclean := checkAssign_complete hfold hv hst hname he
    obtain ⟨hview', hreturns⟩ := view_checkAssign hv hclean
    have hgrown := grows_checkAssign ctx st name e
    have hnext := ih hfold hfn (hgrown.table.valid hv) (hgrown.scope_lt hsc) hclean hview' hrs
    rw [hreturns] at hnext
    exact hnext hexpects
  | @ret Γ Γ' t ss rs hrest ih =>
    rw [checkStmts, checkStmt]
    obtain rfl := hrs .void List.mem_cons_self
    have hclean := checkReturn_none_complete t hfn hst hexpects
    have hcollects := checkReturn_none_inv hfn hclean
    have hgrown := grows_checkReturn ctx st t none
    obtain ⟨hclean', hcollects', hview'⟩ := ih hfold hfn (hgrown.table.valid hv)
      (hgrown.scope_lt hsc) hclean ((table_checkReturn ctx st t none).symm ▸ hview)
      (fun ty hty => hrs ty (List.mem_cons_of_mem _ hty))
      (hexpects.collect (fun ty hty => List.mem_singleton.mp hty) hcollects)
    exact ⟨hclean', hcollects.append hcollects', hview'⟩
  | @retValue Γ Γ' t e ty ss rs he hty hrest ih =>
    rw [checkStmts, checkStmt]
    obtain rfl := hrs ty List.mem_cons_self
    subst hview
    obtain ⟨hclean, hcollects⟩ :=
      checkReturn_some_complete t hfold hv hfn hst he hty hexpects
    have hgrown := grows_checkReturn ctx st t (some e)
    obtain ⟨hclean', hcollects', hview'⟩ := ih hfold hfn (hgrown.table.valid hv)
      (hgrown.scope_lt hsc) hclean (by rw [table_checkReturn])
      (fun ty hty => hrs ty (List.mem_cons_of_mem _ hty))
      (hexpects.collect (fun ty hty => List.mem_singleton.mp hty) hcollects)
    exact ⟨hclean', hcollects.append hcollects', hview'⟩
  | @block Γ Γ' Δ t body ss qs rs hbody hrest ihbody ih =>
    rw [checkStmts, checkStmt_block]
    have hinner := scope_lt_blockStart ctx st
    have hvalid := valid_scopeStart hv hsc "block" st.returns
    have hstart : (scopeStart ctx "block" st.returns st).table.view (blockContext ctx st).scope =
        [] :: Γ := hview ▸ Table.view_addScope hv hsc "block"
    obtain ⟨hclean, hcollects, -⟩ := @ihbody (blockContext ctx st)
      (scopeStart ctx "block" st.returns st) hfold hfn hvalid hinner hst hstart
      (fun ty hty => hrs ty (List.mem_append_left _ hty)) hexpects
    -- back in the scope around the block, which sees what it saw before
    have hgrown := grows_checkStmts (blockContext ctx st) _ hinner body
    have hgrown' := State.Grows.of_inner hsc hgrown
    have hview' := (view_of_inner hv hsc hgrown.table).trans hview
    obtain ⟨hclean', hcollects', hview''⟩ := ih hfold hfn (hgrown'.table.valid hv)
      (hgrown'.scope_lt hsc) hclean hview' (fun ty hty => hrs ty (List.mem_append_right _ hty))
      (hexpects.collect (fun ty hty => hrs ty (List.mem_append_left _ hty)) hcollects)
    exact ⟨hclean', hcollects.append hcollects', hview''⟩
  | @expr Γ Γ' t e ty ss rs he hrest ih =>
    rw [checkStmts, checkStmt]
    subst hview
    have hclean : (checkExprStmt ctx e st).Clean := by
      rw [clean_checkExprStmt, check_of_hasType hv hfold he]
      exact ⟨hst, clean_nil⟩
    obtain ⟨htable, hreturns⟩ := table_checkExprStmt ctx st e
    have hgrown := grows_checkExprStmt ctx st e
    have hnext := ih hfold hfn (hgrown.table.valid hv) (hgrown.scope_lt hsc) hclean
      (by rw [htable]) hrs
    rw [hreturns] at hnext
    exact hnext hexpects

/-! ### Functions -/

theorem distinctParams_of_functionOk {global : Names} {head : FnHead} {body : List Stmt}
    {result : Ty} (h : FunctionOk global head body result) : DistinctParams [] head.params :=
  ⟨h.distinct, fun _ _ => List.not_mem_nil, h.params⟩

section
variable {ctx : Context} {st : State} {head : FnHead} {global : Names} {body : List Stmt}
variable {result : Ty}

/-- **Completeness on functions**: the body of a function is checked without errors, whether its
type is written or not. -/
theorem checkBody_complete (declared : Option Ty) {qs : List Param} {Γ' : Env} {rs : List Ty}
    (hfold : ctx.options.fold = false) (hv : st.table.Valid)
    (hsc : ctx.scope < st.table.scopes.length) (hst : st.Clean)
    (hview : st.table.view ctx.scope = [global]) (hparams : HasParams st.table head qs)
    (hdistinct : DistinctParams [] head.params) (hdeclared : ∀ d, declared = some d → d = result)
    (hbody : Body [paramNames head, global] body Γ' rs) (hrs : ∀ ty ∈ rs, ty = result) :
    (checkBody ctx head declared qs body st).Clean ∧
      Frame.Collects ⟨head.name.name, declared, qs.map (·.id)⟩ ⟨false, none⟩ rs
        (checkBody ctx head declared qs body st).returns := by
  obtain ⟨hclean, hreturns, -, -⟩ := bodyStart_spec head declared hv hsc
    (fun q hq => (hparams.symbols q hq).imp fun s hs => ⟨hs.1, hs.2.1⟩)
    (hparams.names ▸ hdistinct.distinct)
  have hvalid := valid_bodyStart hv hsc head declared qs
  have hstart := view_bodyStart declared hv hsc hparams hdistinct
  rw [hview] at hstart
  -- before the first return only a written type can disagree, and it does not
  have hexpects : Frame.Expects ⟨head.name.name, declared, qs.map (·.id)⟩
      (bodyStart ctx head declared qs st).returns result := by
    rw [hreturns]
    exact ⟨hdeclared, fun _ ty hty => by cases hty⟩
  have hfold' : (bodyContext ctx head declared qs st).options.fold = false := hfold
  obtain ⟨hclean', hcollects, -⟩ := checkStmts_complete hbody hfold' rfl hvalid
    (scope_lt_bodyStart ctx head declared qs st) (hclean.mpr hst) hstart hrs hexpects
  rw [hreturns] at hcollects
  exact ⟨hclean', hcollects⟩

theorem checkDeclared_complete {qs : List Param} (hfold : ctx.options.fold = false)
    (hv : st.table.Valid) (hsc : ctx.scope < st.table.scopes.length) (hst : st.Clean)
    (hview : st.table.view ctx.scope = [global]) (hparams : HasParams st.table head qs)
    (h : FunctionOk global head body result) :
    (checkDeclared ctx head qs result body st).Clean := by
  obtain ⟨Γ', rs, hrules, hrs, hsome⟩ := h.body_ok
  obtain ⟨hclean, hcollects⟩ := checkBody_complete (some result) hfold hv hsc hst hview
    hparams (distinctParams_of_functionOk h) (fun d hd => (Option.some.inj hd).symm) hrules hrs
  unfold checkDeclared
  dsimp only
  rw [if_neg]
  · exact hclean
  · rintro ⟨hne, hseen⟩
    exact hseen (hcollects.seen.mpr (.inr (hsome hne)))

/-- The inferred type is the one that the rules give. -/
theorem ty_of_functionOk {f : Frame} {rs : List Ty} {r : Returns} (hf : f.declared = none)
    (h : f.Collects ⟨false, none⟩ rs r) (hrs : ∀ ty ∈ rs, ty = result)
    (hsome : result ≠ .void → rs ≠ []) : r.ty = result := by
  obtain ⟨hall, hnonempty⟩ := ty_of_collects hf h
  cases rs with
  | nil =>
    by_cases hvoid : result = .void
    · rw [hvoid]
      by_contra hne
      exact hnonempty hne rfl
    · exact absurd rfl (hsome hvoid)
  | cons ty rs => rw [← hall ty List.mem_cons_self, hrs ty List.mem_cons_self]

/-- Declaring a function under a new name. -/
theorem declareFunction_complete {qs : List Param} (inferred : Bool) (hv : st.table.Valid)
    (hst : st.Clean) (hview : st.table.view ctx.scope = [global])
    (hvalues : ∀ q ∈ qs, IsValue q.ty) (hresult : IsValue result ∨ result = .void)
    (hnew : head.name.name ∉ global.map Prod.fst) :
    (st.declareFunction ctx head qs result inferred).Clean := by
  rw [hv.map_fst_of_view hview] at hnew
  exact (clean_declare hv (typed_functionSymbol hvalues hresult)).mpr ⟨hst, hnew⟩

theorem checkInferred_complete (hfold : ctx.options.fold = false) (hv : st.table.Valid)
    (hsc : ctx.scope < st.table.scopes.length) (hst : st.Clean)
    (hview : st.table.view ctx.scope = [global]) (h : FunctionOk global head body result)
    (hnew : head.name.name ∉ global.map Prod.fst) :
    (checkInferred ctx head body st).Clean ∧
      (checkInferred ctx head body st).table.view ctx.scope =
        [global ++ [(head.name.name, signature head result)]] := by
  obtain ⟨Γ', rs, hrules, hrs, hsome⟩ := h.body_ok
  have hdistinct := distinctParams_of_functionOk h
  have hclean₁ := clean_makeParams.mpr ⟨hst, hdistinct⟩
  rcases hmake : makeParams [] st head.params with ⟨st₁, qs⟩
  rw [hmake] at hclean₁
  obtain ⟨-, hmade, hgrown₁⟩ := makeParams_inv ctx.scope hmake hclean₁
  have hparams := hmade.hasParams
  have hv₁ := hgrown₁.table.valid hv
  have hsc₁ := hgrown₁.scope_lt hsc
  have hview₁ : st₁.table.view ctx.scope = [global] := by
    rw [hgrown₁.table.view_eq hv (Table.frames_of_scopes hmade.scopes), hview]
  obtain ⟨hclean₂, hcollects⟩ := checkBody_complete none hfold hv₁ hsc₁ hclean₁
    hview₁ hparams hdistinct (fun d hd => by cases hd) hrules hrs
  have hgrown₂ := grows_checkBody ctx st₁ hsc₁ head none qs body
  have hview₂ := view_of_inner hv₁ hsc₁ (extends_checkBody ctx st₁ head none qs body)
  rw [hview₁] at hview₂
  -- the type that was inferred is the one of the rules, so the signature is sound
  have hty := ty_of_functionOk rfl hcollects hrs hsome
  obtain ⟨e, he, heq⟩ := checkInferred_eq ctx body hmake
    (by rw [hty]; exact h.result_ok)
  rw [hty] at heq
  have hvalues := values_of_hasParams hparams hdistinct
  have hv₂ := hgrown₂.table.valid hv₁
  have hclean₃ := declareFunction_complete true hv₂ hclean₂ hview₂ hvalues
    h.result_ok hnew
  obtain ⟨-, hview₃⟩ := view_declareFunction hv₂ (hgrown₂.scope_lt hsc₁)
    (hparams.mono hgrown₂.table) hvalues h.result_ok hview₂ hclean₃
  rw [heq]
  exact ⟨(State.clean_note he).mpr hclean₃, hview₃⟩

end

/-! ### Programs -/

/-- The first pass on one statement: nothing is wrong with a function whose signature is sound and
whose name is new. -/
theorem hoist_complete {ctx : Context} {st : State} {s : Stmt} {names : Names}
    (hv : st.table.Valid) (hst : st.Clean) (hview : st.table.view ctx.scope = [names])
    (hnodup : ((names ++ (hoistedName s).toList).map Prod.fst).Nodup)
    (hsound : ∀ head brace body type, s = .fn head brace body → head.result = some type →
      DistinctParams [] head.params ∧ (IsValue type.ty ∨ type.ty = .void)) :
    (hoist ctx st s).1.Clean := by
  cases hname : hoistedName s with
  | none =>
    rw [(hoist_of_hoistedName_eq_none ctx st hname).1]
    exact hst
  | some b =>
    cases s with
    | fn head brace body =>
      obtain ⟨type, htype, rfl⟩ : ∃ type, head.result = some type ∧
          (head.name.name, signature head type.ty) = b := by
        simpa [hoistedName] using hname
      obtain ⟨hdistinct, hresult⟩ := hsound head brace body type rfl htype
      have hclean₁ := clean_makeParams.mpr ⟨hst, hdistinct⟩
      rcases hmake : makeParams [] st head.params with ⟨st₁, qs⟩
      rw [hmake] at hclean₁
      obtain ⟨-, hmade, hgrown₁⟩ := makeParams_inv ctx.scope hmake hclean₁
      have hview₁ : st₁.table.view ctx.scope = [names] := by
        rw [hgrown₁.table.view_eq hv (Table.frames_of_scopes hmade.scopes), hview]
      -- the name is new, as no name is listed twice
      have hnew : head.name.name ∉ names.map Prod.fst := by
        intro hmem
        rw [hname, Option.toList_some, List.map_append, List.nodup_append] at hnodup
        exact hnodup.2.2 _ hmem _ List.mem_cons_self rfl
      obtain ⟨e, sym, he, -, heq⟩ := hoist_eq ctx brace body htype hmake hresult
      rw [heq, State.clean_note he]
      exact declareFunction_complete false (hgrown₁.table.valid hv) hclean₁ hview₁
        (values_of_hasParams hmade.hasParams hdistinct) hresult hnew
    | _ => cases hname

/-- **Completeness of the first pass.** -/
theorem hoistAll_complete {ctx : Context} {st : State} {p : Program} {names : Names}
    (hv : st.table.Valid) (hsc : ctx.scope < st.table.scopes.length) (hst : st.Clean)
    (hview : st.table.view ctx.scope = [names])
    (hnodup : ((names ++ hoisted p).map Prod.fst).Nodup)
    (hsound : ∀ head brace body type, .fn head brace body ∈ p → head.result = some type →
      DistinctParams [] head.params ∧ (IsValue type.ty ∨ type.ty = .void)) :
    (hoistAll ctx st p).1.Clean := by
  induction p generalizing st names with
  | nil => exact hst
  | cons s p ih =>
    rw [hoisted_cons, ← List.append_assoc] at hnodup
    -- what holds of all names holds of those up to this statement
    have hnodup₁ : ((names ++ (hoistedName s).toList).map Prod.fst).Nodup := by
      rw [List.map_append] at hnodup
      exact (List.nodup_append.mp hnodup).1
    have hnames : (names.map Prod.fst).Nodup := by
      rw [List.map_append] at hnodup₁
      exact (List.nodup_append.mp hnodup₁).1
    have hclean := hoist_complete hv hst hview hnodup₁ fun head brace body type hs htype =>
      hsound head brace body type (hs ▸ List.mem_cons_self) htype
    have hgrown := grows_hoist ctx st s
    exact ih (hgrown.table.valid hv) (hgrown.scope_lt hsc) hclean
      (hoist_sound hv hsc hview hnames hclean).1 hnodup
      fun head brace body type hs htype =>
        hsound head brace body type (List.mem_cons_of_mem _ hs) htype

/-- Well-formed programs have sound signatures. -/
theorem signatures_of_topLevel {global : Names} {p : Program} (h : TopLevel global p) :
    ∀ head brace body type, .fn head brace body ∈ p → head.result = some type →
      DistinctParams [] head.params ∧ (IsValue type.ty ∨ type.ty = .void) := by
  induction h with
  | nil => exact fun _ _ _ _ hs => absurd hs List.not_mem_nil
  | letDecl _ _ _ _ ih | assign _ _ _ ih =>
    intro head brace body type hs htype
    rcases List.mem_cons.mp hs with hs | hs
    · cases hs
    · exact ih head brace body type hs htype
  | declared htype' hfn _ ih =>
    intro head brace body type hs htype
    rcases List.mem_cons.mp hs with hs | hs
    · obtain ⟨rfl, -, -⟩ := Stmt.fn.inj hs
      obtain rfl := Option.some.inj (htype.symm.trans htype')
      exact ⟨distinctParams_of_functionOk hfn, hfn.result_ok⟩
    · exact ih head brace body type hs htype
  | inferred htype' _ _ _ ih =>
    intro head brace body type hs htype
    rcases List.mem_cons.mp hs with hs | hs
    · obtain ⟨rfl, -, -⟩ := Stmt.fn.inj hs
      rw [htype] at htype'
      cases htype'
    · exact ih head brace body type hs htype

/-- **Completeness on top-level statements.** -/
theorem checkTops_complete {ctx : Context} {st : State} {l : List (Stmt × Option Symbol)}
    {global : Names} (hfold : ctx.options.fold = false) (hv : st.table.Valid)
    (hsc : ctx.scope < st.table.scopes.length) (hst : st.Clean)
    (hview : st.table.view ctx.scope = [global]) (hsigned : ∀ s ∈ l, Signed st.table s)
    (h : TopLevel global (l.map Prod.fst)) : (l.foldl (checkTop ctx) st).Clean := by
  induction l generalizing st global with
  | nil => exact hst
  | cons s l ih =>
    obtain ⟨s, signature⟩ := s
    have hgrown := grows_checkTop ctx st hsc (s, signature)
    rw [List.foldl_cons]
    -- what is left to show of each kind of statement: it is clean, and what the view is then
    have ih := fun (global' : Names) (hclean : (checkTop ctx st (s, signature)).Clean)
        (hview' : (checkTop ctx st (s, signature)).table.view ctx.scope = [global']) =>
      ih (hgrown.table.valid hv) (hgrown.scope_lt hsc) hclean hview'
        (fun s' hs' => (hsigned s' (List.mem_cons_of_mem _ hs')).mono hgrown.table)
    cases h with
    | letDecl hvalue hty hnew hrest =>
      rw [checkTop_letDecl] at ih ⊢
      obtain ⟨hclean, -, hview'⟩ := checkLet_complete hfold hv hsc hst hview hvalue hty hnew
      exact ih _ hclean hview' hrest
    | assign hname he hrest =>
      rw [checkTop_assign] at ih ⊢
      rw [← hview] at hname he
      have hclean := checkAssign_complete hfold hv hst hname he
      exact ih _ hclean ((view_checkAssign hv hclean).1.trans hview) hrest
    | @declared _ head type brace body _ htype hfn hrest =>
      obtain ⟨-, -, sym, rfl, hparams⟩ :=
        hsigned _ List.mem_cons_self head brace body type rfl htype
      rw [checkTop_declared _ _ htype] at ih ⊢
      have hclean := checkDeclared_complete hfold hv hsc hst hview hparams hfn
      refine ih global hclean ?_ hrest
      rw [(checkDeclared_inv hclean).2.2, ← hview]
      exact view_of_inner hv hsc (extends_checkBody ctx st head (some type.ty) sym.params body)
    | inferred htype hfn hnew hrest =>
      rw [checkTop_inferred _ _ _ htype] at ih ⊢
      obtain ⟨hclean, hview'⟩ := checkInferred_complete hfold hv hsc hst hview hfn hnew
      exact ih _ hclean hview' hrest

/-- **Completeness.** No error is found in a well-formed program, where constants are not
computed. -/
theorem checkProgram_complete {options : Options} {mutated : List Text} {p : Program}
    (hfold : options.fold = false) (h : WellFormed p) :
    (checkProgram options mutated p).Clean := by
  have hsc := scope_lt_startState options mutated
  have hgrown := grows_hoistAll (topContext options mutated) startState p
  have hview : startState.table.view (topContext options mutated).scope = [[]] := rfl
  have hclean := hoistAll_complete valid_freshTable hsc clean_startState hview h.distinct
    (signatures_of_topLevel h.statements)
  -- soundness of the first pass gives the view and the signatures for the second one
  obtain ⟨hview₁, -, hfst, hsigned⟩ :=
    hoistAll_sound valid_freshTable hsc hview List.nodup_nil hclean
  rw [checkProgram_eq]
  refine checkTops_complete hfold (hgrown.table.valid valid_freshTable) (hgrown.scope_lt hsc)
    hclean hview₁ hsigned ?_
  rw [hfst]
  exact h.statements

/-- **Analysis decides well-formedness.** For every source that is read without faults, and with
constants not computed: analysis reports no error if and only if the program obeys the static
rules. -/
theorem accepted_iff_wellFormed {src : Text} {options : Options} (hfold : options.fold = false)
    (hparse : (Parser.parse src).faults = []) :
    Accepted options (Parser.parse src).program ↔ WellFormed (Parser.parse src).program := by
  rw [accepted_iff]
  exact ⟨wellFormed_of_checkProgram (Parser.proper_of_parse hparse), checkProgram_complete hfold⟩

/-- A program that uses most of the rules: a function that is called before it is declared, an
inferred result type, the least integer, and a block that hides a local. -/
def hidingSource : Text :=
  "let g: int = h(-2147483648);
   fn f(a: int) { let b = a + g; { let b = true; g = 2; } return b; }
   fn h(n: int): int { h(n); return f(n) * 2; }"

theorem wellFormed_hidingSource :
    (Parser.parse hidingSource).faults = [] ∧ WellFormed (Parser.parse hidingSource).program :=
  ⟨by decide +kernel,
    (accepted_iff_wellFormed (show (Options.mk false false).fold = false from rfl)
      (by decide +kernel)).mp
      (by decide +kernel)⟩

end Analysis
end Slang
