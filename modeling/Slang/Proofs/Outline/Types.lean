import Slang.Proofs.Outline
import Slang.Proofs.Typing.Sound

/-!
# Types by form

Checking an expression and reading its type off its form come to the same, if there are no errors:
both give one type or none (`formTy?_check`). No rule has a part in it, so this holds in trees with
gaps too. It follows that a declaration makes visible what the outline says (`view_checkStmt`), and
that the type which is inferred for a function is that of the first return with a type
(`ty_checkBody`).
-/

namespace Slang

open Typing

/-- An operation has the type that its form gives it. -/
theorem BinaryOp.formTy_of_resultTy? {op : BinaryOp} {left right ty : Ty}
    (h : op.resultTy? left right = some ty) : op.formTy left = ty := by
  unfold resultTy? at h
  split at h
  · cases h
  · cases op with
    | add | sub | mul | div | and | or =>
      dsimp only at h
      split at h
      · exact Option.some.inj h
      · cases h
    | eq | ne => exact Option.some.inj h
    | other s => cases h

theorem BinaryOp.ne_invalid_of_resultTy? {op : BinaryOp} {left right ty : Ty}
    (hleft : left ≠ .invalid) (h : op.resultTy? left right = some ty) : ty ≠ .invalid := by
  rw [← formTy_of_resultTy? h]
  cases op with
  | add => exact hleft
  | _ => exact Ty.noConfusion

namespace Analysis

/-! ### Expressions -/

/-- The type of a checked expression, if it has one. -/
def Checked.ty? (c : Checked) : Option Ty := if c.ty = .invalid then none else some c.ty

theorem Checked.ty?_of_ne {c : Checked} (h : c.ty ≠ .invalid) : c.ty? = some c.ty := if_neg h

theorem Checked.ty?_eq_none_iff {c : Checked} : c.ty? = none ↔ c.ty = .invalid := by
  unfold ty?
  split <;> simp_all

section
variable {ctx : Context} {t : Table}

theorem ty?_checkUnary {tok : Token} {op : UnaryOp} {right : Checked}
    (h : Clean (checkUnary tok op right).findings) :
    (checkUnary tok op right).ty? = right.ty?.map fun _ => op.operandTy := by
  by_cases hright : right.ty = .invalid
  · have huntyped : (checkUnary tok op right).ty = .invalid := by
      rw [checkUnary, if_pos hright]
      rfl
    rw [Checked.ty?_eq_none_iff.mpr huntyped, Checked.ty?_eq_none_iff.mpr hright, Option.map_none]
  · obtain ⟨hop, hty⟩ := checkUnary_inv hright h
    rw [Checked.ty?_of_ne hright, Checked.ty?_of_ne (by rwa [hty, ← hop]), hty, Option.map_some]

theorem ty?_checkBinary {tok : Token} {op : BinaryOp} {left right : Checked}
    (h : Clean (checkBinary tok op left right).findings) :
    (checkBinary tok op left right).ty? =
      left.ty?.bind fun l => right.ty?.map fun _ => op.formTy l := by
  -- the operation is looked at only if both operands have types
  by_cases hinv : left.ty = .invalid ∨ right.ty = .invalid
  · have huntyped : (checkBinary tok op left right).ty = .invalid := by
      rw [checkBinary, if_pos hinv]
      rfl
    rw [Checked.ty?_eq_none_iff.mpr huntyped]
    rcases hinv with hinv | hinv
    · rw [Checked.ty?_eq_none_iff.mpr hinv, Option.bind_none]
    · rw [Checked.ty?_eq_none_iff.mpr hinv]
      cases left.ty? <;> rfl
  · obtain ⟨hleft, hright⟩ := not_or.mp hinv
    have hresult := checkBinary_inv hleft hright h
    rw [Checked.ty?_of_ne hleft, Checked.ty?_of_ne hright,
      Checked.ty?_of_ne (BinaryOp.ne_invalid_of_resultTy? hleft hresult), Option.bind_some,
      Option.map_some, BinaryOp.formTy_of_resultTy? hresult]

/-- **The type of an expression without errors is that of its form**, and there is none if and only
if its form gives none. -/
theorem formTy?_check (hv : t.Valid) (e : Expr) (h : Clean (check ctx t e).findings) :
    e.formTy? (t.view ctx.scope) = (check ctx t e).ty? := by
  cases e with
  | ident id =>
    rw [check] at h ⊢
    have htype := hasType_checkName hv h
    rw [Checked.ty?_of_ne (ne_invalid_of_hasType hv htype), Expr.formTy?]
    cases htype with
    | name hname => rw [hname]
  | int tok n =>
    rw [check] at h ⊢
    split at h
    · simp [Checked.ofTy, SemanticProblem.severity] at h
    · next hn =>
      rw [if_neg hn]
      rfl
  | str tok s =>
    rw [check]
    rfl
  | bool tok b =>
    rw [check]
    rfl
  | unary tok op e =>
    rw [check] at h ⊢
    rw [Expr.formTy?]
    split at h
    · -- the least integer is a literal by its form as well, and no operand is checked
      next hleast =>
      rw [if_pos hleast]
      obtain ⟨rfl, tok', rfl⟩ := isLeastInt_iff.mp hleast
      rfl
    · next hleast =>
      rw [if_neg hleast, ty?_checkUnary h, formTy?_check hv e (clean_of_checkUnary h)]
  | binary tok op l r =>
    rw [check] at h ⊢
    obtain ⟨hl, hr⟩ := clean_of_checkBinary h
    rw [ty?_checkBinary h, Expr.formTy?, formTy?_check hv l hl, formTy?_check hv r hr]
  | group tok e =>
    rw [check] at h ⊢
    rw [Expr.formTy?]
    exact formTy?_check hv e h
  | call tok callee args =>
    rw [check] at h ⊢
    obtain ⟨params, hcallee, -⟩ := checkCall_inv hv h
    -- arguments may be without types, but the result of a signature is a type
    have hne : (checkCall ctx t callee args (checkAll ctx t args)).ty ≠ .invalid := by
      rcases isValue_or_void_of_find? hv hcallee with hresult | hresult
      · exact hresult.ne_invalid
      · exact hresult ▸ Ty.noConfusion
    rw [Checked.ty?_of_ne hne, Expr.formTy?, hcallee]
  | hole =>
    rw [check]
    rfl

end

/-! ### Declarations -/

section
variable {ctx : Context} {st : State}

/-- What a declaration takes its type from, by form. -/
theorem declaredTy?_eq {name : Ident} {type : Option TypeNode} {value : Option Expr}
    (hv : st.table.Valid) (hinit : Clean (letInit ctx st.table value).findings)
    (hclean : (letTy name type value (letInit ctx st.table value)).2 = []) :
    declaredTy? (st.table.view ctx.scope) type value =
      (letTy name type value (letInit ctx st.table value)).1.map Prod.fst := by
  cases type with
  | some tn =>
    -- a written type counts, whatever the value is
    cases value with
    | none => rfl
    | some e =>
      unfold letTy
      dsimp only
      repeat' split
      all_goals rfl
  | none =>
    cases value with
    | none => rfl
    | some e =>
      change (letTy name none (some e) (check ctx st.table e)).2 = [] at hclean
      change e.formTy? _ = (letTy name none (some e) (check ctx st.table e)).1.map Prod.fst
      rw [formTy?_check hv e hinit, Checked.ty?]
      unfold letTy at hclean ⊢
      dsimp only at hclean ⊢
      -- of the two reasons for declaring nothing, only the missing type is without an error
      by_cases hty : (check ctx st.table e).ty = .invalid
      · rw [if_pos hty, if_pos hty]
        rfl
      · rw [if_neg hty] at hclean ⊢
        rw [if_neg hty]
        split at hclean
        · cases hclean
        · next hvoid =>
          rw [if_neg hvoid]
          rfl

/-- **What a declaration without errors makes visible.** -/
theorem view_checkLet {name : Ident} {type : Option TypeNode} {value : Option Expr}
    (hv : st.table.Valid) (hsc : ctx.scope < st.table.scopes.length)
    (h : (checkLet ctx name type value st).Clean) :
    (checkLet ctx name type value st).table.view ctx.scope =
        Outline.extend (st.table.view ctx.scope)
          (declaredNames (st.table.view ctx.scope) name type value) ∧
      (checkLet ctx name type value st).returns = st.returns := by
  unfold declaredNames
  obtain ⟨-, hinit, hty | ⟨ty, v, s, hty, hs, -, hdeclared, hreturns⟩⟩ := checkLet_inv hv hsc h
  · rw [checkLet_of_none hty, declaredTy?_eq hv hinit (by rw [hty]), hty]
    exact ⟨(Outline.extend_nil _).symm, rfl⟩
  · obtain ⟨-, names, Γ, hview, hview'⟩ := view_of_letSymbol hs hv hdeclared
    rw [declaredTy?_eq hv hinit (by rw [hty]), hty, hview, hview']
    exact ⟨rfl, hreturns⟩

/-- **What a statement without errors makes visible** in its scope. -/
theorem view_checkStmt (hv : st.table.Valid) (hsc : ctx.scope < st.table.scopes.length) {s : Stmt}
    (h : (checkStmt ctx st s).Clean) :
    (checkStmt ctx st s).table.view ctx.scope = Outline.after (st.table.view ctx.scope) s := by
  cases s with
  | letDecl tok name type value =>
    rw [checkStmt] at h ⊢
    exact (view_checkLet hv hsc h).1
  | assign tok name e =>
    rw [checkStmt] at h ⊢
    exact (view_checkAssign hv h).1
  | ret tok value =>
    rw [checkStmt, table_checkReturn]
    rfl
  | expr tok e =>
    rw [checkStmt, (table_checkExprStmt ctx st e).1]
    rfl
  | block tok body =>
    rw [checkStmt_block]
    exact view_of_inner hv hsc
      (grows_checkStmts (blockContext ctx st) _ (scope_lt_blockStart ctx st) body).table
  | fn head brace body =>
    rw [checkStmt] at h
    simp [SemanticProblem.severity] at h
  | hole =>
    rw [checkStmt]
    rfl

end

/-! ### The first return -/

/-- The type of a return, without errors, is that of its form; a return without a type decides
nothing. -/
theorem first_checkReturn {ctx : Context} {st : State} {f : Frame} {tok : Token}
    {value : Option Expr} (hfn : ctx.fn = some f) (hf : f.declared = none) (hv : st.table.Valid)
    (h : (checkReturn ctx tok value st).Clean) :
    (checkReturn ctx tok value st).returns.first.map Prod.fst =
      (st.returns.first.map Prod.fst).or (returnedTy? (st.table.view ctx.scope) value) := by
  cases value with
  | none => exact (checkReturn_none_inv hfn h).first hf
  | some e =>
    rw [returnedTy?, formTy?_check hv e (clean_of_checkReturn hfn h)]
    by_cases hty : (check ctx st.table e).ty = .invalid
    · -- such a return is seen, and nothing else is noted of it
      rw [Checked.ty?_eq_none_iff.mpr hty, Option.or_none]
      unfold checkReturn
      rw [hfn]
      dsimp only
      rw [if_pos hty]
      rfl
    · rw [Checked.ty?_of_ne hty]
      exact (checkReturn_typed_inv hfn hty h).2.first hf

/-- **The first return with a type decides.** Statements without errors of a function whose type is
inferred: what is known of its returns after them is what was known before, or else the type of the
first of their returns that has one. -/
theorem first_checkStmts {f : Frame} (ctx : Context) (st : State) (hfn : ctx.fn = some f)
    (hf : f.declared = none) (hv : st.table.Valid) (hsc : ctx.scope < st.table.scopes.length)
    (ss : List Stmt) (h : (checkStmts ctx st ss).Clean) :
    (checkStmts ctx st ss).returns.first.map Prod.fst =
      (st.returns.first.map Prod.fst).or
        (Outline.ofStmts (st.table.view ctx.scope) ss).returns.head? := by
  -- on the size of the statements: a block is read by a second call, before the rest of its scope
  match ss with
  | [] =>
    rw [checkStmts, Outline.ofStmts]
    exact Option.or_none.symm
  | s :: ss =>
    rw [checkStmts] at h ⊢
    have hgrows := grows_checkStmt ctx st hsc s
    have hs := (grows_checkStmts ctx _ (hgrows.scope_lt hsc) ss).clean h
    have hrest := first_checkStmts ctx (checkStmt ctx st s) hfn hf (hgrows.table.valid hv)
      (hgrows.scope_lt hsc) ss h
    -- only returns are noted, and those of a block are those of the function around it
    suffices hfirst : (checkStmt ctx st s).returns.first.map Prod.fst =
        (st.returns.first.map Prod.fst).or
          (Outline.ofStmt (st.table.view ctx.scope) s).returns.head? by
      rw [hrest, hfirst, view_checkStmt hv hsc hs, Option.or_assoc, ← List.head?_append]
      rfl
    cases s with
    | letDecl tok name type value =>
      rw [checkStmt] at hs ⊢
      rw [(view_checkLet hv hsc hs).2, Outline.ofStmt]
      exact Option.or_none.symm
    | assign tok name e =>
      rw [checkStmt] at hs ⊢
      rw [(view_checkAssign hv hs).2, Outline.ofStmt]
      exact Option.or_none.symm
    | ret tok value =>
      rw [checkStmt] at hs ⊢
      rw [first_checkReturn hfn hf hv hs, Outline.ofStmt, Option.head?_toList]
    | expr tok e =>
      rw [checkStmt, (table_checkExprStmt ctx st e).2, Outline.ofStmt]
      exact Option.or_none.symm
    | block tok body =>
      rw [checkStmt_block] at hs ⊢
      rw [first_checkStmts (blockContext ctx st) _ hfn hf
        (valid_scopeStart hv hsc "block" st.returns) (scope_lt_blockStart ctx st) body hs,
        Outline.ofStmt]
      have hview : (scopeStart ctx "block" st.returns st).table.view (blockContext ctx st).scope =
        [] :: st.table.view ctx.scope := Table.view_addScope hv hsc "block"
      rw [hview]
      rfl
    | fn head brace body =>
      rw [checkStmt] at hs
      simp [SemanticProblem.severity] at hs
    | hole =>
      rw [checkStmt, Outline.ofStmt]
      exact Option.or_none.symm
termination_by sizeOf ss

/-- **The inferred type of a function is that of its form.** -/
theorem ty_checkBody {ctx : Context} {st : State} {head : FnHead} {qs : List Param}
    {body : List Stmt} {global : Names} (hv : st.table.Valid)
    (hsc : ctx.scope < st.table.scopes.length) (hparams : HasParams st.table head qs)
    (hdistinct : DistinctParams [] head.params) (hview : st.table.view ctx.scope = [global])
    (h : (checkBody ctx head none qs body st).Clean) :
    (checkBody ctx head none qs body st).returns.ty = Outline.inferredTy global head body := by
  obtain ⟨-, hreturns, -, -⟩ := bodyStart_spec head none hv hsc
    (fun q hq => (hparams.symbols q hq).imp fun s hs => ⟨hs.1, hs.2.1⟩)
    (hparams.names ▸ hdistinct.distinct)
  rw [checkBody_eq] at h ⊢
  have hfirst := first_checkStmts _ _ rfl rfl (valid_bodyStart hv hsc head none qs)
    (scope_lt_bodyStart ctx head none qs st) body h
  rw [view_bodyStart none hv hsc hparams hdistinct, hview, hreturns] at hfirst
  rw [ty_eq_getD, hfirst, Outline.inferredTy, List.headD_eq_head?_getD]
  rfl

end Analysis
end Slang
