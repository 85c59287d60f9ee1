import Slang.Proofs.Alike
import Slang.Proofs.Calls.Ends
import Slang.Proofs.Constants
import Slang.Proofs.Guards
import Slang.Proofs.Presence
import Slang.Proofs.Typing.Expression

/-!
# No guard is needed for a source

All that analysis relies on holds for a program that is read from source, with or without syntax
errors. Each guard is dead for a reason of its own: nothing is missing from the tree, functions stand
at top level only, a written type is one of four, a constant is of the type of its expression, a
parameter is a variable, and a name is looked up before it is bound.

* `guarded_check` is for expressions, `guarded_checkStmts` for statements, and
  `guarded_checkProgram` for programs of which nothing is missing;
* `no_source_meets_guard` puts this together with what is known of the program of a source.
-/

namespace Slang

open Typing Analysis

/-! ### Findings and requests -/

/-- Findings among which there is no guard. -/
def Unguarded (fs : List Finding) : Prop := ∀ f ∈ fs, f.what.isGuard = false

@[simp] theorem unguarded_nil : Unguarded [] := fun _ h => absurd h List.not_mem_nil

@[simp] theorem unguarded_append {fs gs : List Finding} :
    Unguarded (fs ++ gs) ↔ Unguarded fs ∧ Unguarded gs :=
  List.forall_mem_append

@[simp] theorem unguarded_finding {tok : Token} {p : SemanticProblem} :
    Unguarded [tok.finding p] ↔ p.isGuard = false :=
  List.forall_mem_singleton

/-- Guards are errors, so warnings are none. -/
theorem Clean.unguarded {fs : List Finding} (h : Clean fs) : Unguarded fs := by
  intro f hf
  have herr := h f hf
  generalize f.what = p at herr
  cases p with
  | shadows | unusedResult => rfl
  | _ => exact absurd rfl herr

namespace Analysis

/-- Requests that all make sense. -/
def AllAllowed (qs : List Request) : Prop := ∀ q ∈ qs, q.Allowed

@[simp] theorem allAllowed_nil : AllAllowed [] := fun _ h => absurd h List.not_mem_nil

@[simp] theorem allAllowed_append {qs rs : List Request} :
    AllAllowed (qs ++ rs) ↔ AllAllowed qs ∧ AllAllowed rs :=
  List.forall_mem_append

@[simp] theorem allAllowed_cons {q : Request} {qs : List Request} :
    AllAllowed (q :: qs) ↔ q.Allowed ∧ AllAllowed qs :=
  List.forall_mem_cons

/-- Every kind of variable has a default. -/
theorem allAllowed_variableRequests (ty : Ty) : AllAllowed (variableRequests ty) := by
  unfold variableRequests
  split
  · next hty =>
    refine allAllowed_cons.mpr ⟨?_, allAllowed_nil⟩
    -- the list of kinds agrees with the table of defaults
    have hkinds : ∀ ty ∈ variableKinds, ∃ v, Value.defaultOf ty = .ok v := by
      simp only [variableKinds, List.forall_mem_cons, List.not_mem_nil, false_implies,
        implies_true, and_true]
      exact ⟨⟨_, rfl⟩, ⟨_, rfl⟩, ⟨_, rfl⟩⟩
    exact hkinds ty hty
  · exact allAllowed_nil

/-! ### Types of expressions -/

/-- Types that a checked expression can have. -/
def IsKnown (ty : Ty) : Prop := ty = .invalid ∨ IsValue ty ∨ ty = .void

section
variable {ctx : Context} {t : Table}

/-- A name has the type of a value, or none. -/
theorem isKnown_checkName (id : Ident) : IsKnown (checkName ctx t id).ty := by
  unfold checkName
  split
  · exact .inl rfl
  · split
    · exact .inl rfl
    · split
      · exact .inl rfl
      · split
        · exact .inr (.inl (isValue_ty _))
        · exact .inr (.inl (isValue_ty _))

/-- A prefix operator gives the type that it takes. -/
theorem isKnown_checkUnary (tok : Token) (op : UnaryOp) (right : Checked) :
    IsKnown (checkUnary tok op right).ty := by
  -- an operator that is not one of the language has no type, which is known as well
  have hop : IsKnown op.operandTy := by
    cases op with
    | neg => exact .inr (.inl .int)
    | not => exact .inr (.inl .bool)
    | other s => exact .inl rfl
  unfold checkUnary
  split
  · exact .inl rfl
  · split
    · exact .inl rfl
    · split
      · exact hop
      · rw [ty_folded]
        exact hop

/-- Infix operators give values. -/
theorem isValue_of_resultTy? {op : BinaryOp} {lty rty ty : Ty}
    (h : op.resultTy? lty rty = some ty) : IsValue ty := by
  unfold BinaryOp.resultTy? at h
  split at h
  · cases h
  · -- each operator by its rule; none of them gives something void
    cases op with
    | add =>
      dsimp only at h
      split at h
      · next hty =>
        obtain rfl := Option.some.inj h
        rcases hty with rfl | rfl
        · exact .int
        · exact .string
      · cases h
    | sub | mul | div =>
      dsimp only at h
      split at h
      · obtain rfl := Option.some.inj h
        exact .int
      · cases h
    | and | or =>
      dsimp only at h
      split at h
      · obtain rfl := Option.some.inj h
        exact .bool
      · cases h
    | eq | ne =>
      obtain rfl := Option.some.inj h
      exact .bool
    | other s => cases h

/-- An infix operator gives the type of a value, or none. -/
theorem isKnown_checkBinary (tok : Token) (op : BinaryOp) (left right : Checked) :
    IsKnown (checkBinary tok op left right).ty := by
  unfold checkBinary
  dsimp only
  split
  · exact .inl rfl
  · split
    · exact .inl rfl
    · next ty hty =>
      have hvalue := isValue_of_resultTy? hty
      split
      · rw [ty_folded]
        exact .inr (.inl hvalue)
      · exact .inr (.inl hvalue)

/-- A call has the type that the signature says, in which the result is sound. -/
theorem isKnown_checkCall (hv : t.Valid) (callee : Ident) (args : List Expr)
    (checked : List Checked) : IsKnown (checkCall ctx t callee args checked).ty := by
  unfold checkCall
  dsimp only
  split
  · exact .inl rfl
  · next s hs =>
    -- the result type in the signature of a symbol is one that functions may have
    obtain ⟨i, -, hi⟩ := Option.bind_eq_some_iff.mp hs
    have htyped := hv.typed i s hi
    unfold Symbol.Typed at htyped
    split
    · exact .inl rfl
    · next params result hc =>
      rw [hc] at htyped
      -- a call with a wrong number of arguments has its type all the same
      split
      · exact .inr htyped.2
      · exact .inr htyped.2

/-- **Expressions have no type, or one that a function may return.** -/
theorem isKnown_check (hv : t.Valid) : (e : Expr) → IsKnown (check ctx t e).ty
  | .int tok n => by
    rw [check]
    split
    · exact .inr (.inl .int)
    · exact .inr (.inl .int)
  | .str _ _ => by
    rw [check]
    exact .inr (.inl .string)
  | .bool _ _ => by
    rw [check]
    exact .inr (.inl .bool)
  | .ident id => by
    rw [check]
    exact isKnown_checkName id
  | .unary tok op right => by
    rw [check]
    split
    · exact .inr (.inl .int)
    · exact isKnown_checkUnary tok op _
  | .binary tok op left right => by
    rw [check]
    exact isKnown_checkBinary tok op _ _
  | .group _ e => by
    rw [check]
    exact isKnown_check hv e
  | .call _ callee args => by
    rw [check]
    exact isKnown_checkCall hv callee args _
  | .hole => by
    rw [check]
    exact .inl rfl

end

/-! ### Expressions -/

section
variable (ctx : Context) (t : Table)

/-- What is said about names is not said by a guard. -/
theorem unguarded_checkName (id : Ident) : Unguarded (checkName ctx t id).findings := by
  unfold checkName
  split
  · exact unguarded_finding.mpr rfl
  · split
    · exact unguarded_finding.mpr rfl
    · split
      · exact unguarded_finding.mpr rfl
      · split <;> exact unguarded_nil

/-- Folding fails without a guard where it fails for the values only. -/
theorem unguarded_folded {tok : Token} {ty : Ty} {before : List Finding}
    {r : Except FoldError Value} (hbefore : Unguarded before)
    (hr : ∀ e, r = .error e → e = .overflow ∨ e = .divisionByZero) :
    Unguarded (folded tok ty before r).findings := by
  cases r with
  | ok v => exact hbefore
  | error e =>
    refine unguarded_append.mpr ⟨hbefore, unguarded_finding.mpr ?_⟩
    rcases hr e rfl with rfl | rfl <;> rfl

/-- A prefix operator folds only the constants that it is made for. -/
theorem guarded_checkUnary (tok : Token) (op : UnaryOp) {right : Checked}
    (hright : Unguarded right.findings) (hvalue : ∀ v, right.value = some v → v.ty = right.ty) :
    Unguarded (checkUnary tok op right).findings ∧ AllAllowed (unaryRequests op right) := by
  unfold checkUnary unaryRequests
  by_cases hinv : right.ty = .invalid
  · rw [if_pos hinv, if_pos (.inl hinv)]
    exact ⟨hright, allAllowed_nil⟩
  by_cases hty : right.ty = op.operandTy
  · rw [if_neg hinv, if_neg (not_not_intro hty), if_neg (not_or.mpr ⟨hinv, not_not_intro hty⟩)]
    cases hv : right.value with
    | none => exact ⟨hright, allAllowed_nil⟩
    | some v =>
      -- an operand of the right type can only overflow
      have herror : ∀ e, op.fold v = .error e → e = .overflow ∨ e = .divisionByZero := fun e he =>
        .inl (unary_fold_error ((hvalue v hv).trans hty) he)
      exact ⟨unguarded_folded hright herror, allAllowed_cons.mpr ⟨herror, allAllowed_nil⟩⟩
  · rw [if_neg hinv, if_pos hty, if_pos (.inr hty)]
    exact ⟨unguarded_append.mpr ⟨hright, unguarded_finding.mpr rfl⟩, allAllowed_nil⟩

/-- An infix operator folds only the constants that it is made for. -/
theorem guarded_checkBinary (tok : Token) (op : BinaryOp) {left right : Checked}
    (hleft : Unguarded left.findings) (hright : Unguarded right.findings)
    (hl : ∀ v, left.value = some v → v.ty = left.ty)
    (hr : ∀ v, right.value = some v → v.ty = right.ty) :
    Unguarded (checkBinary tok op left right).findings ∧
      AllAllowed (binaryRequests op left right) := by
  have hbefore : Unguarded (left.findings ++ right.findings) :=
    unguarded_append.mpr ⟨hleft, hright⟩
  unfold checkBinary binaryRequests
  dsimp only
  by_cases hinv : left.ty = .invalid ∨ right.ty = .invalid
  · rw [if_pos hinv, if_pos (or_assoc.mp (.inl hinv))]
    exact ⟨hbefore, allAllowed_nil⟩
  rw [if_neg hinv]
  cases hty : op.resultTy? left.ty right.ty with
  | none =>
    -- operators are not folded on types that they are not made for
    rw [if_pos (.inr (.inr rfl))]
    exact ⟨unguarded_append.mpr ⟨hbefore, unguarded_finding.mpr rfl⟩, allAllowed_nil⟩
  | some ty =>
    rw [if_neg fun h => hinv (or_assoc.mpr h |>.resolve_right (by simp))]
    dsimp only
    cases hlv : left.value with
    | none => exact ⟨hbefore, allAllowed_nil⟩
    | some l =>
      cases hrv : right.value with
      | none => exact ⟨hbefore, allAllowed_nil⟩
      | some r =>
        have herror : ∀ e, op.fold l r = .error e → e = .overflow ∨ e = .divisionByZero := by
          intro e he
          -- the types that were compared are those of the constants
          rw [← hl l hlv, ← hr r hrv] at hty
          exact binary_fold_error hty he
        exact ⟨unguarded_folded hbefore herror, allAllowed_cons.mpr ⟨herror, allAllowed_nil⟩⟩

/-- An argument of a wrong type is not reported by a guard. -/
theorem unguarded_argumentFindings (function : Text) (n : Nat) (es : List Expr) (cs : List Checked)
    (ps : List Param) : Unguarded (argumentFindings function n es cs ps) := by
  fun_induction argumentFindings function n es cs ps with
  | case1 n e es c cs p ps ih =>
    refine unguarded_append.mpr ⟨?_, ih⟩
    split
    · exact unguarded_nil
    · exact unguarded_finding.mpr rfl
  | case2 => exact unguarded_nil

/-- The places of the arguments are those of the parameters. -/
theorem guarded_checkCall (callee : Ident) (args : List Expr) {checked : List Checked}
    (hchecked : ∀ c ∈ checked, Unguarded c.findings) :
    Unguarded (checkCall ctx t callee args checked).findings ∧
      AllAllowed (callRequests ctx t callee checked) := by
  have hbefore : Unguarded (checked.flatMap (·.findings)) := by
    intro f hf
    obtain ⟨c, hc, hf⟩ := List.mem_flatMap.mp hf
    exact hchecked c hc f hf
  unfold checkCall callRequests
  dsimp only
  cases (t.find? ctx.scope callee.name).bind t.symbol? with
  | none =>
    refine ⟨unguarded_append.mpr ⟨hbefore, unguarded_finding.mpr ?_⟩, allAllowed_nil⟩
    split <;> rfl
  | some s =>
    dsimp only
    cases hc : s.content with
    | «variable» v calculated =>
      exact ⟨unguarded_append.mpr ⟨hbefore, unguarded_finding.mpr rfl⟩, allAllowed_nil⟩
    | function params result =>
      dsimp only
      by_cases hlen : checked.length = params.length
      · rw [if_neg (not_not_intro hlen), if_neg (not_not_intro hlen)]
        refine ⟨unguarded_append.mpr ⟨hbefore, unguarded_argumentFindings _ _ _ _ _⟩, ?_⟩
        -- there are as many arguments as parameters, so each place has a parameter
        intro q hq
        obtain ⟨i, hi, rfl⟩ := List.mem_map.mp hq
        have hlt : i < params.length := hlen ▸ List.mem_range.mp hi
        exact ⟨params[i], param_eq hc hlt⟩
      · rw [if_pos hlen, if_pos hlen]
        exact ⟨unguarded_append.mpr ⟨hbefore, unguarded_finding.mpr rfl⟩, allAllowed_nil⟩

/-- **What analysis relies on holds in every expression**, as long as signatures are sound. -/
theorem guarded_check {e : Expr} (hw : e.Whole) :
    Unguarded (check ctx t e).findings ∧ AllAllowed (exprRequests ctx t e) := by
  induction hw with
  | ident =>
    rw [check, exprRequests]
    exact ⟨unguarded_checkName ctx t _, allAllowed_nil⟩
  | int =>
    rw [check, exprRequests]
    refine ⟨?_, allAllowed_nil⟩
    split
    · exact unguarded_finding.mpr rfl
    · exact unguarded_nil
  | str | bool =>
    rw [check, exprRequests]
    exact ⟨unguarded_nil, allAllowed_nil⟩
  | @unary tok op e he ih =>
    rw [check, exprRequests]
    split
    · exact ⟨unguarded_nil, allAllowed_nil⟩
    · -- a constant operand is of the type that its expression has
      have hunary := guarded_checkUnary tok op ih.1 fun v hv => ty_of_value he hv
      exact ⟨hunary.1, allAllowed_append.mpr ⟨ih.2, hunary.2⟩⟩
  | @binary tok op l r hl hr ihl ihr =>
    rw [check, exprRequests]
    have hbinary := guarded_checkBinary tok op ihl.1 ihr.1 (fun v hv => ty_of_value hl hv)
      fun v hv => ty_of_value hr hv
    exact ⟨hbinary.1,
      allAllowed_append.mpr ⟨allAllowed_append.mpr ⟨ihl.2, ihr.2⟩, hbinary.2⟩⟩
  | group he ih =>
    rw [check, exprRequests]
    exact ih
  | @call tok callee args hargs ih =>
    have hchecked : ∀ c ∈ checkAll ctx t args, Unguarded c.findings := by
      intro c hc
      rw [checkAll_eq_map] at hc
      obtain ⟨a, ha, rfl⟩ := List.mem_map.mp hc
      exact (ih a ha).1
    have hcall := guarded_checkCall ctx t callee args hchecked
    -- the requests of the arguments come one after the other, each by the induction
    have hrequests : ∀ es : List Expr, (∀ a ∈ es, a ∈ args) →
        AllAllowed (argumentRequests ctx t es) := by
      intro es hes
      induction es with
      | nil =>
        rw [argumentRequests]
        exact allAllowed_nil
      | cons e es ihs =>
        rw [argumentRequests]
        rw [List.forall_mem_cons] at hes
        exact allAllowed_append.mpr ⟨(ih e hes.1).2, ihs hes.2⟩
    rw [check, exprRequests]
    exact ⟨hcall.1, allAllowed_append.mpr ⟨hrequests args fun _ h => h, hcall.2⟩⟩

/-- A value that is left out asks for nothing. -/
theorem guarded_value {value : Option Expr} (hvalue : ∀ e ∈ value, e.Whole) :
    Unguarded (letInit ctx t value).findings ∧ AllAllowed (valueRequests ctx t value) := by
  cases value with
  | none => exact ⟨unguarded_nil, allAllowed_nil⟩
  | some e => exact guarded_check ctx t (hvalue e rfl)

end

/-! ### States -/

/-- **States without a guard among their findings**: the returns so far are of types that functions
may have. -/
structure State.Unguarded (st : State) : Prop where
  found : Slang.Unguarded (st.trace.filterMap Event.finding?)
  returns : ∀ r ∈ st.returns.first, IsValue r.1 ∨ r.1 = .void

namespace State.Unguarded

variable {st : State} (h : st.Unguarded)
include h

/-- Findings without a guard are added. -/
theorem report {fs : List Finding} (hfs : Slang.Unguarded fs) : (st.report fs).Unguarded where
  found := by
    change Slang.Unguarded (st.report fs).found
    rw [State.found_report]
    exact unguarded_append.mpr ⟨h.found, hfs⟩
  returns := h.returns

/-- A problem that is no guard is added. -/
theorem problem (tok : Token) {p : SemanticProblem} (hp : p.isGuard = false) :
    (st.problem tok p).Unguarded :=
  h.report (unguarded_finding.mpr hp)

/-- Notes are no findings. -/
theorem note {e : Event} (he : e.finding? = none) : (st.note e).Unguarded where
  found := by
    change Slang.Unguarded ((st.trace ++ [e]).filterMap Event.finding?)
    rw [List.filterMap_append, List.filterMap_cons, he, List.filterMap_nil, List.append_nil]
    exact h.found
  returns := h.returns

/-- The table has no part in it. -/
theorem withTable (table : Table) : State.Unguarded { st with table } := ⟨h.found, h.returns⟩

/-- The first return may change to another sound one. -/
theorem withReturns {r : Returns} (hr : ∀ x ∈ r.first, IsValue x.1 ∨ x.1 = .void) :
    State.Unguarded { st with returns := r } :=
  ⟨h.found, hr⟩

/-- That a return was seen says nothing about its type. -/
theorem markReturned : st.markReturned.Unguarded := h.withReturns h.returns

/-- A name is looked up before it is bound, so binding it does not fail. -/
theorem declare (ctx : Context) (s : Symbol) (tok : Token) :
    (declare ctx s tok st).Unguarded := by
  have hadd : (st.addSymbol s).1.Unguarded := h.withTable _
  cases hx : (st.table.findIn? ctx.scope s.name).bind (st.addSymbol s).1.table.symbol? with
  | some prev =>
    rw [declare_of_old hx]
    exact hadd.problem tok rfl
  | none =>
    obtain ⟨f, -, fs, hfs, heq⟩ := declare_of_new tok hx
    rw [heq]
    exact (h.report hfs.unguarded).withTable _

/-- A parameter is bound, or its name is reported with the line of the other one: the guard is for a
name without a line. -/
theorem bindName (ctx : Context) {s : Symbol} {id : SymbolId} (tok : Token)
    (hsym : st.table.symbol? id = some s) :
    (bindName ctx Table.bind s id tok st).Unguarded := by
  cases hx : (st.table.findIn? ctx.scope s.name).bind st.table.symbol? with
  | some prev =>
    rw [bindName_of_old hx]
    exact h.problem tok rfl
  | none =>
    rw [bindName_of_new hx (Table.bind_eq hsym hx)]
    exact (h.report (clean_shadowing _ _ _ _).unguarded).withTable _

end State.Unguarded

/-- All parameters are bound. -/
theorem unguarded_bindParams (ctx : Context) (head : FnHead) {st : State} (h : st.Unguarded)
    (ps : List Param) : (bindParams ctx head st ps).Unguarded := by
  induction ps generalizing st with
  | nil => exact h
  | cons p ps ih =>
    rw [bindParams]
    refine ih ?_
    split
    · next s hs => exact h.bindName ctx _ hs
    · exact h

/-! ### Statements -/

section
variable {ctx : Context} {st : State}

/-- A declared variable gets a value of its own type, if it gets a known one. -/
theorem ty_of_letTy {name : Ident} {type : Option TypeNode} {value : Option Expr} {init : Checked}
    (hinit : ∀ v, init.value = some v → v.ty = init.ty) {ty : Ty} {v : Value}
    (h : (letTy name type value init).1 = some (ty, some v)) : v.ty = ty := by
  unfold letTy at h
  -- a value that is kept has the declared type, or gives the type
  split at h
  · cases h
  · split at h
    · cases h
    · split at h
      · next hty =>
        obtain ⟨rfl, hv⟩ := Prod.mk.inj (Option.some.inj h)
        exact (hinit v hv).trans hty
      · split at h <;> cases h
  · cases h
  · split at h
    · cases h
    · split at h
      · cases h
      · obtain ⟨rfl, hv⟩ := Prod.mk.inj (Option.some.inj h)
        exact hinit v hv

/-- A value of a wrong type is not reported by a guard. -/
theorem unguarded_letTy (name : Ident) (type : Option TypeNode) (value : Option Expr)
    (init : Checked) : Slang.Unguarded (letTy name type value init).2 := by
  unfold letTy
  -- every report of a let statement is about types
  split
  · exact unguarded_nil
  · split
    · exact unguarded_nil
    · split
      · exact unguarded_nil
      · split <;> exact unguarded_finding.mpr rfl
  · exact unguarded_nil
  · split
    · exact unguarded_nil
    · split
      · exact unguarded_finding.mpr rfl
      · exact unguarded_nil

/-- A variable without a value fails for its type alone. -/
theorem noDefault_of_ofTy {ty : Ty} {name : Text} {line : Int} {e : SymbolError}
    (h : Symbol.ofTy ty name line = .error e) : e = .noDefault name ty := by
  unfold Symbol.ofTy at h
  split at h
  · cases h
  · exact (Except.error.inj h).symm

/-- The only variable that cannot be made is one whose type has no values. -/
theorem noDefault_of_letSymbol {name : Ident} {ty : Ty} {value : Option Value} {e : SymbolError}
    (hvalue : ∀ v, value = some v → v.ty = ty) (h : letSymbol name ty value = .error e) :
    e = .noDefault name.name ty := by
  cases value with
  | none => exact noDefault_of_ofTy h
  | some v =>
    unfold letSymbol Symbol.ofOperand at h
    dsimp only at h
    rw [if_pos (hvalue v rfl)] at h
    cases h

/-- A declaration of a type without values says so at the type, or else at the name. -/
theorem checkLet_of_noDefault {name : Ident} {type : Option TypeNode} {value : Option Expr}
    {fs : List Finding} {ty : Ty} {v : Option Value}
    (h : letTy name type value (letInit ctx st.table value) = (some (ty, v), fs))
    (hs : letSymbol name ty v = .error (.noDefault name.name ty)) :
    checkLet ctx name type value st =
      (st.report ((letInit ctx st.table value).findings ++ fs)).problem
        ((type.map (·.token)).getD name.token) (.variableTy name.name ty) := by
  unfold letInit at h ⊢
  unfold checkLet
  dsimp only
  rw [h]
  dsimp only
  rw [hs]

/-- **Declarations**: the value fits the type, and a type without values is refused as such. -/
theorem guarded_checkLet (h : st.Unguarded) (name : Ident) (type : Option TypeNode)
    {value : Option Expr} (hvalue : ∀ e ∈ value, e.Whole) :
    (checkLet ctx name type value st).Unguarded ∧
      AllAllowed (letRequests ctx st.table name type value) := by
  obtain ⟨hfound, hrequests⟩ := guarded_value ctx st.table hvalue
  -- a constant initial value is of the type that was found for it
  have hinit : ∀ v, (letInit ctx st.table value).value = some v →
      v.ty = (letInit ctx st.table value).ty := by
    intro v hv
    cases value with
    | none => cases hv
    | some e => exact ty_of_value (hvalue e rfl) hv
  have hreport := h.report (unguarded_append.mpr
    ⟨hfound, unguarded_letTy name type value (letInit ctx st.table value)⟩)
  unfold letRequests
  rcases hlet : letTy name type value (letInit ctx st.table value) with ⟨_ | ⟨ty, v⟩, fs⟩
  · rw [hlet] at hreport
    rw [checkLet_of_none hlet]
    exact ⟨hreport, allAllowed_append.mpr ⟨hrequests, allAllowed_nil⟩⟩
  · rw [hlet] at hreport
    have hv : ∀ w, v = some w → w.ty = ty := by
      rintro w rfl
      exact ty_of_letTy hinit (congrArg Prod.fst hlet)
    constructor
    · cases hs : letSymbol name ty v with
      | ok s =>
        rw [checkLet_of_ok hlet hs]
        exact hreport.declare ctx _ _
      | error e =>
        -- the other errors would need a value of another type
        obtain rfl := noDefault_of_letSymbol hv hs
        rw [checkLet_of_noDefault hlet hs]
        exact hreport.problem _ rfl
    · refine allAllowed_append.mpr ⟨hrequests, ?_⟩
      cases v with
      | none => exact allAllowed_variableRequests ty
      | some w => exact allAllowed_cons.mpr ⟨hv w rfl, allAllowed_variableRequests ty⟩

/-- Assignments ask for what their value asks for. -/
theorem guarded_checkAssign (h : st.Unguarded) (name : Ident) {value : Expr}
    (hvalue : value.Whole) :
    (checkAssign ctx name value st).Unguarded ∧
      AllAllowed (exprRequests ctx st.table value) := by
  obtain ⟨hfound, hrequests⟩ := guarded_check ctx st.table hvalue
  refine ⟨?_, hrequests⟩
  have hreport := h.report hfound
  unfold checkAssign
  dsimp only
  -- in the order of the checks: all but two of the ways out are reports
  split
  · exact hreport.problem _ rfl
  · split
    · exact hreport.problem _ rfl
    · split
      · exact hreport.problem _ rfl
      · split
        · exact hreport.withTable _
        · split
          · exact hreport.problem _ rfl
          · split
            · exact hreport.problem _ rfl
            · exact hreport.withTable _

/-- The first return of a function decides its type, which is sound if that of the value is. -/
theorem unguarded_returnTy (h : st.Unguarded) (f : Frame) {got : Ty}
    (hgot : IsValue got ∨ got = .void) (hasValue : Bool) (tok : Token) :
    (returnTy f got hasValue tok st).Unguarded := by
  unfold returnTy
  split
  · unfold inferReturn
    split
    · -- the first return decides
      refine h.markReturned.withReturns ?_
      rintro x ⟨⟩
      exact hgot
    · split
      · exact h.markReturned
      · exact h.markReturned.problem _ rfl
  · unfold declaredReturn
    split
    · exact h.markReturned.problem _ rfl
    · split
      · exact h.markReturned.problem _ rfl
      · split
        · exact h.markReturned.problem _ rfl
        · exact h.markReturned

/-- **Returns** leave a sound type behind. -/
theorem guarded_checkReturn (hv : st.table.Valid) (h : st.Unguarded) (tok : Token)
    {value : Option Expr} (hvalue : ∀ e ∈ value, e.Whole) :
    (checkReturn ctx tok value st).Unguarded ∧
      AllAllowed (if ctx.fn.isSome then valueRequests ctx st.table value else []) := by
  unfold checkReturn
  cases ctx.fn with
  | none => exact ⟨h, allAllowed_nil⟩
  | some f =>
    cases value with
    | none => exact ⟨unguarded_returnTy h f (.inr rfl) false tok, allAllowed_nil⟩
    | some e =>
      -- what is asked for is asked for by the value
      obtain ⟨hfound, hrequests⟩ := guarded_check ctx st.table (hvalue e rfl)
      refine ⟨?_, hrequests⟩
      have hreport := h.report hfound
      dsimp only
      split
      · exact hreport.markReturned
      · next hinvalid =>
        split
        · exact (hreport.problem _ rfl).markReturned
        · -- neither untyped nor void, so a value
          have hty := (isKnown_check hv e).resolve_left hinvalid
          exact unguarded_returnTy hreport f hty true _

/-- An expression that is no call is reported by a warning. -/
theorem guarded_checkExprStmt (h : st.Unguarded) {e : Expr} (he : e.Whole) :
    (checkExprStmt ctx e st).Unguarded ∧ AllAllowed (exprRequests ctx st.table e) := by
  obtain ⟨hfound, hrequests⟩ := guarded_check ctx st.table he
  refine ⟨?_, hrequests⟩
  unfold checkExprStmt
  dsimp only
  split
  · exact h.report hfound
  · exact (h.report hfound).problem _ rfl

end

mutual

/-- **What analysis relies on holds in every statement of a body** of which nothing is missing. -/
theorem guarded_checkStmt (ctx : Context) (st : State) (hv : st.table.Valid)
    (hsc : ctx.scope < st.table.scopes.length) (h : st.Unguarded) :
    (s : Stmt) → s.Present →
      (checkStmt ctx st s).Unguarded ∧ AllAllowed (stmtRequests ctx st s)
  | .letDecl _ name type value, hs => by
    rw [checkStmt, stmtRequests]
    cases hs with
    | letDecl hvalue => exact guarded_checkLet h name type hvalue
  | .assign _ name value, hs => by
    rw [checkStmt, stmtRequests]
    cases hs with
    | assign he => exact guarded_checkAssign h name he
  | .ret tok value, hs => by
    rw [checkStmt, stmtRequests]
    cases hs with
    | ret hvalue => exact guarded_checkReturn hv h tok hvalue
  | .expr _ e, hs => by
    rw [checkStmt, stmtRequests]
    cases hs with
    | expr he => exact guarded_checkExprStmt h he
  | .block _ body, hs => by
    rw [checkStmt_block, stmtRequests]
    exact guarded_checkStmts _ _ (valid_scopeStart hv hsc _ _) (scope_lt_blockStart ctx st)
      (h.withTable _) body hs.of_block
  | .fn .., hs => by cases hs
  | .hole, hs => by cases hs

/-- **What analysis relies on holds in every list of statements.** -/
theorem guarded_checkStmts (ctx : Context) (st : State) (hv : st.table.Valid)
    (hsc : ctx.scope < st.table.scopes.length) (h : st.Unguarded) :
    (ss : List Stmt) → (∀ s ∈ ss, s.Present) →
      (checkStmts ctx st ss).Unguarded ∧ AllAllowed (stmtsRequests ctx st ss)
  | [], _ => by
    rw [checkStmts, stmtsRequests]
    exact ⟨h, allAllowed_nil⟩
  | s :: ss, hss => by
    rw [checkStmts, stmtsRequests]
    rw [List.forall_mem_cons] at hss
    have hgrows := grows_checkStmt ctx st hsc s
    have hs := guarded_checkStmt ctx st hv hsc h s hss.1
    have hrest := guarded_checkStmts ctx (checkStmt ctx st s) (hgrows.table.valid hv)
      (hgrows.scope_lt hsc) hs.1 ss hss.2
    exact ⟨hrest.1, allAllowed_append.mpr ⟨hs.2, hrest.2⟩⟩

end

/-! ### Functions -/

section
variable {ctx : Context} {st : State}

/-- What a function may return is what the types of returns are. -/
theorem isReturnable_of_known {ty : Ty} (h : IsValue ty ∨ ty = .void) : ty.isReturnable := by
  rcases h with h | rfl
  · cases h <;> rfl
  · rfl

/-- A parameter of a type without values is reported as such. -/
theorem unguarded_makeParams (h : st.Unguarded) (seen : List Text) (ps : List ParamDecl) :
    (makeParams seen st ps).1.Unguarded := by
  fun_induction makeParams seen st ps with
  | case1 => exact h
  | case2 seen st p ps name hseen ih => exact ih (h.problem _ rfl)
  | case3 seen st p ps name hseen s hs st₁ id hadd st₂ rest hrest ih =>
    obtain rfl : st₁ = (st.addSymbol s).1 := by rw [hadd]
    rw [hrest] at ih
    exact ih (h.withTable _)
  | case4 seen st p ps name hseen n ty hs ih => exact ih (h.problem _ rfl)
  | case5 seen st p ps name hseen e hne hs ih =>
    -- a variable fails only for its type
    exact absurd (noDefault_of_ofTy hs) (hne _ _)

/-- Parameters ask for defaults that are there. -/
theorem allAllowed_paramRequests (seen : List Text) (ps : List ParamDecl) :
    AllAllowed (paramRequests seen ps) := by
  induction ps generalizing seen with
  | nil => exact allAllowed_nil
  | cons p ps ih =>
    rw [paramRequests]
    split
    · exact ih seen
    · exact allAllowed_append.mpr ⟨allAllowed_variableRequests _, ih _⟩

/-- **Bodies** begin without a return and with their parameters bound. -/
theorem guarded_checkBody (hv : st.table.Valid) (hsc : ctx.scope < st.table.scopes.length)
    (h : st.Unguarded) (head : FnHead) (declared : Option Ty) (params : List Param)
    {body : List Stmt} (hbody : ∀ s ∈ body, s.Present) :
    (checkBody ctx head declared params body st).Unguarded ∧
      AllAllowed (bodyRequests ctx head declared params body st) := by
  have hscope : (scopeStart ctx head.name.name ⟨false, none⟩ st).Unguarded :=
    ⟨h.found, fun _ hr => by cases hr⟩
  have hstart : (bodyStart ctx head declared params st).Unguarded :=
    unguarded_bindParams _ head hscope params
  have hvalid := valid_bodyStart hv hsc head declared params
  rw [checkBody_eq]
  exact guarded_checkStmts _ _ hvalid (scope_lt_bodyStart ctx head declared params st) hstart body
    hbody

/-- A missing return is not reported by a guard. -/
theorem unguarded_checkDeclared (hv : st.table.Valid) (hsc : ctx.scope < st.table.scopes.length)
    (h : st.Unguarded) (head : FnHead) (params : List Param) (result : Ty)
    {body : List Stmt} (hbody : ∀ s ∈ body, s.Present) :
    (checkDeclared ctx head params result body st).Unguarded := by
  have hchecked := (guarded_checkBody hv hsc h head (some result) params hbody).1
  unfold checkDeclared
  dsimp only
  split
  · exact hchecked.problem _ rfl
  · exact hchecked

/-- The type that the returns of a body give is one that functions may have. -/
theorem State.Unguarded.returnsTy (h : st.Unguarded) :
    IsValue st.returns.ty ∨ st.returns.ty = .void := by
  unfold Returns.ty
  split
  · next ty line hfirst => exact h.returns (ty, line) hfirst
  · exact .inr rfl

/-- **Functions without a written type**: the type that their returns give makes a sound signature. -/
theorem guarded_checkInferred (hv : st.table.Valid) (hsc : ctx.scope < st.table.scopes.length)
    (h : st.Unguarded) (head : FnHead) {body : List Stmt} (hbody : ∀ s ∈ body, s.Present) :
    (checkInferred ctx head body st).Unguarded ∧
      AllAllowed (inferredRequests ctx head body st) := by
  have hgrows := grows_makeParams ctx.scope [] st head.params
  have hmade := unguarded_makeParams h [] head.params
  unfold inferredRequests
  rcases hmake : makeParams [] st head.params with ⟨st₁, params⟩
  rw [hmake] at hgrows hmade
  dsimp only
  have hchecked := guarded_checkBody (hgrows.table.valid hv) (hgrows.scope_lt hsc) hmade head none
    params hbody
  have hresult := hchecked.1.returnsTy
  -- the returns have left a sound type, and the parameters are variables
  have hsignature : (Request.signature params
      (checkBody ctx head none params body st₁).returns.ty).Allowed :=
    ⟨isReturnable_of_known hresult, isValue_of_makeParams hmake⟩
  obtain ⟨e, he, heq⟩ := checkInferred_eq ctx body hmake hresult
  rw [heq]
  exact ⟨(hchecked.1.declare ctx _ _).note he,
    allAllowed_append.mpr ⟨allAllowed_append.mpr ⟨allAllowed_paramRequests _ _, hchecked.2⟩,
      allAllowed_cons.mpr ⟨hsignature, allAllowed_nil⟩⟩⟩

/-! ### Programs -/

/-- **The first pass on one statement**: a written result type is one that functions may return, since
the reader takes no other. -/
theorem guarded_hoist (h : st.Unguarded) {s : Stmt} (hs : s.PresentTop) :
    (hoist ctx st s).1.Unguarded ∧ AllAllowed (hoistRequests st s) := by
  cases hs with
  | letDecl | assign => exact ⟨h, allAllowed_nil⟩
  | @fn head brace body hresult hbody =>
    unfold hoistRequests
    dsimp only
    cases htype : head.result with
    | none =>
      unfold hoist
      dsimp only
      rw [htype]
      exact ⟨h, allAllowed_nil⟩
    | some type =>
      have hmade := unguarded_makeParams h [] head.params
      rcases hmake : makeParams [] st head.params with ⟨st₁, params⟩
      rw [hmake] at hmade
      -- the parser has seen to this
      have hreturnable := hresult type htype
      obtain ⟨e, s, he, -, heq⟩ := hoist_eq ctx (some brace) body htype hmake
        (isValue_or_void_of_isReturnable hreturnable)
      rw [heq]
      exact ⟨(hmade.declare ctx _ _).note he,
        allAllowed_append.mpr ⟨allAllowed_paramRequests _ _,
          allAllowed_cons.mpr ⟨⟨hreturnable, isValue_of_makeParams hmake⟩, allAllowed_nil⟩⟩⟩

/-- **The first pass**, which leaves the statements as they are. -/
theorem guarded_hoistAll (h : st.Unguarded) {p : Program} (hp : ∀ s ∈ p, s.PresentTop) :
    (hoistAll ctx st p).1.Unguarded ∧ AllAllowed (hoistAllRequests ctx st p) ∧
      ∀ s ∈ (hoistAll ctx st p).2, s.1.PresentTop := by
  induction p generalizing st with
  | nil => exact ⟨h, allAllowed_nil, List.forall_mem_nil _⟩
  | cons s ss ih =>
    rw [List.forall_mem_cons] at hp
    have hs : (hoist ctx st s).1.Unguarded ∧ _ := guarded_hoist h hp.1
    obtain ⟨hrest, hrequests, hstmts⟩ := ih hs.1 hp.2
    exact ⟨hrest, allAllowed_append.mpr ⟨hs.2, hrequests⟩,
      List.forall_mem_cons.mpr ⟨hp.1, hstmts⟩⟩

/-- **The second pass on one statement.** -/
theorem guarded_checkTop (hv : st.table.Valid) (hsc : ctx.scope < st.table.scopes.length)
    (h : st.Unguarded) {s : Stmt} (hs : s.PresentTop) (signature : Option Symbol) :
    (checkTop ctx st (s, signature)).Unguarded ∧
      AllAllowed (topRequests ctx st (s, signature)) := by
  cases hs with
  | @letDecl tok name type value hvalue =>
    rw [checkTop_letDecl]
    exact guarded_checkLet h name type hvalue
  | @assign tok name e he =>
    rw [checkTop_assign]
    exact guarded_checkAssign h name he
  | @fn head brace body hresult hbody =>
    unfold checkTop topRequests
    dsimp only
    cases head.result with
    | none => exact guarded_checkInferred hv hsc h head hbody
    | some type =>
      -- a function whose signature was refused is not looked at again
      cases signature with
      | none => exact ⟨h, allAllowed_nil⟩
      | some s =>
        exact ⟨unguarded_checkDeclared hv hsc h head s.params type.ty hbody,
          (guarded_checkBody hv hsc h head (some type.ty) s.params hbody).2⟩

/-- **The second pass.** -/
theorem guarded_checkTops (hv : st.table.Valid) (hsc : ctx.scope < st.table.scopes.length)
    (h : st.Unguarded) {l : List (Stmt × Option Symbol)} (hl : ∀ s ∈ l, s.1.PresentTop) :
    (l.foldl (checkTop ctx) st).Unguarded ∧ AllAllowed (topsRequests ctx st l) := by
  induction l generalizing st with
  | nil => exact ⟨h, allAllowed_nil⟩
  | cons s l ih =>
    rw [List.forall_mem_cons] at hl
    have hgrows := grows_checkTop ctx st hsc s
    have hs := guarded_checkTop hv hsc h hl.1 s.2
    have hrest := ih (hgrows.table.valid hv) (hgrows.scope_lt hsc) hs.1 hl.2
    exact ⟨hrest.1, allAllowed_append.mpr ⟨hs.2, hrest.2⟩⟩

/-- **What analysis relies on holds in every program** of which nothing is missing. -/
theorem guarded_checkProgram (options : Options) (mutated : List Text) {p : Program}
    (hp : ∀ s ∈ p, s.PresentTop) :
    (checkProgram options mutated p).Unguarded ∧
      AllAllowed (programRequests options mutated p) := by
  have hstart : startState.Unguarded := ⟨unguarded_nil, fun _ hr => by cases hr⟩
  have hgrows := grows_hoistAll (topContext options mutated) startState p
  have hhoist : (hoistAll (topContext options mutated) startState p).1.Unguarded ∧ _ :=
    guarded_hoistAll hstart hp
  obtain ⟨hhoisted, hrequests, hstmts⟩ := hhoist
  have htops := guarded_checkTops (hgrows.table.valid valid_freshTable)
    (hgrows.scope_lt (scope_lt_startState options mutated)) hhoisted hstmts
  rw [checkProgram_eq]
  exact ⟨htops.1, allAllowed_append.mpr ⟨hrequests, htops.2⟩⟩

end

/-- What an analyzer finds in one more program. -/
theorem mem_findings_analyze {a : Analyzer} {p : Program} {f : Finding} :
    f ∈ (a.analyze (some p)).1.findings ↔ f ∈ a.findings ∨
      f ∈ (checkProgram a.options (a.mutated ++ p.globalWrites) p).trace.filterMap
        Event.finding? :=
  List.mem_append

/-- **No source meets a guard.** For every source, with or without syntax errors, and every analyzer,
new or not:

* nothing is missing from the program that is read;
* no type is unknown to the reader, and no syntax error is an internal one;
* a statement that starts below the top level is read inside a function;
* none of the new findings is a guard, and none is an internal error;
* everything that analysis asks for makes sense. By `askProgram_eq` the requests are those that the
  checks make, in that order. -/
theorem no_source_meets_guard (src : Text) (a : Analyzer) :
    (∀ s ∈ (Parser.parse src).program, s.PresentTop) ∧
    (∀ f ∈ (Parser.parse src).faults,
      (∀ literal, f.what ≠ .unknownType literal) ∧ ¬internalError <+: f.what.message) ∧
    (∀ depth t rest, Relation.TransGen (Parser.AnyCall.Makes (Lexer.eof src))
      ⟨_, .program (Lexer.tokens src)⟩ ⟨_, .statement depth t rest⟩ → 0 < depth) ∧
    (∀ f ∈ (a.analyze (some (Parser.parse src).program)).1.findings, f ∈ a.findings ∨
      f.what.isGuard = false ∧ ¬internalError <+: f.what.message) ∧
    ∀ q ∈ programRequests a.options (a.mutated ++ (Parser.parse src).program.globalWrites)
      (Parser.parse src).program, q.Allowed := by
  have hpresent := Parser.present_parse src
  have hguarded := guarded_checkProgram a.options
    (a.mutated ++ (Parser.parse src).program.globalWrites) hpresent.1
  refine ⟨hpresent.1, fun f hf => ⟨hpresent.2 f hf, f.what.not_internalError⟩, ?_, ?_, hguarded.2⟩
  · -- only the body of a function has statements that are not at top level
    intro depth t rest hmakes
    exact (Parser.below_of_transGen rfl (Parser.distinct_tokens src) hmakes).inside trivial
  · intro f hf
    refine (mem_findings_analyze.mp hf).imp_right fun hnew => ?_
    have hguard := hguarded.1.found f hnew
    exact ⟨hguard, not_internalError hguard⟩

end Analysis
end Slang
