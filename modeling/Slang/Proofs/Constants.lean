import Slang.Analysis.Expression
import Slang.Proofs.Grammar.Shape

/-!
# When analysis finds a constant

Reading an expression backwards: if it is constant, then its parts are, and they fold to it. The
lemmas are for every kind of expression (`checkName_value`, `checkUnary_value`, `checkBinary_value`,
`checkCall_value`), whether or not the program around it has errors. It follows that a constant is
of the type of its expression (`ty_of_value`), so that it can be stored in a variable of that type.
-/

namespace Slang.Analysis

/-! ### Operators on constants -/

/-- Integers are folded to integers. -/
theorem ty_of_ofInt? {n : Int} {v : Value} (h : Value.ofInt? n = .ok v) : v.ty = .int := by
  unfold Value.ofInt? at h
  split at h
  · cases h
  · obtain rfl := Except.ok.inj h
    rfl

theorem ty_of_unary_fold {op : UnaryOp} {v w : Value} (h : op.fold v = .ok w) :
    w.ty = op.operandTy := by
  cases op with
  | neg =>
    cases v with
    | int n => exact ty_of_ofInt? h
    | _ => cases h
  | not =>
    cases v with
    | bool b =>
      obtain rfl := Except.ok.inj h
      rfl
    | _ => cases h
  | other s => cases v <;> cases h

theorem ty_of_foldInt {op : BinaryOp} {l r : Int32} {v : Value} {ty : Ty}
    (hty : op.resultTy? .int .int = some ty) (h : op.foldInt l r = .ok v) : v.ty = ty := by
  cases op with
  | add | sub | mul =>
    obtain rfl := Option.some.inj hty
    exact ty_of_ofInt? h
  | div =>
    -- a division by zero is no constant
    obtain rfl := Option.some.inj hty
    unfold BinaryOp.foldInt at h
    dsimp only at h
    split at h
    · cases h
    · exact ty_of_ofInt? h
  | eq | ne =>
    obtain rfl := Option.some.inj hty
    obtain rfl := Except.ok.inj h
    rfl
  | and | or | other => cases h

theorem ty_of_foldBool {op : BinaryOp} {l r : Bool} {v : Value} {ty : Ty}
    (hty : op.resultTy? .bool .bool = some ty) (h : op.foldBool l r = .ok v) : v.ty = ty := by
  cases op with
  | and | or | eq | ne =>
    obtain rfl := Option.some.inj hty
    obtain rfl := Except.ok.inj h
    rfl
  | add | sub | mul | div | other => cases h

theorem ty_of_foldStr {op : BinaryOp} {l r : Text} {v : Value} {ty : Ty}
    (hty : op.resultTy? .string .string = some ty) (h : op.foldStr l r = .ok v) : v.ty = ty := by
  cases op with
  | add | eq | ne =>
    obtain rfl := Option.some.inj hty
    obtain rfl := Except.ok.inj h
    rfl
  | sub | mul | div | and | or | other => cases h

theorem ty_of_binary_fold {op : BinaryOp} {l r v : Value} {ty : Ty}
    (hty : op.resultTy? l.ty r.ty = some ty) (h : op.fold l r = .ok v) : v.ty = ty := by
  -- operands of different types do not fold
  cases l <;> cases r
  case int.int => exact ty_of_foldInt hty h
  case bool.bool => exact ty_of_foldBool hty h
  case str.str => exact ty_of_foldStr hty h
  all_goals cases h

/-! ### Constants among expressions -/

theorem ty_of_folded {tok : Token} {ty : Ty} {before : List Finding} {r : Except FoldError Value}
    {c : Value} (h : (folded tok ty before r).value = some c) :
    r = .ok c ∧ (folded tok ty before r).ty = ty := by
  cases r with
  | ok v =>
    obtain rfl := Option.some.inj h
    exact ⟨rfl, rfl⟩
  | error e => cases h

/-- Where a prefix operator gives a constant, its operand is one and folds to it. -/
theorem checkUnary_value {tok : Token} {op : UnaryOp} {right : Checked} {c : Value}
    (h : (checkUnary tok op right).value = some c) :
    ∃ v, right.value = some v ∧ op.fold v = .ok c ∧
      (checkUnary tok op right).ty = op.operandTy := by
  unfold checkUnary at h ⊢
  split at h
  · cases h
  · -- there is a value only if the operand has a type, and the one that the operator takes
    next hinv =>
    rw [if_neg hinv]
    split at h
    · cases h
    · next hty =>
      rw [if_neg hty]
      cases hv : right.value with
      | none =>
        rw [hv] at h
        cases h
      | some v =>
        rw [hv] at h
        obtain ⟨hfold, hfolded⟩ := ty_of_folded h
        exact ⟨v, rfl, hfold, hfolded⟩

/-- Where an infix operator gives a constant, its operands are constants and fold to it. -/
theorem checkBinary_value {tok : Token} {op : BinaryOp} {left right : Checked} {c : Value}
    (h : (checkBinary tok op left right).value = some c) :
    ∃ l r, left.value = some l ∧ right.value = some r ∧ op.fold l r = .ok c ∧
      op.resultTy? left.ty right.ty = some (checkBinary tok op left right).ty := by
  unfold checkBinary at h ⊢
  dsimp only at h ⊢
  split at h
  · cases h
  · next hinv =>
    rw [if_neg hinv]
    -- there is a value only if the operator takes these types, and both operands have one
    cases hresult : op.resultTy? left.ty right.ty with
    | none =>
      rw [hresult] at h
      cases h
    | some ty =>
      rw [hresult] at h
      dsimp only at h ⊢
      split at h
      · next l r hl hr =>
        rw [hl, hr]
        obtain ⟨hfold, hfolded⟩ := ty_of_folded h
        exact ⟨l, r, rfl, rfl, hfold, congrArg some hfolded.symm⟩
      · cases h

theorem constant_value {ctx : Context} {v c : Value} (h : (constant ctx v).value = some c) :
    v = c := by
  unfold constant at h
  split at h
  · exact Option.some.inj h
  · cases h

/-- A name gives a constant if its symbol is a variable of known value, and not an uncertain
global. -/
theorem checkName_value {ctx : Context} {t : Table} {id : Ident} {c : Value}
    (h : (checkName ctx t id).value = some c) :
    ∃ i s, t.find? ctx.scope id.name = some i ∧ t.symbol? i = some s ∧ s.known? = some c ∧
      (isGlobal ctx t i s.name && isUncertain ctx s.name) = false ∧
      (checkName ctx t id).ty = c.ty := by
  unfold checkName at h ⊢
  -- down to a variable of the table: everything else has no value
  cases hi : t.find? ctx.scope id.name with
  | none =>
    rw [hi] at h
    cases h
  | some i =>
    rw [hi] at h
    dsimp only at h ⊢
    cases hs : t.symbol? i with
    | none =>
      rw [hs] at h
      cases h
    | some s =>
      rw [hs] at h
      dsimp only at h ⊢
      cases hc : s.content with
      | function ps result =>
        rw [hc] at h
        cases h
      | «variable» v calculated =>
        rw [hc] at h
        dsimp only at h ⊢
        split at h
        · -- of the conditions, that the value is known makes it the one of the symbol
          next hcond =>
          obtain rfl := constant_value h
          rw [if_pos hcond]
          rw [Bool.and_eq_true, Bool.not_eq_true'] at hcond
          obtain ⟨rfl, hcertain⟩ := hcond
          exact ⟨i, s, rfl, hs, by simp [Symbol.known?, hc], hcertain, rfl⟩
        · cases h

/-- A call is never constant. -/
theorem checkCall_value (ctx : Context) (t : Table) (callee : Ident) (args : List Expr)
    (cs : List Checked) : (checkCall ctx t callee args cs).value = none := by
  unfold checkCall
  dsimp only
  split
  · rfl
  · split
    · rfl
    · split <;> rfl

/-- **A constant is of the type of its expression.** -/
theorem ty_of_value {ctx : Context} {t : Table} {e : Expr} (hw : e.Whole) {c : Value}
    (h : (check ctx t e).value = some c) : c.ty = (check ctx t e).ty := by
  -- on the expression: what folding gives has the type that the operator gives
  induction hw generalizing c with
  | ident =>
    rw [check] at h ⊢
    obtain ⟨-, -, -, -, -, -, hty⟩ := checkName_value h
    exact hty.symm
  | int =>
    rw [check] at h ⊢
    split at h
    · cases h
    · next hn =>
      rw [if_neg hn]
      rw [← constant_value h]
      rfl
  | str | bool =>
    rw [check] at h ⊢
    rw [← constant_value h]
    rfl
  | unary he ih =>
    rw [check] at h ⊢
    split at h
    · next hleast =>
      rw [if_pos hleast, ← constant_value h]
      rfl
    · next hleast =>
      rw [if_neg hleast]
      obtain ⟨v, -, hfold, hty⟩ := checkUnary_value h
      rw [hty]
      exact ty_of_unary_fold hfold
  | binary hl hr ihl ihr =>
    rw [check] at h ⊢
    obtain ⟨l, r, hleft, hright, hfold, hty⟩ := checkBinary_value h
    rw [← ihl hleft, ← ihr hright] at hty
    exact ty_of_binary_fold hty hfold
  | group he ih =>
    rw [check] at h ⊢
    exact ih h
  | call hargs ih =>
    rw [check, checkCall_value] at h
    cases h

end Slang.Analysis
