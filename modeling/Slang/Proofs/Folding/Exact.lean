import Mathlib
import Slang.Proofs.Alike

/-!
# Folding is exact, and it agrees with the types

What an operator gives on constants is compared with two things that are said without folding:

* `Computes` is arithmetic on the integers of mathematics, by the spelling of an operator. Folding
  computes in words of 64 bits, and these never wrap around: an operator gives a constant if and only if
  the exact result is this constant, and it overflows if and only if the exact result is no integer of
  32 bits.
* `BinaryOp.resultTy?` and `checkUnary` say which types an operator takes. They look at types and
  folding looks at values, and both accept the same operands: where there is a type, folding gives a
  value of that type or an error of arithmetic, and where there is none, nothing folds.

`fold_exact_and_typed` puts these together for every spelling of an operator.
-/

namespace Slang

/-! ### Arithmetic -/

/-- **The exact result of an arithmetic operator**, by its spelling. Division drops the fraction, and
there is nothing that a division by zero gives. -/
inductive Computes : Text → Int → Int → Int → Prop where
  | add (a b : Int) : Computes "+" a b (a + b)
  | sub (a b : Int) : Computes "-" a b (a - b)
  | mul (a b : Int) : Computes "*" a b (a * b)
  | div (a : Int) {b : Int} (hb : b ≠ 0) : Computes "/" a b (a.tdiv b)

/-- The exact result of an operator on two integers. -/
def BinaryOp.Exact (op : BinaryOp) (a b n : Int) : Prop :=
  match op with
  | add => n = a + b
  | sub => n = a - b
  | mul => n = a * b
  | div => b ≠ 0 ∧ n = a.tdiv b
  | eq | ne | and | or | other _ => False

/-- No operator but the four has the spelling of one of them. -/
theorem computes_iff {s : Text} {a b n : Int} :
    Computes s a b n ↔ (BinaryOp.ofSpelling s).Exact a b n := by
  constructor
  · intro h
    cases h with
    | add | sub | mul => exact rfl
    | div a hb => exact ⟨hb, rfl⟩
  · intro h
    unfold BinaryOp.ofSpelling at h
    split at h
    · next hs => subst hs h; exact .add a b
    split at h
    · next hs => subst hs h; exact .sub a b
    split at h
    · next hs => subst hs h; exact .mul a b
    split at h
    · next hs =>
      obtain ⟨hb, rfl⟩ := h
      subst hs
      exact .div a hb
    -- the other operators do not compute with integers
    split at h
    · exact h.elim
    split at h
    · exact h.elim
    split at h
    · exact h.elim
    split at h <;> exact h.elim

/-- A word of 64 bits holds every exact result, so that it does not wrap around. -/
theorem BinaryOp.Exact.fits {op : BinaryOp} {l r : Int32} {n : Int} (h : op.Exact l.toInt r.toInt n) :
    -2 ^ 63 ≤ n ∧ n ≤ 2 ^ 63 - 1 := by
  -- both operands are at most 2 to the 31st, so that even a product has 62 bits
  have hl := Word.natAbs_toInt_le l
  have hr := Word.natAbs_toInt_le r
  cases op with
  | add | sub =>
    subst h
    omega
  | mul =>
    subst h
    have hmul := Word.natAbs_mul_le l r
    omega
  | div =>
    obtain ⟨-, rfl⟩ := h
    have hdiv := Word.natAbs_tdiv_le l r
    omega
  | eq | ne | and | or | other => exact h.elim

/-! ### Integers in range -/

section
variable {n : Int} {v l r : Int32} {op : BinaryOp}

/-- **A number is a value** if it fits. -/
theorem ofInt?_eq_ok_iff : Value.ofInt? n = .ok (.int v) ↔ v.toInt = n := by
  have hv := v.le_toInt
  have hv' := v.toInt_lt
  unfold Value.ofInt?
  constructor
  · intro h
    split at h
    · cases h
    · next hn =>
      obtain rfl : Int32.ofInt n = v := Value.int.inj (Except.ok.inj h)
      -- within the bounds, nothing is cut off
      simp only [minInt, maxInt] at hn
      exact Int32.toInt_ofInt_of_le (by omega) (by omega)
  · rintro rfl
    rw [if_neg (by simp only [minInt, maxInt]; omega), Int32.ofInt_toInt]

theorem ofInt?_eq_overflow_iff :
    Value.ofInt? n = .error .overflow ↔ n < -2 ^ 31 ∨ 2 ^ 31 - 1 < n := by
  unfold Value.ofInt?
  split
  · next hn => exact ⟨fun _ => hn, fun _ => rfl⟩
  · next hn => exact ⟨fun h => (nomatch h), fun h => absurd h hn⟩

theorem ofInt?_ne_divisionByZero : Value.ofInt? n ≠ .error .divisionByZero := fun h =>
  nomatch Analysis.ofInt?_error h

/-- Where there is an exact result, folding asks whether it is in range. -/
theorem foldInt_of_exact (h : op.Exact l.toInt r.toInt n) : op.foldInt l r = Value.ofInt? n := by
  cases op with
  | add => exact h ▸ BinaryOp.foldInt_add l r
  | sub => exact h ▸ BinaryOp.foldInt_sub l r
  | mul => exact h ▸ BinaryOp.foldInt_mul l r
  | div =>
    obtain ⟨hr, rfl⟩ := h
    refine BinaryOp.foldInt_div fun hzero => hr ?_
    rw [hzero]
    rfl
  | eq | ne | and | or | other => exact h.elim

/-- Where there is no exact result, there is no integer and no overflow, and only a division by zero
says that it is one. -/
theorem foldInt_of_not_exact (h : ∀ n, ¬op.Exact l.toInt r.toInt n) :
    (∀ v, op.foldInt l r ≠ .ok (.int v)) ∧ op.foldInt l r ≠ .error .overflow ∧
      (op.foldInt l r = .error .divisionByZero ↔ op = .div) := by
  cases op with
  | add | sub | mul => exact absurd rfl (h _)
  | div =>
    -- a quotient is missing only for a divisor of zero
    have hzero : r = 0 := by
      by_contra hr
      refine h (l.toInt.tdiv r.toInt) ⟨fun hint => hr ?_, rfl⟩
      exact Int32.toInt_inj.mp hint
    subst hzero
    rw [BinaryOp.foldInt_div_zero]
    exact ⟨fun _ h => (nomatch h), fun h => (nomatch h), iff_of_true rfl rfl⟩
  | eq | ne | and | or | other =>
    exact ⟨fun _ h => (nomatch h), fun h => (nomatch h),
      iff_of_false (fun h => nomatch h) fun h => nomatch h⟩

theorem foldInt_eq_ok_iff : op.foldInt l r = .ok (.int v) ↔ op.Exact l.toInt r.toInt v.toInt := by
  constructor
  · intro h
    by_contra hnot
    refine (foldInt_of_not_exact fun n hn => ?_).1 v h
    rw [foldInt_of_exact hn, ofInt?_eq_ok_iff] at h
    exact hnot (h ▸ hn)
  · intro h
    rw [foldInt_of_exact h]
    exact ofInt?_eq_ok_iff.mpr rfl

theorem foldInt_eq_overflow_iff : op.foldInt l r = .error .overflow ↔
    ∃ n, op.Exact l.toInt r.toInt n ∧ (n < -2 ^ 31 ∨ 2 ^ 31 - 1 < n) := by
  constructor
  · intro h
    by_contra hnot
    refine (foldInt_of_not_exact fun n hn => ?_).2.1 h
    rw [foldInt_of_exact hn, ofInt?_eq_overflow_iff] at h
    exact hnot ⟨n, hn, h⟩
  · rintro ⟨n, hn, hrange⟩
    rw [foldInt_of_exact hn]
    exact ofInt?_eq_overflow_iff.mpr hrange

theorem foldInt_eq_divisionByZero_iff :
    op.foldInt l r = .error .divisionByZero ↔ op = .div ∧ r = 0 := by
  constructor
  · intro h
    have hnot : ∀ n, ¬op.Exact l.toInt r.toInt n := fun n hn =>
      ofInt?_ne_divisionByZero ((foldInt_of_exact hn).symm.trans h)
    obtain rfl := (foldInt_of_not_exact hnot).2.2.mp h
    refine ⟨rfl, ?_⟩
    by_contra hr
    exact hnot _ ⟨fun hint => hr (Int32.toInt_inj.mp hint), rfl⟩
  · rintro ⟨rfl, rfl⟩
    exact BinaryOp.foldInt_div_zero l

end

/-! ### Types -/

/-- **An operation that has a type folds to a value of that type**, unless arithmetic fails. -/
theorem fold_of_resultTy? {op : BinaryOp} {l r : Value} {ty : Ty}
    (h : op.resultTy? l.ty r.ty = some ty) :
    (∃ v, op.fold l r = .ok v ∧ v.ty = ty) ∨ op.fold l r = .error .overflow ∨
      op.fold l r = .error .divisionByZero := by
  cases hfold : op.fold l r with
  | ok v => exact .inl ⟨v, rfl, Analysis.ty_of_binary_fold h hfold⟩
  | error e =>
    rcases Analysis.binary_fold_error h hfold with rfl | rfl
    · exact .inr (.inl rfl)
    · exact .inr (.inr rfl)

/-- **An operation that has no type does not fold.** -/
theorem fold_of_resultTy?_eq_none {op : BinaryOp} {l r : Value}
    (h : op.resultTy? l.ty r.ty = none) :
    op.fold l r = .error .notFoldable ∨ op.fold l r = .error .unknownOperator := by
  -- operands of two types are never folded; for one type, the operators that the rules leave out are
  -- unknown
  cases l <;> cases r
  case int.int l r =>
    cases op with
    | and | or | other => exact .inr rfl
    | add | sub | mul | div | eq | ne => cases h
  case bool.bool l r =>
    cases op with
    | add | sub | mul | div | other => exact .inr rfl
    | and | or | eq | ne => cases h
  case str.str l r =>
    cases op with
    | sub | mul | div | and | or | other => exact .inr rfl
    | add | eq | ne => cases h
  all_goals exact .inl rfl

/-- What a prefix operator takes is a matter of the type of its operand alone. -/
theorem ty_checkUnary (tok : Token) (op : UnaryOp) (right : Analysis.Checked) :
    (Analysis.checkUnary tok op right).ty =
      if right.ty = op.operandTy then right.ty else .invalid := by
  unfold Analysis.checkUnary
  split
  · next hinvalid =>
    -- an operand without a type is taken by no operator
    rw [hinvalid, ite_self]
    rfl
  · by_cases hty : right.ty = op.operandTy
    · rw [if_neg (not_not.mpr hty), if_pos hty, hty]
      cases right.value with
      | none => rfl
      | some v =>
        dsimp only
        cases op.fold v <;> rfl
    · rw [if_pos hty, if_neg hty]
      rfl

/-- An operand of the right type folds to a value of that type, unless it has no opposite. -/
theorem fold_of_operandTy {op : UnaryOp} {v : Value} (h : v.ty = op.operandTy) :
    (∃ w, op.fold v = .ok w ∧ w.ty = op.operandTy) ∨ op.fold v = .error .overflow := by
  cases hfold : op.fold v with
  | ok w => exact .inl ⟨w, rfl, Analysis.ty_of_unary_fold hfold⟩
  | error e =>
    obtain rfl := Analysis.unary_fold_error h hfold
    exact .inr rfl

theorem fold_of_operandTy_ne {op : UnaryOp} {v : Value} (h : v.ty ≠ op.operandTy) :
    op.fold v = .error .notFoldable ∨ op.fold v = .error .unknownOperator := by
  cases op with
  | neg =>
    cases v with
    | int n => exact absurd rfl h
    | bool b | str s => exact .inl rfl
  | not =>
    cases v with
    | bool b => exact absurd rfl h
    | int n | str s => exact .inl rfl
  | other s => cases v <;> exact .inr rfl

/-- The types of values are types. -/
theorem Value.ty_ne_invalid (v : Value) : v.ty ≠ .invalid := by
  cases v <;> exact fun h => nomatch h

/-! ### Every operator -/

theorem ofSpelling_eq_div_iff {s : Text} : BinaryOp.ofSpelling s = .div ↔ s = "/" := by
  constructor
  · intro h
    rw [← BinaryOp.spelling_ofSpelling s, h]
    rfl
  · rintro rfl
    rfl

theorem ofSpelling_eq_neg_iff {s : Text} : UnaryOp.ofSpelling s = .neg ↔ s = "-" := by
  constructor
  · intro h
    rw [← UnaryOp.spelling_ofSpelling s, h]
    rfl
  · rintro rfl
    rfl

/-- Only the minus sign gives an integer or overflows. -/
theorem fold_int_of_ne_neg {op : UnaryOp} (h : op ≠ .neg) (n : Int32) :
    ∃ e, op.fold (.int n) = .error e ∧ e ≠ .overflow ∧ e ≠ .divisionByZero := by
  cases op with
  | neg => exact absurd rfl h
  | not => exact ⟨.notFoldable, rfl, by decide, by decide⟩
  | other s => exact ⟨.unknownOperator, rfl, by decide, by decide⟩

theorem fold_int_eq_ok_iff {op : UnaryOp} {n v : Int32} :
    op.fold (.int n) = .ok (.int v) ↔ op = .neg ∧ v.toInt = -n.toInt := by
  by_cases hneg : op = .neg
  · rw [hneg, UnaryOp.fold_neg, ofInt?_eq_ok_iff, and_iff_right rfl]
  · obtain ⟨e, he, -⟩ := fold_int_of_ne_neg hneg n
    rw [he]
    exact iff_of_false (fun h => nomatch h) fun h => hneg h.1

theorem fold_int_eq_overflow_iff {op : UnaryOp} {n : Int32} :
    op.fold (.int n) = .error .overflow ↔
      op = .neg ∧ (-n.toInt < -2 ^ 31 ∨ 2 ^ 31 - 1 < -n.toInt) := by
  by_cases hneg : op = .neg
  · rw [hneg, UnaryOp.fold_neg, ofInt?_eq_overflow_iff, and_iff_right rfl]
  · obtain ⟨e, he, hne, -⟩ := fold_int_of_ne_neg hneg n
    rw [he]
    exact iff_of_false (fun h => hne (Except.error.inj h)) fun h => hneg h.1

theorem fold_int_ne_divisionByZero (op : UnaryOp) (n : Int32) :
    op.fold (.int n) ≠ .error .divisionByZero := by
  by_cases hneg : op = .neg
  · rw [hneg, UnaryOp.fold_neg]
    exact ofInt?_ne_divisionByZero
  · obtain ⟨e, he, -, hne⟩ := fold_int_of_ne_neg hneg n
    rw [he]
    exact fun h => hne (Except.error.inj h)

/-- **Folding is exact, and it agrees with the types.** For every text as the spelling of an operator:

* between two integers it gives an integer if and only if this is the exact result, it overflows if
  and only if the exact result is no integer of 32 bits, and it says that a division by zero is one
  if and only if it is; a word of 64 bits holds every exact result;
* between any two values whose types the operator takes, it gives a value of the type of the operation
  or fails in one of those two ways, and otherwise it says that nothing folds or that there is no such
  operator;
* in front of an integer, a minus sign gives the exact opposite, or overflows if that is no integer of
  32 bits;
* in front of any value of a type that the operator takes there, it gives a value of that type or
  overflows, and otherwise it says that nothing folds or that there is no such operator. -/
theorem fold_exact_and_typed (s : Text) :
    (∀ l r : Int32,
      let result := (BinaryOp.ofSpelling s).foldOperands (.value (.int l)) (.value (.int r))
      (∀ v : Int32, result = .ok (.int v) ↔ Computes s l.toInt r.toInt v.toInt) ∧
      (result = .error .overflow ↔
        ∃ n, Computes s l.toInt r.toInt n ∧ (n < -2 ^ 31 ∨ 2 ^ 31 - 1 < n)) ∧
      (result = .error .divisionByZero ↔ s = "/" ∧ r = 0) ∧
      ∀ n, Computes s l.toInt r.toInt n → -2 ^ 63 ≤ n ∧ n ≤ 2 ^ 63 - 1) ∧
    (∀ l r : Value,
      let result := (BinaryOp.ofSpelling s).foldOperands (.value l) (.value r)
      match (BinaryOp.ofSpelling s).resultTy? l.ty r.ty with
      | some ty =>
        (∃ v, result = .ok v ∧ v.ty = ty) ∨ result = .error .overflow ∨
          result = .error .divisionByZero
      | none => result = .error .notFoldable ∨ result = .error .unknownOperator) ∧
    (∀ n : Int32,
      let result := (UnaryOp.ofSpelling s).foldOperand (.value (.int n))
      (∀ v : Int32, result = .ok (.int v) ↔ s = "-" ∧ v.toInt = -n.toInt) ∧
      (result = .error .overflow ↔ s = "-" ∧ (-n.toInt < -2 ^ 31 ∨ 2 ^ 31 - 1 < -n.toInt)) ∧
      result ≠ .error .divisionByZero ∧
      -2 ^ 63 ≤ -n.toInt ∧ -n.toInt ≤ 2 ^ 63 - 1) ∧
    ∀ (v : Value) (tok : Token) (value : Option Value) (findings : List Finding),
      let result := (UnaryOp.ofSpelling s).foldOperand (.value v)
      let checked := Analysis.checkUnary tok (.ofSpelling s) ⟨v.ty, value, findings⟩
      if checked.ty = .invalid then
        result = .error .notFoldable ∨ result = .error .unknownOperator
      else (∃ w, result = .ok w ∧ w.ty = checked.ty) ∨ result = .error .overflow := by
  refine ⟨fun l r => ⟨fun v => ?_, ?_, ?_, fun n hn => ?_⟩, fun l r => ?_, fun n => ?_,
    fun v tok value findings => ?_⟩
  · -- the exact results, overflow, division by zero and the bound of 64 bits
    rw [computes_iff]
    exact foldInt_eq_ok_iff
  · refine foldInt_eq_overflow_iff.trans ?_
    simp only [computes_iff]
  · rw [← ofSpelling_eq_div_iff]
    exact foldInt_eq_divisionByZero_iff
  · exact (computes_iff.mp hn).fits
  · dsimp only
    split
    · next ty hty => exact fold_of_resultTy? hty
    · next hty => exact fold_of_resultTy?_eq_none hty
  · -- the negative of the least number is the only one that does not fit
    have habs := Word.natAbs_toInt_le n
    rw [← ofSpelling_eq_neg_iff]
    refine ⟨fun v => fold_int_eq_ok_iff, fold_int_eq_overflow_iff,
      fold_int_ne_divisionByZero _ n, ?_, ?_⟩ <;> omega
  · dsimp only
    rw [ty_checkUnary]
    by_cases hty : v.ty = (UnaryOp.ofSpelling s).operandTy
    · rw [if_pos hty, if_neg v.ty_ne_invalid, hty]
      exact fold_of_operandTy hty
    · rw [if_neg hty, if_pos rfl]
      exact fold_of_operandTy_ne hty

end Slang
