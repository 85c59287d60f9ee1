import Slang.Operator
import Slang.Value
/-!
# Folding constants

What an operator gives on constants. Integers are those of 32 bits; they are computed with in words of
64 bits, and a result outside their range is an error. Division drops the fraction.

* `UnaryOp.fold` and `BinaryOp.fold` work on values;
* `UnaryOp.foldOperand` and `BinaryOp.foldOperands` also take operands that are no values;
* a word of 64 bits holds whatever two integers of 32 bits give (`Word.toInt_add` and so on).
-/

namespace Slang

/-- Why constants do not fold. -/
inductive FoldError where
  | overflow
  | divisionByZero
  | notFoldable
  | unknownOperator
  deriving DecidableEq, Repr

/-- What is said about constants that do not fold. -/
def FoldError.message : FoldError → Text
  | overflow => "integer overflow in constant expression"
  | divisionByZero => "division by zero in constant expression"
  | notFoldable => "operands cannot be folded"
  | unknownOperator => "unknown operator"

/-- The least integer of the language. -/
def minInt : Int := -2147483648

/-- The greatest integer of the language. -/
def maxInt : Int := 2147483647

/-! ### Words

Whatever an operator gives on two integers of 32 bits has a magnitude of at most `2 ^ 62`, so that a
word of 64 bits holds it. -/

namespace Word

/-- A number that is not large does not wrap around. -/
theorem bmod_eq_self {n : Int} {m : Nat} (h : 2 * n.natAbs < m) : n.bmod m = n := by
  apply Int.bmod_eq_of_le <;> omega

theorem natAbs_toInt_le (n : Int32) : n.toInt.natAbs ≤ 0x80000000 := by
  have hn := n.le_toInt
  have hn' := n.toInt_lt
  omega

/-- The largest results are products: that of the least integer with itself is `2 ^ 62`. -/
theorem natAbs_mul_le (l r : Int32) : (l.toInt * r.toInt).natAbs ≤ 0x4000000000000000 :=
  calc (l.toInt * r.toInt).natAbs
      = l.toInt.natAbs * r.toInt.natAbs := Int.natAbs_mul _ _
    _ ≤ 0x80000000 * 0x80000000 := Nat.mul_le_mul (natAbs_toInt_le l) (natAbs_toInt_le r)
    _ = 0x4000000000000000 := rfl

theorem natAbs_tdiv_le (l r : Int32) : (l.toInt.tdiv r.toInt).natAbs ≤ 0x80000000 :=
  calc (l.toInt.tdiv r.toInt).natAbs
      = l.toInt.natAbs / r.toInt.natAbs := Int.natAbs_tdiv _ _
    _ ≤ l.toInt.natAbs := Nat.div_le_self _ _
    _ ≤ 0x80000000 := natAbs_toInt_le l

theorem toInt_neg (n : Int32) : (-n.toInt64).toInt = -n.toInt := by
  have hn := natAbs_toInt_le n
  rw [Int64.toInt_neg, Int32.toInt_toInt64, bmod_eq_self (by omega)]

theorem toInt_add (l r : Int32) : (l.toInt64 + r.toInt64).toInt = l.toInt + r.toInt := by
  have hl := natAbs_toInt_le l
  have hr := natAbs_toInt_le r
  rw [Int64.toInt_add, Int32.toInt_toInt64, Int32.toInt_toInt64, bmod_eq_self (by omega)]

theorem toInt_sub (l r : Int32) : (l.toInt64 - r.toInt64).toInt = l.toInt - r.toInt := by
  have hl := natAbs_toInt_le l
  have hr := natAbs_toInt_le r
  rw [Int64.toInt_sub, Int32.toInt_toInt64, Int32.toInt_toInt64, bmod_eq_self (by omega)]

theorem toInt_mul (l r : Int32) : (l.toInt64 * r.toInt64).toInt = l.toInt * r.toInt := by
  have h := natAbs_mul_le l r
  rw [Int64.toInt_mul, Int32.toInt_toInt64, Int32.toInt_toInt64, bmod_eq_self (by omega)]

/-- Division drops the fraction. -/
theorem toInt_div (l r : Int32) : (l.toInt64 / r.toInt64).toInt = l.toInt.tdiv r.toInt := by
  have h := natAbs_tdiv_le l r
  rw [Int64.toInt_div, Int32.toInt_toInt64, Int32.toInt_toInt64, bmod_eq_self (by omega)]

end Word

/-- An integer as a constant, if it is in range. -/
def Value.ofInt? (n : Int) : Except FoldError Value :=
  if n < minInt ∨ maxInt < n then .error .overflow else .ok (.int (Int32.ofInt n))

/-- A prefix operator on a constant. -/
def UnaryOp.fold : UnaryOp → Value → Except FoldError Value
  | .neg, .int n => Value.ofInt? (-n.toInt64).toInt
  | .not, .bool b => .ok (.bool !b)
  | .other _, _ => .error .unknownOperator
  | _, _ => .error .notFoldable

/-- The opposite of an integer is computed exactly. -/
theorem UnaryOp.fold_neg (n : Int32) : neg.fold (.int n) = Value.ofInt? (-n.toInt) :=
  congrArg Value.ofInt? (Word.toInt_neg n)

/-- A prefix operator on an operand. -/
def UnaryOp.foldOperand (op : UnaryOp) : Operand → Except FoldError Value
  | .value v => op.fold v
  | _ =>
    match op with
    | .other _ => .error .unknownOperator
    | _ => .error .notFoldable

namespace BinaryOp

/-- An infix operator on integers. -/
def foldInt (op : BinaryOp) (l r : Int32) : Except FoldError Value :=
  match op with
  | add => Value.ofInt? (l.toInt64 + r.toInt64).toInt
  | sub => Value.ofInt? (l.toInt64 - r.toInt64).toInt
  | mul => Value.ofInt? (l.toInt64 * r.toInt64).toInt
  | div =>
    if r = 0 then .error .divisionByZero else Value.ofInt? (l.toInt64 / r.toInt64).toInt
  | eq => .ok (.bool (l == r))
  | ne => .ok (.bool (l != r))
  | and | or | other _ => .error .unknownOperator

/-! Integers are computed with exactly. -/

theorem foldInt_add (l r : Int32) : add.foldInt l r = Value.ofInt? (l.toInt + r.toInt) :=
  congrArg Value.ofInt? (Word.toInt_add l r)

theorem foldInt_sub (l r : Int32) : sub.foldInt l r = Value.ofInt? (l.toInt - r.toInt) :=
  congrArg Value.ofInt? (Word.toInt_sub l r)

theorem foldInt_mul (l r : Int32) : mul.foldInt l r = Value.ofInt? (l.toInt * r.toInt) :=
  congrArg Value.ofInt? (Word.toInt_mul l r)

theorem foldInt_div {l r : Int32} (hr : r ≠ 0) :
    div.foldInt l r = Value.ofInt? (l.toInt.tdiv r.toInt) :=
  (if_neg hr).trans (congrArg Value.ofInt? (Word.toInt_div l r))

theorem foldInt_div_zero (l : Int32) : div.foldInt l 0 = .error .divisionByZero := rfl

/-- An infix operator on truth values. -/
def foldBool (op : BinaryOp) (l r : Bool) : Except FoldError Value :=
  match op with
  | and => .ok (.bool (l && r))
  | or => .ok (.bool (l || r))
  | eq => .ok (.bool (l == r))
  | ne => .ok (.bool (l != r))
  | add | sub | mul | div | other _ => .error .unknownOperator

/-- An infix operator on texts. -/
def foldStr (op : BinaryOp) (l r : Text) : Except FoldError Value :=
  match op with
  | add => .ok (.str (l ++ r))
  | eq => .ok (.bool (l == r))
  | ne => .ok (.bool (l != r))
  | sub | mul | div | and | or | other _ => .error .unknownOperator

/-- An infix operator on constants: both must be of the same type. -/
def fold (op : BinaryOp) : Value → Value → Except FoldError Value
  | .int l, .int r => op.foldInt l r
  | .bool l, .bool r => op.foldBool l r
  | .str l, .str r => op.foldStr l r
  | _, _ => .error .notFoldable

/-- An infix operator on operands. -/
def foldOperands (op : BinaryOp) : Operand → Operand → Except FoldError Value
  | .value l, .value r => op.fold l r
  | _, _ => .error .notFoldable

end BinaryOp
end Slang
