import Slang.Text.Basic
/-!
# Double-precision numbers

A finite number of double precision is `m · 2^e` with `m` below `2^53`. Reading rounds a decimal
number to the nearest such number, a tie to the even one; writing takes the fewest digits that read
back as the same number.
-/

namespace Slang

/-- A number of double precision. -/
inductive Double where
  | finite (negative : Bool) (m : Nat) (e : Int)
  | infinite (negative : Bool)
  | notANumber
  deriving DecidableEq, Repr

namespace Double

/-- Division that rounds to the nearest integer, a tie to the even one. -/
def roundDiv (num den : Nat) : Nat :=
  let q := num / den
  let r := num % den
  if 2 * r < den then q
  else if den < 2 * r then q + 1
  else if q % 2 = 0 then q else q + 1

/-- Mantissas are below this: they have 53 bits. -/
def mantissaBound : Nat := 9007199254740992

/-- A power of two. -/
def twoTo (e : Int) : Nat := Nat.pow 2 e.natAbs

/-- A power of ten. -/
def tenTo (e : Int) : Nat := Nat.pow 10 e.natAbs

/-- `num / den` as a multiple of `2^e`: the numerator and the denominator of the factor. -/
def scaled (num den : Nat) (e : Int) : Nat × Nat :=
  if e < 0 then (num * twoTo e, den) else (num, den * twoTo e)

/-- The exponent at which a positive quotient has 53 bits, but not below the least exponent. -/
def exponentOf (num den : Nat) : Int :=
  let guess : Int := max (-1074) ((Nat.log2 num : Int) - (Nat.log2 den : Int) - 53)
  let (n, d) := scaled num den guess
  -- the logarithms are rounded down, so the guess may be one too low
  if n / d < mantissaBound then guess else guess + 1

/-- The number nearest to a positive quotient, unless it is too large. -/
def ofQuotient? (negative : Bool) (num den : Nat) : Option Double :=
  let e := exponentOf num den
  let (n, d) := scaled num den e
  let m := roundDiv n d
  -- rounding up may carry over into a bit more
  let (m, e) := if m = mantissaBound then (mantissaBound / 2, e + 1) else (m, e)
  if 971 < e then none else some (.finite negative m e)

/-- The number of digits of a positive number. -/
def digitCount (n : Nat) : Nat := (Text.ofNat n).length

/-- The number nearest to `digits · 10^exponent`, unless it is too large. -/
def ofDecimal? (negative : Bool) (digits : Nat) (exponent : Int) : Option Double :=
  if digits = 0 then some (.finite negative 0 0)
  -- far out of range on either side, so that no huge power of ten is computed
  else if 310 < exponent + digitCount digits then none
  else if exponent + digitCount digits < -400 then some (.finite negative 0 0)
  else if exponent < 0 then ofQuotient? negative digits (tenTo exponent)
  else ofQuotient? negative (digits * tenTo exponent) 1

/-- The magnitude of a finite number as a quotient. -/
def quotient (m : Nat) (e : Int) : Nat × Nat :=
  if e < 0 then (m, twoTo e) else (m * twoTo e, 1)

/-- The power of ten of the first digit of a positive quotient. -/
def leadingPower (num den : Nat) : Int :=
  if den ≤ num then (digitCount (num / den) : Int) - 1 else -(digitCount ((den - 1) / num) : Int)

/-- The two multiples of a power of ten around a quotient, the nearer one first; of two equally near
ones, the even one. -/
def onGrid (num den : Nat) (power : Int) : Nat × Nat :=
  let (n, d) := if power < 0 then (num * tenTo power, den) else (num, den * tenTo power)
  let low := n / d
  if roundDiv n d = low then (low, low + 1) else (low + 1, low)

/-- The fewest digits that read back as a positive number, with their power of ten. -/
def shortestFrom (m : Nat) (e : Int) : Nat → Nat × Int
  -- seventeen digits always read back
  | 0 =>
    let (num, den) := quotient m e
    let power := leadingPower num den - 16
    ((onGrid num den power).1, power)
  | more + 1 =>
    let (num, den) := quotient m e
    let power := leadingPower num den - (16 - (more + 1))
    let (first, second) := onGrid num den power
    let reads (digits : Nat) : Bool := ofDecimal? false digits power == ofQuotient? false num den
    if reads first then (first, power)
    else if reads second then (second, power)
    else shortestFrom m e more

/-- Digits with a power of ten, without an exponent. -/
def positional (digits : Nat) (power : Int) : Text :=
  let ds := Text.ofNat digits
  if 0 ≤ power then ds ++ Text.fill power.natAbs 48
  else
    let places := power.natAbs
    -- at least one digit stands before the point
    let ds := Text.fill (places + 1 - ds.length) 48 ++ ds
    let whole := ds.take (ds.length - places)
    let fraction := ((ds.drop (ds.length - places)).reverse.dropWhile (· == 48)).reverse
    if fraction.isEmpty then whole else whole ++ "." ++ fraction

/-- A number in the fewest digits that read back, without an exponent. -/
def written : Double → Text
  | .notANumber => "NaN"
  | .infinite negative => if negative then "-Inf" else "+Inf"
  | .finite negative m e =>
    let digits : Text :=
      if m = 0 then "0"
      else
        let (ds, power) := shortestFrom m e 16
        positional ds power
    if negative then "-" ++ digits else digits

/-- The least integer of 64 bits. -/
def minInt64 : Int := -9223372036854775808

/-- A number without its fraction; the least integer of 64 bits where that is out of range. -/
def truncate : Double → Int
  | .finite negative m e =>
    let (num, den) := quotient m e
    let n : Int := if negative then -(num / den : Nat) else (num / den : Nat)
    if n < minInt64 ∨ -minInt64 ≤ n then minInt64 else n
  | _ => minInt64

/-- Whether a number is zero. -/
def isZero : Double → Bool
  | .finite _ m _ => m == 0
  | _ => false

end Double
end Slang
