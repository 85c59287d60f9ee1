import Slang.Text.Utf8
/-!
# Texts in UTF-16

Some files hold their characters as **units** of two bytes. A character beyond the basic plane is a
pair of units, a high one and a low one, which stand for nothing alone.
-/

namespace Slang.Text

/-- Which byte of a unit comes first. -/
inductive UnitOrder where
  | littleEnd
  | bigEnd
  deriving DecidableEq, Repr

/-- The number of a unit, given its bytes in order. -/
def UnitOrder.unit (o : UnitOrder) (first second : UInt8) : Nat :=
  match o with
  | littleEnd => first.toNat + 256 * second.toNat
  | bigEnd => 256 * first.toNat + second.toNat

/-- The units of a text, unless a byte is left over. -/
def units? (o : UnitOrder) : Text → Option (List Nat)
  | [] => some []
  | [_] => none
  | a :: b :: rest => (units? o rest).map (o.unit a b :: ·)

/-- Units that come first in a pair. -/
def isHighUnit (u : Nat) : Bool := 0xD800 ≤ u && u < 0xDC00

/-- Units that come second in a pair. -/
def isLowUnit (u : Nat) : Bool := 0xDC00 ≤ u && u < 0xE000

/-- The characters of units, unless half of a pair stands alone. -/
def charsOfUnits? : List Nat → Option (List Char)
  | [] => some []
  | [u] => if isHighUnit u || isLowUnit u then none else some [Char.ofNat u]
  | u :: v :: rest =>
    if isLowUnit u then none
    else if isHighUnit u then
      if isLowUnit v then
        (charsOfUnits? rest).map (Char.ofNat (0x10000 + 0x400 * (u - 0xD800) + (v - 0xDC00)) :: ·)
      else none
    else (charsOfUnits? (v :: rest)).map (Char.ofNat u :: ·)

/-- The characters of a text in UTF-16, unless it is none. -/
def utf16? (o : UnitOrder) (t : Text) : Option (List Char) := (units? o t).bind charsOfUnits?

end Slang.Text
