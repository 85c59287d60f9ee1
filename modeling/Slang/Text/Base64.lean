import Slang.Text.Basic
/-!
# Base 64

Bytes as printable text: three bytes become four digits of six bits each, and the last group is
filled up with `=`.
-/

namespace Slang.Text.Base64

/-- The digits, in the order of their values. -/
def alphabet : Text := "ABCDEFGHIJKLMNOPQRSTUVWXYZabcdefghijklmnopqrstuvwxyz0123456789+/"

/-- The digit of a number below 64. -/
def digit (n : Nat) : UInt8 := alphabet.getD (n % 64) 61

/-- The digits of a group of three bytes, given as one number of 24 bits, from the first to the
last. -/
def group (n : Nat) : Text := [digit (n / 262144), digit (n / 4096), digit (n / 64), digit n]

/-- Bytes in base 64. -/
def encode : Text → Text
  | [] => []
  | [a] => (group (a.toNat * 65536)).take 2 ++ "=="
  | [a, b] => (group (a.toNat * 65536 + b.toNat * 256)).take 3 ++ "="
  | a :: b :: c :: rest => group (a.toNat * 65536 + b.toNat * 256 + c.toNat) ++ encode rest

/-- The value of a digit. -/
def value? (b : UInt8) : Option Nat := alphabet.idxOf? b

/-- The bytes of a group of four digits, of which the last one or two may be missing. -/
def groupBytes? (digits : Text) : Option Text :=
  (digits.mapM value?).bind fun ds =>
    let byte (n : Nat) : UInt8 := (n % 256).toUInt8
    match ds with
    | [a, b] => some [byte (a * 4 + b / 16)]
    | [a, b, c] => some [byte (a * 4 + b / 16), byte (b * 16 + c / 4)]
    | [a, b, c, d] => some [byte (a * 4 + b / 16), byte (b * 16 + c / 4), byte (c * 64 + d)]
    | _ => none

/-- The bytes of groups of digits without line breaks. -/
def groups? : Text → Option Text
  | [] => some []
  | [a, b, 61, 61] => groupBytes? [a, b]
  | [a, b, c, 61] => groupBytes? [a, b, c]
  | a :: b :: c :: d :: rest => do return (← groupBytes? [a, b, c, d]) ++ (← groups? rest)
  | _ => none

/-- The bytes of a text in base 64. Line breaks are passed over. -/
def decode? (t : Text) : Option Text := groups? (t.filter fun b => b != 10 && b != 13)

end Slang.Text.Base64
