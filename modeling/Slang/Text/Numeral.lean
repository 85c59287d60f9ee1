import Slang.Text.Quoted
/-!
# Integer numerals

Numerals of 64-bit integers as settings, flags and data files write them: an optional sign, an
optional mark of the base (`0x`, `0o`, `0b`, or a leading zero for base eight), and digits, which
underscores may separate.
-/

namespace Slang.Text.Numeral

/-- Why a text is no numeral. -/
inductive Error where
  | malformed
  | outOfRange
  deriving DecidableEq, Repr

/-- How an error is worded. -/
def Error.message : Error → Text
  | malformed => "invalid syntax"
  | outOfRange => "value out of range"

/-- How many numbers 64 bits can tell apart. -/
def wordCount : Nat := 18446744073709551616

/-- An integer of 64 bits is below this, and its opposite is not above it. -/
def signedBound : Nat := 9223372036854775808

/-- The value of a digit, in any base up to 36. -/
def digit? (b : UInt8) : Option Nat :=
  let l := lowerByte b
  if isDigit b then some (b.toNat - 48)
  else if 97 ≤ l && l ≤ 122 then some (l.toNat - 87)
  else none

/-- Digits in a base after a value that was read so far. A value past 64 bits is out of range, even if
what follows is no digit. Underscores are passed over where they are allowed. -/
def digits (base : Nat) (underscores : Bool) : Nat → Text → Except Error Nat
  | n, [] => .ok n
  | n, b :: rest =>
    if underscores && b = 95 then digits base underscores n rest
    else
      match digit? b with
      | none => .error .malformed
      | some d =>
        if base ≤ d then .error .malformed
        else if wordCount ≤ n * base + d then .error .outOfRange
        else digits base underscores (n * base + d) rest

/-- The base that a numeral without a sign has by its mark, and what follows the mark. -/
def baseMark (t : Text) : Nat × Text :=
  match t with
  | 48 :: m :: c :: rest =>
    let l := lowerByte m
    -- only with something after it is this a mark
    if l = 98 then (2, c :: rest)
    else if l = 111 then (8, c :: rest)
    else if l = 120 then (16, c :: rest)
    else (8, m :: c :: rest)
  | 48 :: rest => (8, rest)
  | _ => (10, t)

/-- Whether every underscore stands between digits, the mark of the base counting as one. -/
def separated (hex afterDigit : Bool) : Text → Bool
  | [] => true
  | [b] => b != 95
  | b :: c :: rest =>
    if b = 95 then
      afterDigit && (isDigit c || (hex && (digit? c).any (· < 16))) && separated hex false (c :: rest)
    else separated hex (isDigit b || (hex && (digit? b).any (· < 16))) (c :: rest)

/-- Whether the underscores of a numeral without a sign are where they may be. -/
def underscoresOk (t : Text) : Bool :=
  match t with
  | 48 :: m :: rest =>
    let l := lowerByte m
    if l = 98 || l = 111 || l = 120 then separated (l == 120) true rest else separated false false t
  | _ => separated false false t

/-- The sign of a numeral, and what follows it. -/
def sign : Text → Bool × Text
  | 43 :: rest => (false, rest)
  | 45 :: rest => (true, rest)
  | t => (false, t)

/-- An integer of 64 bits from its sign and its magnitude. -/
def signed (negative : Bool) (n : Nat) : Except Error Int :=
  if negative then
    -- there is one more integer below zero than above
    if signedBound < n then .error .outOfRange else .ok (-n)
  else if signedBound ≤ n then .error .outOfRange
  else .ok n

/-- The magnitude of a numeral whose base is given by its mark. -/
def magnitude (t : Text) : Except Error Nat :=
  if t.isEmpty then .error .malformed
  else
    let (base, ds) := baseMark t
    (digits base true 0 ds).bind fun n => if underscoresOk t then .ok n else .error .malformed

/-- An integer whose base is given by its mark. -/
def int64 (t : Text) : Except Error Int :=
  let (negative, rest) := sign t
  (magnitude rest).bind (signed negative)

/-- An integer in a given base. -/
def int64In (base : Nat) (t : Text) : Except Error Int :=
  let (negative, rest) := sign t
  if rest.isEmpty then .error .malformed
  else (digits base false 0 rest).bind (signed negative)

/-- What is said about a text that a reader of numerals or truth values refuses. -/
def refusal (reader t why : Text) : Text :=
  "strconv." ++ reader ++ ": parsing " ++ t.quoted ++ ": " ++ why

end Slang.Text.Numeral
