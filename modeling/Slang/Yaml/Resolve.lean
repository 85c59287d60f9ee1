import Slang.Double
import Slang.Text.Numeral
/-!
# What a plain scalar means

A scalar of a YAML document that is written without quotes may mean nothing, a truth value, a number
or a date; all else is a text. A text that would mean something else is written in quotes.
-/

namespace Slang.Yaml

/-- What a scalar means. -/
inductive Datum where
  | null
  | bool (b : Bool)
  | int (n : Int)
  | float (d : Double)
  | time
  | str (t : Text)
  deriving DecidableEq, Repr

/-- Words with a meaning. -/
def word? (t : Text) : Option Datum :=
  if t = "true" || t = "True" || t = "TRUE" then some (.bool true)
  else if t = "false" || t = "False" || t = "FALSE" then some (.bool false)
  else if t = [] || t = "~" || t = "null" || t = "Null" || t = "NULL" then some .null
  else if t = ".nan" || t = ".NaN" || t = ".NAN" then some (.float .notANumber)
  else if t = ".inf" || t = ".Inf" || t = ".INF" || t = "+.inf" || t = "+.Inf" || t = "+.INF" then
    some (.float (.infinite false))
  else if t = "-.inf" || t = "-.Inf" || t = "-.INF" then some (.float (.infinite true))
  else none

/-! ### Numbers -/

/-- The exponent of a decimal fraction: nothing, or a letter, an optional sign and digits. -/
def exponent? : Text → Option Int
  | [] => some 0
  | b :: rest =>
    if Text.lowerByte b = 101 then
      let (negative, ds) := Text.Numeral.sign rest
      ds.toNat?.map fun n => if negative then -(n : Int) else n
    else none

/-- A decimal fraction: digits with an optional point among or around them, and an exponent. -/
def float? (t : Text) : Option Double :=
  let (negative, rest) := Text.Numeral.sign t
  let (whole, rest) := Text.spans Text.isDigit rest
  let (fraction, rest) :=
    match rest with
    | 46 :: after => Text.spans Text.isDigit after
    | _ => ([], rest)
  match Text.toNat? (whole ++ fraction), exponent? rest with
  | some ds, some e => Double.ofDecimal? negative ds (e - fraction.length)
  | _, _ => none

/-- An integer without a sign, of at most 64 bits. -/
def natural? (t : Text) : Option Int :=
  match Text.Numeral.magnitude t with
  | .ok n => some n
  | .error _ => none

/-- An integer that is marked as binary or octal. -/
def marked? (t : Text) : Option Int :=
  let inBase (base : Nat) (digits : Text) : Option Int :=
    match Text.Numeral.int64In base digits with
    | .ok n => some n
    | .error _ => none
  match t with
  | 48 :: 98 :: ds => inBase 2 ds
  | 45 :: 48 :: 98 :: ds => inBase 2 (45 :: ds)
  | 48 :: 111 :: ds => inBase 8 ds
  | 45 :: 48 :: 111 :: ds => inBase 8 (45 :: ds)
  | _ => none

/-- A number. Underscores may stand anywhere in it. -/
def number? (t : Text) : Option Datum :=
  let plain := t.filter (· != 95)
  match Text.Numeral.int64 plain with
  | .ok n => some (.int n)
  | .error _ =>
    match natural? plain, float? plain, marked? plain with
    | some n, _, _ => some (.int n)
    | none, some d, _ => some (.float d)
    | none, none, some n => some (.int n)
    | none, none, none => none

/-! ### Dates -/

/-- One or two digits at the start of a text. -/
def shortNumber? : Text → Option (Nat × Text)
  | a :: b :: rest =>
    if Text.isDigit a then
      if Text.isDigit b then some (10 * (a.toNat - 48) + (b.toNat - 48), rest)
      else some (a.toNat - 48, b :: rest)
    else none
  | [a] => if Text.isDigit a then some (a.toNat - 48, []) else none
  | [] => none

/-- Whether a year has a leap day. -/
def isLeap (year : Nat) : Bool := year % 4 = 0 && (year % 100 != 0 || year % 400 = 0)

/-- How many days a month has. -/
def daysIn (year month : Nat) : Nat :=
  if month = 2 then (if isLeap year then 29 else 28)
  else if month = 4 || month = 6 || month = 9 || month = 11 then 30
  else 31

/-- A date at the start of a text; the result is what follows it. -/
def date? (t : Text) : Option Text :=
  let (year, rest) := Text.spans Text.isDigit t
  match year.length, rest with
  | 4, 45 :: rest =>
    match shortNumber? rest with
    | some (month, 45 :: rest) =>
      match shortNumber? rest with
      | some (day, rest) =>
        if 1 ≤ month && month ≤ 12 && 1 ≤ day && day ≤ daysIn ((Text.toNat? year).getD 0) month then
          some rest
        else none
      | none => none
    | _ => none
  | _, _ => none

/-- A time of day at the start of a text; the result is what follows it. -/
def clock? (t : Text) : Option Text :=
  match shortNumber? t with
  | some (hour, 58 :: rest) =>
    match shortNumber? rest with
    | some (minute, 58 :: rest) =>
      match shortNumber? rest with
      | some (second, rest) =>
        if hour < 24 && minute < 60 && second < 60 then
          match rest with
          | point :: d :: more =>
            if (point = 46 || point = 44) && Text.isDigit d then some (more.dropWhile Text.isDigit)
            else some rest
          | _ => some rest
        else none
      | none => none
    | _ => none
  | _ => none

/-- Whether a text is the offset of a time zone. -/
def isZone : Text → Bool
  | [90] => true
  | [s, a, b, 58, c, d] =>
    (s = 43 || s = 45) && [a, b, c, d].all Text.isDigit
      && (Text.toNat? [a, b]).any (· ≤ 24) && (Text.toNat? [c, d]).any (· ≤ 60)
  | _ => false

/-- Whether a text is a date, alone or with a time of day: after the letter `T` with a time zone,
after blanks without one. -/
def isTime (t : Text) : Bool :=
  match date? t with
  | none => false
  | some [] => true
  | some (b :: rest) =>
    if b = 84 || b = 116 then (clock? rest).any isZone
    else b = 32 && (clock? (rest.dropWhile (· = 32))).any List.isEmpty

/-! ### Scalars -/

/-- What a scalar without quotes means. Only its first byte decides what is tried. -/
def resolve (t : Text) : Datum :=
  match t with
  | [] => .null
  | b :: _ =>
    if Text.isDigit b || b = 43 || b = 45 then
      ((word? t).orElse fun _ => if isTime t then some .time else number? t).getD (.str t)
    else if b = 46 then
      -- underscores may separate digits and stand nowhere else
      let plain := if Text.Numeral.separated false false t then t.filter (· != 95) else t
      ((word? t).orElse fun _ => (float? plain).map .float).getD (.str t)
    else if Text.ofString "yYnNtTfFoO~" |>.contains b then (word? t).getD (.str t)
    else .str t

/-- Whether a scalar is a text also without quotes. -/
def isText (t : Text) : Bool :=
  match resolve t with
  | .str _ => true
  | _ => false

/-- Words that older documents read as truth values. -/
def isOldBool (t : Text) : Bool :=
  ["y", "Y", "yes", "Yes", "YES", "on", "On", "ON", "n", "N", "no", "No", "NO", "off", "Off",
    "OFF"].any fun w => t == Text.ofString w

/-- Parts of a number in base sixty after its first: a colon and one or two digits each, and at the
end a point with digits. -/
def isSexagesimalTail : Bool → Text → Bool
  | some', [] => some'
  | _, 58 :: a :: b :: rest =>
    if Text.isDigit a && Text.isDigit b && a ≤ 53 then isSexagesimalTail true rest
    else Text.isDigit a && isSexagesimalTail true (b :: rest)
  | _, [58, a] => Text.isDigit a
  | some', 46 :: rest => some' && rest.all fun b => Text.isDigit b || b = 95
  | _, _ => false

/-- Numbers in base sixty, which older documents read as such. -/
def isSexagesimal (t : Text) : Bool :=
  let (_, rest) := Text.Numeral.sign t
  match rest with
  | d :: more =>
    Text.isDigit d && isSexagesimalTail false (more.dropWhile fun b => Text.isDigit b || b = 95)
  | [] => false

end Slang.Yaml
