/-!
# Texts

A **text** is a list of bytes. Source files, names, literals, messages and rendered output are all
texts: nothing requires them to be valid UTF-8, and nothing here loses a byte. A Lean string stands
for its UTF-8 bytes wherever a text is expected.

* `Text.ofNat` and `Text.ofInt` write decimal numerals;
* `Text.joinWith` puts a separator between texts, and `Text.split` cuts a text at a byte;
* `Text.spans` cuts a text after the longest run of bytes with a property.
-/

namespace Slang

/-- A text is its bytes, in order. -/
abbrev Text := List UInt8

namespace Text

/-- The UTF-8 bytes of a string. -/
def ofString (s : String) : Text := s.toUTF8.data.toList

instance : Coe String Text := ⟨ofString⟩

/-- The byte that ends a line. -/
def lineFeed : UInt8 := 10

/-! ### Numerals -/

/-- The byte of a decimal digit. -/
def digit (n : Nat) : UInt8 := (48 + n % 10).toUInt8

/-- The decimal numeral of a natural number, without leading zeros. -/
def ofNat (n : Nat) : Text :=
  if n < 10 then [digit n] else ofNat (n / 10) ++ [digit n]
termination_by n
decreasing_by omega

/-- The decimal numeral of an integer: a minus sign for a negative one, and no plus sign. -/
def ofInt (n : Int) : Text :=
  if n < 0 then "-" ++ ofNat n.natAbs else ofNat n.natAbs

/-- The hexadecimal digit of a number below 16, in lower case. -/
def hexDigit (n : Nat) : UInt8 :=
  if n % 16 < 10 then (48 + n % 16).toUInt8 else (87 + n % 16).toUInt8

/-- The last `width` hexadecimal digits of a number, in lower case, padded with zeros. -/
def hex : (width : Nat) → Nat → Text
  | 0, _ => []
  | width + 1, n => hex width (n / 16) ++ [hexDigit n]

/-! ### Classes of bytes -/

/-- An ASCII decimal digit. -/
def isDigit (b : UInt8) : Bool := 48 ≤ b && b ≤ 57

/-- An ASCII letter. -/
def isLetter (b : UInt8) : Bool := (97 ≤ b && b ≤ 122) || (65 ≤ b && b ≤ 90)

/-- The lower-case form of an ASCII capital letter; every other byte stays. -/
def lowerByte (b : UInt8) : UInt8 := if 65 ≤ b && b ≤ 90 then b + 32 else b

/-- The upper-case form of an ASCII small letter; every other byte stays. -/
def upperByte (b : UInt8) : UInt8 := if 97 ≤ b && b ≤ 122 then b - 32 else b

/-- The value of a decimal numeral, or nothing if a byte is not a digit or there is none. -/
def toNat? (t : Text) : Option Nat :=
  if t.isEmpty || !t.all isDigit then none
  else some (t.foldl (fun n b => 10 * n + (b.toNat - 48)) 0)

/-- The value of a decimal numeral with or without a minus sign. -/
def toInt? : Text → Option Int
  | 45 :: digits => (toNat? digits).map fun n => -n
  | digits => (toNat? digits).map fun n => n

/-! ### Cutting and joining -/

/-- The texts one after the other, with `sep` between neighbours. -/
def joinWith (sep : Text) : List Text → Text
  | [] => []
  | [t] => t
  | t :: ts => t ++ sep ++ joinWith sep ts

/-- The pieces between the occurrences of `sep`: one more piece than there are occurrences. -/
def split (sep : UInt8) : Text → List Text
  | [] => [[]]
  | b :: rest =>
    if b = sep then [] :: split sep rest
    else
      match split sep rest with
      | [] => [[b]]
      | piece :: pieces => (b :: piece) :: pieces

/-- The longest run of leading bytes that satisfy `p`, and what follows it. -/
def spans (p : UInt8 → Bool) (t : Text) : Text × Text := (t.takeWhile p, t.dropWhile p)

/-- Cut at the first occurrence of a byte, which belongs to neither part. -/
def cut? (sep : UInt8) (t : Text) : Option (Text × Text) :=
  match t.dropWhile (· != sep) with
  | [] => none
  | _ :: after => some (t.takeWhile (· != sep), after)

/-- Cut at the last occurrence of a byte, which belongs to neither part. -/
def cutLast? (sep : UInt8) (t : Text) : Option (Text × Text) :=
  (cut? sep t.reverse).map fun (after, before) => (before.reverse, after.reverse)

/-- The text without the given beginning, if it begins so. -/
def dropStart? : (start : Text) → Text → Option Text
  | [], t => some t
  | _ :: _, [] => none
  | a :: start, b :: t => if a = b then dropStart? start t else none

/-- Whether a text begins with another. -/
def startsWith (t start : Text) : Bool := (dropStart? start t).isSome

/-- Whether a text occurs somewhere in another. -/
def occursIn (part : Text) : Text → Bool
  | [] => part.isEmpty
  | b :: t => startsWith (b :: t) part || occursIn part t

/-- The text without the leading and trailing bytes that satisfy `p`. -/
def trim (p : UInt8 → Bool) (t : Text) : Text :=
  ((t.dropWhile p).reverse.dropWhile p).reverse

/-- `n` copies of a byte. -/
def fill (n : Nat) (b : UInt8) : Text := List.replicate n b

/-- `n` copies of a text, one after the other. -/
def times (n : Nat) (t : Text) : Text := (List.replicate n t).flatten

@[simp] theorem spans_fst_append_snd (p : UInt8 → Bool) (t : Text) :
    (spans p t).1 ++ (spans p t).2 = t := List.takeWhile_append_dropWhile

@[simp] theorem split_ne_nil (sep : UInt8) (t : Text) : split sep t ≠ [] := by
  cases t with
  | nil => simp [split]
  | cons b rest =>
    simp only [split]
    split
    · simp
    · split <;> simp

/-- Joining the pieces with the separator gives the text back. -/
theorem joinWith_split (sep : UInt8) (t : Text) : joinWith [sep] (split sep t) = t := by
  induction t with
  | nil => rfl
  | cons b rest ih =>
    simp only [split]
    split
    · next h =>
      cases hs : split sep rest with
      | nil => exact absurd hs (split_ne_nil sep rest)
      | cons piece pieces => rw [hs] at ih; simp [joinWith, ih, h]
    · cases hs : split sep rest with
      | nil => exact absurd hs (split_ne_nil sep rest)
      | cons piece pieces =>
        rw [hs] at ih
        cases pieces with
        | nil => simpa [joinWith] using ih
        | cons p ps => simpa [joinWith] using ih

end Text
end Slang
