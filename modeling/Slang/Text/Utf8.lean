import Slang.Text.Basic
/-!
# Characters of a text

A text need not be valid UTF-8. Reading it gives a list of **runes**: the characters it encodes,
and the stray bytes that belong to no character, one by one. Writing the runes back gives the bytes
that were read.
-/

namespace Slang

/-- What stands in a text: an encoded character, or a byte that is part of none. -/
inductive Rune where
  | char (c : Char)
  | stray (b : UInt8)
  deriving DecidableEq, Repr

namespace Rune

/-- The bytes that a rune stands for. -/
def bytes : Rune → Text
  | char c => String.utf8EncodeChar c
  | stray b => [b]

/-- A continuation byte carries six bits below the mark `10`. -/
def isTail (b : UInt8) : Bool := 0x80 ≤ b && b ≤ 0xBF

/-- How many continuation bytes a leading byte asks for, and the bounds of the first of them. The
bounds leave out overlong forms, surrogates and numbers past the last code point. -/
def leading (b : UInt8) : Option (Nat × UInt8 × UInt8) :=
  if 0xC2 ≤ b && b ≤ 0xDF then some (1, 0x80, 0xBF)
  else if b = 0xE0 then some (2, 0xA0, 0xBF)
  else if b = 0xED then some (2, 0x80, 0x9F)
  else if 0xE1 ≤ b && b ≤ 0xEF then some (2, 0x80, 0xBF)
  else if b = 0xF0 then some (3, 0x90, 0xBF)
  else if 0xF1 ≤ b && b ≤ 0xF3 then some (3, 0x80, 0xBF)
  else if b = 0xF4 then some (3, 0x80, 0x8F)
  else none

/-- The six payload bits of each continuation byte, appended to what the leading byte gave. -/
def codePoint (lead : Nat) (tail : Text) : Nat :=
  tail.foldl (fun n b => 64 * n + (b.toNat - 0x80)) lead

/-- The payload bits of a leading byte that asks for `n` continuation bytes. -/
def leadBits (n : Nat) (b : UInt8) : Nat := b.toNat % Nat.pow 2 (6 - n)

/-- The rune at the start of a text `b :: rest`, and how many bytes of `rest` belong to it. -/
def first (b : UInt8) (rest : Text) : Rune × Nat :=
  if b < 0x80 then (.char (Char.ofNat b.toNat), 0)
  else
    match leading b with
    | none => (.stray b, 0)
    | some (n, low, high) =>
      match rest with
      | [] => (.stray b, 0)
      | second :: _ =>
        let tail := rest.take n
        -- otherwise only the leading byte is stray, and the bytes after it are read again
        if tail.length = n && low ≤ second && second ≤ high && tail.all isTail then
          (.char (Char.ofNat (codePoint (leadBits n b) tail)), n)
        else (.stray b, 0)

end Rune

namespace Text

/-- The runes of a text, from left to right. -/
def runes : Text → List Rune
  | [] => []
  | b :: rest => (Rune.first b rest).1 :: runes (rest.drop (Rune.first b rest).2)
termination_by t => t.length
decreasing_by simp only [List.length_drop, List.length_cons]; omega

/-- The bytes of a list of runes. -/
def ofRunes (rs : List Rune) : Text := rs.flatMap Rune.bytes

/-- The bytes of a character. -/
def ofChar (c : Char) : Text := String.utf8EncodeChar c

/-- The character that stands for text which cannot be read. -/
def replacement : Char := Char.ofNat 0xFFFD

/-- Whether every byte of a text belongs to a character. -/
def isUtf8 (t : Text) : Bool :=
  (runes t).all fun
    | .char _ => true
    | .stray _ => false

/-- The characters of a text, unless a byte belongs to none. -/
def utf8? (t : Text) : Option (List Char) :=
  t.runes.mapM fun
    | .char c => some c
    | .stray _ => none

end Text
end Slang
