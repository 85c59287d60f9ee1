import Slang.Text.Utf8
import Slang.Text.Printable
/-!
# Quoted text

A text in double quotes, on one line and printable throughout: a quote or a backslash gets a
backslash in front, the control characters with a short name take it, and all else that is not
printable is written by its number. A byte that belongs to no character is written by its own
number, so two different texts have different quoted forms.
-/

namespace Slang

/-- The letter that names a control character in an escape. -/
def Rune.shortEscape? (c : Char) : Option Text :=
  match c.toNat with
  | 7 => some "\\a"
  | 8 => some "\\b"
  | 9 => some "\\t"
  | 10 => some "\\n"
  | 11 => some "\\v"
  | 12 => some "\\f"
  | 13 => some "\\r"
  | _ => none

/-- How a rune is written between quotes: two hexadecimal digits for a byte or a control character
of ASCII, four for a code point of the basic plane and eight beyond it. -/
def Rune.quoted : Rune → Text
  | .stray b => "\\x" ++ Text.hex 2 b.toNat
  | .char c =>
    if c = '"' then "\\\""
    else if c = '\\' then "\\\\"
    else if Text.isPrintable c then Text.ofChar c
    else
      match shortEscape? c with
      | some e => e
      | none =>
        if c.toNat < 0x20 || c.toNat = 0x7F then "\\x" ++ Text.hex 2 c.toNat
        else if c.toNat < 0x10000 then "\\u" ++ Text.hex 4 c.toNat
        else "\\U" ++ Text.hex 8 c.toNat

/-- A text in double quotes, with escapes for all that is not printable. -/
def Text.quoted (t : Text) : Text := "\"" ++ t.runes.flatMap Rune.quoted ++ "\""

end Slang
