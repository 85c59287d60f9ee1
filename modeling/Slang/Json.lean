import Slang.Scalar
import Slang.Text.Utf8
/-!
# JSON text

Scalars and records as JSON. A style says which characters a string escapes beyond those that have
to be: a report is safe to put into a web page, a log line is not.
-/

namespace Slang.Json

/-- What a string escapes. -/
structure Style where
  /-- Escape `<`, `>` and `&`. -/
  markup : Bool
  /-- Write backspace and form feed by their short names. -/
  shortNames : Bool

/-- Reports are safe inside markup. -/
def Style.report : Style := ⟨true, true⟩

/-- Log lines escape only what they must. -/
def Style.log : Style := ⟨false, false⟩

/-- How a rune is written inside a string. A byte that belongs to no character is written as the
character for unreadable text. -/
def rune (style : Style) : Rune → Text
  | .stray _ => "\\ufffd"
  | .char c =>
    if c = '"' then "\\\""
    else if c = '\\' then "\\\\"
    else if c = '\n' then "\\n"
    else if c = '\r' then "\\r"
    else if c = '\t' then "\\t"
    else if style.shortNames && c.toNat = 8 then "\\b"
    else if style.shortNames && c.toNat = 12 then "\\f"
    else if c.toNat < 0x20 || (style.markup && (c = '<' || c = '>' || c = '&'))
        || c.toNat = 0x2028 || c.toNat = 0x2029 then
      "\\u" ++ Text.hex 4 c.toNat
    else Text.ofChar c

/-- A string. -/
def string (style : Style) (t : Text) : Text := "\"" ++ t.runes.flatMap (rune style) ++ "\""

/-- A scalar. -/
def scalar (style : Style) : Scalar → Text
  | .text t => string style t
  | .int n => Text.ofInt n
  | .bool b => Scalar.writtenBool b

/-- A record on one line. -/
def object (style : Style) (r : Record) : Text :=
  "\x7b" ++ Text.joinWith "," (r.map fun (k, v) => string style k ++ ":" ++ scalar style v)
    ++ "\x7d"

/-- A record inside a list, one field to a line. -/
def objectLines (style : Style) (r : Record) : Text :=
  "  \x7b\n"
    ++ Text.joinWith ",\n" (r.map fun (k, v) => "    " ++ string style k ++ ": " ++ scalar style v)
    ++ "\n  \x7d"

/-- A list of records, one field to a line. -/
def arrayLines (style : Style) : List Record → Text
  | [] => "[]"
  | rs => "[\n" ++ Text.joinWith ",\n" (rs.map (objectLines style)) ++ "\n]"

end Slang.Json
