import Slang.Json
import Slang.Text.Numeral
/-!
# Log records

A **record** has a level, a message and attributes. A logger writes the records of at least its own
level, one to a line, as text or as JSON. Where there is no logger, records are dropped.
-/

namespace Slang.Log

/-- The importance of a record: the named levels are four apart. -/
abbrev Level := Int

namespace Level

/-- The least important named level. -/
def debug : Level := -4

/-- For what a user may want to know. -/
def info : Level := 0

/-- For what may be wrong. -/
def warn : Level := 4

/-- For what is wrong. -/
def error : Level := 8

/-- A level above or below a named one. -/
def offset (name : Text) (distance : Int) : Text :=
  if distance = 0 then name
  else if 0 < distance then name ++ "+" ++ Text.ofInt distance
  else name ++ Text.ofInt distance

/-- A level by the named level at or below it, and how far it is above that. -/
def name (l : Level) : Text :=
  if l < info then offset "DEBUG" (l - debug)
  else if l < warn then offset "INFO" (l - info)
  else if l < error then offset "WARN" (l - warn)
  else offset "ERROR" (l - error)

/-- The upper-case form of a letter that stands in the name of a level, wherever that is one. -/
def upperRune (r : Rune) : Rune :=
  match r with
  | .char c => if c.toNat = 0x131 then .char 'I' else .char c.toUpper
  | r => r

/-- The named level that a text names, in upper or lower case. -/
def ofPlainName? (t : Text) : Option Level :=
  let upper := Text.ofRunes (t.runes.map upperRune)
  if upper = "DEBUG" then some debug
  else if upper = "INFO" then some info
  else if upper = "WARN" then some warn
  else if upper = "ERROR" then some error
  else none

/-- The level with a name: that of a named level, and after it perhaps a sign and how far the level is
above or below that one. Levels are counted modulo `2^64`. -/
def ofName? (t : Text) : Option Level :=
  let isSign (b : UInt8) : Bool := b = 43 || b = 45
  let (plain, distance) := Text.spans (!isSign ·) t
  match ofPlainName? plain, distance, Text.Numeral.int64In 10 distance with
  | some l, [], _ => some l
  | some l, _, .ok d => some ((l + d).bmod Text.Numeral.wordCount)
  | _, _, _ => none

end Level

/-- Something that is logged. -/
structure Entry where
  level : Level
  message : Text
  attrs : Record
  deriving DecidableEq, Repr

/-- How entries are written. -/
inductive Format where
  | text
  | json
  deriving DecidableEq, Repr

/-- All formats, the usual one first. -/
def Format.all : List Format := [text, json]

/-- The name of a format. -/
def Format.name : Format → Text
  | text => "text"
  | json => "json"

/-- The format with a name; no name stands for text. -/
def Format.ofName? (name : Text) : Option Format :=
  if name.isEmpty then some .text else Format.all.find? fun f => f.name == name

/-- What is said about a format that does not exist. -/
def Format.unknown (name : Text) : Text := "unknown log format " ++ name.quoted

/-- Where entries go: those of at least a level are written in a format. -/
structure Logger where
  level : Level
  format : Format
  deriving DecidableEq, Repr

/-- Whether a rune keeps a text from being written without quotes: blanks, the equality sign, quotes,
control characters, and what is not printable. -/
def needsQuotes : Rune → Bool
  | .stray _ => true
  | .char c =>
    if c.toNat < 0x80 then c.toNat < 0x20 || c = ' ' || c = '=' || c = '"'
    else c == Text.replacement || !Text.isPrintable c

/-- A text, in quotes where it needs them. -/
def word (t : Text) : Text := if t.isEmpty || t.runes.any needsQuotes then t.quoted else t

/-- The fields of an entry, the attributes last. -/
def Entry.record (e : Entry) : Record :=
  ("level", .text e.level.name) :: ("msg", .text e.message) :: e.attrs

/-- An entry as a line of words. -/
def Entry.textLine (e : Entry) : Text :=
  Text.joinWith " " (e.record.map fun (k, v) => word k ++ "=" ++ word v.plain) ++ "\n"

/-- An entry as a line of JSON. -/
def Entry.jsonLine (e : Entry) : Text := Json.object .log e.record ++ "\n"

/-- An entry in a format. -/
def Format.line : Format → Entry → Text
  | text, e => e.textLine
  | json, e => e.jsonLine

/-- What a logger writes for entries. -/
def Logger.output (l : Logger) (es : List Entry) : Text :=
  (es.filter (l.level ≤ ·.level)).flatMap l.format.line

/-- What is written for entries where there may be no logger. -/
def output (logger : Option Logger) (es : List Entry) : Text :=
  match logger with
  | some l => l.output es
  | none => []

end Slang.Log
