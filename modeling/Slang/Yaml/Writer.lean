import Slang.Scalar
import Slang.Text.Base64
import Slang.Yaml.Resolve
import Slang.Yaml.Source
/-!
# Writing YAML

Records as block mappings. A text is written plainly where a reader would take it for that text.
Otherwise it stands between single quotes, between double quotes with escapes, or, if it has several
lines, as a literal block. Bytes that are not UTF-8 are written in base 64 under a tag.

* `Yaml.Form` lists the ways to write a text, and `Yaml.form` chooses one;
* `Yaml.mapping` writes a record, and `Yaml.sequence` writes a list of records.
-/

namespace Slang.Yaml

/-- Where things stand: keys at a column, and what belongs to a key at the next multiple of the
step. -/
structure Layout where
  step : Nat
  keys : Nat

/-- The column of the lines that belong to a key. -/
def Layout.inner (l : Layout) : Nat := l.step * ((l.keys + l.step) / l.step)

/-! ### Classes of characters -/

/-- Characters that can be shown as they are. Beyond the basic plane there are none. -/
def isShown (c : Char) : Bool :=
  let n := c.toNat
  n = 0x0A || (0x20 ≤ n && n ≤ 0x7E) || (0xA0 ≤ n && n ≤ 0xD7FF)
    || (0xE000 ≤ n && n ≤ 0xFFFD && n != 0xFEFF)

/-- Characters that mean something at the start of a scalar. -/
def isIndicator (c : Char) : Bool := "#,[]\x7b\x7d&*!|>'\"%@\x60".toList.contains c

/-- The characters of a text that is UTF-8. -/
def charsOf (t : Text) : List Char :=
  t.runes.filterMap fun
    | .char c => some c
    | .stray _ => none

/-- Whether two neighbours stand in a relation. -/
def hasPair (p : Char → Char → Bool) : List Char → Bool
  | a :: b :: rest => p a b || hasPair p (b :: rest)
  | _ => false

/-! ### Forms -/

/-- The ways to write a text. -/
inductive Form where
  | plain
  | single
  | double
  | literal
  deriving DecidableEq, Repr

/-- Blanks around a line break, tabs, and characters that cannot be shown need escapes. -/
def needsEscapes (cs : List Char) : Bool :=
  cs.any (fun c => !isShown c) || hasPair (fun a b => a = ' ' && isBreak b) cs
    || hasPair (fun a b => isBreak a && b = ' ') cs

/-- Whether a text can be a literal block: it can hold tabs and lines that start with blanks. -/
def literalOk (cs : List Char) : Bool :=
  cs.all (fun c => isShown c || c = '\t') && !hasPair (fun a b => a = ' ' && isBreak b) cs
    && cs.getLast? != some ' '

/-- Whether the first characters of a text would be taken for something else. -/
def startsOk : List Char → Bool
  | '-' :: '-' :: '-' :: _ | '.' :: '.' :: '.' :: _ => false
  | [c] => !isIndicator c && c != '?' && c != '-'
  | c :: d :: _ => !isIndicator c && !((c = '?' || c = '-') && isBlank d)
  | [] => false

/-- Whether a colon would end a key, or a number sign would start a comment. -/
def cutsOff (cs : List Char) : Bool :=
  cs.getLast? == some ':' || hasPair (fun a b => a = ':' && isBlank b) cs
    || hasPair (fun a b => b = '#' && (isBlank a || isBreak a)) cs

/-- Whether a text can be written without quotes. -/
def plainOk (cs : List Char) : Bool :=
  startsOk cs && !cutsOff cs && !needsEscapes cs && !cs.any isBreak
    && cs.head? != some ' ' && cs.getLast? != some ' '

/-- The form of a text that is UTF-8. -/
def form (t : Text) : Form :=
  let cs := charsOf t
  if t.contains Text.lineFeed then if literalOk cs then .literal else .double
  -- what older documents read as something else is quoted as well
  else if !isText t || isOldBool t || isSexagesimal t then .double
  else if plainOk cs then .plain
  else if needsEscapes cs then .double
  else .single

/-! ### Quoted text -/

/-- A hexadecimal numeral in capitals. -/
def hexUpper (width n : Nat) : Text := (Text.hex width n).map Text.upperByte

/-- The escape for a character. -/
def escape (c : Char) : Text :=
  match c.toNat with
  | 0x00 => "\\0"
  | 0x07 => "\\a"
  | 0x08 => "\\b"
  | 0x09 => "\\t"
  | 0x0A => "\\n"
  | 0x0B => "\\v"
  | 0x0C => "\\f"
  | 0x0D => "\\r"
  | 0x1B => "\\e"
  | 0x22 => "\\\""
  | 0x5C => "\\\\"
  | 0x85 => "\\N"
  | 0xA0 => "\\_"
  | 0x2028 => "\\L"
  | 0x2029 => "\\P"
  | n =>
    if n ≤ 0xFF then "\\x" ++ hexUpper 2 n
    else if n ≤ 0xFFFF then "\\u" ++ hexUpper 4 n
    else "\\U" ++ hexUpper 8 n

/-- Characters between double quotes. After a mark of byte order everything is escaped. -/
def doubleQuoted (cs : List Char) : Text :=
  let marked := cs.head? == some byteOrderMark
  let one (c : Char) : Text :=
    if marked || !isShown c || isBreak c || c = '"' || c = '\\' then escape c else Text.ofChar c
  "\"" ++ cs.flatMap one ++ "\""

/-- Characters one after the other, those after a line break set in from the margin. -/
def indented (margin : Nat) (one : Char → Text) : (afterBreak : Bool) → List Char → Text
  | _, [] => []
  | afterBreak, c :: rest =>
    if isBreak c then Text.ofChar c ++ indented margin one true rest
    else
      let start := if afterBreak then Text.fill margin 32 else []
      start ++ one c ++ indented margin one false rest

/-- Characters between single quotes. A single quote is written twice. -/
def singleQuoted (l : Layout) (cs : List Char) : Text :=
  "'" ++ indented l.inner (fun c => if c = '\'' then "''" else Text.ofChar c) false cs ++ "'"

/-- The marks after the bar of a literal block: the step where a blank or a break comes first, and
what becomes of the breaks at the end. -/
def literalMarks (l : Layout) (cs : List Char) : Text :=
  let start : Text :=
    if cs.head?.any (fun c => c = ' ' || isBreak c) then Text.ofNat l.step else []
  let finish : Text :=
    match cs.reverse with
    | [] => "-"
    | [c] => if isBreak c then "+" else "-"
    | c :: d :: _ => if !isBreak c then "-" else if isBreak d then "+" else []
  start ++ finish

/-- Characters as a literal block. The lines start on the line after the marks, but a break that
comes first is written right after them and ends their line. -/
def literal (l : Layout) (cs : List Char) : Text :=
  let headEnd : Text := if cs.head?.any isBreak then [] else "\n"
  "|" ++ literalMarks l cs ++ headEnd ++ indented l.inner Text.ofChar true cs

/-- A text in a form. Every form ends with the line. -/
def written (l : Layout) (f : Form) (t : Text) : Text :=
  match f with
  | .plain => t ++ "\n"
  | .single => singleQuoted l (charsOf t) ++ "\n"
  | .double => doubleQuoted (charsOf t) ++ "\n"
  | .literal =>
    let block := literal l (charsOf t)
    -- a block that ends with a line break has ended its line
    if (charsOf t).getLast?.any isBreak then block else block ++ "\n"

/-! ### Bytes -/

/-- The length of a line of base 64. -/
def binaryLine : Nat := 70

/-- Cut a text into lines, each ended by a line break. -/
def linesOf (length : Nat) (t : Text) : Text :=
  if t.isEmpty || length = 0 then []
  else t.take length ++ [Text.lineFeed] ++ linesOf length (t.drop length)
termination_by t.length
decreasing_by
  cases t with
  | nil => simp_all
  | cons b rest => simp_all; omega

/-- Bytes in base 64 under their tag; on lines of their own if they do not fit on one. -/
def binary (l : Layout) (t : Text) : Text :=
  let digits := Text.Base64.encode t
  "!!binary " ++
    if digits.length < binaryLine then written l .plain digits
    else written l .literal (linesOf binaryLine digits)

/-! ### Records -/

/-- A scalar to the end of its line. -/
def scalar (l : Layout) : Scalar → Text
  | .text t => if t.isUtf8 then written l (form t) t else binary l t
  | .int n => Text.ofInt n ++ "\n"
  | .bool b => Scalar.writtenBool b ++ "\n"

/-- A field on a line of its own. -/
def field (l : Layout) (f : Text × Scalar) : Text := f.1 ++ ": " ++ scalar l f.2

/-- Lines of a field at the column of the keys, after the given start. -/
def fields (l : Layout) (start : Text) : Record → Text
  | [] => []
  | f :: rest => start ++ field l f ++ fields l (Text.fill l.keys 32) rest

/-- A record alone in a document. -/
def mapping (step : Nat) (r : Record) : Text := fields ⟨step, 0⟩ [] r

/-- A list of records, each behind a dash. -/
def sequence (step : Nat) (rs : List Record) : Text :=
  if rs.isEmpty then "[]\n" else rs.flatMap (fields ⟨step, 2⟩ "- ")

end Slang.Yaml
