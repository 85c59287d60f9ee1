import Slang.Yaml.Token.Scalar
/-!
# Names, tags and directives of a YAML document

What stands after the marks `&`, `*`, `!` and `%`. Each reader takes the cells after the mark and gives
what it read and the cells that follow, or nothing if that is not well-formed.
-/

namespace Slang.Yaml

/-! ### Names -/

/-- Characters of names. -/
def isNameChar (c : Char) : Bool := c.isAlphanum || c = '_' || c = '-'

/-- The characters of cells as a text. -/
def textOf (cells : List Cell) : Text := cells.flatMap fun c => Text.ofChar c.char

/-- The name at the start of the cells, which may be empty. -/
def nameAt (cells : List Cell) : Text × List Cell :=
  (textOf (cells.takeWhile fun c => isNameChar c.char), cells.dropWhile fun c => isNameChar c.char)

/-- The name of an anchor or of an alias. -/
def anchorName? (cells : List Cell) : Option (Text × List Cell) :=
  match nameAt cells with
  | (name, c :: rest) =>
    if name.isEmpty || !(c.endsWord || "?:,]\x7d%@\x60".toList.contains c.char) then none
    else some (name, c :: rest)
  | (_, []) => none

/-! ### Tags -/

/-- Characters of tags, besides the percent sign of an escape. -/
def isTagChar (c : Char) : Bool := isNameChar c || ";/?:@&=+$,.!~*'()[]".toList.contains c

/-- The byte that a percent sign and two hexadecimal digits stand for. -/
def escapedByte? : List Cell → Option UInt8
  | p :: a :: b :: _ =>
    match p.char, hexDigit? a.char, hexDigit? b.char with
    | '%', some a, some b => some (16 * a + b).toUInt8
    | _, _, _ => none
  | _ => none

/-- How many bytes a character has, by its first. -/
def widthOf? (lead : UInt8) : Option Nat :=
  if lead < 0x80 then some 1
  else if 0xC0 ≤ lead && lead < 0xE0 then some 2
  else if 0xE0 ≤ lead && lead < 0xF0 then some 3
  else if 0xF0 ≤ lead && lead < 0xF8 then some 4
  else none

/-- The bytes of a character that is written with escapes. All of them have to be. -/
def escapedChar? (cells : List Cell) : Option Text := do
  let lead ← escapedByte? cells
  let width ← widthOf? lead
  let tail ← (List.range (width - 1)).mapM fun i => escapedByte? (cells.drop (3 * (i + 1)))
  if tail.all Rune.isTail then some (lead :: tail) else none

/-- The characters of a tag after those that were read. A number beside them says how many cells are
still to be passed over: those of an escape that was read already. -/
def tagChars? (text : Text) : (skip : Nat) → List Cell → Option (Text × List Cell)
  | _, [] => some (text, [])
  | skip + 1, _ :: rest => tagChars? text skip rest
  | 0, c :: rest =>
    if c.char = '%' then
      match escapedChar? (c :: rest) with
      | some bytes => tagChars? (text ++ bytes) (3 * bytes.length - 1) rest
      | none => none
    else if isTagChar c.char then tagChars? (text ++ Text.ofChar c.char) 0 rest
    else some (text, c :: rest)

/-- The characters of a tag, at least one. -/
def tagText? (cells : List Cell) : Option (Text × List Cell) :=
  (tagChars? [] 0 cells).filter fun r => !r.1.isEmpty

/-- A handle with its exclamation marks: one before a name, or before nothing, and one after it. -/
def handle? (cells : List Cell) : Option (Text × List Cell) :=
  match nameAt cells with
  | (name, c :: rest) => if c.char = '!' then some ("!" ++ name ++ "!", rest) else none
  | (_, []) => none

/-- What a reader gave, if a word ends there. -/
def ifWordEnds {α : Type} (read : Option (α × List Cell)) : Option (α × List Cell) :=
  read.filter fun r => r.2.head?.any Cell.endsWord

/-- A tag after its exclamation mark: between angle brackets, after a handle, or alone. -/
def tag? (cells : List Cell) : Option (Token × List Cell) :=
  ifWordEnds <|
    match cells with
    | [] => none
    | c :: after =>
      if c.char = '<' then
        match tagText? after with
        | some (text, d :: rest) => if d.char = '>' then some (.tag [] text, rest) else none
        | _ => none
      else
        match handle? cells with
        | some (handle, rest) => (tagText? rest).map fun (text, rest) => (.tag handle text, rest)
        | none =>
          (tagChars? [] 0 cells).map fun (text, rest) =>
            (if text.isEmpty then .tag [] "!" else .tag "!" text, rest)

/-! ### Directives -/

/-- A number of one or two digits. -/
def versionNumber? (cells : List Cell) : Option (Nat × List Cell) :=
  let digits := cells.takeWhile fun c => c.char.isDigit
  if digits.length ≤ 2 then (textOf digits).toNat?.map (·, cells.drop digits.length) else none

/-- The version that a document is written for. -/
def version? (cells : List Cell) : Option (Token × List Cell) :=
  match versionNumber? cells with
  | some (major, c :: rest) =>
    if c.char = '.' then (versionNumber? rest).map fun (minor, rest) => (.version major minor, rest)
    else none
  | _ => none

/-- A handle and what it stands for. -/
def tagShort? : List Cell → Option (Token × List Cell)
  | c :: cells =>
    if c.char = '!' then
      match (handle? cells).getD ("!", cells) with
      | (handle, d :: rest) =>
        if isBlank d.char then
          ifWordEnds ((tagText? (afterBlanks rest)).map fun (full, rest) =>
            (.tagShort handle full, rest))
        else none
      | (_, []) => none
    else none
  | [] => none

/-- A directive after its percent sign, with the line that it stands on. -/
def directive? (cells : List Cell) : Option (Token × List Cell) :=
  (ifWordEnds (some (nameAt cells))).bind fun (name, rest) =>
    let read : Option (Token × List Cell) :=
      if name = "YAML" then version? (afterBlanks rest)
      else if name = "TAG" then tagShort? (afterBlanks rest)
      else none
    read.bind fun (t, rest) => (lineEnd? rest).map (t, ·)

end Slang.Yaml
