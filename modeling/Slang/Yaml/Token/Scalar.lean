import Slang.Yaml.Token
/-!
# Scalars of a YAML document

A scalar may go on over several lines. A line break inside it is a blank, unless empty lines follow:
then those are kept and the first is not. Each reader here takes the cells from the start of a scalar
on and gives its text and the cells after it, or nothing if the scalar is not well-formed.
-/

namespace Slang.Yaml

/-- White space since the last character of a scalar. -/
inductive Gap where
  | blanks (cs : List Char)
  | breaks (first : Char) (more : List Char)
  /-- After a line break with a backslash before it. -/
  | joined (more : List Char)

namespace Gap

/-- No white space. -/
def none : Gap := blanks []

/-- Whether there is no white space. -/
def isNone : Gap → Bool
  | blanks [] => true
  | _ => false

/-- Whether there is a line break. -/
def hasBreak : Gap → Bool
  | blanks _ => false
  | _ => true

/-- A blank counts only on the line of the last character. -/
def blank (c : Char) : Gap → Gap
  | blanks cs => blanks (cs ++ [c])
  | g => g

/-- A line break makes the blanks before it vanish. -/
def newline (c : Char) : Gap → Gap
  | blanks _ => breaks c []
  | breaks first more => breaks first (more ++ [c])
  | joined more => joined (more ++ [c])

/-- What the white space stands for. -/
def text : Gap → List Char
  | blanks cs => cs
  | breaks '\n' [] => [' ']
  | breaks '\n' more => more
  | breaks first more => first :: more
  | joined more => more

end Gap

/-! ### Plain scalars -/

/-- Whether a plain scalar ends before a cell that is no white space. -/
def plainEnds (inFlow : Bool) (indent : Int) (gap : Gap) (c : Cell) (cells : List Cell) : Bool :=
  c.isEnd || (c.char = ':' && wordEndsAfter cells)
    || (inFlow && (",?[]\x7b\x7d".toList.contains c.char))
    || (!gap.isNone && (c.char = '#' || isDocumentMark cells || (!inFlow && c.column < indent)))

/-- A plain scalar, and whether it ends with a line break. -/
def plainScalar (inFlow : Bool) (indent : Int) (text : List Char) (gap : Gap) :
    List Cell → Option (List Char × Bool × List Cell)
  | [] => some (text, gap.hasBreak, [])
  | c :: rest =>
    if isBlank c.char then
      -- a tab does not indent
      if c.char = '\t' && gap.hasBreak && c.column < indent then none
      else plainScalar inFlow indent text (gap.blank c.char) rest
    else if isBreak c.char then plainScalar inFlow indent text (gap.newline c.char) rest
    else if plainEnds inFlow indent gap c (c :: rest) then some (text, gap.hasBreak, c :: rest)
    else plainScalar inFlow indent (text ++ gap.text ++ [c.char]) .none rest

/-! ### Quoted scalars -/

/-- A scalar after its single quote. Two single quotes stand for one. -/
def singleScalar (text : List Char) (gap : Gap) : List Cell → Option (List Char × List Cell)
  | [] => none
  | c :: rest =>
    if isBlank c.char then singleScalar text (gap.blank c.char) rest
    else if isBreak c.char then singleScalar text (gap.newline c.char) rest
    else if c.isEnd || isDocumentMark (c :: rest) then none
    else if c.char = '\'' then
      match rest with
      | d :: more =>
        if d.char = '\'' then singleScalar (text ++ gap.text ++ ['\'']) .none more
        else some (text ++ gap.text, rest)
      | [] => some (text ++ gap.text, rest)
    else singleScalar (text ++ gap.text ++ [c.char]) .none rest

/-- The character that a letter stands for after a backslash. -/
def shortEscape? (c : Char) : Option Char :=
  match c with
  | '0' => some (Char.ofNat 0x00)
  | 'a' => some (Char.ofNat 0x07)
  | 'b' => some (Char.ofNat 0x08)
  | 't' | '\t' => some '\t'
  | 'n' => some '\n'
  | 'v' => some (Char.ofNat 0x0B)
  | 'f' => some (Char.ofNat 0x0C)
  | 'r' => some '\r'
  | 'e' => some (Char.ofNat 0x1B)
  | ' ' => some ' '
  | '"' => some '"'
  | '\'' => some '\''
  | '\\' => some '\\'
  | 'N' => some (Char.ofNat 0x85)
  | '_' => some (Char.ofNat 0xA0)
  | 'L' => some (Char.ofNat 0x2028)
  | 'P' => some (Char.ofNat 0x2029)
  | _ => none

/-- How many hexadecimal digits follow a letter after a backslash. -/
def longEscape? (c : Char) : Option Nat :=
  match c with
  | 'x' => some 2
  | 'u' => some 4
  | 'U' => some 8
  | _ => none

/-- The value of a hexadecimal digit. -/
def hexDigit? (c : Char) : Option Nat :=
  if c.isDigit then some (c.toNat - 48)
  else if 'a' ≤ c ∧ c ≤ 'f' then some (c.toNat - 87)
  else if 'A' ≤ c ∧ c ≤ 'F' then some (c.toNat - 55)
  else none

/-- The character with the number that hexadecimal digits write. -/
def numbered? (digits : List Cell) : Option Char :=
  (digits.mapM fun d => hexDigit? d.char).bind fun ds =>
    let n := ds.foldl (fun n d => 16 * n + d) 0
    if n.isValidChar then some (Char.ofNat n) else none

/-- A scalar after its double quote. A number beside the text says how many cells are still to be
passed over: those of an escape that was read already. -/
def doubleScalar (text : List Char) (gap : Gap) : (skip : Nat) → List Cell →
    Option (List Char × List Cell)
  | _, [] => none
  | skip + 1, _ :: rest => doubleScalar text gap skip rest
  | 0, c :: rest =>
    if isBlank c.char then doubleScalar text (gap.blank c.char) 0 rest
    else if isBreak c.char then doubleScalar text (gap.newline c.char) 0 rest
    else if c.isEnd || isDocumentMark (c :: rest) then none
    else
      let text := text ++ gap.text
      if c.char = '"' then some (text, rest)
      else if c.char = '\\' then
        match rest with
        | [] => none
        | d :: more =>
          -- a backslash at the end of a line joins it with the next one
          if isBreak d.char then doubleScalar text (.joined []) 1 rest
          else
            match shortEscape? d.char, longEscape? d.char with
            | some e, _ => doubleScalar (text ++ [e]) .none 1 rest
            | none, some n =>
              match numbered? (more.take n) with
              | some e => doubleScalar (text ++ [e]) .none (n + 1) rest
              | none => none
            | none, none => none
      else doubleScalar (text ++ [c.char]) .none 0 rest

/-! ### Block scalars -/

/-- What becomes of the line breaks at the end of a block. -/
inductive Chomp where
  | strip
  | clip
  | keep
  deriving DecidableEq, Repr

/-- The marks after the bar of a block: what becomes of its last line breaks, and how far it is
indented, if that is said. The two may come in either order. -/
def blockMarks? (cells : List Cell) : Option (Chomp × Nat × List Cell) :=
  let chomp : List Cell → Option (Chomp × List Cell)
    | c :: rest =>
      if c.char = '+' then some (.keep, rest) else if c.char = '-' then some (.strip, rest) else none
    | [] => none
  let digit : List Cell → Option (Nat × List Cell)
    | c :: rest => if c.char.isDigit then some (c.char.toNat - 48, rest) else none
    | [] => none
  let checked (m : Chomp) (given : Option (Nat × List Cell)) (cells : List Cell) :
      Option (Chomp × Nat × List Cell) :=
    match given with
    -- an indentation of zero cannot be asked for
    | some (0, _) => none
    | some (n, rest) => some (m, n, rest)
    | none => some (m, 0, cells)
  match chomp cells with
  | some (m, rest) => checked m (digit rest) rest
  | none =>
    match digit cells with
    | some (n, rest) =>
      match chomp rest with
      | some (m, rest) => checked m (some (n, rest)) rest
      | none => checked .clip (some (n, rest)) rest
    | none => checked .clip none cells

/-- Pass over the indentation and over empty lines; an indentation of zero is not known yet. The
result has the widest column that was reached and the line breaks. -/
def blockGap? (indent most : Nat) (breaks : List Char) : List Cell →
    Option (Nat × List Char × List Cell)
  | [] => some (most, breaks, [])
  | c :: rest =>
    let outside := indent = 0 || c.column < indent
    if c.char = ' ' && outside then blockGap? indent most breaks rest
    else if c.char = '\t' && outside then none
    else if isBreak c.char then blockGap? indent (max most c.column) (breaks ++ [c.char]) rest
    else some (max most c.column, breaks, c :: rest)

/-- What stands between two lines of a block: in a folded one a plain line break between lines that do
not start with blanks is a blank, or nothing before empty lines. -/
def lineJoin (folded : Bool) (before : Option Char) (blankBefore blankNow : Bool)
    (breaks : List Char) : List Char :=
  if folded && !blankBefore && !blankNow && before == some '\n' then
    if breaks.isEmpty then [' '] else []
  else before.toList

/-- The lines of a block, and the line breaks at its end: the one of the last line and those after
it. -/
def blockLines (folded : Bool) (indent : Nat) : (fuel : Nat) → (text : List Char) →
    (before : Option Char) → (blankBefore : Bool) → (breaks : List Char) → List Cell →
    Option (List Char × List Char × List Char × List Cell)
  | 0, text, before, _, breaks, cells => some (text, before.toList, breaks, cells)
  | fuel + 1, text, before, blankBefore, breaks, cells =>
    match cells with
    | [] => some (text, before.toList, breaks, [])
    | c :: _ =>
      -- a line that is indented less ends the block
      if c.isEnd || c.column != indent then some (text, before.toList, breaks, cells)
      else
        let blankNow := isBlank c.char
        let line := (cells.takeWhile (!Cell.endsLine ·)).map Cell.char
        let text := text ++ lineJoin folded before blankBefore blankNow breaks ++ breaks ++ line
        match cells.dropWhile (!Cell.endsLine ·) with
        | [] => some (text, [], [], [])
        | d :: rest =>
          if d.isEnd then some (text, [], [], d :: rest)
          else
            (blockGap? indent 0 [] rest).bind fun (_, more, rest) =>
              blockLines folded indent fuel text (some d.char) blankNow more rest

/-- A block scalar after its bar, inside a collection at an indentation. -/
def blockScalar (folded : Bool) (parent : Int) (cells : List Cell) :
    Option (List Char × List Cell) := do
  let (chomp, increment, cells) ← blockMarks? cells
  let cells ← lineEnd? cells
  let given := if increment = 0 then 0 else (max parent 0).toNat + increment
  let (most, breaks, cells) ← blockGap? given 0 [] cells
  -- where it is not given, the widest line up to the first with content decides
  let indent := if given = 0 then max 1 (max most (parent + 1).toNat) else given
  let (text, last, more, cells) ← blockLines folded indent cells.length [] none false breaks cells
  let tail :=
    match chomp with
    | .strip => []
    | .clip => last
    | .keep => last ++ more
  return (text ++ tail, cells)

end Slang.Yaml
