import Slang.Yaml.Token.Tag
/-!
# Cutting a YAML document into tokens

The lexer keeps the columns of the open block collections. A token further to the right opens one, a
token further to the left closes those that it leaves. Whether a scalar is a key shows only when the
colon after it comes, so the lexer remembers for each nesting of brackets the last token that could
be one, and then puts the mark of a key, and if need be the start of a mapping, before that token.

* `Token.ofText?` gives the tokens of a text; where it cannot be read further they end with
  `Token.unreadable`.
-/

namespace Slang.Yaml

/-- A token that may turn out to be a key. In a block mapping, what stands at its column has to be
one. -/
structure KeyPlace where
  required : Bool
  /-- How many tokens came before it. -/
  before : Nat
  line : Nat
  column : Nat
  index : Nat

/-- The longest distance between the start of a key and its colon. -/
def keyReach : Nat := 1024

/-- Whether a colon at a cell comes soon enough after the start of a key. -/
def KeyPlace.reaches (k : KeyPlace) (c : Cell) : Bool :=
  k.line = c.line && c.index ≤ k.index + keyReach

/-- What the lexer knows between two tokens. -/
structure Lexer where
  cells : List Cell
  /-- The tokens so far, the last one first. -/
  done : List Token
  /-- How many tokens there are so far. -/
  count : Nat
  /-- The column of the innermost block collection, or -1. -/
  indent : Int
  /-- The columns of the collections around it. -/
  outer : List Int
  /-- Whether a key may start here. -/
  keyAllowed : Bool
  /-- The possible key at each nesting of brackets, the innermost first. -/
  keys : List (Option KeyPlace)

namespace Lexer

/-- The lexer before the first cell. -/
def start (cells : List Cell) : Lexer := ⟨cells, [], 0, -1, [], true, [none]⟩

/-- Whether the lexer is inside brackets. -/
def inFlow (l : Lexer) : Bool :=
  match l.keys with
  | _ :: _ :: _ => true
  | _ => false

/-- How deep collections may be nested. -/
def deepest : Nat := 10000

/-! ### Tokens -/

/-- The lexer after a token and the cells it took. -/
def push (l : Lexer) (t : Token) (rest : List Cell) : Lexer :=
  { l with done := t :: l.done, count := l.count + 1, cells := rest }

/-- Put a token before the token at a place. -/
def insert (l : Lexer) (place : Nat) (t : Token) : Lexer :=
  let after := l.count - place
  { l with done := l.done.take after ++ t :: l.done.drop after, count := l.count + 1 }

/-- How far a comment is looked for. -/
def commentReach : Nat := 512

/-- The cells after a comment on the line where a token ended. Up to there even tabs are blanks. -/
def pastComment (cells : List Cell) : List Cell :=
  let blanks := cells.takeWhile fun c => isBlank c.char
  match cells.drop blanks.length with
  | c :: rest => if c.char = '#' && blanks.length < commentReach then atLineEnd rest else cells
  | [] => cells

/-- The lexer after a token, the cells it took, and a comment behind it. -/
def pushWord (l : Lexer) (t : Token) (rest : List Cell) : Lexer := l.push t (pastComment rest)

/-- The tokens, if the next one cannot be read. A token counts only if the two after it were read as
well, and if it can no longer turn out to be a key. -/
def tokensBefore (l : Lexer) : List Token :=
  let held := l.keys.filterMap fun k =>
    (k.filter fun k => l.cells.head?.any k.reaches).map KeyPlace.before
  l.done.reverse.take (held.foldl min (l.count - 2)) ++ [.unreadable]

/-! ### Indentation -/

/-- How many block collections are further to the right than a column, the column of the one that is
not, and those around it. -/
def closeFrom (column : Int) : Int → List Int → Nat × Int × List Int
  | indent, [] => (0, indent, [])
  | indent, o :: outer =>
    if column < indent then
      let (n, i, rest) := closeFrom column o outer
      (n + 1, i, rest)
    else (0, indent, o :: outer)

/-- Close the block collections that a column leaves. Inside brackets columns mean nothing. -/
def unroll (l : Lexer) (column : Int) : Lexer :=
  if l.inFlow then l
  else
    let (n, indent, outer) := closeFrom column l.indent l.outer
    { l with done := List.replicate n .blockEnd ++ l.done, count := l.count + n, indent, outer }

/-- Open a block collection at a column, unless one is open there. Its start goes before the token
at a place. -/
def roll? (l : Lexer) (column place : Nat) (t : Token) : Option Lexer :=
  if l.inFlow || column ≤ l.indent then some l
  else if deepest ≤ l.outer.length then none
  else some { l.insert place t with indent := column, outer := l.indent :: l.outer }

/-! ### Keys -/

/-- Give up the possible key, which must not be a required one. -/
def dropKey? (l : Lexer) : Option Lexer :=
  match l.keys with
  | some k :: keys => if k.required then none else some { l with keys := none :: keys }
  | _ => some l

/-- Remember that the next token may be a key. -/
def saveKey? (l : Lexer) (c : Cell) : Option Lexer :=
  if !l.keyAllowed then some l
  else
    let key : KeyPlace := ⟨!l.inFlow && l.indent = c.column, l.count, c.line, c.column, c.index⟩
    l.dropKey?.map fun l => { l with keys := some key :: l.keys.drop 1 }

/-! ### Marks -/

/-- A token that stands for a whole line of its own: it closes everything. -/
def lineToken? (l : Lexer) (t : Token) (rest : List Cell) : Option Lexer :=
  (l.unroll (-1)).dropKey?.map fun l => { l.push t rest with keyAllowed := false }

/-- An opening bracket. -/
def open? (l : Lexer) (c : Cell) (rest : List Cell) (t : Token) : Option Lexer :=
  if deepest < l.keys.length then none
  else
    (l.saveKey? c).map fun l => { l.pushWord t rest with keyAllowed := true, keys := none :: l.keys }

/-- A closing bracket. -/
def close? (l : Lexer) (rest : List Cell) (t : Token) : Option Lexer :=
  l.dropKey?.map fun l =>
    { l.pushWord t rest with keyAllowed := false, keys := if l.inFlow then l.keys.drop 1 else l.keys }

/-- A comma. -/
def comma? (l : Lexer) (rest : List Cell) : Option Lexer :=
  l.dropKey?.map fun l => { l.pushWord .comma rest with keyAllowed := true }

/-- The dash of an item. What follows it is looked at only later. -/
def dash? (l : Lexer) (c : Cell) (rest : List Cell) : Option Lexer :=
  if !l.inFlow && !l.keyAllowed then none
  else
    -- only a dash further to the right starts a sequence
    ((l.roll? c.column l.count .blockSequence).bind dropKey?).map fun l =>
      { l.push .dash rest with keyAllowed := true }

/-- The question mark before a key. -/
def key? (l : Lexer) (c : Cell) (rest : List Cell) : Option Lexer :=
  if !l.inFlow && !l.keyAllowed then none
  else
    ((l.roll? c.column l.count .blockMapping).bind dropKey?).map fun l =>
      { l.pushWord .key rest with keyAllowed := !l.inFlow }

/-- The colon before a value. -/
def value? (l : Lexer) (c : Cell) (rest : List Cell) : Option Lexer :=
  let bare : Option Lexer :=
    if !l.inFlow && !l.keyAllowed then none
    else
      (l.roll? c.column l.count .blockMapping).map fun l =>
        { l.pushWord .value rest with keyAllowed := !l.inFlow }
  match l.keys with
  | some k :: keys =>
    if k.reaches c then
      -- the mark of the key first, then the start of the mapping before it
      ((l.insert k.before .key).roll? k.column k.before .blockMapping).map fun l =>
        { l.pushWord .value rest with keyAllowed := false, keys := none :: keys }
    -- the colon of a required key came too late
    else if k.required then none
    else bare.map fun l => { l with keys := none :: keys }
  | _ => bare

/-! ### Scalars and names -/

/-- A token of one or more words, which may be a key. -/
def node? (l : Lexer) (c : Cell) (t : Token) (rest : List Cell) : Option Lexer :=
  (l.saveKey? c).map fun l => { l.pushWord t rest with keyAllowed := false }

/-- Whether a plain scalar may start with a cell. -/
def plainStarts (inFlow : Bool) (c : Cell) (cells : List Cell) : Bool :=
  let next : Option Cell := cells[1]?
  !(c.endsWord || "-?:,[]\x7b\x7d#&*!|>'\"%@\x60".toList.contains c.char)
    || (c.char = '-' && !next.any fun d => isBlank d.char)
    || (!inFlow && (c.char = '?' || c.char = ':') && !wordEndsAfter cells)

/-- A plain scalar. One that took a line break has no comment on its line. -/
def plain? (l : Lexer) (c : Cell) : Option Lexer :=
  (l.saveKey? c).bind fun l =>
    (plainScalar l.inFlow (l.indent + 1) [] .none l.cells).map fun (text, broken, rest) =>
      { l.push (.scalar .plain text) (if broken then rest else pastComment rest) with
        keyAllowed := broken }

/-- A block scalar after its bar. -/
def block? (l : Lexer) (folded : Bool) (rest : List Cell) : Option Lexer :=
  l.dropKey?.bind fun l =>
    (blockScalar folded l.indent rest).map fun (text, rest) =>
      { l.push (.scalar .quoted text) rest with keyAllowed := true }

/-- The token that starts with a cell. -/
def tokenAt? (l : Lexer) (c : Cell) (rest : List Cell) : Option Lexer :=
  let wordEnds := wordEndsAfter (c :: rest)
  let quoted (read : Option (List Char × List Cell)) : Option Lexer :=
    read.bind fun (text, rest) => l.node? c (.scalar .quoted text) rest
  if c.column = 0 && c.char = '%' then
    (directive? rest).bind fun (t, rest) => l.lineToken? t rest
  else if isMark '-' (c :: rest) then l.lineToken? .documentStart (rest.drop 2)
  else if isMark '.' (c :: rest) then l.lineToken? .documentEnd (rest.drop 2)
  else if c.char = '[' then l.open? c rest .flowSequence
  else if c.char = '\x7b' then l.open? c rest .flowMapping
  else if c.char = ']' then l.close? rest .flowSequenceEnd
  else if c.char = '\x7d' then l.close? rest .flowMappingEnd
  else if c.char = ',' then l.comma? rest
  else if c.char = '-' && wordEnds then l.dash? c rest
  else if c.char = '?' && (l.inFlow || wordEnds) then l.key? c rest
  else if c.char = ':' && (l.inFlow || wordEnds) then l.value? c rest
  else if c.char = '*' then (anchorName? rest).bind fun (name, rest) => l.node? c (.ref name) rest
  else if c.char = '&' then (anchorName? rest).bind fun (name, rest) => l.node? c (.anchor name) rest
  else if c.char = '!' then (tag? rest).bind fun (t, rest) => l.node? c t rest
  else if c.char = '|' && !l.inFlow then l.block? false rest
  else if c.char = '>' && !l.inFlow then l.block? true rest
  else if c.char = '\'' then quoted (singleScalar [] .none rest)
  else if c.char = '"' then quoted (doubleScalar [] .none 0 rest)
  else if plainStarts l.inFlow c (c :: rest) then l.plain? c
  else none

/-! ### Gaps -/

/-- Whether a comment comes next, after blanks and empty lines. -/
def commentAhead : (reach : Nat) → List Cell → Bool
  | reach + 1, c :: rest =>
    c.char = '#' || ((isBlank c.char || c.char = '\n') && commentAhead reach rest)
  | _, _ => false

/-- What the lexer passes over between two tokens. -/
inductive Passing where
  | blanks
  | comment
  /-- Blanks and empty lines between two comments. -/
  | toComment

/-- Pass over blanks, comments and line breaks. A line break allows a key outside brackets, and
where a key is allowed a tab is no blank, unless it stands between two comments. -/
def skipGap (inFlow : Bool) : (keyAllowed : Bool) → Passing → List Cell → Bool × List Cell
  | allowed, _, [] => (allowed, [])
  | allowed, passing, c :: rest =>
    match passing with
    | .toComment => skipGap inFlow allowed (if c.char = '#' then .comment else .toComment) rest
    | .comment | .blanks =>
      let commented := passing matches .comment
      if c.isEnd then (allowed, c :: rest)
      else if isBreak c.char then
        -- comments one below the other are read in one go, whatever blanks stand between them
        if commented && c.char = '\n' && commentAhead (commentReach - 1) rest then
          skipGap inFlow allowed .toComment rest
        else skipGap inFlow (allowed || !inFlow) .blanks rest
      else if commented || c.char = '#' then skipGap inFlow allowed .comment rest
      else if c.char = ' ' || (c.char = '\t' && (inFlow || !allowed)) then
        skipGap inFlow allowed .blanks rest
      else (allowed, c :: rest)

/-- Add the tokens of the cells, at most as many as there is fuel for. -/
def run : (fuel : Nat) → Lexer → List Token
  | 0, l => l.tokensBefore
  | fuel + 1, l =>
    let (keyAllowed, cells) := skipGap l.inFlow l.keyAllowed .blanks l.cells
    let before := { l with keyAllowed, cells }
    match cells with
    | [] => l.tokensBefore
    | c :: rest =>
      let l' := before.unroll c.column
      -- a required key may still be open here
      if c.isEnd then
        match l'.lineToken? .finish [] with
        | some last => last.done.reverse
        | none => l.tokensBefore
      else
        match l'.tokenAt? c rest with
        | some next => run fuel next
        | none => l.tokensBefore

end Lexer

/-- The tokens of a text, unless its characters cannot be read. -/
def Token.ofText? (t : Text) : Option (List Token) :=
  (cells? t).map fun cells => (Lexer.start cells).run (cells.length + 1)

end Slang.Yaml
