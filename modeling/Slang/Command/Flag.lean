import Slang.Scalar
import Slang.Text.Numeral
/-!
# Flags of a command line

A **flag** is written with two dashes and its name, or with one dash and its letter. It takes the value
after an equality sign or the next word; a flag for a truth value needs none. Letters can share a
dash. Two dashes alone end the flags, and a word that is no flag is an argument, wherever it stands.

* `Flag.parse` splits words into flags with their values and arguments.
-/

namespace Slang

/-- What can be set on a command line. The type of its default is the type of its values. -/
structure Flag where
  name : Text
  letter : Option UInt8
  default : Scalar
  usage : Text
  deriving DecidableEq, Repr

namespace Flag

/-- Why words are no command line. -/
inductive Error where
  | badForm (word : Text)
  | unknown (name : Text)
  | unknownLetter (letter : UInt8) (letters : Text)
  | needsValue (name : Text)
  | letterNeedsValue (letter : UInt8) (letters : Text)
  | badValue (flag : Flag) (value why : Text)
  | helpWanted
  deriving DecidableEq, Repr

/-- How a flag is called in an error. -/
def title (f : Flag) : Text :=
  match f.letter with
  | some l => "-" ++ [l] ++ ", --" ++ f.name
  | none => "--" ++ f.name

/-- A letter between single quotes. A byte outside ASCII is shown by the first byte of the character with
its number. -/
def quotedLetter (b : UInt8) : Text :=
  let shown : Char :=
    if b < 0x80 then Char.ofNat b.toNat else if b < 0xC0 then Char.ofNat 0xC2 else Char.ofNat 0xC3
  let inner : Text :=
    if shown = '\'' then "\\'" else if shown = '"' then "\"" else Rune.quoted (.char shown)
  "'" ++ inner ++ "'"

/-- How an error is worded. -/
def Error.message : Error → Text
  | badForm word => "bad flag syntax: " ++ word
  | unknown name => "unknown flag: --" ++ name
  | unknownLetter letter letters =>
    "unknown shorthand flag: " ++ quotedLetter letter ++ " in -" ++ letters
  | needsValue name => "flag needs an argument: --" ++ name
  | letterNeedsValue letter letters =>
    "flag needs an argument: " ++ quotedLetter letter ++ " in -" ++ letters
  | badValue f value why =>
    "invalid argument " ++ value.quoted ++ " for " ++ f.title.quoted ++ " flag: " ++ why
  | helpWanted => "pflag: help requested"

/-- Whether a flag is for a truth value, so that it needs no value. -/
def isSwitch (f : Flag) : Bool :=
  match f.default with
  | .bool _ => true
  | _ => false

/-- A flag with its value. -/
abbrev Setting := Flag × Scalar

/-- Give a flag a value that is written as text. -/
def set (f : Flag) (value : Text) : Except Error Setting :=
  match f.default with
  | .text _ => .ok (f, .text value)
  | .bool _ =>
    match Scalar.truth? value with
    | some b => .ok (f, .bool b)
    | none =>
      .error (.badValue f value (Text.Numeral.refusal "ParseBool" value Text.Numeral.Error.malformed.message))
  | .int _ =>
    match Text.Numeral.int64 value with
    | .ok n => .ok (f, .int n)
    | .error e => .error (.badValue f value (Text.Numeral.refusal "ParseInt" value e.message))

/-- The flag with a name. -/
def named? (flags : List Flag) (name : Text) : Option Flag := flags.find? fun f => f.name == name

/-- The flag with a letter. -/
def lettered? (flags : List Flag) (letter : UInt8) : Option Flag :=
  flags.find? fun f => f.letter == some letter

/-- A flag by its name: what it sets, and whether it takes the next word. -/
def long (flags : List Flag) (word : Text) (next : Option Text) : Except Error (Setting × Bool) :=
  let body := word.drop 2
  -- a third dash, or an equality sign where the name should be
  if body.head? = some 45 || body.head? = some 61 then .error (.badForm word)
  else
    let name := body.takeWhile (· != 61)
    match named? flags name with
    -- help can be asked for also where it is no flag
    | none => .error (if name = "help" then .helpWanted else .unknown name)
    | some f =>
      match Text.cut? 61 body, next with
      | some (_, value), _ => (f.set value).map (·, false)
      | none, some value => if f.isSwitch then (f.set "true").map (·, false) else (f.set value).map (·, true)
      | none, none => if f.isSwitch then (f.set "true").map (·, false) else .error (.needsValue name)

/-- Flags by their letters: what they set, and whether the last one takes the next word. What starts like
the flags of a test run is passed over. -/
def letters (flags : List Flag) (next : Option Text) : Text → Except Error (List Setting × Bool)
  | [] => .ok ([], false)
  | l :: rest =>
    if Text.startsWith (l :: rest) "test." then .ok ([], false)
    else
      match lettered? flags l with
      | none => .error (if l = 104 then .helpWanted else .unknownLetter l (l :: rest))
      | some f =>
        match rest, next with
        -- with nothing after it, the equality sign is the value itself or the next letter
        | 61 :: b :: value, _ => (f.set (b :: value)).map fun s => ([s], false)
        | _, _ =>
          if f.isSwitch then do
            let s ← f.set "true"
            let (more, took) ← letters flags next rest
            return (s :: more, took)
          else
            match rest, next with
            -- the rest of the word is the value, and the next word only if nothing is left
            | _ :: _, _ => (f.set rest).map fun s => ([s], false)
            | [], some value => (f.set value).map fun s => ([s], true)
            | [], none => .error (.letterNeedsValue l [l])

/-- A command line: the flags that were set, in order, and the arguments. -/
structure Parsed where
  set : List Setting
  args : List Text
  deriving DecidableEq, Repr

/-- Put what a word gave before what the words after it give. -/
def Parsed.addSet (s : List Setting) (p : Parsed) : Parsed := { p with set := s ++ p.set }

/-- What a word of a command line is. -/
inductive Word where
  | argument
  | endOfFlags
  /-- Flags, of which the last may take the next word. -/
  | flags (set : List Setting) (tookNext : Bool)

/-- What a word is, before the next word. -/
def word (flags : List Flag) (w : Text) (next : Option Text) : Except Error Word :=
  match w with
  | 45 :: 45 :: [] => .ok .endOfFlags
  | 45 :: 45 :: _ => (long flags w next).map fun (s, took) => .flags [s] took
  | 45 :: l :: rest => (letters flags next (l :: rest)).map fun (s, took) => .flags s took
  -- a dash alone is an argument
  | _ => .ok .argument

/-- Split words into flags and arguments, the first word being taken already or not. -/
def parseFrom (flags : List Flag) : (taken : Bool) → List Text → Except Error Parsed
  | _, [] => .ok ⟨[], []⟩
  | true, _ :: rest => parseFrom flags false rest
  | false, w :: rest =>
    match word flags w rest.head? with
    | .error e => .error e
    | .ok .argument => (parseFrom flags false rest).map fun p => { p with args := w :: p.args }
    | .ok .endOfFlags => .ok ⟨[], rest⟩
    | .ok (.flags s took) => (parseFrom flags took rest).map (Parsed.addSet s)

/-- Split words into flags and arguments. -/
def parse (flags : List Flag) (words : List Text) : Except Error Parsed := parseFrom flags false words

/-- The value of a flag: the last one that was set, or else its default. -/
def Parsed.value (p : Parsed) (f : Flag) : Scalar :=
  ((p.set.reverse.find? fun s => s.1 == f).map Prod.snd).getD f.default

/-- Whether a flag was set. -/
def Parsed.has (p : Parsed) (f : Flag) : Bool := p.set.any fun s => s.1 == f

/-! ### Usage -/

/-- The word for the values of a flag. -/
def valueWord (f : Flag) : Text :=
  match f.default with
  | .text _ => " string"
  | .int _ => " int"
  | .bool _ => []

/-- The names of a flag at the start of its usage line. -/
def usageStart (f : Flag) : Text :=
  match f.letter with
  | some l => "  -" ++ [l] ++ ", --" ++ f.name ++ f.valueWord
  | none => "      --" ++ f.name ++ f.valueWord

/-- The default of a flag, unless it is the zero of its type. -/
def usageDefault (f : Flag) : Text :=
  match f.default with
  | .text t => if t = [] then [] else " (default " ++ t.quoted ++ ")"
  | .int n => if n = 0 then [] else " (default " ++ Text.ofInt n ++ ")"
  | .bool b => if b then " (default true)" else []

/-- A line for each flag, what they are for one below the other. -/
def usages (flags : List Flag) : Text :=
  let width := (flags.map fun f => f.usageStart.length).foldl max 0
  flags.flatMap fun f =>
    f.usageStart ++ Text.fill (width - f.usageStart.length + 3) 32 ++ f.usage ++ f.usageDefault ++ "\n"

end Flag
end Slang
