import Slang.Command.Help
import Slang.Command.Outcome
/-!
# Completing a command line

A shell hands over the words of a command line, the last of which is still being typed. It gets back
what that word may become, each with a description, and a directive on what the shell may add of its
own.
-/

namespace Slang.Command

/-- What a shell may do besides the given choices. -/
inductive Directive where
  | usual
  | noFiles
  deriving DecidableEq, Repr

/-- The number of a directive. -/
def Directive.code : Directive → Nat
  | usual => 0
  | noFiles => 4

/-- The name of a directive. -/
def Directive.name : Directive → Text
  | usual => "ShellCompDirectiveDefault"
  | noFiles => "ShellCompDirectiveNoFileComp"

/-- Something that a word may become, with or without a description. -/
structure Choice where
  word : Text
  about : Option Text

/-- The answer to a shell. -/
structure Choices where
  choices : List Choice
  directive : Directive
  /-- Why there is nothing to choose. -/
  error : Option Text

/-- No choices because of an error. -/
def Choices.failed (e : Text) : Choices := ⟨[], .usual, some e⟩

/-! ### Flags -/

/-- Whether a word is a flag. -/
def isFlagWord : Text → Bool
  | 45 :: 45 :: name => !name.isEmpty
  | 45 :: _ :: _ => true
  | _ => false

/-- The flag with a name, or with a letter if the name is one byte. -/
def flagCalled? (c : Command) (name : Text) : Option Flag :=
  match name with
  | [l] => Flag.lettered? c.flags l
  | _ => Flag.named? c.flags name

/-- What is completed: the value of a flag, or a word of its own. -/
structure Target where
  /-- The flag whose value is completed. -/
  flag : Option Flag
  /-- The words before it that are to be read as flags and arguments. -/
  words : List Text
  typed : Text
  /-- The name of a flag that is not there. -/
  unknown : Option Text

/-- The name of the flag that a word ends with. -/
def lastFlagName (word : Text) : Text :=
  match word with
  | 45 :: 45 :: name => name
  | _ => word.drop (word.length - 1)

/-- Whether the word that is typed is the value of a flag: after an equality sign, or after a word
that is a flag. A name of no bytes before the equality sign leaves it to the word before. -/
def target (c : Command) (words : List Text) (typed : Text) : Target :=
  let isName := typed.head? == some 45
  let joined : Option (Text × Text) := if isName then Text.cut? 61 typed else none
  let given : Text := (joined.map Prod.snd).getD typed
  let fromLast : Text × List Text :=
    match words.getLast? with
    | some last =>
      if isFlagWord last && !last.contains 61 then (lastFlagName last, words.dropLast) else ([], words)
    | none => ([], words)
  let (name, rest) : Text × List Text :=
    match joined.map fun j => lastFlagName j.1 with
    | none | some [] => fromLast
    | some name => (name, words)
  if isName && joined.isNone then ⟨none, words, typed, none⟩
  else if name = [] then ⟨none, rest, given, none⟩
  else
    match c.flagCalled? name with
    | none => ⟨none, words, typed, some name⟩
    | some f =>
      if f.isSwitch && joined.isNone then ⟨none, words, given, none⟩ else ⟨some f, rest, given, none⟩

/-- The names of a flag that start with a text. -/
def flagChoices (typed : Text) (f : Flag) : List Choice :=
  let words := (Text.ofString "--" ++ f.name) :: (f.letter.map fun l => [45, l]).toList
  (words.filter fun w => Text.startsWith w typed).map (⟨·, some f.usage⟩)

/-! ### Choices -/

/-- The commands below a command whose names start with a text. -/
def commandChoices (c : Command) (typed : Text) : List Choice :=
  (c.listed.filter fun d => Text.startsWith d.name typed).map fun d => ⟨d.name, some d.short⟩

/-- Choices for the value of a flag. -/
def valueChoices (f : Flag) : Choices :=
  if f.name = "output" then
    ⟨Report.Format.all.map fun o => ⟨o.name, none⟩, .noFiles, none⟩
  else ⟨[], .usual, none⟩

/-- Choices that a command has of its own for its arguments. -/
def ownChoices (c : Command) (args : List Text) (typed : Text) : Option (List Choice) :=
  match c with
  | help =>
    match find args with
    | .ok (d, _) => some (d.commandChoices typed)
    | .error _ => some []
  | completion | script _ => some []
  | _ => none

/-- Choices for an argument of a command: the commands below it, unless there are arguments or flags
of its own already, and its own choices. -/
def argumentChoices (c : Command) (args : List Text) (localSet : Bool) (typed : Text) : Choices :=
  let first := args.isEmpty && !localSet
  let below := if first then c.commandChoices typed else []
  match c.ownChoices args typed with
  | some own => ⟨below ++ own, .noFiles, none⟩
  | none => ⟨below, if first && !c.listed.isEmpty then .noFiles else .usual, none⟩

/-- Words as a list in brackets. -/
def bracketed (words : List Text) : Text := "[" ++ Text.joinWith " " words ++ "]"

/-- Choices after the words of a command. -/
def choicesFor (c : Command) (words : List Text) (typed : Text) : Choices :=
  let t := c.target words typed
  match Flag.parse c.flags t.words with
  | .error e =>
    .failed ("Error while parsing flags from args " ++ bracketed t.words ++ ": " ++ e.message)
  | .ok p =>
    let flagsEnded : Bool :=
      match Flag.parse c.flags (t.words ++ [Text.ofString "--"]) with
      | .ok q => p.args.length < q.args.length
      | .error _ => false
    match t.unknown, flagsEnded with
    | some name, false =>
      .failed ("Subcommand '" ++ c.name ++ "' does not support flag '" ++ name ++ "'")
    | _, _ =>
      if p.has c.helpFlag then ⟨[], .noFiles, none⟩
      else
        match t.flag with
        | some f =>
          if !flagsEnded then valueChoices f
          else
            match c.ownChoices p.args t.typed with
            | some own => ⟨own, .noFiles, none⟩
            | none => ⟨[], .usual, none⟩
        | none =>
          if t.typed.head? = some 45 && !t.typed.contains 61 && !flagsEnded then
            let open' := (c.inheritedFlags ++ c.localFlags true).filter fun f => !p.has f
            ⟨open'.flatMap (flagChoices t.typed), .noFiles, none⟩
          else
            argumentChoices c p.args ((c.helpFlag :: c.ownFlags).any p.has) t.typed

/-- Choices for the last of the words of a command line. -/
def choices (words : List Text) : Choices :=
  let before := words.dropLast
  match find before with
  | .error _ => .failed ("unable to find a command for arguments: " ++ bracketed before)
  | .ok (c, rest) => choicesFor c rest (words.getLast?.getD [])

/-- Bytes that are cut off around a choice. -/
def isSpace (b : UInt8) : Bool := b = 32 || (9 ≤ b && b ≤ 13)

/-- A choice on a line. -/
def Choice.line (described : Bool) (c : Choice) : Text :=
  let whole : Text :=
    match c.about, described with
    | some about, true => c.word ++ "\t" ++ about
    | _, _ => c.word
  Text.trim isSpace whole ++ "\n"

/-- The answer to a shell. -/
def completed (described : Bool) (words : List Text) : Outcome :=
  let c := choices words
  let error : Text :=
    match c.error with
    | some e => "[Debug] [Error] " ++ e ++ "\n"
    | none => []
  { out := c.choices.flatMap (Choice.line described) ++ ":" ++ Text.ofNat c.directive.code ++ "\n"
    err := error ++ "Completion ended with directive: " ++ c.directive.name ++ "\n"
    failure := none }

end Slang.Command
