import Slang.Command.Flag
import Slang.Settings.Load
/-!
# Commands

The command line has a tree of **commands**. Each has a name, a line on what it does, flags and a rule
for the number of its arguments. Words before the flags and arguments of a command name it, from the
root of the tree on.

* `Command.find` gives the command that words name, and the words that are left;
* `Command.suggestions` are the commands that a misspelt word may mean.
-/

namespace Slang

/-- Shells that can complete command lines. -/
inductive Shell where
  | bash
  | fish
  | powershell
  | zsh
  deriving DecidableEq, Repr

/-- The name of a shell. -/
def Shell.name : Shell → Text
  | bash => "bash"
  | fish => "fish"
  | powershell => "powershell"
  | zsh => "zsh"

/-- What can be asked for. -/
inductive Command where
  | root
  | check
  | symbols
  | init
  | version
  | help
  | completion
  | script (shell : Shell)
  /-- What a shell asks for to complete a command line, with or without descriptions. -/
  | complete (described : Bool)
  deriving DecidableEq, Repr

namespace Command

/-! ### The tree -/

/-- The name of a command. -/
def name : Command → Text
  | root => "slangc"
  | check => "check"
  | symbols => "symbols"
  | init => "init"
  | version => "version"
  | help => "help"
  | completion => "completion"
  | script shell => shell.name
  | complete true => "__complete"
  | complete false => "__completeNoDesc"

/-- The commands below a command, as suggestions list them. -/
def children : Command → List Command
  | root => [check, symbols, init, version, help, complete true, complete false, completion]
  | completion => [script .bash, script .zsh, script .fish, script .powershell]
  | _ => []

/-- The commands below a command that help lists, by name. -/
def listed : Command → List Command
  | root => [check, completion, help, init, symbols, version]
  | completion => [script .bash, script .fish, script .powershell, script .zsh]
  | _ => []

/-- A command with the commands above it, from the root on. -/
def path : Command → Text
  | root => "slangc"
  | script shell => "slangc completion " ++ shell.name
  | c => "slangc " ++ c.name

/-- Whether a command does something of its own. -/
def isRunnable : Command → Bool
  | root | completion => false
  | _ => true

/-! ### Flags -/

/-- The flag that names a settings file. -/
def configFlag : Flag := ⟨"config", none, .text [], "config file (default: ./slangc.yaml)"⟩

/-- The flag that turns constant folding off. -/
def noFoldFlag : Flag := ⟨"no-fold", none, .bool false, "disable constant folding"⟩

/-- The flags of all commands, by name. -/
def sharedFlags : List Flag :=
  let d := Settings.default
  [configFlag,
    ⟨"jobs", some 106, .int d.jobs, "files compiled in parallel"⟩,
    ⟨"log-format", none, .text d.logFormat, "log format (text|json)"⟩,
    ⟨"log-level", none, .text d.logLevel, "log level (debug|info|warn|error)"⟩,
    noFoldFlag,
    ⟨"output", some 111, .text d.output, "symbol output format (table|json|yaml)"⟩,
    ⟨"verbose", some 118, .bool false, "verbose output (debug logging)"⟩,
    ⟨"warn-shadowing", none, .bool true, "warn when a declaration shadows an outer one"⟩]

/-- The flag that overwrites files. -/
def forceFlag : Flag := ⟨"force", none, .bool false, "overwrite existing files"⟩

/-- The flags of a command alone. -/
def ownFlags : Command → List Flag
  | init => [forceFlag]
  | script _ => [⟨"no-descriptions", none, .bool false, "disable completion descriptions"⟩]
  | _ => []

/-- The flag that asks for help. -/
def helpFlag (c : Command) : Flag := ⟨"help", some 104, .bool false, "help for " ++ c.name⟩

/-- All flags of a command. -/
def flags (c : Command) : List Flag := c.ownFlags ++ c.helpFlag :: sharedFlags

/-- Flags by name. -/
def byName (fs : List Flag) : List Flag := fs.mergeSort fun a b => a.name ≤ b.name

/-- What a flag that was set gives to a layer. The flag against constant folding is the opposite of the
setting, and the settings file is no setting. -/
def entry? : Flag.Setting → Option (Text × Given)
  | (f, v) =>
    if f = configFlag || !sharedFlags.contains f then none
    else if f = noFoldFlag then
      match v with
      | .bool b => some ("fold_constants", .ofScalar (.bool !b))
      | v => some ("fold_constants", .ofScalar v)
    -- keys are written with underscores where flags have dashes
    else some (f.name.map fun b => if b = 45 then 95 else b, .ofScalar v)

/-- The layer of the flags that were set. Of two values of a flag, the last one counts. -/
def layer (p : Flag.Parsed) : Layer := p.set.reverse.filterMap entry?

/-- The settings file that flags ask for. -/
def askedFile (p : Flag.Parsed) : Text :=
  match p.value configFlag with
  | .text t => t
  | _ => []

/-! ### Arguments -/

/-- How many arguments a command takes. -/
inductive Arity where
  | any
  | none
  | atLeast (n : Nat)
  | exactly (n : Nat)
  | atMost (n : Nat)

/-- How many arguments a command takes. -/
def arity : Command → Arity
  | root | help => .any
  | check => .atLeast 1
  | symbols => .exactly 1
  | init => .atMost 1
  | version | completion | script _ => .none
  | complete _ => .atLeast 1

/-- Why words ask for nothing. -/
inductive UsageError where
  | unknownCommand (word path : Text) (suggestions : List Text)
  | tooFew (least given : Nat)
  | wrongCount (wanted given : Nat)
  | tooMany (most given : Nat)
  deriving DecidableEq, Repr

/-- How an error is worded. -/
def UsageError.message : UsageError → Text
  | unknownCommand word path suggestions =>
    let lines : Text := suggestions.flatMap fun s => Text.ofString "\t" ++ s ++ "\n"
    let hint : Text := if suggestions.isEmpty then [] else "\n\nDid you mean this?\n" ++ lines
    "unknown command " ++ word.quoted ++ " for " ++ path.quoted ++ hint
  | tooFew least given =>
    "requires at least " ++ Text.ofNat least ++ " arg(s), only received " ++ Text.ofNat given
  | wrongCount wanted given =>
    "accepts " ++ Text.ofNat wanted ++ " arg(s), received " ++ Text.ofNat given
  | tooMany most given =>
    "accepts at most " ++ Text.ofNat most ++ " arg(s), received " ++ Text.ofNat given

/-- Whether a command takes the given arguments. -/
def checkArgs (c : Command) (args : List Text) : Except UsageError PUnit :=
  let n := args.length
  match c.arity, args with
  | .any, _ | .none, [] => .ok ()
  -- an argument of a command that takes none looks like a command below it
  | .none, word :: _ => .error (.unknownCommand word c.path [])
  | .atLeast k, _ => if n < k then .error (.tooFew k n) else .ok ()
  | .exactly k, _ => if n = k then .ok () else .error (.wrongCount k n)
  | .atMost k, _ => if k < n then .error (.tooMany k n) else .ok ()

/-! ### Finding a command -/

/-- Whether a word is a flag that takes the next word, as far as can be told before the command is
known. -/
def takesNext (fs : List Flag) (w : Text) : Bool :=
  !w.contains 61 &&
    match w with
    -- a flag that is not known is thought to take a value
    | 45 :: 45 :: name => !(Flag.named? fs name).any Flag.isSwitch
    | [45, l] => !(Flag.lettered? fs l).any Flag.isSwitch
    | _ => false

/-- The words that are neither flags nor their values. The last word is never taken for a value. -/
def plainWords (fs : List Flag) : (taken : Bool) → List Text → List Text
  | _, [] => []
  | true, _ :: rest => plainWords fs false rest
  | false, w :: rest =>
    if w = "--" then []
    else if takesNext fs w then if rest.length ≤ 1 then [] else plainWords fs true rest
    else if w = [] || w.head? = some 45 then plainWords fs false rest
    else w :: plainWords fs false rest

/-- The words without the first that is equal to a given one and neither a flag nor the value of one. -/
def dropWord (fs : List Flag) (word : Text) : (taken : Bool) → List Text → List Text
  | _, [] => []
  | true, w :: rest => w :: dropWord fs word false rest
  | false, w :: rest =>
    -- after the end of the flags nothing names a command
    if w = "--" then w :: rest
    else if takesNext fs w then w :: dropWord fs word true rest
    else if w = word && w.head? != some 45 then rest
    else w :: dropWord fs word false rest

/-- The flags that are known before a command runs. -/
def earlyFlags (c : Command) : List Flag := c.ownFlags ++ sharedFlags

/-- Follow words down the tree of commands. -/
def descend : (fuel : Nat) → Command → List Text → Command × List Text
  | 0, c, words => (c, words)
  | fuel + 1, c, words =>
    match plainWords c.earlyFlags false words with
    | [] => (c, words)
    | word :: _ =>
      match c.children.find? fun d => d.name == word with
      -- the word is an argument of the command that was reached
      | none => (c, words)
      | some d => descend fuel d (dropWord c.earlyFlags word false words)

/-! ### Suggestions -/

/-- The next row of a table of distances: from the row before it and the distance of its first
entry. -/
def distanceRow (b : UInt8) (target : Text) (before : List Nat) (first : Nat) : List Nat :=
  let step (acc : List Nat × Nat × List Nat) (t : UInt8) : List Nat × Nat × List Nat :=
    let (row, left, above) := acc
    match above with
    | diagonal :: up :: _ =>
      -- equal bytes cost nothing; otherwise replace, erase or insert, whatever is cheapest
      let d := if b = t then diagonal else 1 + min diagonal (min up left)
      (row ++ [d], d, above.drop 1)
    | _ => acc
  (target.foldl step ([first], first, before)).1

/-- How many bytes have to be inserted, erased or replaced to turn one text into another. -/
def distance (source target : Text) : Nat :=
  let start := List.range (target.length + 1)
  let rows (acc : List Nat × Nat) (b : UInt8) : List Nat × Nat :=
    (distanceRow b target acc.1 (acc.2 + 1), acc.2 + 1)
  (source.foldl rows (start, 0)).1.getLast?.getD 0

/-- The greatest distance at which a command is suggested. -/
def nearness : Nat := 2

/-- Whether a command is shown to users. -/
def isShown : Command → Bool
  | complete _ | help => false
  | _ => true

/-- The commands that a word may mean: those that are near, and those that start with it. Case does not
matter. -/
def suggestions (c : Command) (word : Text) : List Text :=
  let lower := word.lower
  (c.children.filter fun d =>
    d.isShown && (distance lower d.name ≤ nearness || Text.startsWith d.name lower)).map name

/-- The command that words name, and the words that are left. At the root every word has to name a
command. -/
def find (words : List Text) : Except UsageError (Command × List Text) :=
  let (c, rest) := descend (words.length + 1) root words
  match c, plainWords c.earlyFlags false rest with
  | root, word :: _ => .error (.unknownCommand word c.path (c.suggestions word))
  | _, _ => .ok (c, rest)

end Command
end Slang
