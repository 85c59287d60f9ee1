import Slang.Command.Completion
/-!
# Running a command line

A command line is run on a tree of files and an environment. It gives what is written and the tree
afterwards. The order of what can go wrong is fixed: the words have to name a command, its flags have
to be well-formed, help is given if it is asked for, the number of arguments has to be right, the
settings have to load, and then the command does its work.

* `Command.runCheck`, `Command.runSymbols` and `Command.runInit` are the commands on settings that are
  loaded;
* `Command.run` is the whole.
-/

namespace Slang.Command

/-- What a running command knows: its settings, and how entries are logged. -/
structure Session where
  settings : Settings
  logger : Log.Logger

/-- What is logged for entries. -/
def Session.log (s : Session) (es : List Log.Entry) : Text := s.logger.output es

/-- How files are compiled. -/
def Session.request (s : Session) : CompileRequest :=
  ⟨s.settings.options, s.settings.sourceExt, false⟩

/-- What is logged when settings are loaded: from which file, and some of them. -/
def Session.opening (s : Session) (used : Text) : Text :=
  s.log [⟨.debug, "config loaded", [("file", .text used), ("output", .text s.settings.output),
    ("jobs", .int s.settings.jobs)]⟩]

/-- The number of this version. -/
def versionNumber : Text := "0.1.0"

/-! ### Checking and listing -/

/-- The diagnostics of a compiled file on its lines. -/
def diagnosticLines (c : Compiled) : Text := Diagnostic.render c.path c.diagnostics

/-- Compile files and write their diagnostics. It fails if one of them has an error. -/
def runCheck (s : Session) (t : FileTree) (paths : List Text) : Outcome :=
  let (compiled, error) := Compiled.ofFiles t s.request paths
  let logged := s.log (compiled.flatMap Compiled.log)
  match error with
  | some e => (Outcome.fail (.source e)).afterErr logged
  | none =>
    let failed := (compiled.filter Compiled.hasErrors).length
    let written := logged ++ compiled.flatMap diagnosticLines
    if 0 < failed then (Outcome.fail (.filesFailed failed compiled.length)).afterErr written
    else if s.settings.verbose then
      (Outcome.print ("✓ " ++ Text.ofNat compiled.length ++ " files ok\n")).afterErr written
    else (Outcome.print []).afterErr written

/-- The symbol report of a compiled file in the format of the settings. -/
def report (s : Session) (c : Compiled) : Outcome :=
  match Report.Format.ofName? s.settings.output with
  | none => .fail (.unknownFormat s.settings.output)
  | some f =>
    { out := Report.render f (some (Report.ofCompiled c))
      err := []
      failure := if c.hasErrors then some (.hasErrors c.path) else none }

/-- Compile a file, and write its diagnostics and its symbols. A file with syntax errors has no
symbols. -/
def runSymbols (s : Session) (t : FileTree) (path : Text) : Outcome :=
  match Compiled.ofFile t s.request path with
  | .error e => .fail (.source e)
  | .ok c =>
    let written := s.log c.log ++ diagnosticLines c
    match c.table with
    | none => (Outcome.fail (.syntaxErrors c.path)).afterErr written
    | some _ => (report s c).afterErr written

/-! ### A new project -/

/-- The first source of a new project. -/
def mainSource : Text :=
  "// Entry point for a new slang project.
let greeting = \"hello\";

fn greet(name: string): string \x7b
  return greeting + \", \" + name;
\x7d

let message = greet(\"world\");
"

/-- The files of a new project and their contents. -/
def projectFiles : List (Text × Text) :=
  [("slangc.yaml", Settings.default.document), ("main.sl", mainSource)]

/-- The files of a new project in a directory. -/
def projectPaths (dir : Text) : List (Text × Text) :=
  projectFiles.map fun (name, content) => (Path.join dir name, content)

/-- Write files one after the other, as far as the first that fails. -/
def writeFiles (s : Session) : FileTree → List (Text × Text) → FileTree × Outcome
  | t, [] => (t, .print [])
  | t, (path, content) :: rest =>
    match t.write path content with
    | .error e => (t, .fail (.cannotWrite path e))
    | .ok t =>
      let (t, o) := writeFiles s t rest
      (t, { o with
        out := "  created " ++ path ++ "\n" ++ o.out
        err := s.log [⟨.debug, "wrote file", [("path", .text path)]⟩] ++ o.err })

/-- Make a new project in a directory. Files that are there are not overwritten, unless by force. -/
def runInit (s : Session) (t : FileTree) (force : Bool) (dir : Text) : FileTree × Outcome :=
  let announced := "↪ scaffolding slang project in " ++ dir.quoted ++ " ...\n"
  let (t, o) : FileTree × Outcome :=
    match t.makeDirs dir with
    | (t', some e) => (t', .fail (.cannotCreate dir e))
    | (t', none) =>
      match (projectPaths dir).find? fun f => t'.has f.1 with
      | some f =>
        if force then writeFiles s t' (projectPaths dir) else (t', .fail (.alreadyExists f.1))
      | none => writeFiles s t' (projectPaths dir)
  (t, { o with out := announced ++ o.out })

/-! ### Help -/

/-- Words as a list in brackets, each between back quotes, or between double quotes if that is not
possible. -/
def backQuoted (words : List Text) : Text :=
  let plain (r : Rune) : Bool :=
    match r with
    | .stray _ => false
    | .char c => (c = '\t' || 0x20 ≤ c.toNat) && c.toNat != 0x7F && c != '\x60' && c != '\uFEFF'
  let one (w : Text) : Text := if w.runes.all plain then "\x60" ++ w ++ "\x60" else w.quoted
  "[" ++ Text.joinWith " " (words.map one) ++ "]"

/-- The help of the command that words name. -/
def runHelp (words : List Text) : Outcome :=
  match find words with
  | .ok (c, _) => .print c.helpText
  | .error _ =>
    ⟨[], "Unknown help topic " ++ backQuoted words ++ "\n" ++ root.usage false, none⟩

/-! ### The whole -/

/-- The variable that turns the descriptions of completions off. -/
def descriptionsVariable : Text := "SLANGC_COMPLETION_DESCRIPTIONS"

/-- Whether completions are described: by the way they are asked for, or else by the environment. -/
def describes (env : List (Text × Text)) (asked : Bool) : Bool :=
  asked && ((env.lookup descriptionsVariable).bind Scalar.truth?).getD true

/-- Do the work of a command. -/
def work (c : Command) (s : Session) (env : List (Text × Text)) (t : FileTree) (p : Flag.Parsed) :
    FileTree × Outcome :=
  match c, p.args with
  | check, paths => (t, runCheck s t paths)
  | symbols, path :: _ => (t, runSymbols s t path)
  | init, args => runInit s t (p.value forceFlag == .bool true) (args.head?.getD ".")
  | version, _ => (t, .print ("slangc " ++ versionNumber ++ "\n"))
  | complete described, words => (t, completed (describes env described) words)
  | script shell, _ => (t, .fail (.noScript shell))
  | c, _ => (t, .print c.helpText)

/-- Load the settings and do the work of a command. -/
def start (c : Command) (env : List (Text × Text)) (t : FileTree) (p : Flag.Parsed) :
    FileTree × Outcome :=
  match Settings.load t env (layer p) (askedFile p) with
  | .error e => (t, .fail (.settings e))
  | .ok (settings, used) =>
    match settings.level, Log.Format.ofName? settings.logFormat with
    | .ok level, some format =>
      let s : Session := ⟨settings, ⟨level, format⟩⟩
      let (t, o) := c.work s env t p
      (t, o.afterErr (s.opening used))
    | .error i, _ => (t, .fail (.settings (.invalid i)))
    | .ok _, none => (t, .fail (.settings (.invalid (.logFormat settings.logFormat))))

/-- The flags and arguments of a command. A request for completions takes every word as an argument. -/
def parse (c : Command) (words : List Text) : Except Flag.Error Flag.Parsed :=
  match c with
  | complete _ => .ok ⟨[], words⟩
  | c => Flag.parse c.flags words

/-- Run a command line. -/
def run (env : List (Text × Text)) (t : FileTree) (words : List Text) : FileTree × Outcome :=
  match find words with
  | .error e => (t, .fail (.usage e))
  | .ok (c, rest) =>
    match c.parse rest with
    | .error .helpWanted => (t, .print c.helpText)
    | .error e => (t, .fail (.flag e))
    | .ok p =>
      if p.value c.helpFlag == .bool true || !c.isRunnable then (t, .print c.helpText)
      else
        match c.checkArgs p.args, c with
        | .error e, _ => (t, .fail (.usage e))
        | .ok _, help => (t, runHelp p.args)
        | .ok _, c => c.start env t p

end Slang.Command
