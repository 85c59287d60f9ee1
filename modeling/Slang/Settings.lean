import Slang.Log
import Slang.Report
/-!
# Settings

What can be chosen: which files are sources, how reports and log lines look, what is logged, what the
analysis does, and how many files are compiled at a time. Settings have defaults, and not every value
is a valid one.

* `Settings.check` finds the first invalid setting, in a fixed order;
* `Settings.level` is the least level that is logged;
* `Settings.document` writes settings as they stand in a settings file.
-/

namespace Slang

/-- What can be chosen. -/
structure Settings where
  sourceExt : Text
  output : Text
  verbose : Bool
  logLevel : Text
  logFormat : Text
  foldConstants : Bool
  warnShadowing : Bool
  jobs : Int
  deriving DecidableEq, Repr

/-- A setting whose value is not valid. -/
inductive InvalidSetting where
  | sourceExt (given : Text)
  | output (given : Text)
  | logFormat (given : Text)
  | logLevel (given : Text)
  | jobs (given : Int)
  deriving DecidableEq, Repr

/-- How an invalid setting is worded. -/
def InvalidSetting.message (i : InvalidSetting) : Text :=
  let choice (key : Text) (given : Text) (names : List Text) : Text :=
    key ++ " " ++ given.quoted ++ " (want one of " ++ Text.joinWith ", " names ++ ")"
  "invalid configuration: " ++
    match i with
    | sourceExt given => "source_ext " ++ given.quoted ++ " must start with '.'"
    | output given => choice "output" given (Report.Format.all.map Report.Format.name)
    | logFormat given => choice "log_format" given (Log.Format.all.map Log.Format.name)
    | logLevel given => "log_level " ++ given.quoted
    | jobs given => "jobs must be at least 1, got " ++ Text.ofInt given

namespace Settings

/-- The settings where nothing was chosen. -/
def default : Settings where
  sourceExt := ".sl"
  output := "table"
  verbose := false
  logLevel := "warn"
  logFormat := "text"
  foldConstants := true
  warnShadowing := true
  jobs := 4

/-! ### Levels -/

/-- The least level that is logged. Verbose settings log everything down to debugging. -/
def level (s : Settings) : Except InvalidSetting Log.Level :=
  if s.verbose then .ok .debug
  else
    match Log.Level.ofName? s.logLevel with
    | some l => .ok l
    | none => .error (.logLevel s.logLevel)

/-! ### Valid settings -/

/-- The first invalid setting, if there is one. -/
def check (s : Settings) : Except InvalidSetting PUnit := do
  unless s.sourceExt.head? = some 46 ∧ 2 ≤ s.sourceExt.length do throw (.sourceExt s.sourceExt)
  unless (Report.Format.all.any fun f => f.name == s.output) do throw (.output s.output)
  unless (Log.Format.all.any fun f => f.name == s.logFormat) do throw (.logFormat s.logFormat)
  discard s.level
  if s.jobs < 1 then throw (.jobs s.jobs)

/-! ### Files -/

/-- The settings by key, in the order in which they are written. -/
def record (s : Settings) : Record :=
  [("source_ext", .text s.sourceExt), ("output", .text s.output), ("verbose", .bool s.verbose),
    ("log_level", .text s.logLevel), ("log_format", .text s.logFormat),
    ("fold_constants", .bool s.foldConstants), ("warn_shadowing", .bool s.warnShadowing),
    ("jobs", .int s.jobs)]

/-- The settings as a document. -/
def document (s : Settings) : Text := Yaml.mapping 4 s.record

/-- What the analysis is asked to do. -/
def options (s : Settings) : Analysis.Options := ⟨s.foldConstants, s.warnShadowing⟩

end Settings
end Slang
