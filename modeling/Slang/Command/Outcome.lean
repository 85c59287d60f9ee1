import Slang.Command
import Slang.Compiled.Files
/-!
# Outcomes of a command line

A command line writes to two channels, and it may fail. The failure is not written to either of them:
whoever runs the command line decides how to show it.
-/

namespace Slang

/-- Why a command line fails. -/
inductive Failure where
  | flag (e : Flag.Error)
  | usage (e : Command.UsageError)
  | settings (e : Settings.LoadError)
  | source (e : SourceError)
  /-- Some of the checked files have errors. -/
  | filesFailed (failed checked : Nat)
  | syntaxErrors (path : Text)
  | hasErrors (path : Text)
  | unknownFormat (name : Text)
  | alreadyExists (path : Text)
  | cannotCreate (dir : Text) (why : FileFailure)
  | cannotWrite (path : Text) (why : FileFailure)
  | noScript (shell : Shell)
  deriving DecidableEq, Repr

/-- How a failure is worded. -/
def Failure.message : Failure → Text
  | flag e => e.message
  | usage e => e.message
  | settings e => e.message
  | source e => e.message
  | filesFailed failed checked =>
    "compilation failed: " ++ Text.ofNat failed ++ " of " ++ Text.ofNat checked ++ " files have errors"
  | syntaxErrors path => "compilation failed: " ++ path ++ " has syntax errors"
  | hasErrors path => "compilation failed: " ++ path
  | unknownFormat name => Report.Format.unknown name
  | alreadyExists path => "file already exists: " ++ path ++ " (use --force to overwrite)"
  | cannotCreate dir why => "create " ++ dir ++ ": " ++ why.message
  | cannotWrite path why => "write " ++ path ++ ": " ++ why.message
  | noScript shell => "no completion script for " ++ shell.name

/-- What a command line writes, and whether it fails. -/
structure Outcome where
  out : Text
  err : Text
  failure : Option Failure
  deriving DecidableEq, Repr

namespace Outcome

/-- An outcome that writes nothing and fails. -/
def fail (f : Failure) : Outcome := ⟨[], [], some f⟩

/-- An outcome that writes to the first channel. -/
def print (t : Text) : Outcome := ⟨t, [], none⟩

/-- An outcome after something was written to the second channel. -/
def afterErr (o : Outcome) (t : Text) : Outcome := { o with err := t ++ o.err }

end Outcome
end Slang
