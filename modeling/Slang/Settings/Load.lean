import Slang.FileTree
import Slang.Settings.Layer
import Slang.Yaml.Node.Reader
/-!
# Loading settings

Settings are loaded from the defaults, a settings file, the environment and the command line, each
above the one before. The settings file is the one that is asked for, or else the first of two that is
found in the working directory, if there is one.
-/

namespace Slang.Settings

/-- Why settings cannot be loaded. -/
inductive LoadError where
  /-- The settings file cannot be read, or is no mapping. -/
  | unreadable (path : Text)
  /-- A value does not fit its setting. -/
  | undecodable
  | invalid (i : InvalidSetting)
  deriving DecidableEq, Repr

/-- How an error is worded. -/
def LoadError.message : LoadError → Text
  | unreadable path => "error reading config file " ++ path
  | undecodable => "unable to decode config"
  | invalid i => i.message

/-- The names of settings files, the preferred one first. -/
def fileNames : List Text := ["slangc.yaml", "slangc.yml"]

/-- The name of the settings file in the working directory, if there is one. -/
def fileHere? (t : FileTree) : Option Text := fileNames.find? t.has

/-- The path of the settings file: the one that is asked for, or the one that is there. -/
def findFile (t : FileTree) (asked : Text) : Text :=
  if asked ≠ [] then asked
  else
    match fileHere? t with
    | some name => Path.join t.workPath name
    | none => []

/-- The layer of a settings file. -/
def fileLayer? (t : FileTree) (file : Text) : Option Layer :=
  match t.read (Path.clean file) with
  | .ok content => (Yaml.Node.ofText? content).bind Layer.ofDocument?
  | .error _ => none

/-- The settings file that is asked for or there, as it is opened. -/
def chosenFile? (t : FileTree) (asked : Text) : Option Text :=
  if asked ≠ [] then some asked else fileHere? t

/-- The layer of the settings file that is asked for or there; an empty one where there is none. -/
def chosenLayer (t : FileTree) (asked : Text) : Except LoadError Layer :=
  match chosenFile? t asked with
  | none => .ok []
  | some file =>
    match fileLayer? t file with
    | some l => .ok l
    | none => .error (.unreadable (findFile t asked))

/-- Load settings, and say which settings file was read. -/
def load (t : FileTree) (env : List (Text × Text)) (flags : Layer) (asked : Text) :
    Except LoadError (Settings × Text) := do
  let file ← chosenLayer t asked
  match ofLayer? (Layer.stack [default.layer, file, Layer.ofEnvironment env, flags]) with
  | none => throw .undecodable
  | some s =>
    match s.check with
    | .ok _ => return (s, findFile t asked)
    | .error i => throw (.invalid i)

end Slang.Settings
