import Slang.Settings
import Slang.Text.Lower
import Slang.Yaml.Data
/-!
# Layers of settings

Settings come from several **layers**: the defaults, a settings file, the environment and the command
line. A layer gives values to some keys. Layers are put one over the other, and a layer hides what is
below it under its own keys. Only what is to be seen in the end has to fit its setting: a number can
stand for a text, a text for a number, and nothing stands for the zero of every type.

* `Layer.ofDocument?`, `Layer.ofEnvironment` and `Settings.layer` are the layers below the command line;
* `Layer.above` puts a layer over another one, and `Layer.stack` puts layers one over the other;
* `Settings.ofLayer?` decodes the settings of a layer.
-/

namespace Slang

/-- A value that is given for a key, not yet of the type of a setting. -/
inductive Given where
  | datum (d : Yaml.Datum)
  /-- A list or a mapping, which is no setting. -/
  | compound
  deriving DecidableEq, Repr

namespace Given

/-- A given scalar. -/
def ofScalar : Scalar → Given
  | .text t => datum (.str t)
  | .int n => datum (.int n)
  | .bool b => datum (.bool b)

/-- A text, or a value that stands for one. -/
def text? : Given → Option Text
  | datum (.str t) => some t
  | datum (.bool b) => some (if b then "1" else "0")
  | datum (.int n) => some (Text.ofInt n)
  | datum (.float d) => some d.written
  | datum .null => some []
  | datum .time | compound => none

/-- A truth value, or a value that stands for one: a number that is not zero is true, and the empty
text is false. -/
def bool? : Given → Option Bool
  | datum (.bool b) => some b
  | datum (.int n) => some (n != 0)
  | datum (.float d) => some !d.isZero
  | datum (.str t) => if t = [] then some false else Scalar.truth? t
  | datum .null => some false
  | datum .time | compound => none

/-- An integer of 64 bits, or a value that stands for one: a larger number wraps around, a fraction
is cut off, and the empty text is zero. -/
def int? : Given → Option Int
  | datum (.int n) => some (n.bmod Text.Numeral.wordCount)
  | datum (.float d) => some d.truncate
  | datum (.bool b) => some (if b then 1 else 0)
  | datum (.str t) =>
    if t = [] then some 0
    else
      match Text.Numeral.int64 t with
      | .ok n => some n
      | .error _ => none
  | datum .null => some 0
  | datum .time | compound => none

end Given

/-- Values by key. The first value of a key counts. -/
abbrev Layer := List (Text × Given)

namespace Layer

/-! ### A settings file -/

/-- What data give as the value of a key. -/
def givenData : Yaml.Data → Given
  | .scalar d => .datum d
  | .list _ | .mapping _ => .compound

/-- The layer of the entries of a mapping. Its keys are texts. -/
def ofEntries (entries : List (Yaml.Datum × Yaml.Data)) : Layer :=
  entries.filterMap fun (key, value) =>
    match key with
    | .str t => some (t, givenData value)
    | _ => none

/-- The layer of a document, which has to be a mapping or nothing. -/
def ofDocument? (document : Option Yaml.Node) : Option Layer :=
  (Yaml.Data.topLevel? document).map ofEntries

/-! ### The environment -/

/-- What the names of the variables start with. -/
def variableStart : Text := "SLANGC_"

/-- The key of a variable, in small letters. -/
def key? (name : Text) : Option Text :=
  match Text.dropStart? variableStart name with
  | none | some [] => none
  | some rest => some rest.lower

/-- The layer of an environment. A point in a name makes what stands before it a mapping, unless
that has a value of its own. Of two variables with the same key, the last one counts. -/
def ofEnvironment (env : List (Text × Text)) : Layer :=
  let keyed := env.reverse.filterMap fun (name, value) => (key? name).map (·, value)
  let plain := keyed.filterMap fun (key, value) =>
    if key.contains 46 then none else some (key, Given.datum (.str value))
  let nested := keyed.filterMap fun (key, _) =>
    (Text.cut? 46 key).map fun (start, _) => (start, Given.compound)
  -- a value of its own comes first, so it counts
  plain ++ nested

/-! ### One over the other -/

/-- A layer above another one, which it hides under its own keys. -/
def above (upper lower : Layer) : Layer :=
  upper ++ lower.filter fun e => (upper.lookup e.1).isNone

/-- Layers one over the other, the lowest first. -/
def stack (layers : List Layer) : Layer := layers.foldl (fun lower upper => upper.above lower) []

end Layer

namespace Settings

/-- The layer that gives every setting its value. -/
def layer (s : Settings) : Layer := s.record.map fun (key, v) => (key, .ofScalar v)

/-- The settings of a layer, unless a value does not fit its setting or a setting has no value. -/
def ofLayer? (l : Layer) : Option Settings := do
  let text (key : Text) : Option Text := (l.lookup key).bind Given.text?
  let bool (key : Text) : Option Bool := (l.lookup key).bind Given.bool?
  let int (key : Text) : Option Int := (l.lookup key).bind Given.int?
  return {
    sourceExt := ← text "source_ext"
    output := ← text "output"
    verbose := ← bool "verbose"
    logLevel := ← text "log_level"
    logFormat := ← text "log_format"
    foldConstants := ← bool "fold_constants"
    warnShadowing := ← bool "warn_shadowing"
    jobs := ← int "jobs" }

end Settings
end Slang
