import Slang.Compiled
import Slang.Json
import Slang.Report.Grid
import Slang.Yaml.Writer
/-!
# Symbol reports

The rows of a symbol table in one of three formats: a grid for readers, JSON and YAML for programs.
-/

namespace Slang.Report

/-- How rows are written. -/
inductive Format where
  | table
  | json
  | yaml
  deriving DecidableEq, Repr

namespace Format

/-- All formats, the usual one first. -/
def all : List Format := [table, json, yaml]

/-- The name of a format. -/
def name : Format → Text
  | table => "table"
  | json => "json"
  | yaml => "yaml"

/-- The format with a name; no name stands for the usual one. -/
def ofName? (n : Text) : Option Format :=
  if n.isEmpty then some table else all.find? fun f => f.name == n

/-- What is said about a format that does not exist. -/
def unknown (n : Text) : Text := "unknown output format: " ++ n.quoted

end Format

/-- The rows of a compiled source; a source with syntax errors has none. -/
def ofCompiled (c : Compiled) : List Row :=
  match c.table with
  | some t => rows t Analysis.globalScope
  | none => []

/-- Rows in a format. Where there is no list of rows, JSON says so; the other formats show an empty
list. -/
def render (f : Format) (rows : Option (List Row)) : Text :=
  let given := rows.getD []
  match f, rows with
  | .table, _ => grid given
  | .json, none => "null\n"
  | .json, some rs => Json.arrayLines .report (rs.map Row.record) ++ "\n"
  | .yaml, _ => Yaml.sequence 2 (given.map Row.record)

end Slang.Report
