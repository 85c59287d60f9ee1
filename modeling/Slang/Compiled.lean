import Slang.Analysis.Program
import Slang.Tree.Parser
import Slang.Log
/-!
# Compiling a source

Compiling a source gives its program, its symbols and scopes, and its diagnostics in the order of
positions. A source with syntax errors is not analysed: it has no symbols, and all its diagnostics
are syntax errors. Compiling also says what it did, as log entries that carry the name of the file.
-/

namespace Slang

/-- What comes of compiling a source. -/
structure Compiled where
  path : Text
  program : Program
  /-- The symbols and scopes, unless the source has syntax errors. -/
  table : Option Table
  diagnostics : List Diagnostic
  log : List Log.Entry

namespace Compiled

/-- Whether a compiled source has an error. -/
def hasErrors (c : Compiled) : Bool := Diagnostic.hasErrors c.diagnostics

/-- An entry about a file. -/
def entry (path message : Text) (attrs : Record) : Log.Entry :=
  ⟨.debug, message, ("file", .text path) :: attrs⟩

/-- A count as a scalar. -/
def count {α : Type} (l : List α) : Scalar := .int l.length

/-- The log entry for something that happened during analysis. -/
def eventEntry (path : Text) : Analysis.Event → Log.Entry
  | .finding f =>
    entry path "diagnostic" [("severity", .text f.diagnostic.severity.title),
      ("line", .int f.pos.line), ("message", .text f.diagnostic.message)]
  | .hoisted name descriptor =>
    entry path "hoisted function" [("name", .text name), ("descriptor", .text descriptor)]
  | .inferred name descriptor =>
    entry path "inferred function" [("name", .text name), ("descriptor", .text descriptor)]

/-- A source with syntax errors. -/
def ofFaults (path : Text) (r : Parser.Result) : Compiled :=
  ⟨path, r.program, none, Diagnostic.sort (r.faults.map Fault.diagnostic),
    [entry path "parse failed" [("errors", count r.faults)]]⟩

/-- A source that was read without errors. -/
def ofProgram (options : Analysis.Options) (path : Text) (p : Program) : Compiled :=
  let (a, result) := (Analyzer.new options).analyze (some p)
  let diagnostics := Diagnostic.sort a.diagnostics
  let last := entry path "compiled" [("symbols", count (result.table.symbolsOf Analysis.globalScope)),
    ("errors", count (Diagnostic.errors diagnostics)),
    ("warnings", count (Diagnostic.warnings diagnostics))]
  ⟨path, p, some result.table, diagnostics, result.trace.map (eventEntry path) ++ [last]⟩

/-- Compile a source text. -/
def ofSource (options : Analysis.Options) (path src : Text) : Compiled :=
  let r := Parser.parse src
  if r.faults.isEmpty then ofProgram options path r.program else ofFaults path r

end Compiled
end Slang
