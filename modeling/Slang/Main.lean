import Slang.Command.Run
/-!
# The program

The command line on the files and the environment of a process. A run is a function of a tree of files:
the program first looks at every path that the run may ask for, runs the command line on that tree, and
then puts what has changed back.
-/

namespace Slang.Console

/-- The string of a text. Bytes that belong to no character are lost. -/
def string (t : Text) : String := (String.fromUTF8? ⟨t.toArray⟩).getD ""

/-- The paths that a run may ask for: the settings files, the words of the command line and what follows
an equality sign in them, and the files of a new project there. -/
def mayAsk (words : List Text) : List Text :=
  let values := words.filterMap fun w => (Text.cut? 61 w).map Prod.snd
  let dirs : List Text := Text.ofString "." :: words
  Settings.fileNames ++ words ++ values ++ values.map Path.clean ++ words.map Path.clean
    ++ dirs.flatMap fun d => (Command.projectPaths d).map Prod.fst

/-- What stands at a path of the file system. -/
def look (path : Text) : IO (Option FileEntry) := do
  let file := (← IO.currentDir) / string path
  if ← file.isDir then return some .directory
  try
    return some (.file (← IO.FS.readBinFile file).data.toList)
  catch _ => return none

/-- Add what stands at a path and above it to a tree. -/
def lookAlong (t : FileTree) (path : Text) : IO FileTree :=
  (Path.chain path).foldlM (fun t p => do
    match t.place p, ← look p with
    | .ok place, some e => return t.set place e
    | _, _ => return t) t

/-- The part of the file system that a run may ask for. -/
def snapshot (words : List Text) : IO FileTree := do
  let here := Text.ofString (← IO.currentDir).toString
  let work := (Path.parts here).filter fun n => !n.isEmpty
  let above := (List.range (work.length + 1)).tail.map fun n => (work.take n, FileEntry.directory)
  (mayAsk words).foldlM lookAlong ⟨above, work, here⟩

/-- The variables of the environment that settings come from. -/
def environment : IO (List (Text × Text)) := do
  let upper (key : Text) : Text := Layer.variableStart ++ key.map Text.upperByte
  let names := Settings.default.record.map (fun f => upper f.1) ++ [Command.descriptionsVariable]
  names.filterMapM fun name => do
    return (← IO.getEnv (string name)).map fun value => (name, Text.ofString value)

/-- Put what has changed in a tree into the file system. -/
def putBack (before now : FileTree) : IO Unit :=
  now.entries.forM fun (place, e) => do
    if before.entry? place != some e then
      let path := "/" ++ string (Text.joinWith [Path.slash] place)
      match e with
      | .directory => IO.FS.createDirAll path
      | .file content => IO.FS.writeBinFile path ⟨content.toArray⟩

end Slang.Console

/-- Run the command line, and say why if it fails. -/
def main (args : List String) : IO UInt32 := do
  let words := args.map Slang.Text.ofString
  let before ← Slang.Console.snapshot words
  let (now, outcome) := Slang.Command.run (← Slang.Console.environment) before words
  Slang.Console.putBack before now
  (← IO.getStdout).write ⟨outcome.out.toArray⟩
  (← IO.getStderr).write ⟨outcome.err.toArray⟩
  match outcome.failure with
  | none => return 0
  | some f =>
    (← IO.getStderr).write ⟨(Slang.Text.ofString "Error: " ++ f.message ++ "\n").toArray⟩
    return 1
