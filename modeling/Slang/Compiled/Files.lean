import Slang.Compiled
import Slang.FileTree
/-!
# Compiling files

A file is compiled if its name has the extension of sources, if the work was not called off, and if it
can be read; this is the order in which it is checked. Several files are compiled in the order of their
paths, as far as the first that fails.
-/

namespace Slang

/-- Why a file is not compiled. -/
inductive SourceError where
  | badExtension (path wanted : Text)
  | canceled
  | unreadable (failure : FileFailure)
  deriving DecidableEq, Repr

/-- How an error is worded. -/
def SourceError.message : SourceError → Text
  | badExtension path wanted =>
    "unexpected source file extension: " ++ path ++ " (source must have " ++ wanted ++ " extension)"
  | canceled => "context canceled"
  | unreadable failure => "read source: " ++ failure.message

/-- How files are compiled. -/
structure CompileRequest where
  options : Analysis.Options
  /-- The extension of sources; an empty one allows every file. -/
  extension : Text
  /-- Whether the work was called off before it began. -/
  canceled : Bool

namespace Compiled

/-- Whether a path has the extension of sources. -/
def hasExtension (r : CompileRequest) (path : Text) : Bool :=
  r.extension = [] || Path.extension path = r.extension

/-- Compile a file. -/
def ofFile (t : FileTree) (r : CompileRequest) (path : Text) : Except SourceError Compiled :=
  if !hasExtension r path then .error (.badExtension path r.extension)
  else if r.canceled then .error .canceled
  else
    match t.read path with
    | .ok content => .ok (ofSource r.options path content)
    | .error e => .error (.unreadable e)

/-- Compile files in order, as far as the first that fails. The result has the files before it, and why
it failed. -/
def ofFiles (t : FileTree) (r : CompileRequest) : List Text → List Compiled × Option SourceError
  | [] => ([], none)
  | path :: rest =>
    match ofFile t r path with
    | .error e => ([], some e)
    | .ok c =>
      let (cs, e) := ofFiles t r rest
      (c :: cs, e)

end Compiled
end Slang
