import Slang.Path
/-!
# Trees of files

A **tree** says what stands at each place: a file with its content, or a directory. A place is the
list of names on the way from the root. A path leads to a place from the root or from the working
directory, and every name on the way but the last has to be a directory.

* `FileTree.read`, `FileTree.write` and `FileTree.makeDirs` are the operations, each with the error it
  fails with.
-/

namespace Slang

/-- The names from the root on. -/
abbrev Place := List Text

/-- What can stand at a place. -/
inductive FileEntry where
  | file (content : Text)
  | directory
  deriving DecidableEq, Repr

/-- Why an operation on a path fails. -/
inductive FileError where
  | notFound
  | notDirectory
  | isDirectory
  | exists
  | tooLong
  /-- The path holds a byte of value zero. -/
  | notPath
  deriving DecidableEq, Repr

/-- How a reason is worded. -/
def FileError.message : FileError → Text
  | notFound => "no such file or directory"
  | notDirectory => "not a directory"
  | isDirectory => "is a directory"
  | .exists => "file exists"
  | tooLong => "file name too long"
  | notPath => "invalid argument"

/-- A failed operation: what was tried, on which path, and why it failed. -/
structure FileFailure where
  action : Text
  path : Text
  reason : FileError
  deriving DecidableEq, Repr

/-- How a failed operation is worded. -/
def FileFailure.message (f : FileFailure) : Text :=
  f.action ++ " " ++ f.path ++ ": " ++ f.reason.message

/-- Files and directories, and the working directory. -/
structure FileTree where
  entries : List (Place × FileEntry)
  /-- The place where relative paths start. -/
  work : Place
  /-- The path of the working directory. -/
  workPath : Text

namespace FileTree

/-- What stands at a place. The root is a directory. -/
def entry? (t : FileTree) (p : Place) : Option FileEntry :=
  if p = [] then some .directory else t.entries.lookup p

/-- The tree with something else at a place. -/
def set (t : FileTree) (p : Place) (e : FileEntry) : FileTree :=
  let has := t.entries.any fun q => q.1 == p
  { t with entries :=
      if has then t.entries.map fun q => if q.1 = p then (p, e) else q else t.entries ++ [(p, e)] }

/-! ### Trees as lists -/

/-- A tree with nothing but its working directory. -/
def empty (work : Text) (workPath : Text) : FileTree := ⟨[([work], .directory)], [work], workPath⟩

/-- Put something at a place in the working directory, and directories on the way. -/
def plant (t : FileTree) (names : List Text) (e : FileEntry) : FileTree :=
  let above := (List.range names.length).tail.map fun n => t.work ++ names.take n
  (above.foldl (fun t p => t.set p .directory) t).set (t.work ++ names) e

/-- What stands in the working directory, by its names from there on. -/
def inWork (t : FileTree) : List (List Text × FileEntry) :=
  t.entries.filterMap fun (p, e) =>
    let rest := p.drop t.work.length
    if rest.isEmpty || t.work ++ rest != p then none else some (rest, e)

/-- The directories in the working directory, and the files that are new or have another content than
before. -/
def changedSince (before now : FileTree) : List (List Text × FileEntry) :=
  now.inWork.filter fun (names, e) =>
    match e with
    | .directory => true
    | e => before.entry? (before.work ++ names) != some e

/-! ### Where paths lead -/

/-- The longest name, in bytes. -/
def longestName : Nat := 255

/-- The longest path, in bytes. -/
def longestPath : Nat := 4095

/-- Follow names from a directory. The last name may be new. -/
def follow (t : FileTree) : Place → List Text → Except FileError Place
  | at', [] => .ok at'
  | at', name :: rest =>
    if name = [] || name = "." then follow t at' rest
    -- above the root there is the root again
    else if name = ".." then follow t at'.dropLast rest
    else if longestName < name.length then .error .tooLong
    else
      match rest, t.entry? (at' ++ [name]) with
      -- whether something stands there is for the caller to see
      | [], _ => .ok (at' ++ [name])
      | _, some .directory => follow t (at' ++ [name]) rest
      | _, some (.file _) => .error .notDirectory
      | _, none => .error .notFound

/-- The directory where a path starts. -/
def base (t : FileTree) (path : Text) : Place := if Path.isAbsolute path then [] else t.work

/-- The place that names lead to from the start of a path. -/
def reach (t : FileTree) (path : Text) (names : List Text) : Except FileError Place :=
  if path = [] then .error .notFound
  else if path.contains 0 then .error .notPath
  else if longestPath < path.length then .error .tooLong
  else t.follow (t.base path) names

/-- The place that a path leads to. -/
def place (t : FileTree) (path : Text) : Except FileError Place := t.reach path (Path.parts path)

/-- What a path leads to. -/
def stat (t : FileTree) (path : Text) : Except FileError FileEntry :=
  (t.place path).bind fun p =>
    match t.entry? p with
    | some e => .ok e
    | none => .error .notFound

/-- Whether a path leads to something. -/
def has (t : FileTree) (path : Text) : Bool :=
  match t.stat path with
  | .ok _ => true
  | .error _ => false

/-! ### Operations -/

/-- The content of a file. -/
def read (t : FileTree) (path : Text) : Except FileFailure Text :=
  match t.stat path with
  | .ok (.file content) => .ok content
  | .ok .directory => .error ⟨"read", path, .isDirectory⟩
  | .error e => .error ⟨"open", path, e⟩

/-- Give a file a content. The file may be new. -/
def write (t : FileTree) (path content : Text) : Except FileFailure FileTree :=
  match t.place path with
  | .error e => .error ⟨"open", path, e⟩
  | .ok p =>
    match t.entry? p with
    | some .directory => .error ⟨"open", path, .isDirectory⟩
    | _ => .ok (t.set p (.file content))

/-- Make a directory, unless it is there. Slashes at the end of its path do not count, except for its
length. -/
def makeDir (t : FileTree) (path : Text) : Except FileFailure FileTree :=
  match t.stat path with
  | .ok .directory => .ok t
  | .ok (.file _) => .error ⟨"mkdir", path, .notDirectory⟩
  -- the slashes would ask for a directory that is not there yet
  | .error _ =>
    match t.reach path (Path.parts (Path.dropSlashes path)) with
    | .error e => .error ⟨"mkdir", path, e⟩
    | .ok p =>
      if (t.entry? p).isSome then .error ⟨"mkdir", path, .exists⟩ else .ok (t.set p .directory)

/-- Make directories one after the other, as far as the first that fails. -/
def makeEach (t : FileTree) : List Text → FileTree × Option FileFailure
  | [] => (t, none)
  | path :: rest =>
    match t.makeDir path with
    | .error e => (t, some e)
    | .ok t => t.makeEach rest

/-- Make a directory and those above it, unless they are there. What was made before a failure stays. -/
def makeDirs (t : FileTree) (path : Text) : FileTree × Option FileFailure :=
  t.makeEach (Path.chain path)

end FileTree
end Slang
