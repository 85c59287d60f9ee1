import Slang.Compiled.Files
/-!
# Compiling files at once

A **batch** is a list of files that are compiled at once, each by a worker of its own. Workers are
started in the order of the paths, as long as fewer than a limit are at work. A worker does what
compiling one file takes, step by step, and puts the result into the cell of its file. The first
worker that fails leaves its error with the batch, and then calls off the work of the others; each of
them notices when it comes to look. When all workers have left, the batch answers with its error, if
it has one, and otherwise with its cells.

`act` is one step of a batch. Any step that is possible may be the next one.
-/

namespace Slang

/-- How far a worker is with its file. -/
inductive Worker where
  | started
  /-- The extension is the right one. -/
  | named
  /-- The work had not been called off. -/
  | allowed
  | loaded (content : Text)
  | compiled (c : Compiled)
  | failed (e : SourceError)
  /-- Its error is that of the batch; the others have not been told. -/
  | recorded
  /-- There is nothing more to do, but others still have to wait for its place. -/
  | leaving
  | left

/-- Whether a worker takes up a place. -/
def Worker.isActive : Worker → Bool
  | left => false
  | _ => true

/-- Files that are compiled at once. -/
structure Batch where
  /-- The workers that were started, in the order of their paths. -/
  workers : List Worker
  /-- One cell for each path. -/
  cells : List (Option Compiled)
  /-- The error of the first worker that failed. -/
  error : Option SourceError
  canceled : Bool
  answer : Option (Except SourceError (List (Option Compiled)))

namespace Batch

/-- What may happen next. -/
inductive Action where
  | start
  /-- The worker with a number takes a step. -/
  | work (i : Nat)
  | answer
  deriving DecidableEq, Repr

/-- A batch before anything happened. -/
def new (r : CompileRequest) (paths : List Text) : Batch :=
  ⟨[], List.replicate paths.length none, none, r.canceled, none⟩

/-- How many workers take up a place. -/
def active (b : Batch) : Nat := b.workers.countP Worker.isActive

/-- The batch with a worker at another stage. -/
def move (b : Batch) (i : Nat) (w : Worker) : Batch := { b with workers := b.workers.set i w }

section
variable (t : FileTree) (r : CompileRequest)

/-- One step of the worker with a number, by how far it is. -/
def step (path : Text) (i : Nat) (b : Batch) : Worker → Option Batch
  | .started =>
    some (b.move i
      (if Compiled.hasExtension r path then .named else .failed (.badExtension path r.extension)))
  | .named => some (b.move i (if b.canceled then .failed .canceled else .allowed))
  | .allowed =>
    match t.read path with
    | .ok content => some (b.move i (.loaded content))
    | .error e => some (b.move i (.failed (.unreadable e)))
  | .loaded content => some (b.move i (.compiled (Compiled.ofSource r.options path content)))
  | .compiled c => some ({ b with cells := b.cells.set i (some c) }.move i .leaving)
  | .failed e =>
    match b.error with
    | none => some ({ b with error := some e }.move i .recorded)
    -- only the first error is kept
    | some _ => some (b.move i .leaving)
  | .recorded => some ({ b with canceled := true }.move i .leaving)
  | .leaving => some (b.move i .left)
  | .left => none

/-- One step of a batch, if it is possible. -/
def act (jobs : Int) (paths : List Text) (b : Batch) : Action → Option Batch
  | .start =>
    -- a number of jobs that makes no sense stands for one
    if b.workers.length < paths.length ∧ (b.active : Int) < max jobs 1 then
      some { b with workers := b.workers ++ [.started] }
    else none
  | .work i =>
    match paths[i]?, b.workers[i]? with
    | some path, some w => step t r path i b w
    | _, _ => none
  | .answer =>
    if b.answer.isNone ∧ b.workers.length = paths.length ∧ b.active = 0 then
      some { b with answer := some (match b.error with
        | some e => .error e
        | none => .ok b.cells) }
    else none

/-- Steps of a batch, one after another. -/
def run (jobs : Int) (paths : List Text) : List Action → Batch → Option Batch
  | [], b => some b
  | a :: as, b => (act t r jobs paths b a).bind (run jobs paths as)

end

end Batch
end Slang
