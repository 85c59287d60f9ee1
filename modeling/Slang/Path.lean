import Slang.Text.Basic
/-!
# Paths

A path is a text whose parts are separated by slashes. These functions look at the text alone: what a
path leads to is a matter of a tree of files.
-/

namespace Slang.Path

/-- The byte between the parts of a path. -/
def slash : UInt8 := 47

/-- Whether a path starts at the root. -/
def isAbsolute (p : Text) : Bool := p.head? == some slash

/-- The parts of a path. Neighbouring slashes have an empty part between them. -/
def parts (p : Text) : List Text := Text.split slash p

/-- Drop the slashes at the end. -/
def dropSlashes (p : Text) : Text := (p.reverse.dropWhile (· == slash)).reverse

/-- The path as far as its last part, without the slash between them; nothing if that would be no
path, or the root. -/
def parent? (p : Text) : Option Text :=
  let start := ((dropSlashes p).reverse.dropWhile (· != slash)).reverse
  if 1 < start.length then some (p.take (start.length - 1)) else none

/-- A parent is shorter. -/
theorem length_lt_of_parent? {p q : Text} (h : parent? p = some q) : q.length < p.length := by
  have key : ((dropSlashes p).reverse.dropWhile (· != slash)).reverse.length ≤ p.length := by
    have h1 := (List.dropWhile_sublist (· != slash) (l := (dropSlashes p).reverse)).length_le
    have h2 := (List.dropWhile_sublist (· == slash) (l := p.reverse)).length_le
    simp only [dropSlashes, List.length_reverse, List.reverse_reverse] at *
    omega
  simp only [parent?] at h
  split at h
  · next hl =>
    cases h
    simp only [List.length_take]
    omega
  · cases h

/-- A path and the paths above it, the shortest first. -/
def chain (p : Text) : List Text :=
  match h : parent? p with
  | none => [p]
  | some q =>
    have := length_lt_of_parent? h
    chain q ++ [p]
termination_by p.length

/-- The ending of the last part, from its last point on. -/
def extension (p : Text) : Text :=
  let last := (p.reverse.takeWhile (· != slash)).reverse
  match Text.cutLast? 46 last with
  | some (_, after) => 46 :: after
  | none => []

/-- One more part after a list of parts in which no part is empty or a point: two points take a part
away, if there is one to take. -/
def addPart (absolute : Bool) (before : List Text) (part : Text) : List Text :=
  if part = [] || part = "." then before
  else if part = ".." then
    match before.getLast? with
    -- above the root is the root, but a relative path may leave where it starts
    | none => if absolute then [] else [part]
    | some last => if last = ".." then before ++ [part] else before.dropLast
  else before ++ [part]

/-- The shortest path of the same meaning, as far as its text shows. -/
def clean (p : Text) : Text :=
  let absolute := isAbsolute p
  let rest := Text.joinWith [slash] ((parts p).foldl (addPart absolute) [])
  if absolute then slash :: rest else if rest = [] then "." else rest

/-- A name inside a directory. -/
def join (dir name : Text) : Text :=
  if dir = [] then clean name else clean (dir ++ [slash] ++ name)

end Slang.Path
