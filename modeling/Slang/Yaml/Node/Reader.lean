import Slang.Yaml.Node
import Slang.Yaml.Token.Lexer
/-!
# Reading a YAML document

Nodes from tokens. A node keeps its anchor's name from where it starts, so an alias inside a list or a
mapping can have the name of what it stands in.

* `Node.ofText?` reads the first document of a text; a text without a document has no node.
-/

namespace Slang.Yaml

namespace Reader

/-- The anchors so far, the last one first. The node of an anchor that is still being read is not
there yet. -/
abbrev Anchors := List (Text × Option Node)

/-- What a step of reading gives: a result, the anchors and the tokens that are left. -/
abbrev Step (α : Type) := Option (α × Anchors × List Token)

/-- The next token, if it can be read. -/
def peek? : List Token → Option Token
  | [] | .unreadable :: _ => none
  | t :: _ => some t

/-- What is said before a node: a name for it and a tag. -/
structure Props where
  anchor : Option Text
  tag : Option Text

/-- The tag with a handle, unless the handle has no meaning. -/
def tag? (handles : List (Text × Text)) (handle rest : Text) : Option Text :=
  if handle.isEmpty then some rest
  else
    match handles.lookup handle with
    | some full => some (full ++ rest)
    | none =>
      if handle = "!" then some ("!" ++ rest)
      else if handle = "!!" then some (commonTag ++ rest)
      else none

/-- The name and the tag of a node, in either order. -/
def props? (handles : List (Text × Text)) (ts : List Token) : Option (Props × List Token) :=
  match ts with
  | .anchor a :: .tag h r :: rest => (tag? handles h r).map fun t => (⟨some a, some t⟩, rest)
  | .tag h r :: .anchor a :: rest => (tag? handles h r).map fun t => (⟨some a, some t⟩, rest)
  | .anchor a :: rest => some (⟨some a, none⟩, rest)
  | .tag h r :: rest => (tag? handles h r).map fun t => (⟨none, some t⟩, rest)
  | _ => some (⟨none, none⟩, ts)

/-- Remember that a node with a name is being read. -/
def Props.opened (p : Props) (a : Anchors) : Anchors :=
  match p.anchor with
  | some name => (name, none) :: a
  | none => a

/-- A node with its name, if it has one. -/
def Props.named (p : Props) (n : Node) : Node :=
  match p.anchor with
  | some name => n.named name
  | none => n

/-- Remember a node that was read, in the place that was kept for it among the anchors. Before it
was opened there were a given number of them. -/
def Props.closed (p : Props) (before : Nat) (n : Node) (a : Anchors) : Anchors :=
  match p.anchor with
  | some name => a.set (a.length - 1 - before) (name, some n)
  | none => a

/-- The node that an alias stands for. -/
def target? (a : Anchors) (name : Text) : Option Node :=
  (a.lookup name).map fun
    | some n => .ref name n
    | none => .inner name

/-- Where a node stands decides which tokens can be its first. -/
structure Place where
  /-- Outside brackets. -/
  block : Bool
  /-- As a key or value of a block mapping, where the items of a list need no indentation. -/
  ofMapping : Bool

/-- A place inside brackets. -/
def Place.flow : Place := ⟨false, false⟩

mutual

/-- A node. -/
def node (handles : List (Text × Text)) : (fuel : Nat) → Place → Anchors → List Token → Step Node
  | 0, _, _, _ => none
  | fuel + 1, place, a, ts =>
    match peek? ts, ts with
    | none, _ | some _, [] => none
    | some (.ref name), _ :: rest => (target? a name).map (·, a, rest)
    | some _, _ =>
      (props? handles ts).bind fun (p, ts) =>
        let within := p.opened a
        let done (n : Node) (inside : Anchors) (ts : List Token) : Node × Anchors × List Token :=
          (p.named n, p.closed a.length (p.named n) inside, ts)
        match peek? ts, ts with
        | none, _ | some _, [] => none
        | some t, _ :: rest =>
          -- no token says that a sequence starts which is not indented
          if place.ofMapping && t == .dash then
            (looseItems handles fuel within ts).map fun (ns, a, ts) => done (.list ns) a ts
          else
            match t with
            | .scalar look cs =>
              some (done (.ofScalar look p.tag (cs.flatMap Text.ofChar)) within rest)
            | .flowSequence =>
              (flowItems handles fuel true within rest).map fun (ns, a, ts) => done (.list ns) a ts
            | .flowMapping =>
              (flowPairs handles fuel true within rest).map fun (ps, a, ts) =>
                done (.mapping ps) a ts
            | .blockSequence =>
              if place.block then
                (blockItems handles fuel within rest).map fun (ns, a, ts) => done (.list ns) a ts
              else none
            | .blockMapping =>
              if place.block then
                (blockPairs handles fuel within rest).map fun (ps, a, ts) => done (.mapping ps) a ts
              else none
            | _ =>
              -- a name or a tag with nothing after it makes an empty scalar
              if p.anchor.isSome || p.tag.isSome then
                some (done (.ofScalar .plain p.tag []) within ts)
              else none

/-- A node, or nothing before one of some tokens. -/
def optional (handles : List (Text × Text)) : (fuel : Nat) → Place → (stop : List Token) → Anchors →
    List Token → Step Node
  | 0, _, _, _, _ => none
  | fuel + 1, place, stop, a, ts =>
    (peek? ts).bind fun t =>
      if stop.contains t then some (.absent, a, ts) else node handles fuel place a ts

/-- The items of a block sequence, to its end. -/
def blockItems (handles : List (Text × Text)) : (fuel : Nat) → Anchors → List Token →
    Step (List Node)
  | 0, _, _ => none
  | fuel + 1, a, ts =>
    match peek? ts with
    | some .dash =>
      (optional handles fuel ⟨true, false⟩ [.dash, .blockEnd] a ts.tail).bind fun (n, a, ts) =>
        (blockItems handles fuel a ts).map fun (ns, a, ts) => (n :: ns, a, ts)
    | some .blockEnd => some ([], a, ts.tail)
    | _ => none

/-- The items of a block sequence that is not indented: they end with the first token that is not a
dash. -/
def looseItems (handles : List (Text × Text)) : (fuel : Nat) → Anchors → List Token →
    Step (List Node)
  | 0, _, _ => none
  | fuel + 1, a, ts =>
    match peek? ts with
    | some .dash =>
      (optional handles fuel ⟨true, false⟩ [.dash, .key, .value, .blockEnd] a ts.tail).bind
        fun (n, a, ts) => (looseItems handles fuel a ts).map fun (ns, a, ts) => (n :: ns, a, ts)
    | some _ => some ([], a, ts)
    | none => none

/-- The pairs of a block mapping, to its end. -/
def blockPairs (handles : List (Text × Text)) : (fuel : Nat) → Anchors → List Token →
    Step (List (Node × Node))
  | 0, _, _ => none
  | fuel + 1, a, ts =>
    let stop : List Token := [.key, .value, .blockEnd]
    match peek? ts with
    | some .key =>
      (optional handles fuel ⟨true, true⟩ stop a ts.tail).bind fun (k, a, ts) =>
        (peek? ts).bind fun t =>
          let value : Step Node :=
            -- a key may stand without a value
            if t == .value then optional handles fuel ⟨true, true⟩ stop a ts.tail
            else some (.absent, a, ts)
          value.bind fun (v, a, ts) =>
            (blockPairs handles fuel a ts).map fun (ps, a, ts) => ((k, v) :: ps, a, ts)
    | some .blockEnd => some ([], a, ts.tail)
    | _ => none

/-- The value of a pair inside brackets, after its key. -/
def flowValue (handles : List (Text × Text)) : (fuel : Nat) → (last : Token) → Anchors →
    List Token → Step Node
  | 0, _, _, _ => none
  | fuel + 1, last, a, ts =>
    (peek? ts).bind fun t =>
      if t == .value then optional handles fuel .flow [.comma, last] a ts.tail
      else some (.absent, a, ts)

/-- The items of a sequence in brackets, to its end. A pair is an item, too: a mapping of one pair.
Where the key of a pair is left out, the token in its place is taken for it. -/
def flowItems (handles : List (Text × Text)) : (fuel : Nat) → (first : Bool) → Anchors →
    List Token → Step (List Node)
  | 0, _, _, _ => none
  | fuel + 1, first, a, ts =>
    match peek? ts with
    | none => none
    | some .flowSequenceEnd => some ([], a, ts.tail)
    | some t =>
      if !first && t != .comma then none
      else
        let ts := if first then ts else ts.tail
        match peek? ts with
        | none => none
        | some .flowSequenceEnd => some ([], a, ts.tail)
        | some .key =>
          (peek? ts.tail).bind fun t =>
            let key : Step Node :=
              if [.value, .comma, .flowSequenceEnd].contains t then some (.absent, a, ts.tail.tail)
              else node handles fuel .flow a ts.tail
            key.bind fun (k, a, ts) =>
              (flowValue handles fuel .flowSequenceEnd a ts).bind fun (v, a, ts) =>
                (flowItems handles fuel false a ts).map fun (ns, a, ts) =>
                  (.mapping [(k, v)] :: ns, a, ts)
        | some _ =>
          (node handles fuel .flow a ts).bind fun (n, a, ts) =>
            (flowItems handles fuel false a ts).map fun (ns, a, ts) => (n :: ns, a, ts)

/-- The pairs of a mapping in brackets, to its end. -/
def flowPairs (handles : List (Text × Text)) : (fuel : Nat) → (first : Bool) → Anchors →
    List Token → Step (List (Node × Node))
  | 0, _, _, _ => none
  | fuel + 1, first, a, ts =>
    match peek? ts with
    | none => none
    | some .flowMappingEnd => some ([], a, ts.tail)
    | some t =>
      if !first && t != .comma then none
      else
        let ts := if first then ts else ts.tail
        match peek? ts with
        | none => none
        | some .flowMappingEnd => some ([], a, ts.tail)
        | some .key =>
          (optional handles fuel .flow [.value, .comma, .flowMappingEnd] a ts.tail).bind
            fun (k, a, ts) =>
              (flowValue handles fuel .flowMappingEnd a ts).bind fun (v, a, ts) =>
                (flowPairs handles fuel false a ts).map fun (ps, a, ts) => ((k, v) :: ps, a, ts)
        | some _ =>
          (node handles fuel .flow a ts).bind fun (k, a, ts) =>
            (flowPairs handles fuel false a ts).map fun (ps, a, ts) => ((k, .absent) :: ps, a, ts)

end

/-- The directives before a document: the handles of tags, unless a directive is repeated or asks
for another version. -/
def directives? (versioned : Bool) (handles : List (Text × Text)) : List Token →
    Option (List (Text × Text) × List Token)
  | .version major minor :: rest =>
    if versioned || major != 1 || minor != 1 then none else directives? true handles rest
  | .tagShort handle full :: rest =>
    if (handles.lookup handle).isSome then none
    else directives? versioned ((handle, full) :: handles) rest
  | .documentStart :: rest => some (handles, rest)
  | _ => none

/-- The tokens before which a document has no content. -/
def isOutside : Token → Bool
  | .version _ _ | .tagShort _ _ | .documentStart | .documentEnd | .finish => true
  | _ => false

/-- The first document: nothing if there is none. -/
def document? (ts : List Token) : Option (Option Node) :=
  let fuel := 3 * ts.length + 3
  let content (handles : List (Text × Text)) (ts : List Token) : Option (Option Node) :=
    (node handles fuel ⟨true, false⟩ [] ts).bind fun (n, _, rest) =>
      (peek? rest).map fun _ => some n
  (peek? ts).bind fun t =>
    match t with
    | .finish => some none
    | .version _ _ | .tagShort _ _ | .documentStart =>
      (directives? false [] ts).bind fun (handles, rest) =>
        (peek? rest).bind fun t => if isOutside t then some (some .absent) else content handles rest
    | _ => content [] ts

end Reader

/-- The first document of a text: nothing inside if there is none, nothing at all if it cannot be
read. -/
def Node.ofText? (t : Text) : Option (Option Node) := (Token.ofText? t).bind Reader.document?

end Slang.Yaml
