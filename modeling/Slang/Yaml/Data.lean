import Slang.Text.Base64
import Slang.Yaml.Node
/-!
# What a YAML document means

**Data** are nodes with their meaning: scalars are decoded by their tags, aliases are followed, and the
key `<<` brings in the pairs of other mappings. Only what is needed is decoded. The value of a key that
is nothing, and the value of a merged key that is there already, may be anything.

Following aliases can make data much larger than their document. So the **effort** is counted, and a
document is refused where too large a part of it goes into copies.

* `Data.decode` gives the data of a node;
* `Data.topLevel?` gives the entries of a document, which has to be a mapping or nothing.
-/

namespace Slang.Yaml

/-- What a node means. -/
inductive Data where
  | scalar (d : Datum)
  | list (items : List Data)
  /-- Of two entries with the same key the first counts. -/
  | mapping (entries : List (Datum × Data))
  deriving Repr

/-! ### Scalars -/

/-- The meaning of a number that is tagged as one with a fraction. An integer has to fit into 64
bits. -/
def asFloat? : Datum → Option Datum
  | .int n =>
    if n < Text.Numeral.signedBound then (Double.ofDecimal? (n < 0) n.natAbs 0).map .float else none
  | .float d => some (.float d)
  | _ => none

/-- What a scalar means under a tag, unless it does not look like that. A tag that asks for no look
makes it a text. -/
def datum? (tag raw : Text) : Option Datum :=
  let looked : Option Datum := if (resolve raw).tag = tag then some (resolve raw) else none
  if tag = "!!null" || tag = "!!bool" || tag = "!!int" || tag = "!!timestamp" then looked
  else if tag = "!!float" then asFloat? (resolve raw)
  else if tag = "!!binary" then (Text.Base64.decode? raw).map .str
  else some (.str raw)

/-! ### Effort -/

/-- How many nodes were decoded, and how many of them as copies that an alias asks for. -/
structure Effort where
  nodes : Nat
  copies : Nat
  deriving DecidableEq, Repr

namespace Effort

/-- Up to this many nodes nearly all may be copies. -/
def lowMark : Nat := 400000

/-- From this many nodes on only a tenth may be copies. -/
def highMark : Nat := 4000000

/-- Whether the copies are too large a part of the nodes. Small documents are never refused; the
part that is allowed sinks from 99 to 10 per cent between the two marks. -/
def isExcessive (e : Effort) : Bool :=
  let span := highMark - lowMark
  let allowed :=
    if e.nodes ≤ lowMark then 99 * span
    else if highMark ≤ e.nodes then 10 * span
    else 99 * span - 89 * (e.nodes - lowMark)
  100 < e.copies && 1000 < e.nodes && allowed * e.nodes < 100 * span * e.copies

/-- The effort with one more node, unless that is too much. -/
def add? (e : Effort) (copied : Bool) : Option Effort :=
  let more : Effort := ⟨e.nodes + 1, if copied then e.copies + 1 else e.copies⟩
  if more.isExcessive then none else some more

end Effort

/-! ### Keys -/

/-- What the keys of a mapping become: texts only, or any scalars. -/
inductive Keys where
  | texts
  | any
  deriving DecidableEq, Repr

/-- The keys of a mapping are texts if all of them are written as texts. -/
def Keys.ofPairs (pairs : List (Node × Node)) : Keys :=
  let isText (tag : Text) : Bool := tag = "!!str" || tag = Node.mergeTag
  if pairs.all fun p => p.1.tag?.any isText then texts else any

/-- What a decoded key becomes; a list or a mapping is no key. Among texts a scalar of another kind
is the text as it is written, and nothing is no key, but does no harm. -/
inductive Keyed where
  | none
  | key (d : Datum)

/-- What a key becomes, given its node and its data. -/
def Keys.keyed? (keys : Keys) (node : Node) : Data → Option Keyed
  | .list _ | .mapping _ => Option.none
  | .scalar d =>
    match keys, d with
    | any, d => some (.key d)
    | texts, .null => some .none
    | texts, .str t => some (.key (.str t))
    | texts, _ => some (.key (.str (node.raw?.getD [])))

/-! ### Mappings -/

/-- A mapping that is being decoded. -/
structure Filling where
  entries : List (Datum × Data)
  /-- While other mappings are merged in, the keys that they cannot give any more. -/
  taken : Option (List Datum)
  effort : Effort

/-- Decode the pairs of a mapping, given how to decode its own pairs, its keys alone, and the
mappings that it merges. Those come last, and what they give must not be among its own keys. -/
def Filling.withPairs (s : Filling) (pairs : List (Node × Node)) (own : Filling → Option Filling)
    (keys : Effort → Option (List Datum × Effort)) (merged : Filling → Option Filling) :
    Option Filling :=
  if Node.hasRepeat pairs then none
  else
    (own s).bind fun s =>
      if pairs.any fun p => p.1.isMerge then
        match s.taken with
        -- inside another merge the keys that are taken are known already
        | some _ => merged s
        | none =>
          (keys s.effort).bind fun (ks, e) =>
            (merged { s with taken := some ks, effort := e }).map ({ · with taken := none })
      else some s

namespace Data

mutual

/-- The data of a node, as a copy or not, after some effort. -/
def decode (copied : Bool) : Node → Effort → Option (Data × Effort)
  | .scalar tag raw, e => do
    let e ← e.add? copied
    return (scalar (← datum? tag raw), e)
  | .list items, e => do
    let (ds, e) ← decodeAll copied items (← e.add? copied)
    return (list ds, e)
  | .mapping pairs, e => do
    let keys := Keys.ofPairs pairs
    let s : Filling := ⟨[], none, ← e.add? copied⟩
    let s ← s.withPairs pairs (ownPairs copied keys pairs) (keyData copied pairs)
      (mergePairs copied keys pairs)
    return (mapping s.entries, s.effort)
  -- from here on everything is a copy
  | .ref _ target, e => do decode true target (← e.add? copied)
  -- a node inside itself has no data
  | .inner _, _ => none

/-- The data of nodes. -/
def decodeAll (copied : Bool) : List Node → Effort → Option (List Data × Effort)
  | [], e => some ([], e)
  | n :: rest, e => do
    let (d, e) ← decode copied n e
    let (ds, e) ← decodeAll copied rest e
    return (d :: ds, e)

/-- Add the pairs of a mapping that do not merge. The value of a key that is taken, or that is
nothing, is passed over. -/
def ownPairs (copied : Bool) (keys : Keys) : List (Node × Node) → Filling → Option Filling
  | [], s => some s
  | (k, v) :: rest, s =>
    if k.isMerge then ownPairs copied keys rest s
    else do
      let (d, e) ← decode copied k s.effort
      match ← keys.keyed? k d with
      | .none => ownPairs copied keys rest { s with effort := e }
      | .key key =>
        if s.taken.any (·.contains key) then ownPairs copied keys rest { s with effort := e }
        else
          let (value, e) ← decode copied v e
          ownPairs copied keys rest ⟨(key, value) :: s.entries, s.taken.map (key :: ·), e⟩

/-- What the keys of a mapping mean, whatever they become. -/
def keyData (copied : Bool) : List (Node × Node) → Effort → Option (List Datum × Effort)
  | [], e => some ([], e)
  | (k, _) :: rest, e => do
    let (d, e) ← decode copied k e
    let (ds, e) ← keyData copied rest e
    match d with
    | .scalar d => return (d :: ds, e)
    | _ => none

/-- Merge in what the key that merges asks for: a mapping, or the mappings of a list. -/
def mergePairs (copied : Bool) (keys : Keys) : List (Node × Node) → Filling → Option Filling
  | [], s => some s
  | (k, v) :: rest, s =>
    if k.isMerge then
      let merged : Option Filling :=
        match v with
        | .list items => mergeAll copied keys items s
        | v => into copied keys v s
      merged.bind (mergePairs copied keys rest)
    else mergePairs copied keys rest s

/-- Merge in several mappings. -/
def mergeAll (copied : Bool) (keys : Keys) : List Node → Filling → Option Filling
  | [], s => some s
  | n :: rest, s => (into copied keys n s).bind (mergeAll copied keys rest)

/-- Decode the pairs of a mapping into a mapping that is being decoded, whose keys become what they
become there. -/
def into (copied : Bool) (keys : Keys) : Node → Filling → Option Filling
  | .mapping pairs, s => do
    let s := { s with effort := ← s.effort.add? copied }
    s.withPairs pairs (ownPairs copied keys pairs) (keyData copied pairs)
      (mergePairs copied keys pairs)
  | .ref _ target, s => do
    into true keys target { s with effort := ← s.effort.add? copied }
  | .scalar _ _, _ | .list _, _ | .inner _, _ => none

end

/-- The entries of a document, which has to be a mapping or nothing. The document counts as a node,
and its keys become texts. -/
def topLevel? : Option Node → Option (List (Datum × Data))
  | none => some []
  | some (.scalar tag raw) => if datum? tag raw = some .null then some [] else none
  | some n => (into false .texts n ⟨[], none, ⟨1, 0⟩⟩).map Filling.entries

end Data

end Slang.Yaml
