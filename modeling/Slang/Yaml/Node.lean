import Slang.Yaml.Resolve
import Slang.Yaml.Token
/-!
# Nodes of a YAML document

A **node** is a scalar, a list, a mapping or an alias, as it is written: every scalar has a tag, given
or by its look, but whether the two agree is not asked here, and any node can be a key. What nodes mean
is the subject of `Yaml.Data`.

* `Node.ofScalar` makes a scalar from its token and its tag;
* `Node.isMerge` tells the keys that bring in the pairs of other mappings.
-/

namespace Slang.Yaml

/-- What a document holds. -/
inductive Node where
  | scalar (tag raw : Text)
  | list (items : List Node)
  | mapping (pairs : List (Node × Node))
  /-- An alias stands for the node with its anchor. -/
  | ref (name : Text) (target : Node)
  /-- An alias inside the node that it stands for. -/
  | inner (name : Text)
  deriving Repr

/-! ### Tags -/

/-- The start of the tags that documents write as `!!`. -/
def commonTag : Text := "tag:yaml.org,2002:"

/-- A tag with the start that is common written as `!!`. -/
def shortTag (tag : Text) : Text :=
  match Text.dropStart? commonTag tag with
  | some rest => "!!" ++ rest
  | none => tag

/-- The tag of a scalar that has none, by what it means. -/
def Datum.tag : Datum → Text
  | null => "!!null"
  | bool _ => "!!bool"
  | int _ => "!!int"
  | float _ => "!!float"
  | time => "!!timestamp"
  | str _ => "!!str"

namespace Node

/-- The tag of the key that merges. -/
def mergeTag : Text := "!!merge"

/-- The text of the key that merges. -/
def mergeKey : Text := "<<"

/-- A scalar. Without a tag, or with the tag of one exclamation mark, a quoted one is a text and a
plain one is what it looks like. -/
def ofScalar (look : Look) (tag : Option Text) (raw : Text) : Node :=
  match tag.filter (· != Text.ofString "!"), look with
  | some tag, _ => scalar (shortTag tag) raw
  | none, .quoted => scalar "!!str" raw
  | none, .plain => scalar (if raw = mergeKey then mergeTag else (resolve raw).tag) raw

/-- A scalar that is not there. -/
def absent : Node := ofScalar .plain none []

/-- The tag of a scalar, also of one that an alias stands for. -/
def tag? : Node → Option Text
  | scalar tag _ => some tag
  | ref _ target => target.tag?
  | list _ | mapping _ | inner _ => none

/-- The text of a scalar, also of one that an alias stands for. -/
def raw? : Node → Option Text
  | scalar _ raw => some raw
  | ref _ target => target.raw?
  | list _ | mapping _ | inner _ => none

/-! ### Aliases -/

mutual

/-- A node in which the aliases of a name that stand inside their target stand for a given node. -/
def unfold (name : Text) (target : Node) : Node → Node
  | scalar tag raw => scalar tag raw
  | list items => list (unfoldItems name target items)
  | mapping pairs => mapping (unfoldPairs name target pairs)
  | ref other n => ref other n
  | inner other => if other = name then ref name target else inner other

/-- Items in which such aliases stand for a given node. -/
def unfoldItems (name : Text) (target : Node) : List Node → List Node
  | [] => []
  | n :: rest => unfold name target n :: unfoldItems name target rest

/-- Pairs in which such aliases stand for a given node. -/
def unfoldPairs (name : Text) (target : Node) : List (Node × Node) → List (Node × Node)
  | [] => []
  | (k, v) :: rest => (unfold name target k, unfold name target v) :: unfoldPairs name target rest

end

/-- A node with a name, in which an alias of that name stands for the node once more, but not again
inside of that. -/
def named (name : Text) (n : Node) : Node := unfold name n n

/-! ### Keys -/

/-- Whether a key merges. An alias does not, whatever it stands for. -/
def isMerge : Node → Bool
  | scalar tag raw => tag == mergeTag && raw == mergeKey
  | _ => false

/-- Whether two keys are the same as they are written. Lists and mappings are not told apart. -/
def sameKey : Node → Node → Bool
  | scalar _ a, scalar _ b => a == b
  | list _, list _ => true
  | mapping _, mapping _ => true
  | ref a _, ref b _ | ref a _, inner b | inner a, ref b _ | inner a, inner b => a == b
  | _, _ => false

/-- Whether a key comes twice. -/
def hasRepeat : List (Node × Node) → Bool
  | [] => false
  | (key, _) :: rest => rest.any (fun p => sameKey key p.1) || hasRepeat rest

end Node

end Slang.Yaml
