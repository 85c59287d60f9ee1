import Slang.Scope
/-!
# Scopes as linked records

A `Table` keeps of each scope only what the others do not say already. Here scopes are kept as records
that are linked with each other, with all that a scope holds in memory:

* the scope around it, and the scopes directly inside it in the order of making;
* a map from names to symbols, and beside it the names in the order in which they were bound;
* the counter that numbers its tree. The root makes it, and all scopes of the tree share it.

Every operation gives the store that it leaves, also when it fails: `Store.bind` and `Store.define` give
the error, if there is one, and the store beside it.
-/

namespace Slang.Linked

/-- A map from names to symbols. The order of its entries does not count. -/
abbrev NameMap := List (Text × SymbolId)

/-- The symbol under a name. -/
def NameMap.get? (m : NameMap) (name : Text) : Option SymbolId := m.lookup name

/-- The map with another symbol under a name. -/
def NameMap.put (m : NameMap) (name : Text) (k : SymbolId) : NameMap :=
  (name, k) :: m.filter fun e => e.1 != name

/-- A scope as a record. -/
structure Node where
  /-- The scope around this one. -/
  outer : Option ScopeId
  name : Text
  number : Nat
  symbols : NameMap
  /-- The names of this level, in the order in which they were bound. -/
  order : List Text
  /-- The scopes directly inside, in the order of making. -/
  children : List ScopeId
  /-- The counter of the tree. -/
  counter : Nat
  deriving DecidableEq, Repr

namespace Node

/-- Whether a scope is the root of its tree. -/
def isGlobal (n : Node) : Bool := n.outer.isNone

/-- The augmented name of a symbol that is defined here. -/
def augment (n : Node) (name : Text) : Text :=
  if n.isGlobal then name else name ++ "_" ++ Text.ofNat n.number

end Node

/-- All symbols, all scopes and all counters that were made. -/
structure Store where
  symbols : List Symbol
  nodes : List Node
  /-- The last number that each counter gave. -/
  counters : List Nat
  deriving DecidableEq, Repr

namespace Store

/-- A store in which nothing was made yet. -/
def empty : Store := ⟨[], [], []⟩

/-- The scope with a number. -/
def node? (s : Store) (id : ScopeId) : Option Node := s.nodes[id]?

/-- The symbol with a number. -/
def symbol? (s : Store) (k : SymbolId) : Option Symbol := s.symbols[k]?

/-- The symbol that a name is bound to in one scope. -/
def lookupHere (s : Store) (id : ScopeId) (name : Text) : Option SymbolId :=
  (s.node? id).bind fun n => n.symbols.get? name

/-! ### Making scopes and binding names -/

/-- Add a symbol. -/
def addSymbol (s : Store) (sym : Symbol) : Store := { s with symbols := s.symbols ++ [sym] }

/-- Make the root of a new tree, with a counter of its own. -/
def addRoot (s : Store) (name : Text) : Store :=
  { s with
    nodes := s.nodes ++ [(⟨none, name, 0, [], [], [], s.counters.length⟩ : Node)]
    counters := s.counters ++ [0] }

/-- Make a scope inside `outer`: count one on, take that number, and become the last child. -/
def addInner (s : Store) (outer : ScopeId) (name : Text) : Store :=
  match s.node? outer with
  | none => s
  | some p =>
    let number := s.counters[p.counter]?.getD 0 + 1
    { s with
      nodes := (s.nodes ++ [(⟨some outer, name, number, [], [], [], p.counter⟩ : Node)]).modify outer
        fun p => { p with children := p.children ++ [s.nodes.length] }
      counters := s.counters.set p.counter number }

/-- Make a scope: the root of a new tree, or a scope inside `outer`. -/
def addScope (s : Store) (outer : Option ScopeId) (name : Text) : Store :=
  match outer with
  | none => s.addRoot name
  | some o => s.addInner o name

/-- A store with one more name in a scope. -/
def bound (s : Store) (id : ScopeId) (name : Text) (k : SymbolId) : Store :=
  { s with nodes := s.nodes.modify id fun n =>
      { n with symbols := n.symbols.put name k, order := n.order ++ [name] } }

/-- Bind a symbol to its name in a scope, unless the scope has the name. -/
def bind (s : Store) (id : ScopeId) (k : SymbolId) : Option SymbolError × Store :=
  match s.symbol? k with
  | none => (none, s)
  | some sym =>
    match (s.lookupHere id sym.name).bind s.symbol? with
    | some prev => (some (.alreadyDeclared sym.name prev.line), s)
    | none => (none, s.bound id sym.name k)

/-- Bind a symbol to its name in a scope, and give it the augmented name of that scope. A symbol that
is not bound keeps the augmented name that it has. -/
def define (s : Store) (id : ScopeId) (k : SymbolId) : Option SymbolError × Store :=
  let r := s.bind id k
  match r.1, s.node? id with
  | none, some n =>
    (none, { r.2 with
      symbols := r.2.symbols.modify k fun sym => { sym with augmented := n.augment sym.name } })
  | _, _ => r

/-! ### Reading -/

/-- The symbol that a name stands for in a scope: follow the scopes around it, up to one that has the
name. -/
def lookup (s : Store) (id : ScopeId) (name : Text) : Option SymbolId :=
  match s.lookupHere id name, (s.node? id).bind (·.outer) with
  | some k, _ => some k
  | none, none => none
  -- the scope around another one was made before it; saying so here lets the loop end for any store
  | none, some o => if o < id then lookup s o name else none
termination_by id

/-- The symbols of a scope, in the order in which they were bound. -/
def symbolsOf (s : Store) (id : ScopeId) : List Symbol :=
  match s.node? id with
  | some n => n.order.filterMap fun name => (n.symbols.get? name).bind s.symbol?
  | none => []

/-- How many scopes are around a scope. -/
def depth (s : Store) (id : ScopeId) : Nat :=
  match (s.node? id).bind (·.outer) with
  | none => 0
  | some o => if o < id then depth s o + 1 else 0
termination_by id

/-- The scopes directly inside a scope. -/
def children (s : Store) (id : ScopeId) : List ScopeId := ((s.node? id).map (·.children)).getD []

/-- A scope and the scopes inside it, parents first and siblings in the order of making. The insides
of a scope that fails `enter` are left out. -/
def walk (s : Store) (enter : Node → Bool) (id : ScopeId) : List ScopeId :=
  if (s.node? id).any enter then
    id :: (s.children id).flatMap fun c =>
      -- here, too, the scope inside was made later
      if id < c ∧ c < s.nodes.length then walk s enter c else []
  else [id]
termination_by s.nodes.length - id
decreasing_by
  obtain ⟨hlt, hlen⟩ := ‹id < c ∧ c < s.nodes.length›
  exact Nat.sub_lt_sub_left (Nat.lt_trans hlt hlen) hlt

end Store
end Slang.Linked
