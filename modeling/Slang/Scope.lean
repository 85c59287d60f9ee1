import Slang.Symbol
/-!
# Scopes

A **scope** is a level of names. Scopes form trees: a scope without one around it is the root of a
tree, and each tree numbers its scopes from zero in the order in which they are made. A scope keeps
the scopes around it, innermost first, so a name is looked up by walking one list.

A **table** holds all symbols and all scopes that were made, each by its number. Binding a name
refers to a symbol by number: a symbol may be bound in several scopes, and a change of it shows in
all of them.

* `Table.bind` adds a name to a scope and fails if the scope has it; `Table.define` also gives the
  symbol its augmented name, which outside the root ends in the number of the scope;
* `Table.find?` gives the symbol of the nearest scope that has a name;
* `Table.walk` lists a scope and all scopes inside it, parents first and in the order of making.

Children, numbers and the map from names to symbols are computed here. `Slang.Scope.Linked` has scopes
that keep them in fields.
-/

namespace Slang

/-- The number of a scope among all scopes that were made. -/
abbrev ScopeId := Nat

/-- A level of names. -/
structure Scope where
  /-- The number of the scope in its tree. -/
  number : Nat
  name : Text
  /-- The scopes around this one, innermost first. -/
  outer : List ScopeId
  /-- The names of this level, in the order in which they were bound. -/
  names : List (Text × SymbolId)
  deriving DecidableEq, Repr

namespace Scope

/-- Whether a scope is the root of its tree. -/
def isRoot (s : Scope) : Bool := s.outer.isEmpty

/-- How many scopes are around a scope. -/
def depth (s : Scope) : Nat := s.outer.length

/-- The symbol that a name is bound to on this level. -/
def find? (s : Scope) (name : Text) : Option SymbolId :=
  (s.names.find? (·.1 == name)).map (·.2)

/-- The augmented name of a symbol that is defined here. -/
def augment (s : Scope) (name : Text) : Text :=
  -- names of the root are unique by themselves
  if s.isRoot then name else name ++ "_" ++ Text.ofNat s.number

end Scope

/-- All symbols and all scopes that were made. -/
structure Table where
  symbols : List Symbol
  scopes : List Scope
  deriving DecidableEq, Repr

namespace Table

/-- A table in which nothing was made yet. -/
def empty : Table := ⟨[], []⟩

/-! ### Symbols -/

/-- The symbol with a number. -/
def symbol? (t : Table) (id : SymbolId) : Option Symbol := t.symbols[id]?

/-- Add a symbol; its number is the count of symbols before it. -/
def addSymbol (t : Table) (s : Symbol) : Table × SymbolId :=
  ({ t with symbols := t.symbols ++ [s] }, t.symbols.length)

/-- Change the symbol with a number. -/
def modify (t : Table) (id : SymbolId) (f : Symbol → Symbol) : Table :=
  { t with symbols := t.symbols.modify id f }

/-! ### Scopes -/

/-- The scope with a number. -/
def scope? (t : Table) (id : ScopeId) : Option Scope := t.scopes[id]?

/-- The scopes in which a name is looked up from a scope: the scope itself and those around it. -/
def chain (t : Table) (id : ScopeId) : List ScopeId :=
  match t.scope? id with
  | some s => id :: s.outer
  | none => []

/-- The root of the tree of a scope. -/
def root (t : Table) (id : ScopeId) : ScopeId := (t.chain id).getLastD id

/-- How many scopes a tree has, by its root. -/
def treeSize (t : Table) (root : ScopeId) : Nat :=
  ((List.range t.scopes.length).filter fun i => t.root i == root).length

/-- Make a scope: the root of a new tree, or a scope inside `outer`. -/
def addScope (t : Table) (outer : Option ScopeId) (name : Text) : Table × ScopeId :=
  let s : Scope :=
    match outer with
    | none => ⟨0, name, [], []⟩
    -- counted within the tree, so that the trees of one table have their own numbers
    | some o => ⟨t.treeSize (t.root o), name, t.chain o, []⟩
  ({ t with scopes := t.scopes ++ [s] }, t.scopes.length)

/-- The symbol that a name is bound to in one scope. -/
def findIn? (t : Table) (id : ScopeId) (name : Text) : Option SymbolId :=
  (t.scope? id).bind (·.find? name)

/-- The symbol that a name stands for in a scope: the binding of the nearest scope that has it. -/
def find? (t : Table) (id : ScopeId) (name : Text) : Option SymbolId :=
  (t.chain id).findSome? fun s => t.findIn? s name

/-- The symbol that a name stands for in the scopes around a scope. -/
def findOutside? (t : Table) (id : ScopeId) (name : Text) : Option SymbolId :=
  (t.chain id).tail.findSome? fun s => t.findIn? s name

/-- Bind a symbol to its name in a scope. -/
def bind (t : Table) (id : ScopeId) (sym : SymbolId) : Except SymbolError Table :=
  match t.symbol? sym with
  -- a number without a symbol binds nothing
  | none => .ok t
  | some s =>
    match (t.findIn? id s.name).bind t.symbol? with
    | some prev => .error (.alreadyDeclared s.name prev.line)
    | none =>
      .ok { t with
        scopes := t.scopes.modify id fun sc => { sc with names := sc.names ++ [(s.name, sym)] } }

/-- Bind a symbol to its name in a scope, and give it the augmented name of that scope. -/
def define (t : Table) (id : ScopeId) (sym : SymbolId) : Except SymbolError Table :=
  (t.bind id sym).map fun t' =>
    match t.scope? id with
    | some sc => t'.modify sym fun s => { s with augmented := sc.augment s.name }
    | none => t'

/-- The symbols of a scope, in the order in which they were bound. -/
def symbolsOf (t : Table) (id : ScopeId) : List Symbol :=
  match t.scope? id with
  | some sc => sc.names.filterMap fun (_, sym) => t.symbol? sym
  | none => []

/-- The scopes directly inside a scope, in the order of making. -/
def children (t : Table) (id : ScopeId) : List ScopeId :=
  (List.range t.scopes.length).filter fun i =>
    -- a scope is made after the one around it; saying so here lets `walk` end for any table
    id < i && ((t.scope? i).map fun s => s.outer.head?) == some (some id)

theorem lt_of_mem_children {t : Table} {id c : Nat} (h : c ∈ t.children id) :
    id < c ∧ c < t.scopes.length := by
  simp only [children, List.mem_filter, List.mem_range, Bool.and_eq_true, decide_eq_true_eq] at h
  exact ⟨h.2.1, h.1⟩

/-- A scope and the scopes inside it, parents first and siblings in the order of making. The insides
of a scope that fails `enter` are left out. -/
def walk (t : Table) (enter : Scope → Bool) (id : ScopeId) : List ScopeId :=
  if (t.scope? id).any enter then
    id :: (t.children id).attach.flatMap fun c => walk t enter c.1
  else [id]
termination_by t.scopes.length - id
decreasing_by
  have := lt_of_mem_children c.2
  omega

/-- A scope and all scopes inside it. -/
def subtree (t : Table) (id : ScopeId) : List ScopeId := t.walk (fun _ => true) id

end Table
end Slang
