import Slang.Scope
import Slang.Scalar
/-!
# Rows of a symbol report

A **row** is a symbol as seen from the scope that binds it. The rows of a table are those of its
scopes, parents first, and within a scope in the order in which the names were bound.
-/

namespace Slang.Report

/-- A symbol as seen from the scope that binds it. -/
structure Row where
  scope : Text
  scopeId : Int
  depth : Int
  name : Text
  augmented : Text
  type : Text
  line : Int
  /-- The known value of a variable, or nothing. -/
  value : Text
  calculated : Bool
  signature : Text
  descriptor : Text
  inferred : Bool
  deriving DecidableEq, Repr

/-- The row of a symbol in a scope. -/
def Row.ofSymbol (scope : Scope) (s : Symbol) : Row where
  scope := scope.name
  scopeId := scope.number
  depth := scope.depth
  name := s.name
  augmented := s.augmented
  type := s.ty.name
  line := s.line
  value := (s.known?.map Value.written).getD []
  calculated := s.known?.isSome
  signature := s.describe
  descriptor := s.descriptor
  inferred := s.inferred

/-- The rows of one scope. -/
def scopeRows (t : Table) (id : ScopeId) : List Row :=
  match t.scope? id with
  | some scope => (t.symbolsOf id).map (Row.ofSymbol scope)
  | none => []

/-- The rows of a scope and of all scopes inside it. -/
def rows (t : Table) (id : ScopeId) : List Row := (t.subtree id).flatMap (scopeRows t)

/-- The fields of a row by name. A value that is not there is left out. -/
def Row.record (r : Row) : Record :=
  let start : Record :=
    [("scope", .text r.scope), ("scope_id", .int r.scopeId), ("depth", .int r.depth),
      ("name", .text r.name), ("augmented_name", .text r.augmented), ("type", .text r.type),
      ("line", .int r.line)]
  let value : Record := if r.value.isEmpty then [] else [("value", .text r.value)]
  let rest : Record :=
    [("calculated", .bool r.calculated), ("signature", .text r.signature),
      ("descriptor", .text r.descriptor), ("inferred", .bool r.inferred)]
  start ++ value ++ rest

end Slang.Report
