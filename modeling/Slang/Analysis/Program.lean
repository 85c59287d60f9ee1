import Slang.Analysis.Statement
/-!
# Checking programs

A program is checked in two passes. The first declares every function with a written result type, so
that such a function can be called before its declaration. The second reads all statements in
order, with the bodies of functions; a function without a written type is declared after its body.

An **analyzer** keeps what outlasts one program: the globals that functions write to, by name, and
what was found. `Analyzer.analyze` checks one more program, with scopes of its own.
-/

namespace Slang

/-! ### Writes to globals -/

/-- The name that a statement declares in its scope. -/
def Stmt.declares : Stmt → List Text
  | .letDecl _ name _ _ => [name.name]
  | _ => []

mutual

/-- The names that a statement assigns to and that are not among the locals. -/
def Stmt.freeWrites (locals : List Text) : Stmt → List Text
  | .assign _ name _ => if locals.contains name.name then [] else [name.name]
  | .block _ body => Stmt.freeWritesAll locals body
  | _ => []

/-- The names that statements assign to and that are not local there: a declaration makes its name
local to the statements that follow it. -/
def Stmt.freeWritesAll (locals : List Text) : List Stmt → List Text
  | [] => []
  -- names that a block declares are not carried past its end
  | s :: ss => s.freeWrites locals ++ Stmt.freeWritesAll (s.declares ++ locals) ss

end

/-- The names that a top-level statement may write to from a function. -/
def Stmt.globalWrites : Stmt → List Text
  | .fn head _ body => Stmt.freeWritesAll (head.params.map (·.name.name)) body
  | _ => []

/-- The names that the functions of a program may write to. -/
def Program.globalWrites (p : Program) : List Text := p.flatMap Stmt.globalWrites

namespace Analysis

/-! ### Functions -/

/-- One variable for each parameter, in order. A parameter whose name was used before or whose type
has no values is reported and left out. -/
def makeParams (seen : List Text) (st : State) : List ParamDecl → State × List Param
  | [] => (st, [])
  | p :: ps =>
    let name := p.name.name
    if seen.contains name then
      makeParams seen (st.problem p.name.token (.duplicateParameter name)) ps
    else
      match Symbol.ofTy p.type.ty name p.name.token.line with
      | .ok s =>
        let (st, id) := st.addSymbol s
        let (st, rest) := makeParams (name :: seen) st ps
        (st, ⟨id, name, s.ty⟩ :: rest)
      -- the name is taken all the same: a second parameter of this name is a duplicate
      | .error (.noDefault ..) =>
        makeParams (name :: seen) (st.problem p.type.token (.parameterTy name p.type.ty)) ps
      | .error e => makeParams (name :: seen) (st.problem p.name.token (.unexpected e)) ps

/-- The symbol of a function. -/
def makeFunction (head : FnHead) (params : List Param) (result : Ty) (inferred : Bool)
    (st : State) : State × Option Symbol :=
  match Symbol.ofSignature head.name.name head.name.token.line (params.map some) result inferred with
  | .ok s => (st, some s)
  | .error e =>
    let tok := (head.result.map (·.token)).getD head.name.token
    match e with
    | .returnTy .. => (st.problem tok (.returnTy head.name.name result), none)
    | _ => (st.problem tok (.unexpected e), none)

/-- The token at which a parameter is declared. -/
def paramToken (head : FnHead) (name : Text) : Token :=
  ((head.params.find? (·.name.name == name)).map (·.name.token)).getD head.name.token

/-- Make the parameters visible in the scope of their function. They keep their augmented names. -/
def bindParams (ctx : Context) (head : FnHead) (st : State) : List Param → State
  | [] => st
  | p :: ps =>
    let st :=
      match st.table.symbol? p.id with
      -- bound, not defined: a parameter is made with its signature, before there is a scope for it
      | some s => bindName ctx Table.bind s p.id (paramToken head p.name) st
      | none => st
    bindParams ctx head st ps

/-- The body of a function, in a scope of its own. -/
def checkBody (ctx : Context) (head : FnHead) (declared : Option Ty) (params : List Param)
    (body : List Stmt) (st : State) : State :=
  let (table, inner) := st.table.addScope (some ctx.scope) head.name.name
  let frame : Frame := ⟨head.name.name, declared, params.map (·.id)⟩
  let ctx := { ctx with scope := inner, fn := some frame }
  -- the parameters share the scope with the declarations of the body
  checkStmts ctx (bindParams ctx head { st with table, returns := ⟨false, none⟩ } params) body

/-- A function with a written result type, which has been declared already. -/
def checkDeclared (ctx : Context) (head : FnHead) (params : List Param) (result : Ty)
    (body : List Stmt) (st : State) : State :=
  let st := checkBody ctx head (some result) params body st
  -- any return will do: nothing is said about which paths reach one
  if result ≠ .void ∧ ¬st.returns.seen then
    st.problem head.name.token (.missingReturn head.name.name result)
  else st

/-- The result type of a function after its body was read. -/
def Returns.ty (r : Returns) : Ty :=
  match r.first with
  | some (ty, _) => ty
  | none => .void

/-- A function without a written result type. -/
def checkInferred (ctx : Context) (head : FnHead) (body : List Stmt) (st : State) : State :=
  let (st, params) := makeParams [] st head.params
  let st := checkBody ctx head none params body st
  -- only here does the name become visible: the body cannot call the function it belongs to
  match makeFunction head params st.returns.ty true st with
  | (st, none) => st
  | (st, some s) =>
    (declare ctx s head.name.token st).note (.inferred s.name s.descriptor)

/-! ### The two passes -/

/-- The first pass on one statement. The result is the signature of a function with a written result
type, which is kept even if its name could not be declared. -/
def hoist (ctx : Context) (st : State) : Stmt → State × Option Symbol
  | .fn head _ _ =>
    match head.result with
    | none => (st, none)
    | some result =>
      let (st, params) := makeParams [] st head.params
      match makeFunction head params result.ty false st with
      | (st, none) => (st, none)
      | (st, some s) =>
        -- the body is read later even if this name was taken, with the parameters of this signature
        ((declare ctx s head.name.token st).note (.hoisted s.name s.descriptor), some s)
  | _ => (st, none)

/-- The first pass: the statements of a program, each with its signature. -/
def hoistAll (ctx : Context) (st : State) : Program → State × List (Stmt × Option Symbol)
  | [] => (st, [])
  | s :: ss =>
    let (st, signature) := hoist ctx st s
    let (st, rest) := hoistAll ctx st ss
    (st, (s, signature) :: rest)

/-- The second pass on one statement. A function whose signature could not be made has been
reported, and its body is not read. -/
def checkTop (ctx : Context) (st : State) : Stmt × Option Symbol → State
  | (.fn head _ body, signature) =>
    match head.result, signature with
    | none, _ => checkInferred ctx head body st
    | some _, none => st
    | some result, some s => checkDeclared ctx head s.params result.ty body st
  | (s, _) => checkStmt ctx st s

/-- The name of the scope of a whole program. -/
def globalName : Text := "global"

/-- The table before a program is checked: one scope, without names. -/
def freshTable : Table := (Table.empty.addScope none globalName).1

/-- The scope of a whole program. -/
def globalScope : ScopeId := 0

/-- Both passes over a program. -/
def checkProgram (options : Options) (mutated : List Text) (p : Program) : State :=
  let ctx : Context := ⟨options, mutated, globalScope, globalScope, none⟩
  let (st, stmts) := hoistAll ctx ⟨freshTable, ⟨false, none⟩, []⟩ p
  stmts.foldl (checkTop ctx) st

/-- What an event says is wrong. -/
def Event.finding? : Event → Option Finding
  | .finding f => some f
  | _ => none

end Analysis

/-- What outlasts the analysis of one program. -/
structure Analyzer where
  options : Analysis.Options
  /-- The names that functions of some program write to. -/
  mutated : List Text
  /-- What was found, in the order in which it was found. -/
  findings : List Finding

namespace Analyzer

/-- An analyzer that has seen no program. -/
def new (options : Analysis.Options) : Analyzer := ⟨options, [], []⟩

/-- What comes of the analysis of one program: its symbols and scopes, and what happened. -/
structure Result where
  table : Table
  trace : List Analysis.Event

/-- Analyse one more program; nothing is done for a program that is not there. -/
def analyze (a : Analyzer) : Option Program → Analyzer × Result
  | none => (a, ⟨Analysis.freshTable, []⟩)
  | some p =>
    -- collected before anything is checked, since a function may be called before it is read
    let mutated := a.mutated ++ p.globalWrites
    let st := Analysis.checkProgram a.options mutated p
    ({ a with mutated, findings := a.findings ++ st.trace.filterMap Analysis.Event.finding? },
      ⟨st.table, st.trace⟩)

/-- All that was found so far, in the order of positions. -/
def diagnostics (a : Analyzer) : List Diagnostic :=
  Diagnostic.sort (a.findings.map Finding.diagnostic)

end Analyzer
end Slang
