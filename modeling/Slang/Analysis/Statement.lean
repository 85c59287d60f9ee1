import Slang.Analysis.Expression
/-!
# Checking statements

Statements are checked in order. Each may add symbols and scopes to the table, change what is known
about a variable, and add to the **trace**: the findings, and notes on the functions that were
declared, in the order in which they arise. Diagnostics and log records are both read off the trace.

The initial value of a variable is typed before its name is bound. Assigning to a variable makes its
value known or unknown; a global that a function assigns to and a parameter are never known after
it.
-/

namespace Slang.Analysis

/-- What happens during analysis. -/
inductive Event where
  /-- Something is wrong. -/
  | finding (f : Finding)
  /-- A function with a written type was declared ahead of everything else. -/
  | hoisted (name descriptor : Text)
  /-- A function with an inferred type was declared after its body was read. -/
  | inferred (name descriptor : Text)
  deriving DecidableEq, Repr

/-- The returns of a function that were read: whether there is one, and the type and the line of the
first that has a type. -/
structure Returns where
  seen : Bool := false
  first : Option (Ty × Int) := none
  deriving DecidableEq, Repr

/-- What changes during analysis. -/
structure State where
  table : Table
  returns : Returns
  trace : List Event
  deriving Repr

namespace State

/-- Add findings to the trace. -/
def report (st : State) (fs : List Finding) : State :=
  { st with trace := st.trace ++ fs.map .finding }

/-- Add a problem at a token to the trace. -/
def problem (st : State) (tok : Token) (p : SemanticProblem) : State :=
  st.report [tok.finding p]

/-- Add a note to the trace. -/
def note (st : State) (e : Event) : State := { st with trace := st.trace ++ [e] }

/-- Change a symbol. -/
def modify (st : State) (id : SymbolId) (f : Symbol → Symbol) : State :=
  { st with table := st.table.modify id f }

/-- Make a symbol. -/
def addSymbol (st : State) (s : Symbol) : State × SymbolId :=
  let (table, id) := st.table.addSymbol s
  ({ st with table }, id)

/-- Note that the function around a statement returns. -/
def markReturned (st : State) : State := { st with returns.seen := true }

end State

/-! ### Binding names -/

/-- A way to bind a symbol in a scope. -/
abbrev Binder := Table → ScopeId → SymbolId → Except SymbolError Table

/-- The warning about a name of an outer scope that a declaration hides. -/
def shadowing (ctx : Context) (t : Table) (name : Text) : List SemanticProblem :=
  if ctx.options.warnShadowing then
    match (t.findOutside? ctx.scope name).bind t.symbol? with
    | some outer => [.shadows name outer.describe outer.line]
    | none => []
  else []

/-- Bind a symbol to its name in the current scope. A name that the scope has already is reported and
not bound again. -/
def bindName (ctx : Context) (binder : Binder) (s : Symbol) (id : SymbolId) (tok : Token)
    (st : State) : State :=
  match (st.table.findIn? ctx.scope s.name).bind st.table.symbol? with
  | some prev => st.problem tok (.redeclared s.name (some prev.line))
  -- hiding a name of an outer scope is allowed
  | none =>
    let st := st.report ((shadowing ctx st.table s.name).map tok.finding)
    match binder st.table ctx.scope id with
    | .ok table => { st with table }
    | .error (.alreadyDeclared ..) => st.problem tok (.redeclared s.name none)
    | .error e => st.problem tok (.unbindable s.name e)

/-- Make a symbol and define its name in the current scope. -/
def declare (ctx : Context) (s : Symbol) (tok : Token) (st : State) : State :=
  let (st, id) := st.addSymbol s
  bindName ctx Table.define s id tok st

/-! ### Declarations and assignments -/

/-- The type of a declared variable and its known value, or nothing if there is no variable to
declare; and what is wrong with its initial value. -/
def letTy (name : Ident) (type : Option TypeNode) (value : Option Expr) (init : Checked) :
    Option (Ty × Option Value) × List Finding :=
  match type, value with
  | some tn, none => (some (tn.ty, none), [])
  | some tn, some e =>
    -- the written type is enough to go on with
    if init.ty = .invalid then (some (tn.ty, none), [])
    else if init.ty = tn.ty then (some (tn.ty, init.value), [])
    else if init.ty = .void then
      (some (tn.ty, none), [e.token.finding (.voidInitializer name.name)])
    else (some (tn.ty, none), [e.token.finding (.assignMismatch init.ty name.name tn.ty)])
  | none, none => (none, [])
  | none, some e =>
    -- there is no type to infer, and the reason has been reported
    if init.ty = .invalid then (none, [])
    else if init.ty = .void then (none, [e.token.finding (.voidInferred name.name)])
    else (some (init.ty, init.value), [])

/-- The variable of a declaration. -/
def letSymbol (name : Ident) (ty : Ty) (value : Option Value) : Except SymbolError Symbol :=
  match value with
  | some v => Symbol.ofOperand ty name.name name.token.line (.value v)
  | none => Symbol.ofTy ty name.name name.token.line

/-- A declaration of a variable. -/
def checkLet (ctx : Context) (name : Ident) (type : Option TypeNode) (value : Option Expr)
    (st : State) : State :=
  -- checked in the table before the declaration: the name does not stand for the variable yet
  let init := (value.map (check ctx st.table)).getD (.untyped [])
  let (result, findings) := letTy name type value init
  let st := st.report (init.findings ++ findings)
  match result with
  | none => st
  | some (ty, v) =>
    match letSymbol name ty v with
    | .ok s => declare ctx { s with inferred := type.isNone } name.token st
    | .error (.noDefault ..) =>
      st.problem ((type.map (·.token)).getD name.token) (.variableTy name.name ty)
    | .error e => st.problem name.token (.unexpected e)

/-- Whether an assignment to a symbol leaves its value unknown: that of a parameter comes from the
caller, and that of a global written in a function depends on the calls. -/
def isUnknowable (ctx : Context) (t : Table) (id : SymbolId) (name : Text) : Bool :=
  match ctx.fn with
  | some f => isGlobal ctx t id name || f.params.contains id
  | none => false

/-- A variable after a value was assigned to it. -/
def assigned (unknowable : Bool) (value : Option Value) (s : Symbol) : Symbol :=
  -- whether the value is unknown, unknowable or of another type, the flag is cleared
  match if unknowable then none else value.bind s.store? with
  | some s' => s'
  | none => s.setCalculated false

/-- An assignment. -/
def checkAssign (ctx : Context) (name : Ident) (value : Expr) (st : State) : State :=
  let c := check ctx st.table value
  let st := st.report c.findings
  match st.table.find? ctx.scope name.name with
  | none => st.problem name.token (.assignUndeclared name.name)
  | some id =>
    match st.table.symbol? id with
    | none => st.problem name.token (.assignUndeclared name.name)
    | some s =>
      match s.content with
      | .function .. => st.problem name.token (.assignTarget s.ty name.name)
      | .variable v _ =>
        -- whatever the value would have been, the old one is gone
        if c.ty = .invalid then st.modify id (·.setCalculated false)
        else if c.ty = .void then st.problem value.token (.voidAssigned name.name)
        else if c.ty ≠ v.ty then
          st.problem value.token (.assignMismatch c.ty name.name v.ty)
        else st.modify id (assigned (isUnknowable ctx st.table id s.name) c.value)

/-! ### Returns -/

/-- A return of a type from a function whose type is inferred: the first one decides. -/
def inferReturn (f : Frame) (got : Ty) (tok : Token) (st : State) : State :=
  match st.returns.first with
  | none => { st with returns.first := some (got, tok.line) }
  | some (first, line) =>
    if first = got then st else st.problem tok (.inconsistentReturn f.name got first line)

/-- A return of a type from a function whose type is written. -/
def declaredReturn (f : Frame) (declared got : Ty) (hasValue : Bool) (tok : Token) (st : State) :
    State :=
  if declared = .void ∧ hasValue then st.problem tok (.valueFromVoid f.name)
  else if declared ≠ .void ∧ ¬hasValue then st.problem tok (.missingReturn f.name declared)
  else if got ≠ declared ∧ hasValue then st.problem tok (.returnMismatch got f.name declared)
  else st

/-- A return of a type from a function. -/
def returnTy (f : Frame) (got : Ty) (hasValue : Bool) (tok : Token) (st : State) : State :=
  match f.declared with
  | none => inferReturn f got tok st.markReturned
  | some declared => declaredReturn f declared got hasValue tok st.markReturned

/-- A return; outside a function it means nothing. -/
def checkReturn (ctx : Context) (tok : Token) (value : Option Expr) (st : State) : State :=
  match ctx.fn with
  | none => st
  | some f =>
    match value with
    | none => returnTy f .void false tok st
    | some e =>
      let c := check ctx st.table e
      let st := st.report c.findings
      -- a return with an error counts as a return, but its type decides nothing
      if c.ty = .invalid then st.markReturned
      else if c.ty = .void then (st.problem e.token (.voidReturned f.name)).markReturned
      else returnTy f c.ty true e.token st

/-! ### All statements -/

/-- An expression as a statement: only a call is worth it. -/
def checkExprStmt (ctx : Context) (e : Expr) (st : State) : State :=
  let st := st.report (check ctx st.table e).findings
  if e.ungroup.isCall then st else st.problem e.token (.unusedResult e.print)

mutual

/-- A statement inside a function or a block. -/
def checkStmt (ctx : Context) (st : State) : Stmt → State
  | .letDecl _ name type value => checkLet ctx name type value st
  | .assign _ name value => checkAssign ctx name value st
  | .ret tok value => checkReturn ctx tok value st
  | .expr _ e => checkExprStmt ctx e st
  | .block _ body =>
    -- the returns of a block are those of the function around it
    let (table, inner) := st.table.addScope (some ctx.scope) "block"
    checkStmts { ctx with scope := inner } { st with table } body
  | .fn head .. => st.problem head.token .nestedFunction
  | .hole => st

/-- Statements, in order. -/
def checkStmts (ctx : Context) (st : State) : List Stmt → State
  | [] => st
  | s :: ss => checkStmts ctx (checkStmt ctx st s) ss

end

end Slang.Analysis
