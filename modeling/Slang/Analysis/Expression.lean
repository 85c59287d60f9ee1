import Slang.Tree.Printer
import Slang.Scope
import Slang.Diagnostic.Semantic
/-!
# Checking expressions

An expression is checked against what is known at its place: the names in scope, the function whose
body is read, and the globals that some function writes to. Checking changes nothing; it gives a
type, a value if the expression is constant, and what is wrong with it.

An expression without a type has been reported, so no more is said about what it is part of.

A variable is constant where its value is known. A global is an exception: inside a function its
value depends on when the function is called, and once some function writes to it, it is not
constant anywhere.
-/

namespace Slang.Analysis

/-- What the user can switch. -/
structure Options where
  /-- Compute constants. -/
  fold : Bool := true
  /-- Warn about a declaration that hides another one. -/
  warnShadowing : Bool := true
  deriving DecidableEq, Repr

/-- A function while its body is read. -/
structure Frame where
  name : Text
  /-- The written type of the result; without one the type is inferred. -/
  declared : Option Ty
  params : List SymbolId
  deriving DecidableEq, Repr

/-- What does not change while the statements of one scope are read. -/
structure Context where
  options : Options
  /-- The globals that some function writes to. -/
  mutated : List Text
  /-- The scope of the whole program. -/
  global : ScopeId
  /-- The scope in which statements are read. -/
  scope : ScopeId
  /-- The function around the statements. -/
  fn : Option Frame
  deriving Repr

/-- What is known about an expression. -/
structure Checked where
  ty : Ty
  value : Option Value
  findings : List Finding
  deriving DecidableEq, Repr

namespace Checked

/-- An expression without a type. -/
def untyped (findings : List Finding) : Checked := ⟨.invalid, none, findings⟩

/-- An expression of a type whose value is not known. -/
def ofTy (ty : Ty) (findings : List Finding) : Checked := ⟨ty, none, findings⟩

end Checked

/-- A constant; its value is not used if constants are not computed. -/
def constant (ctx : Context) (v : Value) : Checked :=
  ⟨v.ty, if ctx.options.fold then some v else none, []⟩

/-- Whether a symbol is the one that the whole program has under its name. -/
def isGlobal (ctx : Context) (t : Table) (id : SymbolId) (name : Text) : Bool :=
  t.findIn? ctx.global name == some id

/-- Whether the value of a global may differ from the one it was given: inside a function, or when
some function writes to it. -/
def isUncertain (ctx : Context) (name : Text) : Bool := ctx.fn.isSome || ctx.mutated.contains name

/-- A name as an expression. -/
def checkName (ctx : Context) (t : Table) (id : Ident) : Checked :=
  match t.find? ctx.scope id.name with
  | none => .untyped [id.token.finding (.undeclared id.name)]
  | some sym =>
    match t.symbol? sym with
    | none => .untyped [id.token.finding (.undeclared id.name)]
    | some s =>
      match s.content with
      | .function .. => .untyped [id.token.finding (.functionAsValue id.name)]
      | .variable v calculated =>
        -- a local that hides a global of the same name is not concerned by writes to the global
        if calculated && !(isGlobal ctx t sym s.name && isUncertain ctx s.name) then constant ctx v
        else .ofTy v.ty []

/-- The least integer is written as the negation of a literal that by itself is out of range. -/
def isLeastInt (op : UnaryOp) : Expr → Bool
  | .int _ n => op == .neg && n == -minInt
  | _ => false

/-- A value computed from constants, or what is wrong with them. -/
def folded (tok : Token) (ty : Ty) (before : List Finding) : Except FoldError Value → Checked
  | .ok v => ⟨ty, some v, before⟩
  | .error e => .ofTy ty (before ++ [tok.finding (.folding e)])

/-- A prefix operator on a checked operand. -/
def checkUnary (tok : Token) (op : UnaryOp) (right : Checked) : Checked :=
  if right.ty = .invalid then .untyped right.findings
  else if right.ty ≠ op.operandTy then
    .untyped (right.findings ++ [tok.finding (.unaryMismatch op right.ty)])
  else
    -- the result of a prefix operator has the type of its operand
    match right.value with
    | none => .ofTy op.operandTy right.findings
    | some v => folded tok op.operandTy right.findings (op.fold v)

/-- An infix operator on checked operands. -/
def checkBinary (tok : Token) (op : BinaryOp) (left right : Checked) : Checked :=
  let before := left.findings ++ right.findings
  if left.ty = .invalid ∨ right.ty = .invalid then .untyped before
  else
    match op.resultTy? left.ty right.ty with
    | none => .untyped (before ++ [tok.finding (.binaryMismatch left.ty op right.ty)])
    | some ty =>
      -- both values have to be known, also where one of them would decide
      match left.value, right.value with
      | some l, some r => folded tok ty before (op.fold l r)
      | _, _ => .ofTy ty before

/-- What is wrong with the arguments of a call, counted from `index`. Arguments without a type have
been reported. -/
def argumentFindings (function : Text) :
    Nat → List Expr → List Checked → List Param → List Finding
  | index, e :: es, c :: cs, p :: ps =>
    (if c.ty = .invalid ∨ c.ty = p.ty then []
      else [e.token.finding (.argument index function c.ty p.ty)])
      ++ argumentFindings function (index + 1) es cs ps
  | _, _, _, _ => []

/-- Whether a name is that of the function around it, whose type is not known yet. -/
def isInferredSelf (ctx : Context) (name : Text) : Bool :=
  match ctx.fn with
  | some f => f.declared.isNone && f.name == name
  | none => false

/-- A call with checked arguments. Its type is that of the result even if an argument is wrong. -/
def checkCall (ctx : Context) (t : Table) (callee : Ident) (args : List Expr)
    (checked : List Checked) : Checked :=
  let before := checked.flatMap (·.findings)
  match (t.find? ctx.scope callee.name).bind t.symbol? with
  -- a function without a written type is not there before its body was read, so calling itself
  -- is told apart from calling what is not declared at all
  | none =>
    .untyped (before ++ [callee.token.finding
      (if isInferredSelf ctx callee.name then .inferredRecursion callee.name
        else .undeclaredFunction callee.name)])
  | some s =>
    match s.content with
    | .variable v _ =>
      .untyped (before ++ [callee.token.finding (.notAFunction callee.name v.ty)])
    | .function params result =>
      if checked.length ≠ params.length then
        .ofTy result (before ++ [callee.token.finding
          (.arity callee.name params.length checked.length)])
      else .ofTy result (before ++ argumentFindings callee.name 1 args checked params)

mutual

/-- The type and the value of an expression, and what is wrong with it. -/
def check (ctx : Context) (t : Table) : Expr → Checked
  | .int tok n =>
    -- still an integer, so what it is part of is checked as if it were in range
    if maxInt < n then .ofTy .int [tok.finding (.literalOverflow tok.literal)]
    else constant ctx (.int (Int32.ofInt n))
  | .str _ s => constant ctx (.str s)
  | .bool _ b => constant ctx (.bool b)
  | .ident id => checkName ctx t id
  | .unary tok op right =>
    -- the operand is not checked by itself: it would be out of range
    if isLeastInt op right then constant ctx (.int (Int32.ofInt minInt))
    else checkUnary tok op (check ctx t right)
  | .binary tok op left right => checkBinary tok op (check ctx t left) (check ctx t right)
  | .group _ e => check ctx t e
  | .call _ callee args => checkCall ctx t callee args (checkAll ctx t args)
  | .hole => .untyped []

/-- The arguments of a call, from left to right. -/
def checkAll (ctx : Context) (t : Table) : List Expr → List Checked
  | [] => []
  | e :: es => check ctx t e :: checkAll ctx t es

end

end Slang.Analysis
