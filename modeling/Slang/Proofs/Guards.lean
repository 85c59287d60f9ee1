import Slang.Diagnostic.Syntactic
import Slang.Proofs.Accepted

/-!
# What analysis relies on

Some operations are not defined on everything that their types allow: only a few types have a
default, only a value of its own type fits into a variable, a signature has types that a signature
may have, a parameter is asked for by its place, and an operator folds the values that it is made
for. Analysis checks nothing before it calls them.

* `Request` lists such calls, and `Request.Allowed` says when a call makes sense;
* `exprRequests`, `stmtRequests` and `programRequests` list the calls that analysis makes, in the
  order and the states in which it makes them;
* `SemanticProblem.isGuard` singles out the findings that report a call that makes no sense, or a
  statement that cannot be where it is.

That these are the calls that analysis makes is shown in `Slang.Proofs.Guards.Asked`. That all
requests of a program that is read from source are allowed, and that no guard is ever needed, is shown
in `Slang.Proofs.Guards.Source`.
-/

namespace Slang.Analysis

open Typing

/-! ### Requests -/

/-- **A call that does not make sense for all arguments.** -/
inductive Request where
  /-- Part of the tree is looked at, and is not there. -/
  | absent
  /-- The default of a kind of variable. -/
  | defaultOf (ty : Ty)
  /-- A variable of a type with a known value. -/
  | initial (ty : Ty) (value : Value)
  /-- A function with a signature. -/
  | signature (params : List Param) (result : Ty)
  /-- A parameter of a function by its place. -/
  | param (function : Symbol) (index : Nat)
  /-- A prefix operator on a constant. -/
  | unary (op : UnaryOp) (right : Value)
  /-- An infix operator on constants. -/
  | binary (op : BinaryOp) (left right : Value)

/-- **When a call makes sense.** Constants may fail to fold, but only for their values. -/
def Request.Allowed : Request → Prop
  | absent => False
  | defaultOf ty => ∃ v, Value.defaultOf ty = .ok v
  | initial ty v => v.ty = ty
  | signature params result => result.isReturnable ∧ ∀ p ∈ params, IsValue p.ty
  | param s i => ∃ p, s.param i = .ok p
  | unary op v => ∀ e, op.fold v = .error e → e = .overflow ∨ e = .divisionByZero
  | binary op l r => ∀ e, op.fold l r = .error e → e = .overflow ∨ e = .divisionByZero

/-- The types that have a kind of variable. -/
def variableKinds : List Ty := [.int, .bool, .string]

/-- A new variable starts with the default of its kind; a type without a kind is refused before. -/
def variableRequests (ty : Ty) : List Request :=
  if ty ∈ variableKinds then [.defaultOf ty] else []

/-- A prefix operator is folded if its operand is constant. -/
def unaryRequests (op : UnaryOp) (right : Checked) : List Request :=
  if right.ty = .invalid ∨ right.ty ≠ op.operandTy then []
  else
    match right.value with
    | some v => [.unary op v]
    | none => []

/-- An infix operator is folded if both operands are constant. -/
def binaryRequests (op : BinaryOp) (left right : Checked) : List Request :=
  if left.ty = .invalid ∨ right.ty = .invalid ∨ op.resultTy? left.ty right.ty = none then []
  else
    match left.value, right.value with
    | some l, some r => [.binary op l r]
    | _, _ => []

/-- A call looks up one parameter for each argument. -/
def callRequests (ctx : Context) (t : Table) (callee : Ident) (checked : List Checked) :
    List Request :=
  match (t.find? ctx.scope callee.name).bind t.symbol? with
  | none => []
  | some s =>
    match s.content with
    | .variable .. => []
    | .function params _ =>
      if checked.length ≠ params.length then []
      else (List.range checked.length).map (.param s)

mutual

/-- The requests of an expression. -/
def exprRequests (ctx : Context) (t : Table) : Expr → List Request
  | .int .. | .str .. | .bool .. | .ident _ => []
  | .unary _ op right =>
    if isLeastInt op right then []
    else exprRequests ctx t right ++ unaryRequests op (check ctx t right)
  | .binary _ op left right =>
    exprRequests ctx t left ++ exprRequests ctx t right
      ++ binaryRequests op (check ctx t left) (check ctx t right)
  | .group _ e => exprRequests ctx t e
  | .call _ callee args =>
    argumentRequests ctx t args ++ callRequests ctx t callee (checkAll ctx t args)
  | .hole => [.absent]

/-- The requests of the arguments of a call. -/
def argumentRequests (ctx : Context) (t : Table) : List Expr → List Request
  | [] => []
  | e :: es => exprRequests ctx t e ++ argumentRequests ctx t es

end

/-- The requests of an expression that may be left out. -/
def valueRequests (ctx : Context) (t : Table) (value : Option Expr) : List Request :=
  (value.map (exprRequests ctx t)).getD []

/-- A variable is made from its type, and from its value if that is known. -/
def declaredRequests : Option (Ty × Option Value) → List Request
  | none => []
  | some (ty, none) => variableRequests ty
  | some (ty, some v) => .initial ty v :: variableRequests ty

/-- The requests of a declaration. -/
def letRequests (ctx : Context) (t : Table) (name : Ident) (type : Option TypeNode)
    (value : Option Expr) : List Request :=
  valueRequests ctx t value ++ declaredRequests (letTy name type value (letInit ctx t value)).1

mutual

/-- The requests of a statement. -/
def stmtRequests (ctx : Context) (st : State) : Stmt → List Request
  | .letDecl _ name type value => letRequests ctx st.table name type value
  | .assign _ _ value => exprRequests ctx st.table value
  -- a return outside a function is not looked at
  | .ret _ value => if ctx.fn.isSome then valueRequests ctx st.table value else []
  | .expr _ e => exprRequests ctx st.table e
  | .block _ body =>
    stmtsRequests (blockContext ctx st) (scopeStart ctx "block" st.returns st) body
  | .fn .. => []
  | .hole => [.absent]

/-- The requests of statements, each in the state that those before it have left. -/
def stmtsRequests (ctx : Context) (st : State) : List Stmt → List Request
  | [] => []
  | s :: ss => stmtRequests ctx st s ++ stmtsRequests ctx (checkStmt ctx st s) ss

end

/-! ### Functions and programs -/

/-- Each parameter is made from its type, unless its name was used before. -/
def paramRequests (seen : List Text) : List ParamDecl → List Request
  | [] => []
  | p :: ps =>
    if seen.contains p.name.name then paramRequests seen ps
    else variableRequests p.type.ty ++ paramRequests (p.name.name :: seen) ps

/-- The requests of the body of a function. -/
def bodyRequests (ctx : Context) (head : FnHead) (declared : Option Ty) (params : List Param)
    (body : List Stmt) (st : State) : List Request :=
  stmtsRequests (bodyContext ctx head declared params st) (bodyStart ctx head declared params st)
    body

/-- A function without a written type: its signature is made after its body was read. -/
def inferredRequests (ctx : Context) (head : FnHead) (body : List Stmt) (st : State) :
    List Request :=
  let (st', params) := makeParams [] st head.params
  paramRequests [] head.params ++ bodyRequests ctx head none params body st' ++
    [.signature params (checkBody ctx head none params body st').returns.ty]

/-- The requests of the first pass on one statement. -/
def hoistRequests (st : State) : Stmt → List Request
  | .fn head _ _ =>
    match head.result with
    | none => []
    | some result =>
      paramRequests [] head.params ++ [.signature (makeParams [] st head.params).2 result.ty]
  | _ => []

/-- The requests of the first pass. -/
def hoistAllRequests (ctx : Context) (st : State) : Program → List Request
  | [] => []
  | s :: ss => hoistRequests st s ++ hoistAllRequests ctx (hoist ctx st s).1 ss

/-- The requests of the second pass on one statement. -/
def topRequests (ctx : Context) (st : State) : Stmt × Option Symbol → List Request
  | (.fn head _ body, signature) =>
    match head.result, signature with
    | none, _ => inferredRequests ctx head body st
    | some _, none => []
    | some result, some s => bodyRequests ctx head (some result.ty) s.params body st
  | (s, _) => stmtRequests ctx st s

/-- The requests of the second pass. -/
def topsRequests (ctx : Context) (st : State) : List (Stmt × Option Symbol) → List Request
  | [] => []
  | s :: l => topRequests ctx st s ++ topsRequests ctx (checkTop ctx st s) l

/-- **The requests of both passes over a program.** -/
def programRequests (options : Options) (mutated : List Text) (p : Program) : List Request :=
  let ctx := topContext options mutated
  let (st, stmts) := hoistAll ctx startState p
  hoistAllRequests ctx startState p ++ topsRequests ctx st stmts

end Slang.Analysis

namespace Slang

open Analysis

/-! ### Guards -/

/-- **Findings that guard against what no source can do**: a name that is not bound although nothing
is in its way, a symbol or a signature that cannot be made, a function inside another statement, and
constants that an operator is not made for. -/
def SemanticProblem.isGuard : SemanticProblem → Bool
  | redeclared _ none | unbindable .. | unexpected _ | nestedFunction | returnTy .. => true
  | folding e => e == .notFoldable || e == .unknownOperator
  | _ => false

/-- The findings of guards that would be internal errors. -/
def internalError : Text := "Internal Error"

/-- A text that starts with other bytes than `w` does not start with `w`. -/
theorem not_prefix_append {w u v : Text} (n : Nat) (hw : n ≤ w.length) (hu : n ≤ u.length)
    (h : w.take n ≠ u.take n) : ¬w <+: u ++ v := by
  rintro ⟨x, hx⟩
  have htake : (w ++ x).take n = (u ++ v).take n := congrArg (List.take n) hx
  rw [List.take_append_of_le_length hw, List.take_append_of_le_length hu] at htake
  exact h htake

/-- **Only guards speak of internal errors.** -/
theorem not_internalError {p : SemanticProblem} (h : p.isGuard = false) :
    ¬internalError <+: p.message := by
  cases p
  case redeclared name line =>
    cases line with
    | some line =>
      simp only [SemanticProblem.message, List.append_assoc]
      exact not_prefix_append 5 (by decide) (by decide) (by decide)
    | none => cases h
  case folding cause =>
    cases cause with
    | overflow | divisionByZero =>
      unfold SemanticProblem.message
      decide
    | notFoldable | unknownOperator => cases h
  -- this one starts with a name between apostrophes
  case notAFunction name ty =>
    simp only [SemanticProblem.message, SemanticProblem.named, List.append_assoc]
    exact not_prefix_append 1 (by decide) (by decide) (by decide)
  case unbindable | unexpected | returnTy | nestedFunction => cases h
  all_goals
    simp only [SemanticProblem.message, List.append_assoc]
    exact not_prefix_append 5 (by decide) (by decide) (by decide)

/-- No syntax error speaks of internal errors. -/
theorem SyntaxProblem.not_internalError (p : SyntaxProblem) : ¬internalError <+: p.message := by
  cases p
  case returnOutsideFunction | nestedFunction | commaBeforeParen | parameterName
      | calleeExpected =>
    unfold SyntaxProblem.message
    decide
  all_goals
    simp only [SyntaxProblem.message, List.append_assoc]
    exact not_prefix_append 5 (by decide) (by decide) (by decide)

/-! ### Parameters by their place -/

/-- What is wrong with the arguments of a call, with each parameter looked up by its place. A place
without a parameter ends the check with an internal error. -/
def argumentFindingsAt (callee : Ident) (s : Symbol) : Nat → List Expr → List Checked → List Finding
  | index, e :: es, c :: cs =>
    match s.param index with
    | .error cause => [callee.token.finding (.unexpected cause)]
    | .ok p =>
      (if c.ty = .invalid ∨ c.ty = p.ty then []
        else [e.token.finding (.argument (index + 1) callee.name c.ty p.ty)])
        ++ argumentFindingsAt callee s (index + 1) es cs
  | _, _, _ => []

section
variable {s : Symbol} {params : List Param} {result : Ty} (hc : s.content = .function params result)
include hc

/-- A place that is in range has a parameter. -/
theorem param_eq {i : Nat} (hi : i < params.length) : s.param i = .ok params[i] := by
  unfold Symbol.param Symbol.params
  rw [hc, if_neg (Int.not_lt.mpr (Int.natCast_nonneg i)), Int.toNat_natCast,
    List.getElem?_eq_getElem hi]

/-- **The parameters of a call may be looked up by their places**: no place is out of range. -/
theorem argumentFindingsAt_eq (callee : Ident) {k : Nat} (es : List Expr) {cs : List Checked}
    (hk : k + cs.length ≤ params.length) :
    argumentFindingsAt callee s k es cs =
      argumentFindings callee.name (k + 1) es cs (params.drop k) := by
  fun_induction argumentFindingsAt callee s k es cs with
  | case1 k e es c cs cause hparam =>
    rw [param_eq hc (Nat.lt_of_lt_of_le (by simp) hk)] at hparam
    cases hparam
  | case2 k e es c cs p hparam ih =>
    have hlt : k < params.length := Nat.lt_of_lt_of_le (by simp) hk
    rw [param_eq hc hlt] at hparam
    obtain rfl := Except.ok.inj hparam
    rw [List.drop_eq_getElem_cons hlt, argumentFindings, ih (by rwa [Nat.add_right_comm])]
  | case3 k es cs hne =>
    unfold argumentFindings
    split
    · exact absurd rfl (hne _ _ _ _ rfl)
    · rfl

end

end Slang
