import Slang.Proofs.Guards
import Slang.Proofs.Typing.Expression

/-!
# What analysis asks for

The lists of requests in `Slang.Proofs.Guards` are separate from the checks that make the requests.
Here the checks are written once more, such that each call that does not make sense for all arguments
is noted where it is made, and goes on with what it answers, the failures among it. The two agree
(`askProgram_eq`): what is noted is the list of requests, and what comes out is what the check says.

`Asking` is the type of such computations. Each `ask…` below is one function of the analysis, and its
`ask…_eq` says which list of requests belongs to which check. The checks that ask for nothing but
what their expressions ask for are used as they are.
-/

namespace Slang.Analysis

/-- **A computation that notes what it asks for**, in order. -/
@[ext] structure Asking (α : Type) where
  asked : List Request
  result : α

namespace Asking

instance : Monad Asking where
  pure a := ⟨[], a⟩
  bind x f := ⟨x.asked ++ (f x.result).asked, (f x.result).result⟩

theorem pure_eq {α : Type} (a : α) : (pure a : Asking α) = ⟨[], a⟩ := rfl

theorem bind_eq {α β : Type} (qs : List Request) (a : α) (f : α → Asking β) :
    (⟨qs, a⟩ >>= f : Asking β) = ⟨qs ++ (f a).asked, (f a).result⟩ := rfl

end Asking

/-- Ask for something, and go on with the answer. -/
def ask {α : Type} (q : Request) (answer : α) : Asking α := ⟨[q], answer⟩

/-! ### Expressions -/

/-- A prefix operator asks for its value on a constant. -/
def askUnary (tok : Token) (op : UnaryOp) (right : Checked) : Asking Checked :=
  if right.ty = .invalid then return .untyped right.findings
  else if right.ty ≠ op.operandTy then
    return .untyped (right.findings ++ [tok.finding (.unaryMismatch op right.ty)])
  else
    match right.value with
    | none => return .ofTy op.operandTy right.findings
    | some v => do
      let r ← ask (.unary op v) (op.fold v)
      return folded tok op.operandTy right.findings r

/-- An infix operator asks for its value on two constants. -/
def askBinary (tok : Token) (op : BinaryOp) (left right : Checked) : Asking Checked :=
  let before := left.findings ++ right.findings
  if left.ty = .invalid ∨ right.ty = .invalid then return .untyped before
  else
    match op.resultTy? left.ty right.ty with
    | none => return .untyped (before ++ [tok.finding (.binaryMismatch left.ty op right.ty)])
    | some ty =>
      match left.value, right.value with
      | some l, some r => do
        let r ← ask (.binary op l r) (op.fold l r)
        return folded tok ty before r
      | _, _ => return .ofTy ty before

/-- The arguments of a call ask for one parameter each, by its place. A place without a parameter ends
the check with an internal error. -/
def askArguments (callee : Ident) (s : Symbol) :
    Nat → List Expr → List Checked → Asking (List Finding)
  | index, e :: es, c :: cs => do
    match ← ask (.param s index) (s.param index) with
    | .error cause => return [callee.token.finding (.unexpected cause)]
    | .ok p =>
      let rest ← askArguments callee s (index + 1) es cs
      return (if c.ty = .invalid ∨ c.ty = p.ty then []
        else [e.token.finding (.argument (index + 1) callee.name c.ty p.ty)]) ++ rest
  | _, _, _ => return []

/-- A call asks for parameters if it has as many arguments. -/
def askCall (ctx : Context) (t : Table) (callee : Ident) (args : List Expr)
    (checked : List Checked) : Asking Checked :=
  let before := checked.flatMap (·.findings)
  match (t.find? ctx.scope callee.name).bind t.symbol? with
  | none =>
    return .untyped (before ++ [callee.token.finding
      (if isInferredSelf ctx callee.name then .inferredRecursion callee.name
        else .undeclaredFunction callee.name)])
  | some s =>
    match s.content with
    | .variable v _ =>
      return .untyped (before ++ [callee.token.finding (.notAFunction callee.name v.ty)])
    | .function params result =>
      if checked.length ≠ params.length then
        return .ofTy result (before ++ [callee.token.finding
          (.arity callee.name params.length checked.length)])
      else do
        let findings ← askArguments callee s 0 args checked
        return .ofTy result (before ++ findings)

mutual

/-- What an expression asks for, and what is known about it. -/
def askExpr (ctx : Context) (t : Table) : Expr → Asking Checked
  | .unary tok op right =>
    if isLeastInt op right then return constant ctx (.int (Int32.ofInt minInt))
    else do
      let right ← askExpr ctx t right
      askUnary tok op right
  | .binary tok op left right => do
    let left ← askExpr ctx t left
    let right ← askExpr ctx t right
    askBinary tok op left right
  | .group _ e => askExpr ctx t e
  | .call _ callee args => do
    let checked ← askAll ctx t args
    askCall ctx t callee args checked
  | .hole => ask .absent (.untyped [])
  -- names and literals ask for nothing
  | .int tok n => return check ctx t (.int tok n)
  | .str tok s => return check ctx t (.str tok s)
  | .bool tok b => return check ctx t (.bool tok b)
  | .ident id => return check ctx t (.ident id)

/-- The arguments of a call ask one after the other. -/
def askAll (ctx : Context) (t : Table) : List Expr → Asking (List Checked)
  | [] => return []
  | e :: es => do
    let c ← askExpr ctx t e
    let cs ← askAll ctx t es
    return c :: cs

end

/-- A prefix operator asks for a value on a constant of its type. -/
theorem askUnary_eq (tok : Token) (op : UnaryOp) (right : Checked) :
    askUnary tok op right = ⟨unaryRequests op right, checkUnary tok op right⟩ := by
  unfold askUnary unaryRequests checkUnary
  by_cases hinv : right.ty = .invalid
  · rw [if_pos hinv, if_pos hinv, if_pos (.inl hinv)]
    rfl
  by_cases hty : right.ty = op.operandTy
  · rw [if_neg hinv, if_neg hinv, if_neg (not_not_intro hty), if_neg (not_not_intro hty),
      if_neg (not_or.mpr ⟨hinv, not_not_intro hty⟩)]
    -- the operand has the right type, so a constant is folded
    cases right.value <;> rfl
  · rw [if_neg hinv, if_neg hinv, if_pos hty, if_pos hty, if_pos (.inr hty)]
    rfl

/-- An infix operator asks for a value on two constants that it has a result for. -/
theorem askBinary_eq (tok : Token) (op : BinaryOp) (left right : Checked) :
    askBinary tok op left right = ⟨binaryRequests op left right, checkBinary tok op left right⟩ := by
  unfold askBinary binaryRequests checkBinary
  dsimp only
  by_cases hinv : left.ty = .invalid ∨ right.ty = .invalid
  · rw [if_pos hinv, if_pos hinv, if_pos (or_assoc.mp (.inl hinv))]
    rfl
  rw [if_neg hinv, if_neg hinv]
  cases hty : op.resultTy? left.ty right.ty with
  | none =>
    rw [if_pos (.inr (.inr rfl))]
    rfl
  | some ty =>
    rw [if_neg fun h => hinv (or_assoc.mpr h |>.resolve_right (by simp))]
    cases left.value <;> cases right.value <;> rfl

/-- The findings about arguments are those of the check by places. -/
theorem result_askArguments (callee : Ident) (s : Symbol) (k : Nat) (es : List Expr)
    (cs : List Checked) :
    (askArguments callee s k es cs).result = argumentFindingsAt callee s k es cs := by
  fun_induction argumentFindingsAt callee s k es cs with
  | case1 k e es c cs cause hparam => rw [askArguments, hparam]; rfl
  | case2 k e es c cs p hparam ih => rw [askArguments, hparam, ← ih]; rfl
  | case3 k es cs hne =>
    unfold askArguments
    split
    · exact absurd rfl (hne _ _ _ _ rfl)
    · rfl

section
variable {s : Symbol} {params : List Param} {result : Ty} (hc : s.content = .function params result)
include hc

/-- One parameter is asked for with each argument. -/
theorem asked_askArguments (callee : Ident) {k : Nat} {es : List Expr} {cs : List Checked}
    (hlen : es.length = cs.length) (hk : k + cs.length ≤ params.length) :
    (askArguments callee s k es cs).asked = (List.range' k cs.length).map fun i => .param s i := by
  induction cs generalizing k es with
  | nil =>
    obtain rfl := List.length_eq_zero_iff.mp hlen
    rfl
  | cons c cs ih =>
    obtain ⟨e, es, rfl⟩ := List.exists_cons_of_length_eq_add_one hlen
    -- the place is in range, so the check goes on
    have hlt : k < params.length := Nat.lt_of_lt_of_le (by simp) hk
    have hplaces : k + 1 + cs.length ≤ params.length := by
      rw [List.length_cons] at hk
      omega
    have hrest := ih (Nat.succ.inj hlen) hplaces
    rw [askArguments, param_eq hc hlt, List.length_cons, List.range'_succ, List.map_cons, ← hrest]
    exact congrArg (_ :: ·) (List.append_nil _)

/-- The parameters of a call are asked for by their places, and none of these is out of range. -/
theorem askArguments_eq (callee : Ident) {k : Nat} {es : List Expr} {cs : List Checked}
    (hlen : es.length = cs.length) (hk : k + cs.length ≤ params.length) :
    askArguments callee s k es cs =
      ⟨(List.range' k cs.length).map fun i => .param s i,
        argumentFindings callee.name (k + 1) es cs (params.drop k)⟩ :=
  Asking.ext (asked_askArguments hc callee hlen hk)
    ((result_askArguments callee s k es cs).trans (argumentFindingsAt_eq hc callee es hk))

end

/-- A call of a function with as many arguments as parameters asks for each of them. -/
theorem askCall_eq (ctx : Context) (t : Table) (callee : Ident) {args : List Expr}
    {checked : List Checked} (hlen : args.length = checked.length) :
    askCall ctx t callee args checked =
      ⟨callRequests ctx t callee checked, checkCall ctx t callee args checked⟩ := by
  unfold askCall callRequests checkCall
  dsimp only
  cases (t.find? ctx.scope callee.name).bind t.symbol? with
  | none => rfl
  | some s =>
    dsimp only
    cases hc : s.content with
    | «variable» v calculated => rfl
    | function params result =>
      dsimp only
      -- a wrong number of arguments is reported, and the arguments are not compared
      by_cases hcount : checked.length = params.length
      · have hle : 0 + checked.length ≤ params.length := by omega
        rw [if_neg (not_not_intro hcount), if_neg (not_not_intro hcount),
          if_neg (not_not_intro hcount), askArguments_eq hc callee hlen hle, Asking.bind_eq,
          Asking.pure_eq, List.append_nil, List.range_eq_range']
        rfl
      · rw [if_pos hcount, if_pos hcount, if_pos hcount]
        rfl

mutual

/-- **An expression asks for the requests that are listed for it.** -/
theorem askExpr_eq (ctx : Context) (t : Table) :
    (e : Expr) → askExpr ctx t e = ⟨exprRequests ctx t e, check ctx t e⟩
  | .unary tok op right => by
    rw [askExpr, exprRequests, check]
    split
    · rfl
    · rw [askExpr_eq ctx t right, Asking.bind_eq, askUnary_eq]
  | .binary tok op left right => by
    rw [askExpr, exprRequests, check, askExpr_eq ctx t left, askExpr_eq ctx t right, Asking.bind_eq,
      Asking.bind_eq, askBinary_eq, List.append_assoc]
  | .group _ e => by
    rw [askExpr, exprRequests, check, askExpr_eq ctx t e]
  | .call _ callee args => by
    have hlen : args.length = (checkAll ctx t args).length := by
      rw [checkAll_eq_map, List.length_map]
    rw [askExpr, exprRequests, check, askAll_eq ctx t args, Asking.bind_eq,
      askCall_eq ctx t callee hlen]
  | .hole => by
    rw [askExpr, exprRequests, check]
    rfl
  | .int .. | .str .. | .bool .. | .ident _ => by
    rw [askExpr, exprRequests]
    rfl

/-- Arguments ask one after the other. -/
theorem askAll_eq (ctx : Context) (t : Table) :
    (es : List Expr) → askAll ctx t es = ⟨argumentRequests ctx t es, checkAll ctx t es⟩
  | [] => by
    rw [askAll, argumentRequests, checkAll]
    rfl
  | e :: es => by
    rw [askAll, argumentRequests, checkAll, askExpr_eq ctx t e, askAll_eq ctx t es, Asking.bind_eq,
      Asking.bind_eq, Asking.pure_eq, List.append_nil]

end

/-- What an expression that may be left out asks for. -/
def askValue (ctx : Context) (t : Table) : Option Expr → Asking Checked
  | none => return .untyped []
  | some e => askExpr ctx t e

/-- A value that is left out asks for nothing. -/
theorem askValue_eq (ctx : Context) (t : Table) (value : Option Expr) :
    askValue ctx t value = ⟨valueRequests ctx t value, letInit ctx t value⟩ := by
  cases value with
  | none => rfl
  | some e => exact askExpr_eq ctx t e

/-! ### Declarations -/

/-- A variable asks for the default of its kind, if there is one. -/
def askVariable (ty : Ty) (name : Text) (line : Int) : Asking (Except SymbolError Symbol) :=
  if ty ∈ variableKinds then do
    match ← ask (.defaultOf ty) (Value.defaultOf ty) with
    | .ok v => return .ok (.ofValue name line v false)
    | .error _ => return .error (.noDefault name ty)
  else return .error (.noDefault name ty)

/-- The kinds of variables are the types that have a default. -/
theorem askVariable_eq (ty : Ty) (name : Text) (line : Int) :
    askVariable ty name line = ⟨variableRequests ty, Symbol.ofTy ty name line⟩ := by
  cases ty <;> rfl

/-- The variable of a declaration asks for its default before its value is put into it. -/
def askLetSymbol (name : Ident) (ty : Ty) : Option Value → Asking (Except SymbolError Symbol)
  | none => askVariable ty name.name name.token.line
  | some v => do
    let fits ← ask (.initial ty v) (decide (v.ty = ty))
    let made ← askVariable ty name.name name.token.line
    return made.bind fun _ =>
      if fits then .ok (.ofValue name.name name.token.line v true)
      else .error (.valueTy name.name (Operand.value v).kindName ty)

/-- A variable with a value asks whether it fits, and for its default all the same. -/
theorem askLetSymbol_eq (name : Ident) (ty : Ty) (value : Option Value) :
    askLetSymbol name ty value = ⟨declaredRequests (some (ty, value)), letSymbol name ty value⟩ := by
  cases value with
  | none => exact askVariable_eq ty _ _
  | some v =>
    rw [askLetSymbol, askVariable_eq, letSymbol, Symbol.ofOperand]
    by_cases hv : v.ty = ty
    · -- a value of the type has a type with a default
      subst hv
      cases v <;> rfl
    · rw [ask, Asking.bind_eq, Asking.bind_eq, Asking.pure_eq, List.append_nil, if_neg hv,
        decide_eq_false hv]
      rfl

/-- A declaration asks for what its value asks for, and for a variable. -/
def askLet (ctx : Context) (name : Ident) (type : Option TypeNode) (value : Option Expr)
    (st : State) : Asking State := do
  let init ← askValue ctx st.table value
  let (result, findings) := letTy name type value init
  let st := st.report (init.findings ++ findings)
  match result with
  | none => return st
  | some (ty, v) =>
    match ← askLetSymbol name ty v with
    | .ok s => return declare ctx { s with inferred := type.isNone } name.token st
    | .error (.noDefault ..) =>
      return st.problem ((type.map (·.token)).getD name.token) (.variableTy name.name ty)
    | .error e => return st.problem name.token (.unexpected e)

/-- **A declaration asks for the requests that are listed for it.** -/
theorem askLet_eq (ctx : Context) (name : Ident) (type : Option TypeNode) (value : Option Expr)
    (st : State) : askLet ctx name type value st =
      ⟨letRequests ctx st.table name type value, checkLet ctx name type value st⟩ := by
  unfold askLet letRequests checkLet
  rw [askValue_eq, Asking.bind_eq]
  unfold letInit
  dsimp only
  rcases hlet : letTy name type value ((value.map (check ctx st.table)).getD (.untyped []))
    with ⟨result, findings⟩
  cases result with
  | none => rfl
  | some r =>
    obtain ⟨ty, v⟩ := r
    dsimp only
    rw [askLetSymbol_eq, Asking.bind_eq]
    -- what is made of the variable asks for nothing more
    cases letSymbol name ty v with
    | ok s => exact Asking.ext (congrArg (_ ++ ·) (List.append_nil _)) rfl
    | error e => cases e <;> exact Asking.ext (congrArg (_ ++ ·) (List.append_nil _)) rfl

/-! ### Statements -/

mutual

/-- What a statement asks for, and the state after it. -/
def askStmt (ctx : Context) (st : State) : Stmt → Asking State
  | .letDecl _ name type value => askLet ctx name type value st
  -- what follows a value that was checked asks for nothing more
  | .assign _ name value => do
    let _ ← askExpr ctx st.table value
    return checkAssign ctx name value st
  | .ret tok value =>
    if ctx.fn.isSome then do
      let _ ← askValue ctx st.table value
      return checkReturn ctx tok value st
    else return st
  | .expr _ e => do
    let _ ← askExpr ctx st.table e
    return checkExprStmt ctx e st
  | .block _ body =>
    askStmts (blockContext ctx st) (scopeStart ctx "block" st.returns st) body
  | .fn head .. => return st.problem head.token .nestedFunction
  | .hole => ask .absent st

/-- Statements ask one after the other. -/
def askStmts (ctx : Context) (st : State) : List Stmt → Asking State
  | [] => return st
  | s :: ss => do
    let st ← askStmt ctx st s
    askStmts ctx st ss

end

/-- Nothing is asked for after an expression. -/
theorem askExpr_bind_pure (ctx : Context) (t : Table) (e : Expr) (st : State) :
    (do let _ ← askExpr ctx t e; return st : Asking State) = ⟨exprRequests ctx t e, st⟩ := by
  rw [askExpr_eq, Asking.bind_eq, Asking.pure_eq, List.append_nil]

mutual

/-- **A statement asks for the requests that are listed for it.** -/
theorem askStmt_eq (ctx : Context) (st : State) :
    (s : Stmt) → askStmt ctx st s = ⟨stmtRequests ctx st s, checkStmt ctx st s⟩
  | .letDecl _ name type value => by
    rw [askStmt, stmtRequests, checkStmt]
    exact askLet_eq ctx name type value st
  | .assign _ name value => by
    rw [askStmt, stmtRequests, checkStmt, askExpr_bind_pure]
  | .ret tok value => by
    rw [askStmt, stmtRequests, checkStmt]
    cases hfn : ctx.fn with
    | none =>
      rw [checkReturn, hfn]
      rfl
    | some f =>
      rw [askValue_eq, Asking.bind_eq, Asking.pure_eq, List.append_nil]
      rfl
  | .expr _ e => by
    rw [askStmt, stmtRequests, checkStmt, askExpr_bind_pure]
  | .block _ body => by
    rw [askStmt, stmtRequests, checkStmt_block, askStmts_eq _ _ body]
  | .fn .. => by
    rw [askStmt, stmtRequests, checkStmt]
    rfl
  | .hole => by
    rw [askStmt, stmtRequests, checkStmt]
    rfl

/-- Statements ask one after the other, each in the state that those before it have left. -/
theorem askStmts_eq (ctx : Context) (st : State) :
    (ss : List Stmt) → askStmts ctx st ss = ⟨stmtsRequests ctx st ss, checkStmts ctx st ss⟩
  | [] => by
    rw [askStmts, stmtsRequests, checkStmts]
    rfl
  | s :: ss => by
    rw [askStmts, stmtsRequests, checkStmts, askStmt_eq ctx st s, Asking.bind_eq,
      askStmts_eq ctx _ ss]

end

/-! ### Functions -/

/-- The parameters of a function ask for a variable each. -/
def askParams (seen : List Text) (st : State) : List ParamDecl → Asking (State × List Param)
  | [] => return (st, [])
  | p :: ps =>
    let name := p.name.name
    if seen.contains name then
      askParams seen (st.problem p.name.token (.duplicateParameter name)) ps
    else do
      match ← askVariable p.type.ty name p.name.token.line with
      | .ok s =>
        let (st, id) := st.addSymbol s
        let (st, rest) ← askParams (name :: seen) st ps
        return (st, ⟨id, name, s.ty⟩ :: rest)
      | .error (.noDefault ..) =>
        askParams (name :: seen) (st.problem p.type.token (.parameterTy name p.type.ty)) ps
      | .error e => askParams (name :: seen) (st.problem p.name.token (.unexpected e)) ps

/-- Parameters ask for their defaults; a second parameter of a name does not. -/
theorem askParams_eq (seen : List Text) (st : State) (ps : List ParamDecl) :
    askParams seen st ps = ⟨paramRequests seen ps, makeParams seen st ps⟩ := by
  induction ps generalizing seen st with
  | nil => rfl
  | cons p ps ih =>
    rw [askParams, paramRequests, makeParams]
    dsimp only
    split
    · exact ih _ _
    · rw [askVariable_eq, Asking.bind_eq]
      cases Symbol.ofTy p.type.ty p.name.name p.name.token.line with
      | ok s =>
        dsimp only
        rw [ih, Asking.bind_eq, Asking.pure_eq, List.append_nil]
      | error e => cases e <;> (dsimp only; rw [ih])

/-- The symbol of a function asks for its signature. -/
def askFunction (head : FnHead) (params : List Param) (result : Ty) (inferred : Bool) (st : State) :
    Asking (State × Option Symbol) := do
  match ← ask (.signature params result) (Symbol.ofSignature head.name.name head.name.token.line
      (params.map some) result inferred) with
  | .ok s => return (st, some s)
  | .error e =>
    let tok := (head.result.map (·.token)).getD head.name.token
    match e with
    | .returnTy .. => return (st.problem tok (.returnTy head.name.name result), none)
    | _ => return (st.problem tok (.unexpected e), none)

/-- A function asks for its signature once. -/
theorem askFunction_eq (head : FnHead) (params : List Param) (result : Ty) (inferred : Bool)
    (st : State) : askFunction head params result inferred st =
      ⟨[.signature params result], makeFunction head params result inferred st⟩ := by
  unfold askFunction makeFunction ask
  rw [Asking.bind_eq]
  cases Symbol.ofSignature head.name.name head.name.token.line (params.map some) result inferred with
  | ok s => rfl
  | error e => cases e <;> rfl

/-- The body of a function asks for what its statements ask for. -/
def askBody (ctx : Context) (head : FnHead) (declared : Option Ty) (params : List Param)
    (body : List Stmt) (st : State) : Asking State :=
  askStmts (bodyContext ctx head declared params st) (bodyStart ctx head declared params st) body

/-- The body of a function asks in its own scope. -/
theorem askBody_eq (ctx : Context) (head : FnHead) (declared : Option Ty) (params : List Param)
    (body : List Stmt) (st : State) : askBody ctx head declared params body st =
      ⟨bodyRequests ctx head declared params body st, checkBody ctx head declared params body st⟩ := by
  rw [askBody, askStmts_eq, checkBody_eq]
  rfl

/-- A function with a written result type. -/
def askDeclared (ctx : Context) (head : FnHead) (params : List Param) (result : Ty)
    (body : List Stmt) (st : State) : Asking State := do
  let st ← askBody ctx head (some result) params body st
  if result ≠ .void ∧ ¬st.returns.seen then
    return st.problem head.name.token (.missingReturn head.name.name result)
  else return st

/-- A function that was declared asks for what its body asks for. -/
theorem askDeclared_eq (ctx : Context) (head : FnHead) (params : List Param) (result : Ty)
    (body : List Stmt) (st : State) : askDeclared ctx head params result body st =
      ⟨bodyRequests ctx head (some result) params body st,
        checkDeclared ctx head params result body st⟩ := by
  rw [askDeclared, askBody_eq, Asking.bind_eq, checkDeclared]
  split
  · exact Asking.ext (List.append_nil _) rfl
  · exact Asking.ext (List.append_nil _) rfl

/-- A function without a written result type: its signature comes after its body. -/
def askInferred (ctx : Context) (head : FnHead) (body : List Stmt) (st : State) :
    Asking State := do
  let (st, params) ← askParams [] st head.params
  let st ← askBody ctx head none params body st
  match ← askFunction head params st.returns.ty true st with
  | (st, none) => return st
  | (st, some s) => return (declare ctx s head.name.token st).note (.inferred s.name s.descriptor)

/-- A function without a written result type asks for its signature last. -/
theorem askInferred_eq (ctx : Context) (head : FnHead) (body : List Stmt) (st : State) :
    askInferred ctx head body st =
      ⟨inferredRequests ctx head body st, checkInferred ctx head body st⟩ := by
  unfold askInferred inferredRequests checkInferred
  rw [askParams_eq, Asking.bind_eq]
  generalize makeParams [] st head.params = made
  obtain ⟨st₁, params⟩ := made
  dsimp only
  rw [askBody_eq, Asking.bind_eq, askFunction_eq, Asking.bind_eq]
  generalize checkBody ctx head none params body st₁ = st₂
  -- whether the signature could be made or not, nothing is asked for after it
  rcases makeFunction head params st₂.returns.ty true st₂ with ⟨st₃, _ | s⟩
  · exact Asking.ext (List.append_assoc _ _ _).symm rfl
  · exact Asking.ext (List.append_assoc _ _ _).symm rfl

/-! ### Programs -/

/-- The first pass on one statement. -/
def askHoist (ctx : Context) (st : State) : Stmt → Asking (State × Option Symbol)
  | .fn head _ _ =>
    match head.result with
    | none => return (st, none)
    | some result => do
      let (st, params) ← askParams [] st head.params
      match ← askFunction head params result.ty false st with
      | (st, none) => return (st, none)
      | (st, some s) =>
        return ((declare ctx s head.name.token st).note (.hoisted s.name s.descriptor), some s)
  | _ => return (st, none)

/-- The first pass. -/
def askHoistAll (ctx : Context) (st : State) :
    Program → Asking (State × List (Stmt × Option Symbol))
  | [] => return (st, [])
  | s :: ss => do
    let (st, signature) ← askHoist ctx st s
    let (st, rest) ← askHoistAll ctx st ss
    return (st, (s, signature) :: rest)

/-- The second pass on one statement. -/
def askTop (ctx : Context) (st : State) : Stmt × Option Symbol → Asking State
  | (.fn head _ body, signature) =>
    match head.result, signature with
    | none, _ => askInferred ctx head body st
    | some _, none => return st
    | some result, some s => askDeclared ctx head s.params result.ty body st
  | (s, _) => askStmt ctx st s

/-- The second pass. -/
def askTops (ctx : Context) (st : State) : List (Stmt × Option Symbol) → Asking State
  | [] => return st
  | s :: l => do
    let st ← askTop ctx st s
    askTops ctx st l

/-- **What both passes over a program ask for**, and the state after them. -/
def askProgram (options : Options) (mutated : List Text) (p : Program) : Asking State := do
  let ctx := topContext options mutated
  let (st, stmts) ← askHoistAll ctx startState p
  askTops ctx st stmts

/-- The first pass asks for signatures only. -/
theorem askHoist_eq (ctx : Context) (st : State) (s : Stmt) :
    askHoist ctx st s = ⟨hoistRequests st s, hoist ctx st s⟩ := by
  cases s with
  | fn head brace body =>
    unfold askHoist hoistRequests hoist
    dsimp only
    cases head.result with
    | none => rfl
    | some result =>
      dsimp only
      rw [askParams_eq, Asking.bind_eq, askFunction_eq, Asking.bind_eq]
      rcases makeFunction head _ _ false _ with ⟨st₁, _ | s⟩
      · rfl
      · rfl
  | _ => rfl

/-- The first pass asks for one signature after the other. -/
theorem askHoistAll_eq (ctx : Context) (st : State) (p : Program) :
    askHoistAll ctx st p = ⟨hoistAllRequests ctx st p, hoistAll ctx st p⟩ := by
  induction p generalizing st with
  | nil => rfl
  | cons s ss ih =>
    rw [askHoistAll, askHoist_eq, Asking.bind_eq]
    dsimp only
    rw [ih, Asking.bind_eq, Asking.pure_eq, List.append_nil]
    rfl

/-- The second pass on one statement. -/
theorem askTop_eq (ctx : Context) (st : State) (s : Stmt × Option Symbol) :
    askTop ctx st s = ⟨topRequests ctx st s, checkTop ctx st s⟩ := by
  obtain ⟨s, signature⟩ := s
  cases s with
  | fn head brace body =>
    unfold askTop topRequests checkTop
    dsimp only
    cases head.result with
    | none => exact askInferred_eq ctx head body st
    | some result =>
      cases signature with
      | none => rfl
      | some s => exact askDeclared_eq ctx head s.params result.ty body st
  | _ => exact askStmt_eq ctx st _

/-- The second pass asks for one statement after the other. -/
theorem askTops_eq (ctx : Context) (st : State) (l : List (Stmt × Option Symbol)) :
    askTops ctx st l = ⟨topsRequests ctx st l, l.foldl (checkTop ctx) st⟩ := by
  induction l generalizing st with
  | nil => rfl
  | cons s l ih => rw [askTops, askTop_eq, Asking.bind_eq, ih, topsRequests, List.foldl_cons]

/-- **A program asks for the requests that are listed for it**, whether they make sense or not. -/
theorem askProgram_eq (options : Options) (mutated : List Text) (p : Program) :
    askProgram options mutated p =
      ⟨programRequests options mutated p, checkProgram options mutated p⟩ := by
  rw [askProgram, askHoistAll_eq, Asking.bind_eq, checkProgram_eq]
  dsimp only
  rw [askTops_eq]
  rfl

end Slang.Analysis
