import Mathlib.Logic.Relation
import Slang.Tree.Parser

/-!
# The calls of the readers

The readers of `Slang.Parser` are total, and the loops in them advance by a maximum that is never
zero. Here they are written down once more without either: each reader is a **script** that says
which readers it calls and what it makes of their answers, and a loop goes on where its statement
left it, unless the statement was dropped and the next token is still the one at which it started
(`turn`). Nothing in a script says that it comes to an end, and a loop that compared tokens in vain
would go on forever.

* `Call` is a call of a reader, with what it is given; loops are readers that call themselves;
* `Call.script` is what a reader does;
* `Call.Returns` says that a call comes to an end, with an answer. A call that goes on forever
  returns nothing;
* `Call.Makes` says that a call makes another one before it returns.

That the scripts describe the readers of `Slang.Parser`, and that all calls return, is shown in
`Slang.Proofs.Calls.Ends`.
-/

namespace Slang.Parser

/-- The readers that loop or call each other. -/
inductive Reader where
  | resync | skipBraces | skipFunction | moreParameters
  | operand | extend | expr | moreArguments | arguments
  | statement | body | topLevel | program
  deriving DecidableEq, Repr

/-- **A call of a reader**, with what it is given. The index is the type of its answer; the loop over
a program also says which tokens it has left. -/
inductive Call : Type → Type
  | resync (ts : List Token) : Call Nat
  | skipBraces (depth : Nat) (ts : List Token) : Call Nat
  | skipFunction (ts : List Token) : Call Nat
  | moreParameters (ts : List Token) : Call (Reply (List ParamDecl))
  | operand (ts : List Token) : Call (Reply Expr)
  | extend (level : Level) (left : Expr) (ts : List Token) : Call (Reply Expr)
  | expr (level : Level) (ts : List Token) : Call (Reply Expr)
  | moreArguments (ts : List Token) : Call (Reply (List Expr))
  | arguments (ts : List Token) : Call (Reply (List Expr))
  | statement (depth : Nat) (t : Token) (rest : List Token) : Call (Parsed Stmt)
  | body (depth : Nat) (ts : List Token) : Call Body
  | topLevel (t : Token) (rest : List Token) : Call (Parsed Stmt)
  | program (ts : List Token) : Call (Result × List Token)

namespace Call

variable {α : Type}

/-- The reader that is called. -/
def reader : Call α → Reader
  | resync _ => .resync
  | skipBraces .. => .skipBraces
  | skipFunction _ => .skipFunction
  | moreParameters _ => .moreParameters
  | operand _ => .operand
  | extend .. => .extend
  | expr .. => .expr
  | moreArguments _ => .moreArguments
  | arguments _ => .arguments
  | statement .. => .statement
  | body .. => .body
  | topLevel .. => .topLevel
  | program _ => .program

/-- The tokens that are left when a reader is called. -/
def tokens : Call α → List Token
  | resync ts | skipBraces _ ts | skipFunction ts | moreParameters ts => ts
  | operand ts | extend _ _ ts | expr _ ts | moreArguments ts | arguments ts => ts
  | body _ ts | program ts => ts
  | statement _ t rest | topLevel t rest => t :: rest

/-- Statements and blocks stand inside a function; nothing is asked of other calls. -/
def Inside : Call α → Prop
  | statement depth .. | body depth _ => 0 < depth
  | _ => True

end Call

/-! ### Scripts -/

/-- **What a reader does**: it is done, or it calls a reader and goes on with the answer. -/
inductive Script (α : Type) : Type 1
  | done (a : α) : Script α
  | call {β : Type} (c : Call β) (next : β → Script α) : Script α

namespace Script

variable {α β : Type}

/-- One script after another. -/
def bind : Script α → (α → Script β) → Script β
  | done a, f => f a
  | call c next, f => call c fun b => (next b).bind f

/-- The script with another answer. -/
def map (f : α → β) (s : Script α) : Script β := s.bind fun a => done (f a)

/-- Call a reader, and do nothing else. -/
def ask (c : Call α) : Script α := call c done

/-- Go on with what `ts` has left after a result; an error ends reading. -/
def andThen (s : Script (Reply α)) (ts : List Token) (next : α → List Token → Script (Reply β)) :
    Script (Reply β) :=
  s.bind fun
    | .ok a k => (next a (ts.drop k)).map (Reply.shift k)
    | .fail f k => done (.fail f k)

/-! ### Parts of statements -/

/-- A dropped statement. -/
def dropped (ts : List Token) (faults : List Fault) (k : Nat) : Script (Parsed α) :=
  call (.resync (ts.drop k)) fun n => done ⟨none, faults, k + n⟩

/-- A dropped function. -/
def droppedFunction (ts : List Token) (fault : Fault) (k : Nat) : Script (Parsed α) :=
  call (.skipFunction (ts.drop k)) fun n => done ⟨none, [fault], k + n⟩

/-- The end of a statement. -/
def finish (eof : Token) (ts : List Token) (node : Stmt) (faults : List Fault) (k : Nat) :
    Script (Parsed Stmt) :=
  match expect eof .semicolon (ts.drop k) with
  | .ok _ n => done ⟨some node, faults, k + n⟩
  | .fail f _ => dropped ts (faults ++ [f]) k

/-- A sign of assignment and an expression, or nothing. -/
def optionalValue (ts : List Token) : Script (Reply (Option Expr)) :=
  if nextIs .assign ts then
    (ask (.expr Level.lowest (ts.drop 1))).map fun r => (r.map some).shift 1
  else done (.ok none 0)

/-- A declaration of a variable, from its keyword on. -/
def letStmt (eof t : Token) (rest : List Token) : Script (Parsed Stmt) :=
  let ts := t :: rest
  let head :=
    (done (expectSecond eof .ident ts)).andThen ts fun name rest =>
      (done (optionalType eof rest)).andThen rest fun type rest =>
        (optionalValue rest).map (Reply.map fun value => (name, type, value))
  head.bind fun
    | .fail f k => dropped ts [f] k
    | .ok (name, type, value) k =>
      let faults :=
        if type.isNone && value.isNone then [name.fault (.noInitializer name.literal)] else []
      finish eof ts (.letDecl t ⟨name, name.literal⟩ type value) faults k

/-- An assignment. -/
def assignStmt (eof name sign : Token) (rest : List Token) : Script (Parsed Stmt) :=
  let ts := name :: sign :: rest
  ((ask (.expr Level.lowest rest)).map (Reply.shift 2)).bind fun
    | .fail f k => dropped ts [f] k
    | .ok e k => finish eof ts (.assign sign ⟨name, name.literal⟩ e) [] k

/-- A return, from its keyword on. -/
def returnStmt (eof : Token) (depth : Nat) (t : Token) (rest : List Token) :
    Script (Parsed Stmt) :=
  let ts := t :: rest
  let outside := if depth = 0 then [t.fault .returnOutsideFunction] else []
  if nextIs .semicolon rest then finish eof ts (.ret t none) outside 1
  else
    ((ask (.expr Level.lowest rest)).map (Reply.shift 1)).bind fun
      | .fail f k => dropped ts (outside ++ [f]) k
      | .ok e k => finish eof ts (.ret t (some e)) outside k

/-- An expression as a statement. -/
def exprStmt (eof t : Token) (rest : List Token) : Script (Parsed Stmt) :=
  let ts := t :: rest
  (ask (.expr Level.lowest ts)).bind fun
    | .fail f k => dropped ts [f] k
    | .ok e k => finish eof ts (.expr t e) [] k

/-- The parameters of a function, from after the opening parenthesis. -/
def parameters (ts : List Token) : Script (Reply (List ParamDecl)) :=
  if nextIs .rparen ts then done (.ok [] 1) else ask (.moreParameters ts)

/-- What a function says before its body, and the opening brace. -/
def fnHead (eof t : Token) (rest : List Token) : Script (Reply (FnHead × Token)) :=
  match expectSecond eof .ident (t :: rest) with
  | .fail f k => done (.fail f k)
  | .ok name _ =>
    ((done (expectSecond eof .lparen rest)).andThen rest fun _ rest =>
      (parameters rest).andThen rest fun params rest =>
        (done (optionalType eof rest)).andThen rest fun result rest =>
          done ((openBrace eof name rest).map fun brace =>
            (⟨t, ⟨name, name.literal⟩, params, result⟩, brace))).map (Reply.shift 1)

/-- A function, from its keyword on. -/
def function (eof : Token) (depth : Nat) (t : Token) (rest : List Token) : Script (Parsed Stmt) :=
  let ts := t :: rest
  (fnHead eof t rest).bind fun
    | .fail f k => droppedFunction ts f k
    | .ok (head, brace) k =>
      call (.body (depth + 1) (ts.drop k)) fun b =>
        done ⟨if b.closed then some (.fn head (some brace) b.stmts) else none, b.faults,
          k + b.taken⟩

end Script

/-! ### Turns of a loop -/

/-- **How many tokens a turn of a loop passes over**: those that its statement took, and one more if
the statement was dropped and the next token is the one at which the turn began. -/
def turn (eof : Token) (ts : List Token) (p : Parsed Stmt) : Nat :=
  if p.node.isNone ∧ (ts.drop p.taken).headD eof = ts.headD eof then p.taken + 1 else p.taken

/-! ### The readers -/

namespace Script

/-- Pass over what is left of a statement. -/
def resync (ts : List Token) : Script Nat :=
  match ts with
  | [] => done 0
  | t :: rest =>
    if t.kind = .semicolon then done 1
    else if t.kind = .rbrace then done 0
    else if atDeclaration rest then done 1
    else (ask (.resync rest)).map (· + 1)

/-- Pass over a group of braces. -/
def skipBraces (depth : Nat) (ts : List Token) : Script Nat :=
  match ts with
  | [] => done 0
  | t :: rest =>
    let depth' :=
      if t.kind = .lbrace then depth + 1
      else if t.kind = .rbrace then depth - 1
      else depth
    if depth' = 0 then done 1 else (ask (.skipBraces depth' rest)).map (· + 1)

/-- Pass over what is left of a function. -/
def skipFunction (ts : List Token) : Script Nat :=
  match ts with
  | [] => done 0
  | t :: rest =>
    if t.kind = .lbrace then ask (.skipBraces 0 (t :: rest))
    else if t.kind = .kwLet ∨ (t.kind = .kwFn ∧ nextIs .ident rest) then done 0
    else (ask (.skipFunction rest)).map (· + 1)

/-- What follows an element of a list in parentheses. -/
def listTail {α : Type} (eof : Token) (early : Text → SyntaxProblem)
    (late : Token.Kind → Text → SyntaxProblem) (more : List Token → Call (Reply (List α))) (a : α)
    (ts : List Token) : Script (Reply (List α)) :=
  let t := ts.headD eof
  if t.kind = .comma then
    let next := (ts.drop 1).headD eof
    if next.kind = .rparen then done (.fail (next.fault (early next.literal)) 1)
    else (ask (more (ts.drop 1))).map fun r => (r.map (a :: ·)).shift 1
  else if t.kind = .rparen then done (.ok [a] 1)
  else done (.fail (t.fault (late t.kind t.literal)) 0)

/-- At least one parameter, and the rest of the list. -/
def moreParameters (eof : Token) (ts : List Token) : Script (Reply (List ParamDecl)) :=
  (done (parameter eof ts)).andThen ts
    (listTail eof (fun _ => .commaBeforeParen) (fun kind _ => .parameterEnd kind) .moreParameters)

/-- An operand. -/
def operand (eof : Token) (ts : List Token) : Script (Reply Expr) :=
  match ts with
  | [] => done (.fail (eof.fault (.expressionExpected eof.kind eof.literal)) 0)
  | t :: rest =>
    match t.kind with
    | .ident => done (.ok (.ident ⟨t, t.literal⟩) 1)
    | .int =>
      match int64? t.literal with
      | some n => done (.ok (.int t n) 1)
      | none => done (.fail (t.fault (.integerTooLarge t.literal)) 1)
    | .string => done (.ok (.str t t.literal) 1)
    | .kwTrue => done (.ok (.bool t true) 1)
    | .kwFalse => done (.ok (.bool t false) 1)
    | .lparen =>
      ((ask (.expr Level.lowest rest)).andThen rest fun e rest' =>
        done ((expect eof .rparen rest').map fun _ => .group t e)).map (Reply.shift 1)
    | .minus => (ask (.expr Level.unary rest)).map fun r => (r.map (.unary t .neg)).shift 1
    | .bang => (ask (.expr Level.unary rest)).map fun r => (r.map (.unary t .not)).shift 1
    | .illegal => done (.fail (t.fault (.illegalToken t.literal)) 0)
    | _ => done (.fail (t.fault (.expressionExpected t.kind t.literal)) 0)

/-- An expression whose operators bind more tightly than `level`. -/
def expr (level : Level) (ts : List Token) : Script (Reply Expr) :=
  (ask (.operand ts)).andThen ts fun e rest => ask (.extend level e rest)

/-- An expression that goes on after `left`. -/
def extend (level : Level) (left : Expr) (ts : List Token) : Script (Reply Expr) :=
  match ts with
  | [] => done (.ok left 0)
  | t :: rest =>
    match t.kind.binaryOp? with
    | some op =>
      if level < op.level then
        ((ask (.expr op.level rest)).andThen rest fun right rest =>
          ask (.extend level (.binary t op left right) rest)).map (Reply.shift 1)
      else done (.ok left 0)
    | none =>
      if t.kind = .lparen ∧ level < Level.call then
        match left.ungroup with
        | .ident callee =>
          ((ask (.arguments rest)).andThen rest fun args rest =>
            ask (.extend level (.call t callee args) rest)).map (Reply.shift 1)
        | _ => done (.fail (t.fault .calleeExpected) 0)
      else done (.ok left 0)

/-- The arguments of a call. -/
def arguments (ts : List Token) : Script (Reply (List Expr)) :=
  if nextIs .rparen ts then done (.ok [] 1) else ask (.moreArguments ts)

/-- At least one argument, and the rest of the list. -/
def moreArguments (eof : Token) (ts : List Token) : Script (Reply (List Expr)) :=
  (ask (.expr Level.lowest ts)).andThen ts
    (listTail eof .commaBeforeEnd (.expected .rparen) .moreArguments)

/-- A statement inside a function. -/
def statement (eof : Token) (depth : Nat) (t : Token) (rest : List Token) : Script (Parsed Stmt) :=
  match t.kind with
  | .kwLet => letStmt eof t rest
  | .kwReturn => returnStmt eof depth t rest
  | .lbrace => (ask (.body depth rest)).map (Body.block t)
  | .kwFn => (ask (.skipFunction rest)).map fun n => ⟨none, [t.fault .nestedFunction], n + 1⟩
  | .ident =>
    match rest with
    | sign :: rest' =>
      if sign.kind = .assign then assignStmt eof t sign rest' else exprStmt eof t rest
    | [] => exprStmt eof t rest
  | _ => exprStmt eof t rest

/-- A turn of the loop over a block, and the turns after it. -/
def body (eof : Token) (depth : Nat) (ts : List Token) : Script Body :=
  match ts with
  | [] => done ⟨false, [], [eof.fault (.unclosedBlock eof.kind eof.literal)], 0⟩
  | t :: rest =>
    if t.kind = .rbrace then done ⟨true, [], [], 1⟩
    else
      (ask (.statement depth t rest)).bind fun first =>
        let k := turn eof (t :: rest) first
        (ask (.body depth ((t :: rest).drop k))).map fun others =>
          ⟨others.closed, first.node.toList ++ others.stmts, first.faults ++ others.faults,
            k + others.taken⟩

/-- A statement at top level. -/
def topLevel (eof t : Token) (rest : List Token) : Script (Parsed Stmt) :=
  let ts := t :: rest
  match t.kind with
  | .kwLet => letStmt eof t rest
  | .kwFn => function eof 0 t rest
  | .ident =>
    match rest with
    | sign :: rest' =>
      if sign.kind = .assign then assignStmt eof t sign rest'
      else dropped ts [t.fault (.topLevelExpression t.literal)] 0
    | [] => dropped ts [t.fault (.topLevelExpression t.literal)] 0
  | .kwReturn => dropped ts [t.fault .returnOutsideFunction] 0
  | _ => dropped ts [t.fault (.unexpectedStart t.kind t.literal)] 0

/-- A turn of the loop over a program, and the turns after it. -/
def program (eof : Token) (ts : List Token) : Script (Result × List Token) :=
  match ts with
  | [] => done (⟨[], []⟩, ts)
  | t :: rest =>
    (ask (.topLevel t rest)).bind fun first =>
      let k := turn eof (t :: rest) first
      (ask (.program ((t :: rest).drop k))).map fun others =>
        (⟨first.node.toList ++ others.1.program, first.faults ++ others.1.faults⟩, others.2)

end Script

/-- **What each reader does.** -/
def Call.script (eof : Token) : {α : Type} → Call α → Script α
  | _, .resync ts => .resync ts
  | _, .skipBraces depth ts => .skipBraces depth ts
  | _, .skipFunction ts => .skipFunction ts
  | _, .moreParameters ts => .moreParameters eof ts
  | _, .operand ts => .operand eof ts
  | _, .extend level left ts => .extend level left ts
  | _, .expr level ts => .expr level ts
  | _, .moreArguments ts => .moreArguments eof ts
  | _, .arguments ts => .arguments ts
  | _, .statement depth t rest => .statement eof depth t rest
  | _, .body depth ts => .body eof depth ts
  | _, .topLevel t rest => .topLevel eof t rest
  | _, .program ts => .program eof ts

/-! ### Coming to an end -/

/-- **A script comes to an end** with an answer, if all calls that it makes do. -/
inductive Script.Ends (eof : Token) : {α : Type} → Script α → α → Prop
  | done {α : Type} (a : α) : Ends eof (.done a) a
  | call {α β : Type} {c : Call β} {next : β → Script α} {b : β} {a : α}
      (hc : Ends eof (c.script eof) b) (h : Ends eof (next b) a) : Ends eof (.call c next) a

/-- **A call returns** an answer. -/
def Call.Returns (eof : Token) {α : Type} (c : Call α) (a : α) : Prop := (c.script eof).Ends eof a

/-- A script makes a call: at once, or after calls that have returned. -/
inductive Script.Makes (eof : Token) {α β : Type} (c : Call β) : Script α → Prop
  | here {next : β → Script α} : Makes eof c (.call c next)
  | later {γ : Type} {c' : Call γ} {next : γ → Script α} {b : γ} (hb : c'.Returns eof b)
      (h : Makes eof c (next b)) : Makes eof c (.call c' next)

/-- A call of any reader. -/
abbrev AnyCall : Type 1 := (α : Type) × Call α

/-- **A call makes another one** before it returns. -/
def AnyCall.Makes (eof : Token) (c c' : AnyCall) : Prop := (c.2.script eof).Makes eof c'.2

end Slang.Parser
