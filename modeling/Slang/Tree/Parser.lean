import Slang.Tree
import Slang.Diagnostic.Syntactic
import Slang.Token.Lexer
/-!
# From tokens to syntax trees

Reading is by precedence: an operand, and then as many operators as bind more tightly than the
context asks for. A reader looks at the tokens that are left and says how many of them it takes;
`List.drop` then gives what is left for the next one. No reader changes or reorders tokens, and the
end of the tokens stands for as many end tokens as are asked for.

An expression has at most one error, its first. A statement with an error is dropped, and reading
goes on after the next semicolon or at the next declaration (`resync`), for a function after its
body (`skipFunction`). A statement that takes no token at all is passed over by one token, so
reading always comes to an end.
-/

namespace Slang.Parser

/-- What comes of reading something: a result, or the first error, and how many tokens were taken. -/
inductive Reply (α : Type) where
  | ok (a : α) (taken : Nat)
  | fail (fault : Fault) (taken : Nat)

namespace Reply

variable {α β : Type}

/-- The same reply, with tokens that were taken before. -/
def shift (n : Nat) : Reply α → Reply α
  | ok a k => ok a (n + k)
  | fail f k => fail f (n + k)

/-- The reply with another result. -/
def map (g : α → β) : Reply α → Reply β
  | ok a k => ok (g a) k
  | fail f k => fail f k

/-- Go on with what `ts` has left after a result; an error ends reading. -/
def andThen (r : Reply α) (ts : List Token) (next : α → List Token → Reply β) : Reply β :=
  match r with
  | ok a k => (next a (ts.drop k)).shift k
  | fail f k => fail f k

@[simp] theorem shift_shift (m n : Nat) (r : Reply α) :
    (r.shift n).shift m = r.shift (m + n) := by
  cases r <;> simp only [shift, Nat.add_assoc]

end Reply

/-! ### Single tokens -/

/-- Whether the next token is of a kind. -/
def nextIs (kind : Token.Kind) : List Token → Bool
  | [] => false
  | t :: _ => t.kind == kind

/-- Take one token of a kind. -/
def expect (eof : Token) (kind : Token.Kind) (ts : List Token) : Reply Unit :=
  let t := ts.headD eof
  if t.kind = kind then .ok () 1
  -- nothing is taken, so the token in question is still there for recovery
  else .fail (t.fault (.expected kind t.kind t.literal)) 0

/-- Take two tokens, of which the second is of a kind; the reply is the second. -/
def expectSecond (eof : Token) (kind : Token.Kind) (ts : List Token) : Reply Token :=
  let t := (ts.drop 1).headD eof
  if t.kind = kind then .ok t 2
  else .fail (t.fault (.expectedNext kind t.kind t.literal)) 0

/-- The integer of a literal, if it has less than 64 bits. -/
def int64? (literal : Text) : Option Int :=
  match literal.toNat? with
  | some n => if n < 9223372036854775808 then some n else none
  | none => none

/-! ### Expressions -/

mutual

/-- An operand: a name, a literal, a group, or a prefix operator with its operand. -/
def operand (eof : Token) (ts : List Token) : Reply Expr :=
  match ts with
  | [] => .fail (eof.fault (.expressionExpected eof.kind eof.literal)) 0
  | t :: rest =>
    match t.kind with
    | .ident => .ok (.ident ⟨t, t.literal⟩) 1
    | .int =>
      match int64? t.literal with
      | some n => .ok (.int t n) 1
      | none => .fail (t.fault (.integerTooLarge t.literal)) 1
    | .string => .ok (.str t t.literal) 1
    | .kwTrue => .ok (.bool t true) 1
    | .kwFalse => .ok (.bool t false) 1
    -- parentheses start again at the lowest level and stay in the tree as a group
    | .lparen =>
      ((expr eof Level.lowest rest).andThen rest fun e rest' =>
        (expect eof .rparen rest').map fun _ => .group t e).shift 1
    -- only a call binds more tightly than a prefix operator
    | .minus => ((expr eof Level.unary rest).map (.unary t .neg)).shift 1
    | .bang => ((expr eof Level.unary rest).map (.unary t .not)).shift 1
    -- what the lexer could not read is reported as that, not as a missing expression
    | .illegal => .fail (t.fault (.illegalToken t.literal)) 0
    | _ => .fail (t.fault (.expressionExpected t.kind t.literal)) 0
termination_by 4 * ts.length

/-- An expression whose operators bind more tightly than `level`. -/
def expr (eof : Token) (level : Level) (ts : List Token) : Reply Expr :=
  match operand eof ts with
  | .fail f k => .fail f k
  | .ok e k => (extend eof level e (ts.drop k)).shift k
termination_by 4 * ts.length + 2
decreasing_by all_goals (simp_wf; try omega)

/-- An expression that goes on after `left`: with an operator and its right operand, or with the
arguments of a call. Only a name can be called, in any number of parentheses. -/
def extend (eof : Token) (level : Level) (left : Expr) (ts : List Token) : Reply Expr :=
  match ts with
  | [] => .ok left 0
  | t :: rest =>
    match t.kind.binaryOp? with
    | some op =>
      -- strict here, and the right operand is read at the level of the operator itself: operators
      -- of one level nest to the left
      if level < op.level then
        match expr eof op.level rest with
        | .fail f k => .fail f (k + 1)
        | .ok right k =>
          (extend eof level (.binary t op left right) (rest.drop k)).shift (k + 1)
      else .ok left 0
    | none =>
      if t.kind = .lparen ∧ level < Level.call then
        match left.ungroup with
        | .ident callee =>
          match arguments eof rest with
          | .fail f k => .fail f (k + 1)
          | .ok args k => (extend eof level (.call t callee args) (rest.drop k)).shift (k + 1)
        | _ => .fail (t.fault .calleeExpected) 0
      else .ok left 0
termination_by 4 * ts.length + 1
decreasing_by all_goals (simp_wf; try omega)

/-- The arguments of a call up to and including the closing parenthesis. -/
def arguments (eof : Token) (ts : List Token) : Reply (List Expr) :=
  if nextIs .rparen ts then .ok [] 1 else moreArguments eof ts
termination_by 4 * ts.length + 4

/-- At least one argument, and the rest of the list. -/
def moreArguments (eof : Token) (ts : List Token) : Reply (List Expr) :=
  match expr eof Level.lowest ts with
  | .fail f k => .fail f k
  | .ok e k =>
    match h : ts.drop k with
    | [] => .fail (eof.fault (.expected .rparen eof.kind eof.literal)) k
    | t :: rest =>
      if t.kind = .comma then
        let next := rest.headD eof
        -- a comma announces one more argument
        if next.kind = .rparen then .fail (next.fault (.commaBeforeEnd next.literal)) (k + 1)
        else ((moreArguments eof rest).map (e :: ·)).shift (k + 1)
      else if t.kind = .rparen then .ok [e] (k + 1)
      else .fail (t.fault (.expected .rparen t.kind t.literal)) k
termination_by 4 * ts.length + 3
decreasing_by
  · simp_wf
  · have := congrArg List.length h
    simp only [List.length_drop, List.length_cons] at this
    simp_wf
    omega

end

/-! ### Recovery -/

/-- Whether a declaration starts here. -/
def atDeclaration (ts : List Token) : Bool := nextIs .kwLet ts || nextIs .kwFn ts

/-- How many tokens to pass over after an error in a statement: up to and including the next
semicolon, or up to a closing brace or the next declaration. -/
def resync : List Token → Nat
  | [] => 0
  | t :: rest =>
    if t.kind = .semicolon then 1
    else if t.kind = .rbrace then 0
    -- the token that went wrong is passed over even if it starts a declaration itself
    else if atDeclaration rest then 1
    else resync rest + 1

/-- How many tokens a brace-balanced group takes, with `depth` braces open before it. -/
def skipBraces (depth : Nat) : List Token → Nat
  | [] => 0
  | t :: rest =>
    let depth' :=
      if t.kind = .lbrace then depth + 1
      else if t.kind = .rbrace then depth - 1
      else depth
    if depth' = 0 then 1 else skipBraces depth' rest + 1

/-- How many tokens to pass over after an error before a function's body: the body too, unless a
declaration comes first. -/
def skipFunction : List Token → Nat
  | [] => 0
  | t :: rest =>
    if t.kind = .lbrace then skipBraces 0 (t :: rest)
    -- a keyword without a name does not start another function
    else if t.kind = .kwLet ∨ (t.kind = .kwFn ∧ nextIs .ident rest) then 0
    else skipFunction rest + 1

/-! ### Statements -/

/-- What comes of reading a statement: the statement, unless it is dropped, all errors, and how many
tokens were taken. -/
structure Parsed (α : Type) where
  node : Option α
  faults : List Fault
  taken : Nat

/-- A dropped statement: pass over what is left of it in `ts` after `k` tokens. -/
def Parsed.dropped {α : Type} (ts : List Token) (faults : List Fault) (k : Nat) : Parsed α :=
  ⟨none, faults, k + resync (ts.drop k)⟩

/-- A dropped function: pass over what is left of it in `ts` after `k` tokens. -/
def Parsed.droppedFunction {α : Type} (ts : List Token) (fault : Fault) (k : Nat) : Parsed α :=
  ⟨none, [fault], k + skipFunction (ts.drop k)⟩

/-- The end of a statement `node` of which `k` tokens have been taken. -/
def finish (eof : Token) (ts : List Token) (node : Stmt) (faults : List Fault) (k : Nat) :
    Parsed Stmt :=
  match expect eof .semicolon (ts.drop k) with
  | .ok _ n => ⟨some node, faults, k + n⟩
  | .fail f _ => .dropped ts (faults ++ [f]) k

/-- A type. -/
def typeNode (eof : Token) (ts : List Token) : Reply TypeNode :=
  let t := ts.headD eof
  if t.isTypeKeyword then
    match Ty.ofKeyword? t.literal with
    | some ty => .ok ⟨t, ty⟩ 1
    | none => .fail (t.fault (.unknownType t.literal)) 0
  else .fail (t.fault (.typeExpected t.kind t.literal)) 0

/-- A colon and a type, or nothing. -/
def optionalType (eof : Token) (ts : List Token) : Reply (Option TypeNode) :=
  if nextIs .colon ts then ((typeNode eof (ts.drop 1)).map some).shift 1 else .ok none 0

/-- A sign of assignment and an expression, or nothing. -/
def optionalValue (eof : Token) (ts : List Token) : Reply (Option Expr) :=
  if nextIs .assign ts then ((expr eof Level.lowest (ts.drop 1)).map some).shift 1 else .ok none 0

/-- A declaration of a variable, from its keyword on. -/
def letStmt (eof t : Token) (rest : List Token) : Parsed Stmt :=
  let ts := t :: rest
  let head :=
    (expectSecond eof .ident ts).andThen ts fun name rest =>
      (optionalType eof rest).andThen rest fun type rest =>
        (optionalValue eof rest).map fun value => (name, type, value)
  match head with
  | .fail f k => .dropped ts [f] k
  | .ok (name, type, value) k =>
    -- reported, but not dropped: reading goes on to the semicolon
    let faults :=
      if type.isNone && value.isNone then [name.fault (.noInitializer name.literal)] else []
    finish eof ts (.letDecl t ⟨name, name.literal⟩ type value) faults k

/-- An assignment: a name, a sign of assignment and an expression. -/
def assignStmt (eof name sign : Token) (rest : List Token) : Parsed Stmt :=
  let ts := name :: sign :: rest
  match (expr eof Level.lowest rest).shift 2 with
  | .fail f k => .dropped ts [f] k
  | .ok e k => finish eof ts (.assign sign ⟨name, name.literal⟩ e) [] k

/-- A return, from its keyword on; `depth` counts the functions around it. -/
def returnStmt (eof : Token) (depth : Nat) (t : Token) (rest : List Token) : Parsed Stmt :=
  let ts := t :: rest
  let outside := if depth = 0 then [t.fault .returnOutsideFunction] else []
  if nextIs .semicolon rest then finish eof ts (.ret t none) outside 1
  else
    match (expr eof Level.lowest rest).shift 1 with
    | .fail f k => .dropped ts (outside ++ [f]) k
    | .ok e k => finish eof ts (.ret t (some e)) outside k

/-- An expression as a statement. -/
def exprStmt (eof t : Token) (rest : List Token) : Parsed Stmt :=
  let ts := t :: rest
  match expr eof Level.lowest ts with
  | .fail f k => .dropped ts [f] k
  | .ok e k => finish eof ts (.expr t e) [] k

/-- What comes of reading the statements of a block up to its closing brace: whether the brace was
there, the statements, all errors, and how many tokens were taken. -/
structure Body where
  closed : Bool
  stmts : List Stmt
  faults : List Fault
  taken : Nat

/-- A block as a statement; one that is not closed is dropped. -/
def Body.block (t : Token) (b : Body) : Parsed Stmt :=
  ⟨if b.closed then some (.block t b.stmts) else none, b.faults, b.taken + 1⟩

mutual

/-- A statement inside a function. -/
def statement (eof : Token) (depth : Nat) (ts : List Token) : Parsed Stmt :=
  match ts with
  | [] => exprStmt eof eof []
  | t :: rest =>
    match t.kind with
    | .kwLet => letStmt eof t rest
    | .kwReturn => returnStmt eof depth t rest
    | .lbrace => (body eof depth rest).block t
    -- functions stand at top level only; one that does not is passed over with its body
    | .kwFn => ⟨none, [t.fault .nestedFunction], skipFunction rest + 1⟩
    | .ident =>
      match rest with
      | sign :: rest' =>
        if sign.kind = .assign then assignStmt eof t sign rest' else exprStmt eof t rest
      | [] => exprStmt eof t rest
    | _ => exprStmt eof t rest
termination_by 2 * ts.length

/-- The statements of a block, from after its opening brace. -/
def body (eof : Token) (depth : Nat) (ts : List Token) : Body :=
  match ts with
  | [] => ⟨false, [], [eof.fault (.unclosedBlock eof.kind eof.literal)], 0⟩
  | t :: rest =>
    if t.kind = .rbrace then ⟨true, [], [], 1⟩
    else
      let first := statement eof depth (t :: rest)
      -- a statement that took nothing would be read again forever
      let k := max first.taken 1
      let others := body eof depth ((t :: rest).drop k)
      ⟨others.closed, first.node.toList ++ others.stmts, first.faults ++ others.faults,
        k + others.taken⟩
termination_by 2 * ts.length + 1
decreasing_by all_goals (simp_wf; try omega)

end

/-! ### Functions -/

/-- A parameter: a name, a colon and a type. -/
def parameter (eof : Token) (ts : List Token) : Reply ParamDecl :=
  let t := ts.headD eof
  if t.kind = .ident then
    (expectSecond eof .colon ts).andThen ts fun _ rest =>
      (typeNode eof rest).map fun type => ⟨⟨t, t.literal⟩, type⟩
  else .fail (t.fault .parameterName) 0

/-- At least one parameter, and the rest of the list up to and including the closing parenthesis. -/
def moreParameters (eof : Token) (ts : List Token) : Reply (List ParamDecl) :=
  match parameter eof ts with
  | .fail f k => .fail f k
  | .ok p k =>
    match h : ts.drop k with
    | [] => .fail (eof.fault (.parameterEnd eof.kind)) k
    | t :: rest =>
      if t.kind = .comma then
        let next := rest.headD eof
        -- as for arguments, but with an error of its own
        if next.kind = .rparen then .fail (next.fault .commaBeforeParen) (k + 1)
        else ((moreParameters eof rest).map (p :: ·)).shift (k + 1)
      else if t.kind = .rparen then .ok [p] (k + 1)
      else .fail (t.fault (.parameterEnd t.kind)) k
termination_by ts.length
decreasing_by
  have := congrArg List.length h
  simp only [List.length_drop, List.length_cons] at this
  omega

/-- The parameters of a function, from after the opening parenthesis. -/
def parameters (eof : Token) (ts : List Token) : Reply (List ParamDecl) :=
  if nextIs .rparen ts then .ok [] 1 else moreParameters eof ts

/-- The opening brace of the body of a function. -/
def openBrace (eof name : Token) (ts : List Token) : Reply Token :=
  let t := ts.headD eof
  if t.kind = .lbrace then .ok t 1
  else .fail (t.fault (.bodyExpected name.literal t.kind t.literal)) 0

/-- What a function says before its body, and the opening brace. An error in the name or in the
opening parenthesis stays before the token in question. -/
def fnHead (eof t : Token) (rest : List Token) : Reply (FnHead × Token) :=
  let ts := t :: rest
  match expectSecond eof .ident ts with
  | .fail f k => .fail f k
  | .ok name _ =>
    ((expectSecond eof .lparen rest).andThen rest fun _ rest =>
      (parameters eof rest).andThen rest fun params rest =>
        (optionalType eof rest).andThen rest fun result rest =>
          (openBrace eof name rest).map fun brace =>
            (⟨t, ⟨name, name.literal⟩, params, result⟩, brace)).shift 1

/-- A function, from its keyword on; `depth` counts the functions around it. -/
def function (eof : Token) (depth : Nat) (t : Token) (rest : List Token) : Parsed Stmt :=
  let ts := t :: rest
  match fnHead eof t rest with
  | .fail f k => .droppedFunction ts f k
  | .ok (head, brace) k =>
    let b := body eof (depth + 1) (ts.drop k)
    -- the errors of the body count even if the function is dropped
    ⟨if b.closed then some (.fn head (some brace) b.stmts) else none, b.faults, k + b.taken⟩

/-! ### Programs -/

/-- A statement at top level. -/
def topLevel (eof t : Token) (rest : List Token) : Parsed Stmt :=
  let ts := t :: rest
  match t.kind with
  | .kwLet => letStmt eof t rest
  | .kwFn => function eof 0 t rest
  | .ident =>
    match rest with
    | sign :: rest' =>
      if sign.kind = .assign then assignStmt eof t sign rest'
      else .dropped ts [t.fault (.topLevelExpression t.literal)] 0
    | [] => .dropped ts [t.fault (.topLevelExpression t.literal)] 0
  | .kwReturn => .dropped ts [t.fault .returnOutsideFunction] 0
  | _ => .dropped ts [t.fault (.unexpectedStart t.kind t.literal)] 0

/-- What comes of reading a source: the statements that were not dropped, and all errors. -/
structure Result where
  program : Program
  faults : List Fault

/-- The statements of a program, to the end of the tokens. -/
def program (eof : Token) : List Token → Result
  | [] => ⟨[], []⟩
  | t :: rest =>
    let first := topLevel eof t rest
    let others := program eof ((t :: rest).drop (max first.taken 1))
    ⟨first.node.toList ++ others.program, first.faults ++ others.faults⟩
termination_by ts => ts.length
decreasing_by simp only [List.length_drop, List.length_cons]; omega

/-- The program that a source text holds, and its syntax errors in the order in which they stand. -/
def parse (src : Text) : Result := program (Lexer.eof src) (Lexer.tokens src)

end Slang.Parser
