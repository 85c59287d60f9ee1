import Slang.Proofs.Calls.Turns
import Slang.Proofs.Layout.Statements

/-!
# What scripts come to

If the calls of a script are answered by the readers of `Slang.Parser`, the script itself comes to
what its reader answers (`eval_script`). This needs no order of calls: the loop over a block is
compared with itself. Only there, and for the loop over a program, the tokens have to be `Distinct`,
since a script compares tokens where a reader counts them.
-/

namespace Slang.Parser

variable {α β : Type} {eof : Token}

/-- What the readers answer. -/
def Call.answer (eof : Token) : {α : Type} → Call α → α
  | _, .resync ts => Parser.resync ts
  | _, .skipBraces depth ts => Parser.skipBraces depth ts
  | _, .skipFunction ts => Parser.skipFunction ts
  | _, .moreParameters ts => Parser.moreParameters eof ts
  | _, .operand ts => Parser.operand eof ts
  | _, .extend level left ts => Parser.extend eof level left ts
  | _, .expr level ts => Parser.expr eof level ts
  | _, .moreArguments ts => Parser.moreArguments eof ts
  | _, .arguments ts => Parser.arguments eof ts
  | _, .statement depth t rest => Parser.statement eof depth (t :: rest)
  | _, .body depth ts => Parser.body eof depth ts
  | _, .topLevel t rest => Parser.topLevel eof t rest
  | _, .program ts => (Parser.program eof ts, [])

namespace Script

/-- What comes of a script if its calls are answered by the readers. -/
def eval (eof : Token) : Script α → α
  | done a => a
  | call c next => (next (c.answer eof)).eval eof

/-- All calls that a script makes satisfy `P`, if the readers answer them. -/
def Only (eof : Token) (P : AnyCall → Prop) : Script α → Prop
  | done _ => True
  | call c next => P ⟨_, c⟩ ∧ (next (c.answer eof)).Only eof P

section
variable (eof)

/-- A script that is done comes to its answer. -/
@[simp] theorem eval_done (a : α) : (done a).eval eof = a := rfl

/-- A script that makes one call comes to what the call answers. -/
@[simp] theorem eval_ask (c : Call α) : (ask c).eval eof = c.answer eof := rfl

/-- Scripts are evaluated one after the other. -/
@[simp] theorem eval_bind (s : Script α) (f : α → Script β) :
    (s.bind f).eval eof = (f (s.eval eof)).eval eof := by
  -- a call hands its answer on, so the induction goes under it
  induction s with
  | done a => rfl
  | call c next ih => exact ih _

@[simp] theorem eval_map (f : α → β) (s : Script α) : (s.map f).eval eof = f (s.eval eof) :=
  eval_bind eof s _

/-- Going on after a reply is the same for scripts as for replies: an error ends both. -/
@[simp] theorem eval_andThen (s : Script (Reply α)) (ts : List Token)
    (next : α → List Token → Script (Reply β)) :
    (s.andThen ts next).eval eof =
      (s.eval eof).andThen ts fun a rest => (next a rest).eval eof := by
  unfold andThen
  rw [eval_bind]
  cases s.eval eof with
  | ok a k => exact eval_map eof _ _
  | fail f k => rfl

variable {P : AnyCall → Prop}

@[simp] theorem only_done (a : α) : (done a).Only eof P := trivial

@[simp] theorem only_ask (c : Call α) : (ask c).Only eof P ↔ P ⟨α, c⟩ :=
  and_iff_left trivial

/-- The second script is asked with what the first one comes to. -/
@[simp] theorem only_bind (s : Script α) (f : α → Script β) :
    (s.bind f).Only eof P ↔ s.Only eof P ∧ (f (s.eval eof)).Only eof P := by
  induction s with
  | done a => exact (and_iff_right trivial).symm
  | call c next ih => exact (and_congr_right fun _ => ih _).trans and_assoc.symm

@[simp] theorem only_map (f : α → β) (s : Script α) : (s.map f).Only eof P ↔ s.Only eof P :=
  (only_bind eof s _).trans (and_iff_left trivial)

/-- Where the first script fails, the second one makes no calls. -/
theorem only_andThen {s : Script (Reply α)} {ts : List Token}
    {next : α → List Token → Script (Reply β)} (hs : s.Only eof P)
    (hnext : ∀ a k, s.eval eof = .ok a k → (next a (ts.drop k)).Only eof P) :
    (s.andThen ts next).Only eof P := by
  refine (only_bind eof s _).mpr ⟨hs, ?_⟩
  cases hr : s.eval eof with
  | ok a k => exact (only_map eof _ _).mpr (hnext a k hr)
  | fail f k => trivial

/-- What holds of all calls may be weakened. -/
theorem Only.mono {Q : AnyCall → Prop} (hPQ : ∀ c, P c → Q c) (s : Script α) (h : s.Only eof P) :
    s.Only eof Q := by
  induction s with
  | done a => trivial
  | call c next ih => exact ⟨hPQ _ h.1, ih _ h.2⟩

end

end Script


/-! ### Scripts and readers -/

section
variable (eof)

/-- The end of a statement asks for nothing. -/
theorem eval_finish (ts : List Token) (node : Stmt) (fs : List Fault) (k : Nat) :
    (Script.finish eof ts node fs k).eval eof = finish eof ts node fs k := by
  unfold Script.finish finish
  -- both look for the semicolon themselves
  cases expect eof .semicolon (ts.drop k) with
  | ok _ n => rfl
  | fail f n => rfl

/-- A value is read if there is a sign before it. -/
theorem eval_optionalValue (ts : List Token) :
    (Script.optionalValue ts).eval eof = optionalValue eof ts := by
  unfold Script.optionalValue optionalValue
  split
  · exact Script.eval_map eof _ _
  · rfl

/-- A declaration reads its name, its type and its value in this order. -/
theorem eval_letStmt (t : Token) (rest : List Token) :
    (Script.letStmt eof t rest).eval eof = letStmt eof t rest := by
  unfold Script.letStmt letStmt
  simp only [Script.eval_bind, Script.eval_andThen, Script.eval_done, Script.eval_map,
    eval_optionalValue]
  -- both sides look at the same reply
  cases (expectSecond eof .ident (t :: rest)).andThen (t :: rest) fun name rest =>
      (optionalType eof rest).andThen rest fun type rest =>
        (optionalValue eof rest).map fun value => (name, type, value) with
  | fail f k => rfl
  | ok head k => exact eval_finish eof _ _ _ _

/-- An assignment has taken two tokens before it reads its value. -/
theorem eval_assignStmt (name sign : Token) (rest : List Token) :
    (Script.assignStmt eof name sign rest).eval eof = assignStmt eof name sign rest := by
  unfold Script.assignStmt assignStmt
  simp only [Script.eval_bind, Script.eval_map, Script.eval_ask, Call.answer]
  cases (expr eof Level.lowest rest).shift 2 with
  | fail f k => rfl
  | ok e k => exact eval_finish eof _ _ _ k

/-- A return reads a value unless its end comes first. -/
theorem eval_returnStmt (depth : Nat) (t : Token) (rest : List Token) :
    (Script.returnStmt eof depth t rest).eval eof = returnStmt eof depth t rest := by
  unfold Script.returnStmt returnStmt
  by_cases hend : nextIs .semicolon rest
  · rw [if_pos hend, if_pos hend, eval_finish]
  · rw [if_neg hend, if_neg hend]
    simp only [Script.eval_bind, Script.eval_map, Script.eval_ask, Call.answer]
    cases (expr eof Level.lowest rest).shift 1 with
    | fail f k => rfl
    | ok e k => exact eval_finish eof _ _ _ k

/-- An expression as a statement starts at the token of the statement itself. -/
theorem eval_exprStmt (t : Token) (rest : List Token) :
    (Script.exprStmt eof t rest).eval eof = exprStmt eof t rest := by
  unfold Script.exprStmt exprStmt
  simp only [Script.eval_bind, Script.eval_ask, Call.answer]
  cases expr eof Level.lowest (t :: rest) with
  | fail f k => rfl
  | ok e k => exact eval_finish eof _ _ _ k

theorem eval_parameters (ts : List Token) :
    (Script.parameters ts).eval eof = parameters eof ts := by
  unfold Script.parameters parameters
  split <;> rfl

/-- The head of a function: name, parameters and result. -/
theorem eval_fnHead (t : Token) (rest : List Token) :
    (Script.fnHead eof t rest).eval eof = fnHead eof t rest := by
  unfold Script.fnHead fnHead
  dsimp only
  cases expectSecond eof .ident (t :: rest) with
  | fail f k => rfl
  | ok name k => simp only [Script.eval_map, Script.eval_andThen, Script.eval_done, eval_parameters]

/-- The body of a function is read only if its head was. -/
theorem eval_function (depth : Nat) (t : Token) (rest : List Token) :
    (Script.function eof depth t rest).eval eof = function eof depth t rest := by
  unfold Script.function function
  simp only [Script.eval_bind, eval_fnHead]
  cases fnHead eof t rest with
  | fail f k => rfl
  | ok head k => rfl

/-- After an element of a list, a comma leads to more of it. Where the list ends early and where it goes
on wrongly, the errors are the same. -/
theorem eval_listTail {early : Text → SyntaxProblem} {late : Token.Kind → Text → SyntaxProblem}
    (more : List Token → Call (Reply (List α))) (a : α) (ts : List Token) :
    (Script.listTail eof early late more a ts).eval eof =
      listTail eof early late (fun us => (more us).answer eof) a ts := by
  unfold Script.listTail listTail
  dsimp only
  by_cases hcomma : (ts.headD eof).kind = .comma
  · rw [if_pos hcomma, if_pos hcomma]
    -- a comma before the closing token is reported, and no more is read
    split
    · rfl
    · rw [Script.eval_map, Script.eval_ask]
  · rw [if_neg hcomma, if_neg hcomma]
    split <;> rfl

/-! ### Recovery -/

/-- Recovery after a top-level error looks at one token at a time. -/
theorem eval_resync (ts : List Token) : (Script.resync ts).eval eof = resync ts := by
  cases ts with
  | nil => rfl
  | cons t rest =>
    rw [Script.resync, resync]
    -- a script and its reader branch on the same tokens
    repeat' first | rfl | split

/-- Leaving out what stands between braces counts them. -/
theorem eval_skipBraces (depth : Nat) (ts : List Token) :
    (Script.skipBraces depth ts).eval eof = skipBraces depth ts := by
  cases ts with
  | nil => rfl
  | cons t rest =>
    unfold Script.skipBraces skipBraces
    dsimp only
    -- how the depth changes does not matter, only that it does so in both
    generalize (if t.kind = .lbrace then depth + 1
      else if t.kind = .rbrace then depth - 1 else depth) = depth'
    split <;> rfl

theorem eval_skipFunction (ts : List Token) :
    (Script.skipFunction ts).eval eof = skipFunction ts := by
  cases ts with
  | nil => rfl
  | cons t rest =>
    rw [Script.skipFunction, skipFunction]
    split
    · rfl
    · split <;> rfl

/-! ### Lists and expressions -/

/-- An operand is a literal, a name, a group, or an operator with its own operand. -/
theorem eval_operand (ts : List Token) : (Script.operand eof ts).eval eof = operand eof ts := by
  rw [operand.eq_def]
  cases ts with
  | nil => rfl
  | cons t rest =>
    obtain ⟨kind, literal, pos⟩ := t
    unfold Script.operand
    cases kind
    -- whether the digits are in range is decided without a call
    case int =>
      dsimp only
      cases int64? literal <;> rfl
    case lparen =>
      simp only [Script.eval_map, Script.eval_andThen, Script.eval_ask, Script.eval_done,
        Call.answer]
    all_goals rfl

/-- An expression is an operand with what extends it. -/
theorem eval_expr (level : Level) (ts : List Token) :
    (Script.expr level ts).eval eof = expr eof level ts := by
  rw [expr.eq_def, Script.expr, Script.eval_andThen, Script.eval_ask, Call.answer]
  cases operand eof ts with
  | fail f k => rfl
  | ok e k => rfl

/-- A reply that went on counts the tokens of both parts, and the one token before them. -/
theorem shift_one_andThen (r : Reply α) (ts : List Token) (next : α → List Token → Reply β) :
    (r.andThen ts next).shift 1 =
      match r with
      | .fail f k => .fail f (k + 1)
      | .ok a k => (next a (ts.drop k)).shift (k + 1) := by
  cases r with
  | fail f k => exact congrArg (Reply.fail f) (Nat.add_comm 1 k)
  | ok a k => exact (Reply.shift_shift 1 k _).trans (by rw [Nat.add_comm])

/-- An expression is extended by operators that bind more tightly than the level, and by calls. -/
theorem eval_extend (level : Level) (left : Expr) (ts : List Token) :
    (Script.extend level left ts).eval eof = extend eof level left ts := by
  rw [extend.eq_def]
  cases ts with
  | nil => rfl
  | cons t rest =>
    unfold Script.extend
    dsimp only
    cases t.kind.binaryOp? with
    | some op =>
      dsimp only
      by_cases hlevel : level < op.level
      · rw [if_pos hlevel, if_pos hlevel]
        simp only [Script.eval_map, Script.eval_andThen, Script.eval_ask, Call.answer,
          shift_one_andThen]
        cases expr eof op.level rest <;> rfl
      · rw [if_neg hlevel, if_neg hlevel]
        rfl
    | none =>
      dsimp only
      by_cases hcall : t.kind = .lparen ∧ level < Level.call
      · rw [if_pos hcall, if_pos hcall]
        -- only a name can be called, in any number of parentheses
        cases left.ungroup
        case ident callee =>
          simp only [Script.eval_map, Script.eval_andThen, Script.eval_ask, Call.answer,
            shift_one_andThen]
          cases arguments eof rest <;> rfl
        all_goals rfl
      · rw [if_neg hcall, if_neg hcall]
        rfl

theorem eval_arguments (ts : List Token) :
    (Script.arguments ts).eval eof = arguments eof ts := by
  rw [arguments.eq_def, Script.arguments]
  split <;> rfl

/-! ### Statements and programs -/

/-- The first token decides which statement is read; for a name it is the second one. -/
theorem eval_statement (depth : Nat) (t : Token) (rest : List Token) :
    (Script.statement eof depth t rest).eval eof = statement eof depth (t :: rest) := by
  rw [statement.eq_def]
  unfold Script.statement
  obtain ⟨kind, literal, pos⟩ := t
  cases kind
  case ident =>
    cases rest with
    | nil => exact eval_exprStmt eof _ []
    | cons sign rest =>
      dsimp only
      split
      · exact eval_assignStmt eof _ sign rest
      · exact eval_exprStmt eof _ (sign :: rest)
  case kwLet => exact eval_letStmt eof _ rest
  case kwReturn => exact eval_returnStmt eof depth _ rest
  case lbrace => exact Script.eval_map eof _ _
  case kwFn => exact Script.eval_map eof _ _
  all_goals exact eval_exprStmt eof _ rest

/-- At top level there are declarations, assignments and functions. -/
theorem eval_topLevel (t : Token) (rest : List Token) :
    (Script.topLevel eof t rest).eval eof = topLevel eof t rest := by
  unfold Script.topLevel topLevel
  obtain ⟨kind, literal, pos⟩ := t
  cases kind
  case ident =>
    cases rest with
    | nil => rfl
    | cons sign rest =>
      dsimp only
      split
      · exact eval_assignStmt eof _ sign rest
      · rfl
  case kwLet => exact eval_letStmt eof _ rest
  case kwFn => exact eval_function eof 0 _ rest
  all_goals rfl

/-- The loop over a block. A script stops where a statement took nothing by comparing tokens, and the
reader by counting them, which is the same where tokens are distinct. -/
theorem eval_body (depth : Nat) (ts : List Token) (h : Distinct eof ts) :
    (Script.body eof depth ts).eval eof = body eof depth ts := by
  rw [body.eq_def]
  cases ts with
  | nil => rfl
  | cons t rest =>
    unfold Script.body
    dsimp only
    split
    · rfl
    · simp only [Script.eval_bind, Script.eval_map, Script.eval_ask, Call.answer,
        turn_eq h (advances_statement eof depth t rest)]

/-- The loop over a program, which stops like that over a block. -/
theorem eval_program (ts : List Token) (h : Distinct eof ts) :
    (Script.program eof ts).eval eof = (program eof ts, []) := by
  rw [program.eq_def]
  cases ts with
  | nil => rfl
  | cons t rest =>
    unfold Script.program
    simp only [Script.eval_bind, Script.eval_map, Script.eval_ask, Call.answer,
      turn_eq h (advances_topLevel eof t rest)]

end

/-- **Scripts say what the readers do.** -/
theorem eval_script (heof : eof.kind = .eof) (c : Call α) (h : Distinct eof c.tokens) :
    (c.script eof).eval eof = c.answer eof := by
  cases c with
  | resync ts => exact eval_resync eof ts
  | skipBraces depth ts => exact eval_skipBraces eof depth ts
  | skipFunction ts => exact eval_skipFunction eof ts
  | moreParameters ts =>
    rw [Call.script, Call.answer, moreParameters_eq heof, Script.moreParameters,
      Script.eval_andThen]
    simp only [Script.eval_done, eval_listTail eof, Call.answer]
  | operand ts => exact eval_operand eof ts
  | extend level left ts => exact eval_extend eof level left ts
  | expr level ts => exact eval_expr eof level ts
  | moreArguments ts =>
    rw [Call.script, Call.answer, moreArguments_eq heof, Script.moreArguments,
      Script.eval_andThen]
    simp only [Script.eval_ask, eval_listTail eof, Call.answer]
  | arguments ts => exact eval_arguments eof ts
  | statement depth t rest => exact eval_statement eof depth t rest
  | body depth ts => exact eval_body eof depth ts h
  | topLevel t rest => exact eval_topLevel eof t rest
  | program ts => exact eval_program eof ts h

end Slang.Parser
