import Slang.Proofs.Sites

/-!
# Reference execution

How a program runs, independently of what analysis knows about it. Every global first holds the
default of its type, and the top-level statements run once, in order. A declaration or an assignment
stores the value of its expression in the variable that the name stands for. A call evaluates its
arguments from left to right, gives the function fresh parameters and locals, and runs the body up
to the first return.

Integers have 32 bits and division drops the fraction. What happens where the exact result does not
fit, on a division by zero, and whether `&&` and `||` always evaluate their right operand is up to a
`Machine`; a machine may also stop.

Every evaluation of an expression that completes is written to a log, with the occurrence of the
expression and its value. The log is kept when a run stops, and runs are cut off at a depth of
calls, so the logs of all depths are all there is to see of a run that does not end.
-/

namespace Slang.Execution

open Analysis

/-- **What the language leaves open.** Nothing means that the run stops. -/
structure Machine where
  /-- Arithmetic whose exact result is no integer of 32 bits. -/
  overflow : BinaryOp → Int32 → Int32 → Option Int32
  /-- The negation of the least integer. -/
  negateLeast : Option Int32
  /-- A division by zero. -/
  divideByZero : Int32 → Option Int32
  /-- Whether `&&` and `||` leave out the right operand where the left one decides. -/
  shortCircuit : Bool

namespace Machine

variable (m : Machine)

/-- An exact result, or what the machine does if it does not fit. -/
def fit (n : Int) (otherwise : Option Int32) : Option Value :=
  if minInt ≤ n ∧ n ≤ maxInt then some (.int (Int32.ofInt n)) else otherwise.map .int

/-- A prefix operator on a value. -/
def unary : UnaryOp → Value → Option Value
  | .neg, .int n => fit (-n.toInt) m.negateLeast
  | .not, .bool b => some (.bool !b)
  | _, _ => none

/-- An infix operator on values. -/
def binary (op : BinaryOp) : Value → Value → Option Value
  | .int l, .int r =>
    match op with
    | .add => fit (l.toInt + r.toInt) (m.overflow op l r)
    | .sub => fit (l.toInt - r.toInt) (m.overflow op l r)
    | .mul => fit (l.toInt * r.toInt) (m.overflow op l r)
    | .div =>
      if r = 0 then (m.divideByZero l).map .int
      else fit (l.toInt.tdiv r.toInt) (m.overflow op l r)
    | .eq => some (.bool (l == r))
    | .ne => some (.bool (l != r))
    | _ => none
  | .bool l, .bool r =>
    match op with
    | .and => some (.bool (l && r))
    | .or => some (.bool (l || r))
    | .eq => some (.bool (l == r))
    | .ne => some (.bool (l != r))
    | _ => none
  | .str l, .str r =>
    match op with
    | .add => some (.str (l ++ r))
    | .eq => some (.bool (l == r))
    | .ne => some (.bool (l != r))
    | _ => none
  | _, _ => none

/-- Whether the left operand decides, so that the right one is left out. -/
def skips (op : BinaryOp) (left : Value) : Bool :=
  m.shortCircuit && (op == .and && left == .bool false || op == .or && left == .bool true)

end Machine

/-! ### Runs -/

/-- What the globals hold, by name. -/
abbrev Globals := Text → Option Value

/-- What a run changes: what the globals hold, and the completed evaluations, the latest first. -/
structure World where
  globals : Globals
  log : List (Occurrence × Option Value)

/-- A run gives a result or stops; either way it leaves a world behind. -/
abbrev Run := OptionT (StateM World)

/-- Go on with what is there, or else stop. -/
def demand {α : Type} : Option α → Run α
  | some a => pure a
  | none => failure

/-- An evaluation completes. What gives no value, such as a call of a `void` function, completes
without one. -/
def complete (o : Occurrence) (v : Option Value) : Run (Option Value) := do
  modify fun w => { w with log := (o, v) :: w.log }
  pure v

/-- The globals after a value was stored in one of them. -/
def Globals.set (g : Globals) (x : Text) (v : Value) : Globals :=
  fun y => if y = x then some v else g y

/-- Store a value in a global. -/
def store (x : Text) (v : Value) : Run Unit :=
  modify fun w => { w with globals := w.globals.set x v }

/-- The locals of an activation: the frames of its scopes, innermost first. -/
abbrev Locals := List (List (Text × Value))

namespace Locals

/-- What the local of a name holds. -/
def find? (env : Locals) (x : Text) : Option Value := env.findSome? fun frame => frame.lookup x

/-- A new local in the innermost scope. -/
def declare (x : Text) (v : Value) : Locals → Locals
  | [] => [[(x, v)]]
  | frame :: env => (frame ++ [(x, v)]) :: env

/-- Store a value in the local of a name, in one frame. -/
def storeIn (x : Text) (v : Value) : List (Text × Value) → Option (List (Text × Value))
  | [] => none
  | (y, w) :: frame =>
    if y = x then some ((y, v) :: frame) else (storeIn x v frame).map ((y, w) :: ·)

/-- Store a value in the nearest local of a name, if there is one. -/
def store? (x : Text) (v : Value) : Locals → Option Locals
  | [] => none
  | frame :: env =>
    match storeIn x v frame with
    | some frame => some (frame :: env)
    | none => (store? x v env).map (frame :: ·)

end Locals

/-- What a name holds: the nearest local, or else the global. -/
def read (env : Locals) (x : Text) : Run (Option Value) := do
  let w ← get
  let v ← demand ((env.find? x).or (w.globals x))
  pure (some v)

/-! ### Expressions -/

section
variable (m : Machine) (call : Text → List Value → Run (Option Value)) (env : Locals)

mutual

/-- **The value of an expression.** The least integer is written as the negation of a literal that
by itself is out of range. -/
def eval (o : Occurrence) : Expr → Run (Option Value)
  | .int _ n => if maxInt < n then failure else complete o (some (.int (Int32.ofInt n)))
  | .str _ s => complete o (some (.str s))
  | .bool _ b => complete o (some (.bool b))
  | .ident id => do complete o (← read env id.name)
  | .unary _ op right =>
    if isLeastInt op right then complete o (some (.int (Int32.ofInt minInt)))
    else do
      let v ← demand (← eval (o.part 0) right)
      complete o (some (← demand (m.unary op v)))
  | .binary _ op left right => do
    let l ← demand (← eval (o.part 0) left)
    if m.skips op l then complete o (some l)
    else
      let r ← demand (← eval (o.part 1) right)
      complete o (some (← demand (m.binary op l r)))
  | .group _ e => do complete o (← eval (o.part 0) e)
  | .call _ callee args => do complete o (← call callee.name (← evalArgs o 0 args))
  | .hole => failure

/-- The arguments of a call, from left to right and counted from `i`. -/
def evalArgs (o : Occurrence) (i : Nat) : List Expr → Run (List Value)
  | [] => pure []
  | e :: es => do
    let v ← demand (← eval (o.part i) e)
    let vs ← evalArgs o (i + 1) es
    pure (v :: vs)

end

end

/-! ### Statements -/

/-- How a statement ends: the next one follows, or the function returns. -/
inductive Outcome where
  | next (env : Locals)
  | returned (v : Option Value)

section
variable (m : Machine) (call : Text → List Value → Run (Option Value))

mutual

/-- A statement of a body. -/
def execStmt (place : StmtPlace) (env : Locals) : Stmt → Run Outcome
  | .letDecl _ name _ (some e) => do
    let v ← demand (← eval m call env ⟨place, []⟩ e)
    pure (.next (env.declare name.name v))
  | .letDecl _ name type none => do
    let v ← demand (type.bind fun tn => Value.default? tn.ty)
    pure (.next (env.declare name.name v))
  | .assign _ name e => do
    let v ← demand (← eval m call env ⟨place, []⟩ e)
    match env.store? name.name v with
    | some env => pure (.next env)
    | none => do
      -- no local of this name, so it is a global
      store name.name v
      pure (.next env)
  | .ret _ none => pure (.returned none)
  | .ret _ (some e) => do pure (.returned (← eval m call env ⟨place, []⟩ e))
  | .expr _ e => do
    let _ ← eval m call env ⟨place, []⟩ e
    pure (.next env)
  | .block _ body => do
    match ← execStmts place 0 ([] :: env) body with
    -- the frame of the block goes with it, what it stored further out stays
    | .next env => pure (.next env.tail)
    | .returned v => pure (.returned v)
  | .fn .. => failure
  | .hole => failure

/-- **Statements of a body**, counted from `i`, up to the first return. -/
def execStmts (place : StmtPlace) (i : Nat) (env : Locals) : List Stmt → Run Outcome
  | [] => pure (.next env)
  | s :: ss => do
    match ← execStmt (place ++ [i]) env s with
    | .next env => execStmts place (i + 1) env ss
    | .returned v => pure (.returned v)

end

end

/-! ### Functions and programs -/

/-- The function of a name: its number among the statements, its head and its body. -/
def function? (p : Program) (f : Text) : Option (Nat × FnHead × List Stmt) :=
  p.zipIdx.findSome? fun s =>
    match s.1 with
    | .fn head _ body => if head.name.name = f then some (s.2, head, body) else none
    | _ => none

/-- **A call**, of at most the given depth. -/
def invoke (m : Machine) (p : Program) : Nat → Text → List Value → Run (Option Value)
  | 0, _, _ => failure
  | depth + 1, f, args =>
    match function? p f with
    | none => failure
    | some (i, head, body) =>
      if args.length = head.params.length then do
        match ← execStmts m (invoke m p depth) [i] 0
            [(head.params.map fun q => q.name.name).zip args] body with
        | .next _ => pure none
        | .returned v => pure v
      else failure

section
variable (m : Machine) (call : Text → List Value → Run (Option Value))

/-- A top-level statement. A declaration without a value leaves the global as it is. -/
def execTop (i : Nat) : Stmt → Run Unit
  | .letDecl _ name _ (some e) | .assign _ name e => do
    let v ← demand (← eval m call [] ⟨[i], []⟩ e)
    store name.name v
  | .letDecl _ _ _ none => pure ()
  | .fn .. => pure ()
  | _ => failure

/-- Top-level statements, counted from `i`. -/
def execTops (i : Nat) : Program → Run Unit
  | [] => pure ()
  | s :: p => do
    execTop m call i s
    execTops (i + 1) p

end

/-- The world before a program runs: every global holds the default of its type, which is the one in
the table of the program. -/
def World.start (t : Table) : World where
  globals := fun x =>
    ((t.findIn? globalScope x).bind t.symbol?).bind fun s => Value.default? s.ty
  log := []

/-- **The world after a program ran**, with calls of at most the given depth. -/
def run (m : Machine) (depth : Nat) (p : Program) (w : World) : World :=
  ((execTops m (invoke m p depth) 0 p).run w).2

end Slang.Execution
