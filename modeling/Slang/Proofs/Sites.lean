import Slang.Proofs.Accepted

/-!
# Where expressions stand

Analysis reads each statement once, in a context and a state of its own. A **place** is the way to a
statement: its number among the statements of the program, then its number in the body of that
function, then its number in that block, and so on. The **site** of a place is the statement there
with the context and the state in which analysis reads it.

An **occurrence** is an expression inside a statement: the place of the statement, and the way from
its whole expression down to the part. Analysis leaves the state alone while it reads an expression,
so all parts are read at the site of the statement; `constantAt` is the constant that analysis finds
for an occurrence, if it finds one.
-/

namespace Slang

/-- The way to a statement, from the outside in. -/
abbrev StmtPlace := List Nat

/-- An expression inside a statement: its place and the way down from the whole expression. -/
structure Occurrence where
  place : StmtPlace
  path : List Nat
  deriving DecidableEq, Repr

/-- A part of the expression at an occurrence. -/
def Occurrence.part (o : Occurrence) (i : Nat) : Occurrence := ⟨o.place, o.path ++ [i]⟩

namespace Expr

/-- The expressions directly inside an expression, in the order in which they are evaluated. -/
def parts : Expr → List Expr
  | unary _ _ right => [right]
  | binary _ _ left right => [left, right]
  | group _ e => [e]
  | call _ _ args => args
  | _ => []

/-- A part of an expression by the way down to it. -/
def part? : List Nat → Expr → Option Expr
  | [], e => some e
  | i :: path, e => (e.parts[i]?).bind (part? path)

end Expr

/-- The whole expression of a statement. -/
def Stmt.value? : Stmt → Option Expr
  | letDecl _ _ _ value => value
  | assign _ _ e => some e
  | ret _ value => value
  | expr _ e => some e
  | _ => none

namespace Analysis

/-- **A statement with the context and the state in which it is read.** -/
structure Site where
  ctx : Context
  st : State
  stmt : Stmt

/-- The site of a place among statements that are read from a given state on. -/
def siteIn : StmtPlace → Context → State → List Stmt → Option Site
  | [], _, _, _ => none
  | [i], ctx, st, ss => (ss[i]?).map (⟨ctx, checkStmts ctx st (ss.take i), ·⟩)
  | i :: j :: place, ctx, st, ss =>
    match ss[i]? with
    | some (.block _ body) =>
      let st := checkStmts ctx st (ss.take i)
      siteIn (j :: place) (blockContext ctx st) (scopeStart ctx "block" st.returns st) body
    | _ => none

/-- The context and the state in which the body of a function begins. A function without a written
type makes its parameters first; one with a written type has them in its signature. -/
def bodyEntry (ctx : Context) (st : State) (head : FnHead) (signature : Option Symbol) :
    Option (Context × State) :=
  match head.result, signature with
  | none, _ =>
    let (st, params) := makeParams [] st head.params
    some (bodyContext ctx head none params st, bodyStart ctx head none params st)
  | some result, some s =>
    some (bodyContext ctx head (some result.ty) s.params st,
      bodyStart ctx head (some result.ty) s.params st)
  | some _, none => none

/-- The site of a place among top-level statements that are read from a given state on. -/
def siteAmong (ctx : Context) (st : State) (l : List (Stmt × Option Symbol)) :
    StmtPlace → Option Site
  | [] => none
  | [i] => (l[i]?).map (⟨ctx, (l.take i).foldl (checkTop ctx) st, ·.1⟩)
  | i :: j :: place =>
    match l[i]? with
    | some (.fn head _ body, signature) =>
      (bodyEntry ctx ((l.take i).foldl (checkTop ctx) st) head signature).bind fun entry =>
        siteIn (j :: place) entry.1 entry.2 body
    | _ => none

/-- **The site of a place in a program.** -/
def site (options : Options) (p : Program) (place : StmtPlace) : Option Site :=
  let ctx := topContext options p.globalWrites
  siteAmong ctx (hoistAll ctx startState p).1 (hoistAll ctx startState p).2 place

/-- **The constant that analysis finds for an occurrence**, if it finds one. -/
def constantAt (options : Options) (p : Program) (o : Occurrence) : Option Value :=
  (site options p o.place).bind fun s =>
    (s.stmt.value?.bind (Expr.part? o.path)).bind fun e => (check s.ctx s.st.table e).value

/-! ### Step by step -/

section
variable (ctx : Context) (st : State)

/-- The state after statements, in two steps. -/
theorem checkStmts_cons (s : Stmt) (ss : List Stmt) :
    checkStmts ctx st (s :: ss) = checkStmts ctx (checkStmt ctx st s) ss := by
  rw [checkStmts]

theorem checkStmts_nil : checkStmts ctx st [] = st := by
  rw [checkStmts]

theorem siteIn_here (s : Stmt) (ss : List Stmt) :
    siteIn [0] ctx st (s :: ss) = some ⟨ctx, st, s⟩ := by
  rw [siteIn, List.take_zero, checkStmts_nil]
  rfl

/-- The places inside a block are those of its statements. -/
theorem siteIn_block (j : Nat) (place : StmtPlace) (tok : Token) (body ss : List Stmt) :
    siteIn (0 :: j :: place) ctx st (.block tok body :: ss) =
      siteIn (j :: place) (blockContext ctx st) (scopeStart ctx "block" st.returns st) body := by
  rw [siteIn, List.take_zero, checkStmts_nil]
  rfl

/-- The places after a statement are those of the statements after it. -/
theorem siteIn_next (i : Nat) (place : StmtPlace) (s : Stmt) (ss : List Stmt) :
    siteIn ((i + 1) :: place) ctx st (s :: ss) =
      siteIn (i :: place) ctx (checkStmt ctx st s) ss := by
  cases place with
  | nil => rw [siteIn, siteIn, List.getElem?_cons_succ, List.take_succ_cons, checkStmts_cons]
  | cons j place =>
    rw [siteIn, siteIn, List.getElem?_cons_succ, List.take_succ_cons, checkStmts_cons]

variable (l : List (Stmt × Option Symbol))

theorem siteAmong_here (s : Stmt × Option Symbol) :
    siteAmong ctx st (s :: l) [0] = some ⟨ctx, st, s.1⟩ :=
  rfl

theorem siteAmong_next (i : Nat) (place : StmtPlace) (s : Stmt × Option Symbol) :
    siteAmong ctx st (s :: l) ((i + 1) :: place) =
      siteAmong ctx (checkTop ctx st s) l (i :: place) := by
  cases place <;> rfl

/-- The places inside a function are those of its body. -/
theorem siteAmong_of_getElem? {k : Nat} {head : FnHead} {brace : Option Token} {body : List Stmt}
    {signature : Option Symbol} {ctx' : Context} {st' : State}
    (hk : l[k]? = some (.fn head brace body, signature))
    (hentry : bodyEntry ctx ((l.take k).foldl (checkTop ctx) st) head signature =
      some (ctx', st')) (j : Nat) (place : StmtPlace) :
    siteAmong ctx st l (k :: j :: place) = siteIn (j :: place) ctx' st' body := by
  unfold siteAmong
  dsimp only
  rw [hk]
  dsimp only
  rw [hentry]
  rfl

theorem siteAmong_fn {head : FnHead} {brace : Option Token} {body : List Stmt}
    {signature : Option Symbol} {ctx' : Context} {st' : State}
    (hentry : bodyEntry ctx st head signature = some (ctx', st')) (j : Nat) (place : StmtPlace) :
    siteAmong ctx st ((.fn head brace body, signature) :: l) (0 :: j :: place) =
      siteIn (j :: place) ctx' st' body :=
  siteAmong_of_getElem? ctx st _ List.getElem?_cons_zero hentry j place

end

section
variable {ctx : Context} {st : State} {P : Site → Prop}

theorem not_exists_siteIn_nil : ¬∃ place site, siteIn place ctx st [] = some site ∧ P site := by
  rintro ⟨place, site, hsite, -⟩
  match place with
  | [] => cases hsite
  | [i] => cases hsite
  | i :: j :: place => cases hsite

/-- A site among statements is the first of them, or is inside it if it is a block, or is among
those after it. -/
theorem exists_siteIn_cons {s : Stmt} {ss : List Stmt} :
    (∃ place site, siteIn place ctx st (s :: ss) = some site ∧ P site) ↔
      (P ⟨ctx, st, s⟩ ∨ ∃ tok body, s = .block tok body ∧
        ∃ place site, siteIn place (blockContext ctx st) (scopeStart ctx "block" st.returns st)
          body = some site ∧ P site) ∨
      ∃ place site, siteIn place ctx (checkStmt ctx st s) ss = some site ∧ P site := by
  constructor
  · -- by the first step of the way
    rintro ⟨place, site, hsite, hP⟩
    match place with
    | [] => cases hsite
    | [0] =>
      rw [siteIn_here] at hsite
      obtain rfl := Option.some.inj hsite
      exact .inl (.inl hP)
    | 0 :: j :: place =>
      cases s with
      | block tok body =>
        rw [siteIn_block] at hsite
        exact .inl (.inr ⟨tok, body, rfl, j :: place, site, hsite, hP⟩)
      | _ => cases hsite
    | (i + 1) :: place =>
      rw [siteIn_next] at hsite
      exact .inr ⟨i :: place, site, hsite, hP⟩
  · rintro ((hP | ⟨tok, body, rfl, place, site, hsite, hP⟩) | ⟨place, site, hsite, hP⟩)
    · exact ⟨[0], _, siteIn_here ctx st s ss, hP⟩
    · cases place with
      | nil => cases hsite
      | cons j place =>
        exact ⟨0 :: j :: place, site, (siteIn_block ctx st j place tok body ss).trans hsite, hP⟩
    · cases place with
      | nil => cases hsite
      | cons i place =>
        exact ⟨(i + 1) :: place, site, (siteIn_next ctx st i place s ss).trans hsite, hP⟩

end

/-! ### Writes -/

/-- The assignment at a site writes to a symbol. -/
def Site.Writes (s : Site) (id : SymbolId) : Prop :=
  ∃ tok name e, s.stmt = .assign tok name e ∧ s.st.table.find? s.ctx.scope name.name = some id

/-- **An assignment at a place writes to a symbol**: its name stands for the symbol there. -/
def WritesAt (options : Options) (p : Program) (place : StmtPlace) (id : SymbolId) : Prop :=
  ∃ s, site options p place = some s ∧ s.Writes id

/-- The symbol that the assignment at a site writes to. -/
def Site.target? (s : Site) : Option SymbolId :=
  match s.stmt with
  | .assign _ name _ => s.st.table.find? s.ctx.scope name.name
  | _ => none

theorem Site.target?_eq_some {s : Site} {id : SymbolId} : s.target? = some id ↔ s.Writes id := by
  obtain ⟨ctx, st, stmt⟩ := s
  constructor
  · intro h
    cases stmt with
    | assign tok name e => exact ⟨tok, name, e, rfl, h⟩
    | _ => cases h
  · rintro ⟨tok, name, e, rfl, h⟩
    exact h

instance (options : Options) (p : Program) (place : StmtPlace) (id : SymbolId) :
    Decidable (WritesAt options p place id) :=
  decidable_of_iff ((site options p place).bind Site.target? = some id) (by
    rw [Option.bind_eq_some_iff]
    exact exists_congr fun s => and_congr_right fun _ => Site.target?_eq_some)

/-- Some statement writes to a symbol, at any depth. -/
def WritesIn (ctx : Context) (st : State) (ss : List Stmt) (id : SymbolId) : Prop :=
  ∃ place s, siteIn place ctx st ss = some s ∧ s.Writes id

/-- One statement writes to a symbol: by itself, or inside if it is a block. -/
def WritesOf (ctx : Context) (st : State) (s : Stmt) (id : SymbolId) : Prop :=
  match s with
  | .block _ body => WritesIn (blockContext ctx st) (scopeStart ctx "block" st.returns st) body id
  | s => Site.Writes ⟨ctx, st, s⟩ id

section
variable {ctx : Context} {st : State} {id : SymbolId}

theorem not_writesIn_nil : ¬WritesIn ctx st [] id := not_exists_siteIn_nil

/-- Statements write if the first of them does or one after it. -/
theorem writesIn_cons {s : Stmt} {ss : List Stmt} :
    WritesIn ctx st (s :: ss) id ↔
      WritesOf ctx st s id ∨ WritesIn ctx (checkStmt ctx st s) ss id := by
  refine (exists_siteIn_cons (P := fun site => site.Writes id)).trans (or_congr ?_ Iff.rfl)
  cases s with
  | block tok body =>
    constructor
    · rintro (⟨_, _, _, hstmt, -⟩ | ⟨_, _, ⟨⟩, hwrites⟩)
      · cases hstmt
      · exact hwrites
    · exact fun hwrites => .inr ⟨tok, body, rfl, hwrites⟩
  | _ => exact or_iff_left fun h => by obtain ⟨_, _, ⟨⟩, -⟩ := h

end

end Analysis
end Slang
