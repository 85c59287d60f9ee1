import Slang.Proofs.Calls.Logic
import Slang.Proofs.Grammar.Shape

/-!
# Nothing is missing

Reading keeps a statement only if all of its parts were there, also in a source with errors: what is
not there is reported, and the statement is dropped. So the program of any source has no gaps, and
the body of a function has its brace (`present_parse`). Only a declaration may say too little, with
neither a type nor a value; it is kept, although it has been reported.

Every error is raised at one of the tokens, and speaks of this token (`intact_parse`).
`Token.Raises` says which token raises which problem. A word that the lexer takes for the name of a
type names one of the four types of the language, so no type is unknown to the reader.
-/

namespace Slang

/-- **Statements of a body of which nothing is missing.** -/
inductive Stmt.Present : Stmt → Prop
  | letDecl {t : Token} {name : Ident} {type : Option TypeNode} {value : Option Expr}
      (hvalue : ∀ e ∈ value, e.Whole) : Present (.letDecl t name type value)
  | assign {t : Token} {name : Ident} {e : Expr} (he : e.Whole) : Present (.assign t name e)
  | ret {t : Token} {value : Option Expr} (hvalue : ∀ e ∈ value, e.Whole) : Present (.ret t value)
  | block {t : Token} {body : List Stmt} (hbody : ∀ s ∈ body, Present s) : Present (.block t body)
  | expr {t : Token} {e : Expr} (he : e.Whole) : Present (.expr t e)

/-- The statements of a block that is there are there. -/
theorem Stmt.Present.of_block {t : Token} {body : List Stmt} (h : (Stmt.block t body).Present) :
    ∀ s ∈ body, s.Present := by
  cases h with
  | block hbody => exact hbody

/-- **Top-level statements of which nothing is missing.** A written result type is one that functions
may return. -/
inductive Stmt.PresentTop : Stmt → Prop
  | letDecl {t : Token} {name : Ident} {type : Option TypeNode} {value : Option Expr}
      (hvalue : ∀ e ∈ value, e.Whole) : PresentTop (.letDecl t name type value)
  | assign {t : Token} {name : Ident} {e : Expr} (he : e.Whole) : PresentTop (.assign t name e)
  | fn {head : FnHead} {brace : Token} {body : List Stmt}
      (hresult : ∀ type ∈ head.result, type.ty.isReturnable) (hbody : ∀ s ∈ body, s.Present) :
      PresentTop (.fn head (some brace) body)

/-- **A token raises a problem**, among all tokens of a source. The problem speaks of the token
itself; one about a body that does not begin speaks of the name of the function as well. -/
inductive Token.Raises (all : List Token) (t : Token) : SyntaxProblem → Prop
  | topLevelExpression (h : t.kind = .ident) : Raises all t (.topLevelExpression t.literal)
  | returnOutsideFunction : Raises all t .returnOutsideFunction
  | unexpectedStart : Raises all t (.unexpectedStart t.kind t.literal)
  | nestedFunction : Raises all t .nestedFunction
  | noInitializer (h : t.kind = .ident) : Raises all t (.noInitializer t.literal)
  | bodyExpected {name : Token} (hmem : name ∈ all) (h : name.kind = .ident) :
      Raises all t (.bodyExpected name.literal t.kind t.literal)
  | typeExpected : Raises all t (.typeExpected t.kind t.literal)
  | unknownType (h : t.isTypeKeyword) (hnone : Ty.ofKeyword? t.literal = none) :
      Raises all t (.unknownType t.literal)
  | commaBeforeParen : Raises all t .commaBeforeParen
  | parameterEnd : Raises all t (.parameterEnd t.kind)
  | parameterName : Raises all t .parameterName
  | unclosedBlock : Raises all t (.unclosedBlock t.kind t.literal)
  | illegalToken (h : t.kind = .illegal) : Raises all t (.illegalToken t.literal)
  | expressionExpected : Raises all t (.expressionExpected t.kind t.literal)
  | integerTooLarge (h : t.kind = .int) : Raises all t (.integerTooLarge t.literal)
  | calleeExpected : Raises all t .calleeExpected
  | commaBeforeEnd (h : t.kind = .rparen) : Raises all t (.commaBeforeEnd t.literal)
  | expectedNext {want : Token.Kind} : Raises all t (.expectedNext want t.kind t.literal)
  | expected {want : Token.Kind} : Raises all t (.expected want t.kind t.literal)

/-- An error that one of the tokens raises, at its position. -/
def Fault.Raised (all : List Token) (f : Fault) : Prop :=
  ∃ t ∈ all, f.pos = t.pos ∧ t.Raises all f.what

/-- An error that is not about a type that nobody knows. -/
def Fault.OfSource (f : Fault) : Prop := ∀ literal, f.what ≠ .unknownType literal

/-- Names of types name types. -/
def Token.NamesType (t : Token) : Prop :=
  t.isTypeKeyword → ∃ ty, Ty.ofKeyword? t.literal = some ty

/-- Functions may return all four types that have a name. -/
theorem isReturnable_of_ofKeyword? {w : Text} {ty : Ty} (h : Ty.ofKeyword? w = some ty) :
    ty.isReturnable := by
  -- one name after the other
  unfold Ty.ofKeyword? at h
  split at h
  · obtain rfl := Option.some.inj h
    rfl
  · split at h
    · obtain rfl := Option.some.inj h
      rfl
    · split at h
      · obtain rfl := Option.some.inj h
        rfl
      · split at h
        · obtain rfl := Option.some.inj h
          rfl
        · cases h

namespace Lexer

/-- The words that the lexer takes for names of types. -/
theorem exists_ofKeyword? : ∀ k ∈ keywords, k.2 = .typeLiteral →
    ∃ ty, Ty.ofKeyword? k.1 = some ty := by
  simp only [keywords, List.forall_mem_cons, List.not_mem_nil, false_implies, implies_true,
    and_true, reduceCtorEq, forall_const, true_and]
  exact ⟨⟨_, rfl⟩, ⟨_, rfl⟩, ⟨_, rfl⟩, ⟨_, rfl⟩⟩

/-- A mark is never read as the name of a type. -/
theorem ne_typeLiteral_of_mark : ∀ k ∈ marks, k.2 ≠ .typeLiteral := by decide

/-- Every token that stands for a type is the name of one. -/
theorem namesType_tokens (src : Text) : ∀ t ∈ tokens src, t.NamesType := by
  intro t ht hkind
  obtain ⟨w, hshape⟩ := shape_of_mem_tokensFrom .start (readable src) t ht
  rw [eq_of_beq hkind] at hshape
  generalize t.literal = literal at hshape ⊢
  cases hshape with
  | keyword h => exact exists_ofKeyword? _ h rfl
  | mark h => exact absurd rfl (ne_typeLiteral_of_mark _ h)

end Lexer

namespace Parser

variable {eof : Token} {ts all : List Token}

/-! ### Answers without gaps -/

/-- **What is right about an answer**: its result has no gaps, and its errors are raised at
tokens. -/
def Intact (all : List Token) : (c : AnyCall) → c.1 → Prop
  | ⟨_, .resync _⟩, _ | ⟨_, .skipBraces ..⟩, _ | ⟨_, .skipFunction _⟩, _ => True
  | ⟨_, .moreParameters _⟩, r => r.Holds (Fault.Raised all) fun _ => True
  | ⟨_, .operand _⟩, r | ⟨_, .expr ..⟩, r => r.Holds (Fault.Raised all) Expr.Whole
  | ⟨_, .extend _ left _⟩, r => left.Whole → r.Holds (Fault.Raised all) Expr.Whole
  | ⟨_, .moreArguments _⟩, r | ⟨_, .arguments _⟩, r =>
    r.Holds (Fault.Raised all) fun es => ∀ e ∈ es, e.Whole
  | ⟨_, .statement ..⟩, p => p.Holds (Fault.Raised all) Stmt.Present
  | ⟨_, .body ..⟩, b => (∀ s ∈ b.stmts, s.Present) ∧ ∀ f ∈ b.faults, f.Raised all
  | ⟨_, .topLevel ..⟩, p => p.Holds (Fault.Raised all) Stmt.PresentTop
  | ⟨_, .program _⟩, r => (∀ s ∈ r.1.program, s.PresentTop) ∧ ∀ f ∈ r.1.faults, f.Raised all

/-- A script with a good reply. -/
abbrev GivesReply {α : Type} (eof : Token) (all : List Token) (s : Script (Reply α))
    (P : α → Prop) : Prop :=
  s.Gives eof (Intact all) (Reply.Holds (Fault.Raised all) P)

/-- A script with a good statement. -/
abbrev GivesStmt (eof : Token) (all : List Token) (s : Script (Parsed Stmt)) (P : Stmt → Prop) :
    Prop :=
  s.Gives eof (Intact all) (Parsed.Holds (Fault.Raised all) P)

/-- What a token raises. -/
theorem raised_fault {t : Token} (ht : t ∈ all) {p : SyntaxProblem} (hp : t.Raises all p) :
    (t.fault p).Raised all :=
  ⟨t, ht, rfl, hp⟩

/-! ### Expressions -/

/-- An expression that is asked for is whole. -/
theorem gives_ask_expr (level : Level) (ts : List Token) :
    GivesReply eof all (Script.ask (.expr level ts)) Expr.Whole :=
  .ask fun _ h => h

/-- What an expression is extended to is whole. -/
theorem gives_extend (level : Level) {left : Expr} (hleft : left.Whole) (hts : ts ⊆ all) :
    GivesReply eof all (Script.extend level left ts) Expr.Whole := by
  cases ts with
  | nil => exact .done hleft
  | cons t rest =>
    unfold Script.extend
    dsimp only
    split
    · -- an operator that binds tighter, a call, or nothing that belongs to the expression
      next op hop =>
      split
      · refine Script.Gives.shift ?_
        refine (gives_ask_expr op.level rest).andThen fun right us _ hright => ?_
        exact .ask fun r hr => hr (.binary hleft hright)
      · exact .done hleft
    · split
      · split
        · refine Script.Gives.shift ?_
          refine Script.Gives.andThen (.ask fun r hr => hr) fun args us _ hargs => ?_
          exact .ask fun r hr => hr (.call hargs)
        · exact .done (raised_fault (hts List.mem_cons_self) .calleeExpected)
      · exact .done hleft

/-- An expression is whole. -/
theorem gives_expr (level : Level) (ts : List Token) :
    GivesReply eof all (Script.expr level ts) Expr.Whole := by
  have hoperand : GivesReply eof all (Script.ask (.operand ts)) Expr.Whole := .ask fun r hr => hr
  refine hoperand.andThen fun e us _ he => ?_
  exact .ask fun r hr => hr he

/-- The arguments of a call are whole. -/
theorem gives_arguments (ts : List Token) :
    GivesReply eof all (Script.arguments ts) fun es => ∀ e ∈ es, e.Whole := by
  unfold Script.arguments
  split
  · exact .done fun e he => by cases he
  · exact .ask fun r hr => hr

/-- The value of a let statement is whole if there is one. -/
theorem gives_optionalValue (ts : List Token) :
    GivesReply eof all (Script.optionalValue ts) fun value => ∀ e ∈ value, e.Whole := by
  unfold Script.optionalValue
  split
  · refine (gives_ask_expr Level.lowest (ts.drop 1)).map fun r hr => Reply.Holds.shift ?_
    refine hr.map fun e he => ?_
    rintro _ ⟨⟩
    exact he
  · exact .done fun e he => by cases he

/-- A statement that is dropped leaves its errors. -/
theorem gives_dropped {fs : List Fault} (hfs : ∀ f ∈ fs, f.Raised all) {P : Stmt → Prop} (k : Nat) :
    GivesStmt eof all (Script.dropped ts fs k) P :=
  fun _ => .of_none rfl hfs

section
variable (heof : eof ∈ all)
include heof

/-- The next token is one of the source, or its end. -/
theorem headD_mem (hts : ts ⊆ all) : ts.headD eof ∈ all := by
  cases ts with
  | nil => exact heof
  | cons t rest => exact hts List.mem_cons_self

/-- What is expected is there, or its absence is an error at the next token. -/
theorem holds_expect (kind : Token.Kind) (hts : ts ⊆ all) :
    (expect eof kind ts).Holds (Fault.Raised all) fun _ => True := by
  unfold expect
  dsimp only
  split
  · exact trivial
  · exact raised_fault (headD_mem heof hts) .expected

/-- The second of two tokens is of the kind that is asked for. -/
theorem holds_expectSecond (kind : Token.Kind) (hts : ts ⊆ all) :
    (expectSecond eof kind ts).Holds (Fault.Raised all) fun t => t ∈ all ∧ t.kind = kind := by
  have hsecond : (ts.drop 1).headD eof ∈ all :=
    headD_mem heof (List.Subset.trans (List.drop_subset 1 ts) hts)
  unfold expectSecond
  dsimp only
  split
  · next hkind => exact ⟨hsecond, hkind⟩
  · exact raised_fault hsecond .expectedNext

/-- The elements of a list after the first one are as good as those that are read on their own. -/
theorem gives_listTail {α : Type} {early : Text → SyntaxProblem}
    {late : Token.Kind → Text → SyntaxProblem} {more : List Token → Call (Reply (List α))} {a : α}
    {P : List α → Prop} (hts : ts ⊆ all)
    (hearly : ∀ t : Token, t.kind = .rparen → t.Raises all (early t.literal))
    (hlate : ∀ t : Token, t.Raises all (late t.kind t.literal)) (hone : P [a])
    (hmore : ∀ as, P as → P (a :: as))
    (hgood : ∀ us r, Intact all ⟨_, more us⟩ r → r.Holds (Fault.Raised all) P) :
    GivesReply eof all (Script.listTail eof early late more a ts) P := by
  unfold Script.listTail
  dsimp only
  split
  · split
    · -- a comma before the end, another member, the end, or something else
      next hparen =>
      have hmem := headD_mem heof (List.Subset.trans (List.drop_subset 1 ts) hts)
      exact .done (raised_fault hmem (hearly _ hparen))
    · refine (Script.Gives.ask (hgood _)).map fun r hr => ?_
      exact (hr.map hmore).shift
  · split
    · exact .done hone
    · exact .done (raised_fault (headD_mem heof hts) (hlate _))

/-- An operand is whole. -/
theorem gives_operand (hts : ts ⊆ all) :
    GivesReply eof all (Script.operand eof ts) Expr.Whole := by
  -- one case for each way an operand may begin; anything else is an error at this token
  cases ts with
  | nil => exact .done (raised_fault heof .expressionExpected)
  | cons t rest =>
    have ht : t ∈ all := hts List.mem_cons_self
    unfold Script.operand
    dsimp only
    split
    · exact .done .ident
    · next hkind =>
      split
      · exact .done .int
      · exact .done (raised_fault ht (.integerTooLarge hkind))
    · exact .done .str
    · exact .done .bool
    · exact .done .bool
    · refine ((gives_ask_expr Level.lowest rest).andThen fun e us hus he => ?_).shift
      have hus : us ⊆ all := List.Subset.trans hus.subset (List.subset_of_cons_subset hts)
      exact .done ((holds_expect heof .rparen hus).map fun _ _ => .group he)
    · exact (gives_ask_expr Level.unary rest).map fun r hr => (hr.map fun e he => .unary he).shift
    · exact (gives_ask_expr Level.unary rest).map fun r hr => (hr.map fun e he => .unary he).shift
    · next hkind => exact .done (raised_fault ht (.illegalToken hkind))
    · exact .done (raised_fault ht .expressionExpected)

/-! ### Parts of statements -/

/-- A statement that has been read is kept, also if it does not end as it should. -/
theorem gives_finish {node : Stmt} {fs : List Fault} {P : Stmt → Prop} (hts : ts ⊆ all)
    (hnode : P node) (hfs : ∀ f ∈ fs, f.Raised all) (k : Nat) :
    GivesStmt eof all (Script.finish eof ts node fs k) P := by
  have hexpect : (expect eof .semicolon (ts.drop k)).Holds (Fault.Raised all) fun _ => True :=
    holds_expect heof .semicolon (List.Subset.trans (List.drop_subset k ts) hts)
  unfold Script.finish
  split
  · refine .done ⟨?_, hfs⟩
    rintro s ⟨⟩
    exact hnode
  · next f _ hf =>
    rw [hf] at hexpect
    exact gives_dropped (List.forall_mem_append.mpr ⟨hfs, List.forall_mem_singleton.mpr hexpect⟩) k

/-- An assignment is whole. -/
theorem gives_assignStmt {name sign : Token} {rest : List Token} (hts : name :: sign :: rest ⊆ all)
    {P : Stmt → Prop} (hP : ∀ id e, e.Whole → P (.assign sign id e)) :
    GivesStmt eof all (Script.assignStmt eof name sign rest) P := by
  unfold Script.assignStmt
  refine (gives_ask_expr Level.lowest rest).shift.bind ?_
  rintro (⟨e, k⟩ | ⟨f, k⟩) he
  · exact gives_finish heof hts (hP _ _ he) (List.forall_mem_nil _) k
  · exact gives_dropped (List.forall_mem_singleton.mpr he) k

/-- The value of a return statement is whole if there is one. -/
theorem gives_returnStmt (depth : Nat) {t : Token} {rest : List Token} (hts : t :: rest ⊆ all) :
    GivesStmt eof all (Script.returnStmt eof depth t rest) Stmt.Present := by
  have houtside : ∀ f ∈ (if depth = 0 then [t.fault .returnOutsideFunction] else []),
      Fault.Raised all f := by
    split
    · exact List.forall_mem_singleton.mpr
        (raised_fault (hts List.mem_cons_self) .returnOutsideFunction)
    · exact List.forall_mem_nil _
  unfold Script.returnStmt
  dsimp only
  split
  · exact gives_finish heof hts (.ret fun e he => by cases he) houtside 1
  · refine (gives_ask_expr Level.lowest rest).shift.bind ?_
    rintro (⟨e, k⟩ | ⟨f, k⟩) he
    · -- the value is there: the statement is kept, even outside a function
      refine gives_finish heof hts (.ret ?_) houtside k
      rintro _ ⟨⟩
      exact he
    · exact gives_dropped
        (List.forall_mem_append.mpr ⟨houtside, List.forall_mem_singleton.mpr he⟩) k

/-- An expression that stands as a statement is whole. -/
theorem gives_exprStmt {t : Token} {rest : List Token} (hts : t :: rest ⊆ all) :
    GivesStmt eof all (Script.exprStmt eof t rest) Stmt.Present := by
  unfold Script.exprStmt
  refine (gives_ask_expr Level.lowest (t :: rest)).bind ?_
  rintro (⟨e, k⟩ | ⟨f, k⟩) he
  · exact gives_finish heof hts (.expr he) (List.forall_mem_nil _) k
  · exact gives_dropped (List.forall_mem_singleton.mpr he) k

/-- A type that is read is one of the four. -/
theorem holds_typeNode (hts : ts ⊆ all) :
    (typeNode eof ts).Holds (Fault.Raised all) fun type => type.ty.isReturnable := by
  have hmem : ts.headD eof ∈ all := headD_mem heof hts
  unfold typeNode
  dsimp only
  split
  · next hkind =>
    split
    · next ty hty => exact isReturnable_of_ofKeyword? hty
    · next hnone => exact raised_fault hmem (.unknownType hkind hnone)
  · exact raised_fault hmem .typeExpected

/-- A type that may be left out is one of the four if it is there. -/
theorem holds_optionalType (hts : ts ⊆ all) :
    (optionalType eof ts).Holds (Fault.Raised all)
      fun type => ∀ tn ∈ type, tn.ty.isReturnable := by
  unfold optionalType
  split
  · refine Reply.Holds.shift ?_
    have hrest : ts.drop 1 ⊆ all := List.Subset.trans (List.drop_subset 1 ts) hts
    refine (holds_typeNode heof hrest).map fun tn htn => ?_
    rintro _ ⟨⟩
    exact htn
  · exact fun _ htype => by cases htype

/-- A declaration: nothing is missing of its value, if it has one. -/
theorem gives_letStmt {t : Token} {rest : List Token} (hts : t :: rest ⊆ all) {P : Stmt → Prop}
    (hP : ∀ name type value, (∀ e ∈ value, e.Whole) → P (.letDecl t name type value)) :
    GivesStmt eof all (Script.letStmt eof t rest) P := by
  unfold Script.letStmt
  refine Script.Gives.bind (Q := Reply.Holds (Fault.Raised all)
    fun x => (x.1 ∈ all ∧ x.1.kind = .ident) ∧ ∀ e ∈ x.2.2, e.Whole) ?_ ?_
  · -- name, type and value, each of them raising at most one error
    refine Script.Gives.andThen (.done (holds_expectSecond heof .ident hts)) ?_
    intro name us hus hname
    have hus : us ⊆ all := List.Subset.trans hus.subset hts
    refine Script.Gives.andThen (.done (holds_optionalType heof hus)) ?_
    intro type vs _ _
    exact (gives_optionalValue vs).map fun r hr => hr.map fun value hvalue => ⟨hname, hvalue⟩
  · rintro (⟨⟨name, type, value⟩, k⟩ | ⟨f, k⟩) hhead
    · obtain ⟨⟨hmem, hname⟩, hvalue⟩ := hhead
      refine gives_finish heof hts (hP _ _ _ hvalue) ?_ k
      -- a declaration that says too little is reported at its name, and kept
      split
      · exact List.forall_mem_singleton.mpr (raised_fault hmem (.noInitializer hname))
      · exact List.forall_mem_nil _
    · exact gives_dropped (List.forall_mem_singleton.mpr hhead) k

/-! ### Functions -/

/-- A parameter raises errors at tokens only. -/
theorem holds_parameter (hts : ts ⊆ all) :
    (parameter eof ts).Holds (Fault.Raised all) fun _ => True := by
  unfold parameter
  dsimp only
  split
  · refine (holds_expectSecond heof .colon hts).andThen fun _ us hus _ => ?_
    exact (holds_typeNode heof (List.Subset.trans hus.subset hts)).map fun _ _ => trivial
  · exact raised_fault (headD_mem heof hts) .parameterName

/-- So do several parameters. -/
theorem gives_moreParameters (hts : ts ⊆ all) :
    GivesReply eof all (Script.moreParameters eof ts) fun _ => True := by
  refine Script.Gives.andThen (.done (holds_parameter heof hts)) fun p us hus _ => ?_
  exact gives_listTail heof (List.Subset.trans hus.subset hts) (fun _ _ => .commaBeforeParen)
    (fun _ => .parameterEnd) trivial (fun _ _ => trivial) fun _ _ h => h

/-- What a function says before its body: a written result type is one that it may return. -/
theorem gives_fnHead {t : Token} {rest : List Token} (hts : t :: rest ⊆ all) :
    GivesReply eof all (Script.fnHead eof t rest)
      fun x => ∀ type ∈ x.1.result, type.ty.isReturnable := by
  have hname := holds_expectSecond heof .ident hts
  have hrest : rest ⊆ all := List.subset_of_cons_subset hts
  unfold Script.fnHead
  split
  · next f k hf =>
    rw [hf] at hname
    exact .done hname
  · next name k hf =>
    rw [hf] at hname
    obtain ⟨hmem, hkind⟩ := hname
    refine Script.Gives.shift ?_
    refine Script.Gives.andThen (.done (holds_expectSecond heof .lparen hrest)) fun _ us hus _ => ?_
    -- an empty list of parameters, or some
    have hparams : GivesReply eof all (Script.parameters us) fun _ => True := by
      unfold Script.parameters
      split
      · exact .done trivial
      · exact .ask fun _ hr => hr
    refine hparams.andThen fun params vs hvs _ => ?_
    have hvs : vs ⊆ all := List.Subset.trans (hvs.trans hus).subset hrest
    refine Script.Gives.andThen (.done (holds_optionalType heof hvs)) ?_
    intro result ws hws hresult
    refine .done ?_
    unfold openBrace
    dsimp only
    split
    · exact hresult
    · -- no brace: the error speaks of the token in its place and of the name of the function
      have hbrace : ws.headD eof ∈ all := headD_mem heof (List.Subset.trans hws.subset hvs)
      exact raised_fault hbrace (.bodyExpected hmem hkind)

/-- A function that is kept has a body of which nothing is missing. -/
theorem gives_function (depth : Nat) {t : Token} {rest : List Token} (hts : t :: rest ⊆ all) :
    GivesStmt eof all (Script.function eof depth t rest) Stmt.PresentTop := by
  refine (gives_fnHead heof hts).bind ?_
  rintro (⟨⟨head, brace⟩, k⟩ | ⟨f, k⟩) hhead
  · rintro ⟨⟨hstmts, hfaults⟩, -⟩
    refine ⟨fun s hs => ?_, hfaults⟩
    -- the function is there if its body was closed
    change s ∈ (if _ then _ else _ : Option Stmt) at hs
    split at hs
    · obtain rfl := Option.some.inj hs
      exact .fn hhead hstmts
    · cases hs
  · exact fun _ => .of_none rfl (List.forall_mem_singleton.mpr hhead)

/-! ### Statements and programs -/

/-- **A statement of a body is whole if it is kept.** -/
theorem gives_statement (depth : Nat) {t : Token} {rest : List Token} (hts : t :: rest ⊆ all) :
    GivesStmt eof all (Script.statement eof depth t rest) Stmt.Present := by
  unfold Script.statement
  split
  · exact gives_letStmt heof hts fun _ _ _ hvalue => .letDecl hvalue
  · exact gives_returnStmt heof depth hts
  · -- a block is there if it was closed
    refine (Script.Gives.ask fun b hb => hb).map fun b hb => ⟨fun s hs => ?_, hb.2⟩
    change s ∈ (if _ then _ else _ : Option Stmt) at hs
    split at hs
    · obtain rfl := Option.some.inj hs
      exact .block hb.1
    · cases hs
  · refine (Script.Gives.ask fun n hn => hn).map fun n _ => .of_none rfl ?_
    exact List.forall_mem_singleton.mpr (raised_fault (hts List.mem_cons_self) .nestedFunction)
  · -- a name begins an assignment or an expression
    split
    · split
      · exact gives_assignStmt heof hts fun _ _ he => .assign he
      · exact gives_exprStmt heof hts
    · exact gives_exprStmt heof hts
  · exact gives_exprStmt heof hts

/-- **A statement of the top level is whole if it is kept.** -/
theorem gives_topLevel {t : Token} {rest : List Token} (hts : t :: rest ⊆ all) :
    GivesStmt eof all (Script.topLevel eof t rest) Stmt.PresentTop := by
  have hdropped {p : SyntaxProblem} (hp : t.Raises all p) :
      GivesStmt eof all (Script.dropped (t :: rest) [t.fault p] 0) Stmt.PresentTop :=
    gives_dropped (List.forall_mem_singleton.mpr (raised_fault (hts List.mem_cons_self) hp)) 0
  unfold Script.topLevel
  dsimp only
  split
  · exact gives_letStmt heof hts fun _ _ _ hvalue => .letDecl hvalue
  · exact gives_function heof 0 hts
  · -- a name begins an assignment, or an expression, which may not stand here
    next hkind =>
    split
    · split
      · exact gives_assignStmt heof hts fun _ _ he => .assign he
      · exact hdropped (.topLevelExpression hkind)
    · exact hdropped (.topLevelExpression hkind)
  · exact hdropped .returnOutsideFunction
  · exact hdropped .unexpectedStart

omit heof in
/-- The statements and the errors of a turn of a loop, in front of those of the turns after it. -/
theorem holds_turn {P : Stmt → Prop} {p : Parsed Stmt} (hp : p.Holds (Fault.Raised all) P)
    {ss : List Stmt} {fs : List Fault} (h : (∀ s ∈ ss, P s) ∧ ∀ f ∈ fs, f.Raised all) :
    (∀ s ∈ p.node.toList ++ ss, P s) ∧ ∀ f ∈ p.faults ++ fs, f.Raised all := by
  refine ⟨fun s hs => ?_, List.forall_mem_append.mpr ⟨hp.faults, h.2⟩⟩
  rcases List.mem_append.mp hs with hs | hs
  · exact hp.node s (Option.mem_toList.mp hs)
  · exact h.1 s hs

/-- The statements of a body are whole. -/
theorem gives_body (depth : Nat) (ts : List Token) :
    (Script.body eof depth ts).Gives eof (Intact all)
      fun b => (∀ s ∈ b.stmts, s.Present) ∧ ∀ f ∈ b.faults, f.Raised all := by
  cases ts with
  | nil =>
    refine .done (And.intro (List.forall_mem_nil _) ?_)
    exact List.forall_mem_singleton.mpr (raised_fault heof .unclosedBlock)
  | cons t rest =>
    unfold Script.body
    dsimp only
    split
    · exact .done (And.intro (List.forall_mem_nil _) (List.forall_mem_nil _))
    · refine Script.Gives.bind (.ask fun p hp => hp) fun p hp => ?_
      exact (Script.Gives.ask fun b hb => hb).map fun b hb => holds_turn hp hb

omit heof in
/-- The statements of a program are whole. -/
theorem gives_program (ts : List Token) :
    (Script.program eof ts).Gives eof (Intact all)
      fun r => (∀ s ∈ r.1.program, s.PresentTop) ∧ ∀ f ∈ r.1.faults, f.Raised all := by
  cases ts with
  | nil => exact .done (And.intro (List.forall_mem_nil _) (List.forall_mem_nil _))
  | cons t rest =>
    refine Script.Gives.bind (.ask fun p hp => hp) fun p hp => ?_
    exact (Script.Gives.ask fun r hr => hr).map fun r hr => holds_turn hp hr

/-- **Each reader gives what is intact** if those that it calls do. -/
theorem gives_intact (c : AnyCall) (hc : c.tokens ⊆ all) :
    (c.2.script eof).Gives eof (Intact all) (Intact all c) := by
  obtain ⟨α, c⟩ := c
  -- one case for each function of the reader, given what the functions it asks have done
  cases c with
  | resync ts => exact fun _ => trivial
  | skipBraces depth ts => exact fun _ => trivial
  | skipFunction ts => exact fun _ => trivial
  | moreParameters ts => exact gives_moreParameters heof hc
  | operand ts => exact gives_operand heof hc
  | extend level left ts =>
    intro hcalls hleft
    exact gives_extend level hleft hc hcalls
  | expr level ts => exact gives_expr level ts
  | moreArguments ts =>
    refine (gives_ask_expr Level.lowest ts).andThen fun e us hus he => ?_
    refine gives_listTail heof (List.Subset.trans hus.subset hc) (fun _ h => .commaBeforeEnd h)
      (fun _ => .expected) ?_ ?_ fun _ _ hr => hr
    · exact fun a ha => List.mem_singleton.mp ha ▸ he
    · exact fun as has => List.forall_mem_cons.mpr ⟨he, has⟩
  | arguments ts => exact gives_arguments ts
  | statement depth t rest => exact gives_statement heof depth hc
  | body depth ts => exact gives_body heof depth ts
  | topLevel t rest => exact gives_topLevel heof hc
  | program ts => exact gives_program ts

end

/-! ### Sources -/

/-- **Nothing is missing from the program of a source**, whether or not the source has errors, and
every error is raised at one of its tokens or at its end. -/
theorem intact_parse (src : Text) :
    (∀ s ∈ (parse src).program, s.PresentTop) ∧
      ∀ f ∈ (parse src).faults, f.Raised (Lexer.eof src :: Lexer.tokens src) := by
  have heof : (Lexer.eof src).kind = .eof := rfl
  have hintact := answer_of_gives heof (distinct_tokens src)
    (fun c hc => gives_intact List.mem_cons_self c (List.subset_cons_of_subset _ hc.subset))
    ⟨_, .program (Lexer.tokens src)⟩ (List.suffix_refl _)
  exact hintact

/-- The end of a source names no type, and every name of a type names one. -/
theorem ofSource_of_raised {src : Text} {f : Fault}
    (h : f.Raised (Lexer.eof src :: Lexer.tokens src)) : f.OfSource := by
  obtain ⟨t, ht, -, hraises⟩ := h
  intro literal hwhat
  rw [hwhat] at hraises
  cases hraises with
  | unknownType hkind hnone =>
    rcases List.mem_cons.mp ht with rfl | ht
    · cases hkind
    · obtain ⟨ty, hty⟩ := Lexer.namesType_tokens src t ht hkind
      exact absurd (hty.symm.trans hnone) (Option.some_ne_none ty)

/-- Nothing is missing from the program of a source, and no error is about a type that nobody
knows. -/
theorem present_parse (src : Text) :
    (∀ s ∈ (parse src).program, s.PresentTop) ∧ ∀ f ∈ (parse src).faults, f.OfSource :=
  ⟨(intact_parse src).1, fun f hf => ofSource_of_raised ((intact_parse src).2 f hf)⟩

end Parser
end Slang
