import Mathlib.Logic.Relation
import Slang.Proofs.Calls.Answers
import Slang.Proofs.Layout
import Slang.Proofs.Pieces.Spans

/-!
# All calls return

A call that a reader makes has a part of its tokens, and either fewer tokens or an earlier reader
(`AnyCall.Below`). This order comes to an end, so all calls return, with the answers of the readers
(`returns_iff`). On the way from one call of a reader to another call of the same reader at least one
token has been taken (`Below.length_lt`).

* `parsing_ends`: reading a source comes to an end, and no cycle of calls takes no token.
-/

namespace Slang.Parser

variable {α β : Type} {eof : Token} {ts : List Token}

/-! ### The order of calls -/

/-- The place of a reader in an order in which readers with the same tokens call each other. -/
def Reader.rank : Reader → Nat
  | .resync => 0
  | .skipBraces => 1
  | .skipFunction => 2
  | .moreParameters => 3
  | .operand => 4
  | .extend => 5
  | .expr => 6
  | .moreArguments => 7
  | .arguments => 8
  | .statement => 9
  | .body => 10
  | .topLevel => 11
  | .program => 12

namespace AnyCall

/-- The reader that is called. -/
def reader (c : AnyCall) : Reader := c.2.reader

/-- The tokens that are left when a reader is called. -/
def tokens (c : AnyCall) : List Token := c.2.tokens

/-- Statements and blocks stand inside a function. -/
def Inside (c : AnyCall) : Prop := c.2.Inside

/-- **What one call can have to do with another one that makes it.** -/
structure Below (c' c : AnyCall) : Prop where
  part : c'.tokens <:+ c.tokens
  less : c'.tokens.length < c.tokens.length ∨ c'.reader.rank < c.reader.rank
  inside : c.Inside → c'.Inside

theorem Below.trans {c₁ c₂ c₃ : AnyCall} (h₁ : c₁.Below c₂) (h₂ : c₂.Below c₃) : c₁.Below c₃ := by
  refine ⟨h₁.part.trans h₂.part, ?_, fun h => h₁.inside (h₂.inside h)⟩
  have hpart₁ := h₁.part.length_le
  have hpart₂ := h₂.part.length_le
  rcases h₁.less with hlen | hrank₁
  · exact .inl (Nat.lt_of_lt_of_le hlen hpart₂)
  · rcases h₂.less with hlen | hrank₂
    · exact .inl (Nat.lt_of_le_of_lt hpart₁ hlen)
    · exact .inr (Nat.lt_trans hrank₁ hrank₂)

/-- Between two calls of one reader tokens have been taken. -/
theorem Below.length_lt {c' c : AnyCall} (h : c'.Below c) (hreader : c'.reader = c.reader) :
    c'.tokens.length < c.tokens.length := by
  rcases h.less with hlen | hrank
  · exact hlen
  · exact absurd hrank (hreader ▸ Nat.lt_irrefl _)

/-- A size that calls make smaller. -/
def size (c : AnyCall) : Nat := 13 * c.tokens.length + c.reader.rank

theorem Below.size_lt {c' c : AnyCall} (h : c'.Below c) : c'.size < c.size := by
  have hrank : c'.reader.rank < 13 := by
    cases c'.reader <;> decide
  have hpart := h.part.length_le
  unfold size
  rcases h.less with hlen | hless <;> omega

/-- A call of a reader before `r`, with a part of `ts`. -/
structure Within (r : Reader) (ts : List Token) (c : AnyCall) : Prop where
  part : c.tokens <:+ ts
  earlier : c.reader.rank < r.rank
  inside : c.Inside

theorem Within.of_reader {r : Reader} {c : AnyCall} (r' : Reader) (hreader : c.reader = r')
    (hrank : r'.rank < r.rank) (hpart : c.tokens <:+ ts) (hinside : c.Inside) : c.Within r ts :=
  ⟨hpart, hreader ▸ hrank, hinside⟩

theorem Within.below {r : Reader} {c' c : AnyCall} (h : c'.Within r ts) (hreader : c.reader = r)
    (htokens : c.tokens = ts) : c'.Below c :=
  ⟨htokens ▸ h.part, .inr (hreader ▸ h.earlier), fun _ => h.inside⟩

/-- A call of an earlier reader. -/
theorem Below.of_reader {c' c : AnyCall} (r' r : Reader) (hreader' : c'.reader = r')
    (hreader : c.reader = r) (hrank : r'.rank < r.rank) (hpart : c'.tokens <:+ c.tokens)
    (hinside : c.Inside → c'.Inside) : c'.Below c :=
  ⟨hpart, .inr (hreader' ▸ hreader ▸ hrank), hinside⟩

/-- A call with a part of what follows the next token. -/
theorem Below.of_tail {c' c : AnyCall} {t : Token} {rest : List Token} (hc : c.tokens = t :: rest)
    (hpart : c'.tokens <:+ rest) (hinside : c.Inside → c'.Inside) : c'.Below c := by
  refine ⟨hc ▸ hpart.trans (List.suffix_cons t rest), .inl ?_, hinside⟩
  rw [hc, List.length_cons]
  exact Nat.lt_succ_of_le hpart.length_le

theorem Below.of_rest {c' c : AnyCall} {t : Token} {k : Nat}
    (hrest : c.tokens.drop k = t :: c'.tokens) (hinside : c.Inside → c'.Inside) : c'.Below c := by
  have hpart : t :: c'.tokens <:+ c.tokens := hrest ▸ List.drop_suffix k c.tokens
  exact ⟨(List.suffix_cons t _).trans hpart, .inl hpart.length_le, hinside⟩

theorem Within.mono {r : Reader} {c : AnyCall} (h : c.Within r ts) (r' : Reader)
    (hr : r.rank ≤ r'.rank) : c.Within r' ts :=
  ⟨h.part, Nat.lt_of_lt_of_le h.earlier hr, h.inside⟩

end AnyCall

open AnyCall (Below Within)

/-! ### The calls of a script -/

section Parts

variable (eof)

theorem only_dropped (fs : List Fault) (k : Nat) :
    (Script.dropped ts fs k : Script (Parsed α)).Only eof (Within .statement ts) :=
  ⟨.of_reader .resync rfl (by decide) (List.drop_suffix k ts) trivial, trivial⟩

theorem only_finish (node : Stmt) (fs : List Fault) (k : Nat) :
    (Script.finish eof ts node fs k).Only eof (Within .statement ts) := by
  unfold Script.finish
  split
  · exact trivial
  · exact only_dropped eof _ k

/-- An expression in what is left of a statement. -/
theorem within_expr {us : List Token} (h : us <:+ ts) :
    Within .statement ts ⟨_, .expr Level.lowest us⟩ :=
  .of_reader .expr rfl (by decide) h trivial

theorem only_optionalValue {us : List Token} (h : us <:+ ts) :
    (Script.optionalValue us).Only eof (Within .statement ts) := by
  unfold Script.optionalValue
  split
  · exact (Script.only_map eof _ _).mpr
      ((Script.only_ask eof _).mpr (within_expr ((List.drop_suffix 1 us).trans h)))
  · exact trivial

theorem only_letStmt (t : Token) (rest : List Token) :
    (Script.letStmt eof t rest).Only eof (Within .statement (t :: rest)) := by
  refine (Script.only_bind eof _ _).mpr ⟨?_, ?_⟩
  · refine Script.only_andThen eof trivial fun name k _ => ?_
    refine Script.only_andThen eof trivial fun type n _ => ?_
    refine (Script.only_map eof _ _).mpr (only_optionalValue eof ?_)
    exact (List.drop_suffix n _).trans (List.drop_suffix k _)
  · split
    · exact only_dropped eof _ _
    · exact only_finish eof _ _ _

theorem only_assignStmt (name sign : Token) (rest : List Token) :
    (Script.assignStmt eof name sign rest).Only eof (Within .statement (name :: sign :: rest)) := by
  refine (Script.only_bind eof _ _).mpr ⟨?_, ?_⟩
  · exact (Script.only_map eof _ _).mpr
      ((Script.only_ask eof _).mpr (within_expr (List.drop_suffix 2 (name :: sign :: rest))))
  · split
    · exact only_dropped eof _ _
    · exact only_finish eof _ _ _

theorem only_returnStmt (depth : Nat) (t : Token) (rest : List Token) :
    (Script.returnStmt eof depth t rest).Only eof (Within .statement (t :: rest)) := by
  unfold Script.returnStmt
  dsimp only
  split
  · exact only_finish eof _ _ _
  · refine (Script.only_bind eof _ _).mpr ⟨?_, ?_⟩
    · exact (Script.only_map eof _ _).mpr
        ((Script.only_ask eof _).mpr (within_expr (List.suffix_cons t rest)))
    · split
      · exact only_dropped eof _ _
      · exact only_finish eof _ _ _

theorem only_exprStmt (t : Token) (rest : List Token) :
    (Script.exprStmt eof t rest).Only eof (Within .statement (t :: rest)) := by
  refine (Script.only_bind eof _ _).mpr ⟨?_, ?_⟩
  · exact (Script.only_ask eof _).mpr (within_expr (List.suffix_refl _))
  · split
    · exact only_dropped eof _ _
    · exact only_finish eof _ _ _

/-- The head of a function only asks for its parameters. -/
theorem only_fnHead (t : Token) (rest : List Token) :
    (Script.fnHead eof t rest).Only eof (Within .statement (t :: rest)) := by
  unfold Script.fnHead
  split
  · exact trivial
  · refine (Script.only_map eof _ _).mpr ?_
    refine Script.only_andThen eof trivial fun _ k _ => ?_
    refine Script.only_andThen eof ?_ fun params n _ => ?_
    · unfold Script.parameters
      split
      · exact trivial
      · -- they begin behind the name and the bracket
        have hpart : rest.drop k <:+ t :: rest :=
          (List.drop_suffix k rest).trans (List.suffix_cons t rest)
        exact (Script.only_ask eof _).mpr
          (.of_reader .moreParameters rfl (by decide) hpart trivial)
    · exact Script.only_andThen eof trivial fun _ _ _ => trivial

theorem only_function (depth : Nat) (t : Token) (rest : List Token) :
    (Script.function eof depth t rest).Only eof (Within .topLevel (t :: rest)) := by
  refine (Script.only_bind eof _ _).mpr ⟨?_, ?_⟩
  · exact (only_fnHead eof t rest).mono eof fun c hc => hc.mono .topLevel (by decide)
  · split
    · exact ⟨.of_reader .skipFunction rfl (by decide) (List.drop_suffix _ _) trivial, trivial⟩
    · exact ⟨.of_reader .body rfl (by decide) (List.drop_suffix _ _) (Nat.succ_pos depth), trivial⟩

/-- An element of a list is followed by elements in what is left. -/
theorem only_listTail {P : AnyCall → Prop} {early : Text → SyntaxProblem}
    {late : Token.Kind → Text → SyntaxProblem} {more : List Token → Call (Reply (List α))} {a : α}
    {us : List Token} (heof : eof.kind = .eof)
    (h : ∀ t rest, us = t :: rest → P ⟨_, more rest⟩) :
    (Script.listTail eof early late more a us).Only eof P := by
  unfold Script.listTail
  dsimp only
  split
  · next hcomma =>
    split
    · exact trivial
    · refine (Script.only_map eof _ _).mpr ((Script.only_ask eof _).mpr ?_)
      cases us with
      | nil => exact absurd (heof.symm.trans hcomma) (by decide)
      | cons t rest => exact h t rest rfl
  · split <;> exact trivial

/-! ### What readers call -/

/-- A reader that only calls another one, and maps its answer. -/
theorem only_map_ask {P : AnyCall → Prop} {f : α → β} {c : Call α} (h : P ⟨α, c⟩) :
    ((Script.ask c).map f).Only eof P :=
  (Script.only_map eof f _).mpr ((Script.only_ask eof c).mpr h)

theorem only_resync (ts : List Token) :
    (Script.resync ts).Only eof fun c => c.Below ⟨_, .resync ts⟩ := by
  cases ts with
  | nil => exact trivial
  | cons t rest =>
    unfold Script.resync
    dsimp only
    split
    · exact trivial
    · split
      · exact trivial
      · split
        · exact trivial
        · exact only_map_ask eof (.of_tail rfl (List.suffix_refl rest) id)

theorem only_skipBraces (depth : Nat) (ts : List Token) :
    (Script.skipBraces depth ts).Only eof fun c => c.Below ⟨_, .skipBraces depth ts⟩ := by
  cases ts with
  | nil => exact trivial
  | cons t rest =>
    unfold Script.skipBraces
    dsimp only
    generalize (if t.kind = .lbrace then depth + 1
      else if t.kind = .rbrace then depth - 1 else depth) = depth'
    split
    · exact trivial
    · exact only_map_ask eof (.of_tail rfl (List.suffix_refl rest) id)

theorem only_skipFunction (ts : List Token) :
    (Script.skipFunction ts).Only eof fun c => c.Below ⟨_, .skipFunction ts⟩ := by
  cases ts with
  | nil => exact trivial
  | cons t rest =>
    unfold Script.skipFunction
    dsimp only
    split
    · exact (Script.only_ask eof _).mpr
        (.of_reader .skipBraces .skipFunction rfl rfl (by decide) (List.suffix_refl _) id)
    · split
      · exact trivial
      · exact only_map_ask eof (.of_tail rfl (List.suffix_refl rest) id)

theorem only_moreParameters (heof : eof.kind = .eof) (ts : List Token) :
    (Script.moreParameters eof ts).Only eof fun c => c.Below ⟨_, .moreParameters ts⟩ := by
  refine Script.only_andThen eof trivial fun p k _ => only_listTail eof heof fun t rest hrest => ?_
  exact .of_rest hrest id

/-- An operand asks for an expression on fewer tokens. -/
theorem only_operand (ts : List Token) :
    (Script.operand eof ts).Only eof fun c => c.Below ⟨_, .operand ts⟩ := by
  cases ts with
  | nil => exact trivial
  | cons t rest =>
    have hexpr : ∀ level, Below ⟨_, .expr level rest⟩ ⟨_, .operand (t :: rest)⟩ := fun level =>
      .of_tail rfl (List.suffix_refl rest) id
    obtain ⟨kind, literal, pos⟩ := t
    unfold Script.operand
    -- only a bracket and the two prefixes ask for anything
    cases kind
    case int =>
      dsimp only
      cases int64? literal <;> exact trivial
    case lparen =>
      refine (Script.only_map eof _ _).mpr (Script.only_andThen eof ?_ fun e k _ => trivial)
      exact (Script.only_ask eof _).mpr (hexpr Level.lowest)
    case minus => exact only_map_ask eof (hexpr Level.unary)
    case bang => exact only_map_ask eof (hexpr Level.unary)
    all_goals exact trivial

theorem only_expr (level : Level) (ts : List Token) :
    (Script.expr level ts).Only eof fun c => c.Below ⟨_, .expr level ts⟩ := by
  refine Script.only_andThen eof ((Script.only_ask eof _).mpr ?_) fun e k _ =>
    (Script.only_ask eof _).mpr ?_
  · exact .of_reader .operand .expr rfl rfl (by decide) (List.suffix_refl ts) id
  · exact .of_reader .extend .expr rfl rfl (by decide) (List.drop_suffix k ts) id

theorem only_extend (level : Level) (left : Expr) (ts : List Token) :
    (Script.extend level left ts).Only eof fun c => c.Below ⟨_, .extend level left ts⟩ := by
  cases ts with
  | nil => exact trivial
  | cons t rest =>
    -- an operator or a parenthesis has been taken
    have hmore : ∀ left' k, Below ⟨_, .extend level left' (rest.drop k)⟩
        ⟨_, .extend level left (t :: rest)⟩ := fun left' k =>
      .of_tail rfl (List.drop_suffix k rest) id
    unfold Script.extend
    dsimp only
    split
    · split
      · refine (Script.only_map eof _ _).mpr (Script.only_andThen eof ?_ fun right k _ => ?_)
        · exact (Script.only_ask eof _).mpr (.of_tail rfl (List.suffix_refl rest) id)
        · exact (Script.only_ask eof _).mpr (hmore _ k)
      · exact trivial
    · split
      · split
        · refine (Script.only_map eof _ _).mpr (Script.only_andThen eof ?_ fun args k _ => ?_)
          · exact (Script.only_ask eof _).mpr (.of_tail rfl (List.suffix_refl rest) id)
          · exact (Script.only_ask eof _).mpr (hmore _ k)
        · exact trivial
      · exact trivial

theorem only_arguments (ts : List Token) :
    (Script.arguments ts).Only eof fun c => c.Below ⟨_, .arguments ts⟩ := by
  unfold Script.arguments
  split
  · exact trivial
  · exact (Script.only_ask eof _).mpr
      (.of_reader .moreArguments .arguments rfl rfl (by decide) (List.suffix_refl ts) id)

theorem only_moreArguments (heof : eof.kind = .eof) (ts : List Token) :
    (Script.moreArguments eof ts).Only eof fun c => c.Below ⟨_, .moreArguments ts⟩ := by
  refine Script.only_andThen eof ?_ fun e k _ => only_listTail eof heof fun t rest hrest => ?_
  · exact (Script.only_ask eof _).mpr
      (.of_reader .expr .moreArguments rfl rfl (by decide) (List.suffix_refl ts) id)
  · exact .of_rest hrest id

theorem only_statement (depth : Nat) (t : Token) (rest : List Token) :
    (Script.statement eof depth t rest).Only eof
      fun c => c.Below ⟨_, .statement depth t rest⟩ := by
  have hpart : ∀ {s : Script (Parsed Stmt)}, s.Only eof (Within .statement (t :: rest)) →
      s.Only eof fun c => c.Below ⟨_, .statement depth t rest⟩ := fun hs =>
    hs.mono eof fun _ hc => hc.below rfl rfl
  unfold Script.statement
  split
  · exact hpart (only_letStmt eof t rest)
  · exact hpart (only_returnStmt eof depth t rest)
  -- a block is as deep inside functions as the statement that it is
  · exact only_map_ask eof (.of_tail rfl (List.suffix_refl rest) id)
  · exact only_map_ask eof (.of_tail rfl (List.suffix_refl rest) fun _ => trivial)
  · split
    · split
      · exact hpart (only_assignStmt eof t _ _)
      · exact hpart (only_exprStmt eof t _)
    · exact hpart (only_exprStmt eof t _)
  · exact hpart (only_exprStmt eof t rest)

/-- A statement of the top level asks within its own tokens. -/
theorem only_topLevel (t : Token) (rest : List Token) :
    (Script.topLevel eof t rest).Only eof fun c => c.Below ⟨_, .topLevel t rest⟩ := by
  -- the readers it calls rank lower, also on the same tokens
  have hpart : ∀ {s : Script (Parsed Stmt)}, s.Only eof (Within .statement (t :: rest)) →
      s.Only eof fun c => c.Below ⟨_, .topLevel t rest⟩ := fun hs =>
    hs.mono eof fun _ hc =>
      (hc.mono .topLevel (by decide)).below rfl rfl
  unfold Script.topLevel
  dsimp only
  split
  · exact hpart (only_letStmt eof t rest)
  · exact (only_function eof 0 t rest).mono eof fun _ hc => hc.below rfl rfl
  · split
    · split
      · exact hpart (only_assignStmt eof t _ _)
      · exact hpart (only_dropped eof _ 0)
    · exact hpart (only_dropped eof _ 0)
  · exact hpart (only_dropped eof _ 0)
  · exact hpart (only_dropped eof _ 0)

theorem only_body (depth : Nat) (ts : List Token) (h : Distinct eof ts) :
    (Script.body eof depth ts).Only eof fun c => c.Below ⟨_, .body depth ts⟩ := by
  cases ts with
  | nil => exact trivial
  | cons t rest =>
    have hmoves := moves_of_advances h (advances_statement eof depth t rest)
    unfold Script.body
    dsimp only
    split
    · exact trivial
    · refine (Script.only_bind eof _ _).mpr ⟨(Script.only_ask eof _).mpr ?_, only_map_ask eof ?_⟩
      · exact .of_reader .statement .body rfl rfl (by decide) (List.suffix_refl _) id
      · exact ⟨List.drop_suffix _ _, .inl hmoves.length_lt, id⟩

theorem only_program (ts : List Token) (h : Distinct eof ts) :
    (Script.program eof ts).Only eof fun c => c.Below ⟨_, .program ts⟩ := by
  cases ts with
  | nil => exact trivial
  | cons t rest =>
    have hmoves := moves_of_advances h (advances_topLevel eof t rest)
    refine (Script.only_bind eof _ _).mpr ⟨(Script.only_ask eof _).mpr ?_, only_map_ask eof ?_⟩
    · exact .of_reader .topLevel .program rfl rfl (by decide) (List.suffix_refl _) id
    · exact ⟨List.drop_suffix _ _, .inl hmoves.length_lt, id⟩

end Parts

/-- **What readers call.** -/
theorem only_script (heof : eof.kind = .eof) (c : Call α) (h : Distinct eof c.tokens) :
    (c.script eof).Only eof fun c' => c'.Below ⟨α, c⟩ := by
  -- one case for each function of the reader
  cases c with
  | resync ts => exact only_resync eof ts
  | skipBraces depth ts => exact only_skipBraces eof depth ts
  | skipFunction ts => exact only_skipFunction eof ts
  | moreParameters ts => exact only_moreParameters eof heof ts
  | operand ts => exact only_operand eof ts
  | extend level left ts => exact only_extend eof level left ts
  | expr level ts => exact only_expr eof level ts
  | moreArguments ts => exact only_moreArguments eof heof ts
  | arguments ts => exact only_arguments eof ts
  | statement depth t rest => exact only_statement eof depth t rest
  | body depth ts => exact only_body eof depth ts h
  | topLevel t rest => exact only_topLevel eof t rest
  | program ts => exact only_program eof ts h

/-! ### Calls return -/

theorem Script.Ends.unique {s : Script α} {a b : α} (ha : s.Ends eof a) (hb : s.Ends eof b) :
    a = b := by
  induction ha with
  | done a =>
    cases hb
    rfl
  | call hc h ihc ih =>
    cases hb with
    | call hc' h' =>
      obtain rfl := ihc hc'
      exact ih h'

/-- A script ends if the readers answer its calls. -/
theorem ends_of_only {s : Script α} (h : s.Only eof fun c => c.2.Returns eof (c.2.answer eof)) :
    s.Ends eof (s.eval eof) := by
  induction s with
  | done a => exact .done a
  | call c next ih => exact .call h.1 (ih _ h.2)

/-- **All calls return**, by induction on their order. -/
theorem returns_answer (heof : eof.kind = .eof) (c : AnyCall) (h : Distinct eof c.tokens) :
    c.2.Returns eof (c.2.answer eof) := by
  have hcalls := only_script heof c.2 h
  have hends := ends_of_only (hcalls.mono eof fun c' hc' =>
    returns_answer heof c' (h.of_suffix hc'.part))
  rwa [eval_script heof c.2 h] at hends
termination_by c.size
decreasing_by exact hc'.size_lt

theorem returns_iff (heof : eof.kind = .eof) (c : AnyCall) (h : Distinct eof c.tokens)
    (a : c.1) : c.2.Returns eof a ↔ a = c.2.answer eof := by
  have hreturns := returns_answer heof c h
  constructor
  · exact fun ha => ha.unique hreturns
  · rintro rfl
    exact hreturns

/-! ### Calls that calls make -/

/-- What a script calls is what it calls if the readers answer its calls. -/
theorem of_makes (heof : eof.kind = .eof) {P : AnyCall → Prop} {c : Call β} {s : Script α}
    (hP : ∀ c, P c → Distinct eof c.tokens) (h : s.Only eof P) (hc : s.Makes eof c) :
    P ⟨β, c⟩ := by
  induction hc with
  | here => exact h.1
  | later hb _ ih =>
    obtain rfl := (returns_iff heof ⟨_, _⟩ (hP _ h.1) _).mp hb
    exact ih h.2

theorem below_of_makes (heof : eof.kind = .eof) {c c' : AnyCall} (h : Distinct eof c.tokens)
    (hc : c.Makes eof c') : c'.Below c :=
  of_makes heof (P := fun c' => c'.Below c) (fun _ hc' => h.of_suffix hc'.part)
    (only_script heof c.2 h) hc

/-- What holds between a call and one that it makes holds all along a chain of calls. -/
theorem below_of_transGen (heof : eof.kind = .eof) {c c' : AnyCall} (h : Distinct eof c.tokens)
    (hc : Relation.TransGen (AnyCall.Makes eof) c c') : c'.Below c := by
  induction hc with
  | single hc => exact below_of_makes heof h hc
  | tail _ hc ih => exact (below_of_makes heof (h.of_suffix ih.part) hc).trans ih

/-! ### Sources -/

/-- The tokens of a source are pairwise different, and none of them is the end. -/
theorem distinct_tokens (src : Text) : Distinct (Lexer.eof src) (Lexer.tokens src) := by
  refine List.nodup_append.mpr ⟨?_, List.pairwise_singleton _ _, ?_⟩
  · refine (Lexer.pairwise_tokens src).imp fun hbefore heq => ?_
    rw [heq, Position.Before, Position.le_refl] at hbefore
    cases hbefore
  · intro t ht s hs heq
    obtain rfl := List.mem_singleton.mp hs
    exact Lexer.kind_ne_eof src t ht (heq ▸ rfl)

/-- **Reading a source comes to an end**, without a counter anywhere. Every call that can be made on
the tokens of a source returns, and the loop over the program returns the program and its errors
with no token left. Each turn of that loop, and of the loop over a block, goes on further ahead,
whether its statement was built, or dropped with tokens taken, or dropped where it began. And between
two calls of the same reader, of which the second is made on the way of the first, at least one token
has been taken. -/
theorem parsing_ends (src : Text) :
    (∀ c : AnyCall, c.tokens <:+ Lexer.tokens src → ∃! a, c.2.Returns (Lexer.eof src) a) ∧
    (∀ r, (Call.program (Lexer.tokens src)).Returns (Lexer.eof src) r ↔ r = (parse src, [])) ∧
    (∀ t rest, t :: rest <:+ Lexer.tokens src → ∀ p,
      ((Call.topLevel t rest).Returns (Lexer.eof src) p ∨
        ∃ depth, (Call.statement depth t rest).Returns (Lexer.eof src) p) →
      Moves (Lexer.eof src) (t :: rest) p ∧
        ((t :: rest).drop (turn (Lexer.eof src) (t :: rest) p)).length < (t :: rest).length) ∧
    ∀ c c' : AnyCall, c.tokens <:+ Lexer.tokens src →
      Relation.TransGen (AnyCall.Makes (Lexer.eof src)) c c' → c'.reader = c.reader →
      c'.tokens <:+ c.tokens ∧ c'.tokens.length < c.tokens.length := by
  have heof : (Lexer.eof src).kind = .eof := rfl
  have hdistinct {ts : List Token} (hts : ts <:+ Lexer.tokens src) : Distinct (Lexer.eof src) ts :=
    (distinct_tokens src).of_suffix hts
  refine ⟨fun c hc => ?_, fun r => ?_, fun t rest hts p hp => ?_, fun c c' hc hmakes hreader => ?_⟩
  · -- every call returns, and no two of its runs differ
    refine ⟨_, returns_answer heof c (hdistinct hc), fun a ha => ?_⟩
    exact (returns_iff heof c (hdistinct hc) a).mp ha
  · exact returns_iff heof ⟨_, .program (Lexer.tokens src)⟩ (distinct_tokens src) r
  · -- a loop goes on behind a statement, or behind one token more where nothing was taken
    have hmoves : Moves (Lexer.eof src) (t :: rest) p := by
      refine moves_of_advances (hdistinct hts) ?_
      rcases hp with hp | ⟨depth, hp⟩
      · obtain rfl := (returns_iff heof ⟨_, .topLevel t rest⟩ (hdistinct hts) p).mp hp
        exact advances_topLevel _ t rest
      · obtain rfl := (returns_iff heof ⟨_, .statement depth t rest⟩ (hdistinct hts) p).mp hp
        exact advances_statement _ depth t rest
    exact ⟨hmoves, hmoves.length_lt⟩
  · -- each step goes down in tokens or in rank, so that coming back to a reader costs a token
    have hbelow := below_of_transGen heof (hdistinct hc) hmakes
    exact ⟨hbelow.part, hbelow.length_lt hreader⟩

end Slang.Parser
