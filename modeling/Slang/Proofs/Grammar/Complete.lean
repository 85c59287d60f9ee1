import Slang.Proofs.Grammar.Sound

/-!
# Every phrase is read

A phrase of the grammar is read without an error, and what comes of it is the tree of its
derivation. The statement has to speak about the tokens that follow the phrase, since a reader looks
at one of them before it stops: nothing that follows may extend the phrase (`Follows`).

For expressions the induction is on the derivation, and the conclusion is an equation between two
readers: reading the phrase and what follows it is the same as extending the tree of the phrase by
what follows it. With `Sound` this gives that the grammar is exact and unambiguous
(`parse_exact`).
-/

namespace Slang.Grammar

/-! ### No expression holds a sign of assignment

An expression statement that starts with a name is told from an assignment by its second token. -/

/-- What stands in a list with commas is a comma or belongs to a member. -/
theorem mem_of_separated {tss : List (List Token)} {mid : List Token} (h : Separated tss mid) :
    ∀ t ∈ mid, t.kind = .comma ∨ ∃ ts ∈ tss, t ∈ ts := by
  induction h with
  | nil => exact fun t ht => absurd ht List.not_mem_nil
  | single ts => exact fun t ht => .inr ⟨ts, List.mem_singleton_self ts, ht⟩
  | @cons ts us rest tss comma hcomma _ ih =>
    intro t ht
    rcases List.mem_append.mp ht with ht | ht
    · exact .inr ⟨ts, List.mem_cons_self, ht⟩
    · rcases List.mem_cons.mp ht with rfl | ht
      · exact .inl hcomma
      · exact (ih t ht).imp id fun ⟨vs, hvs, ht⟩ => ⟨vs, List.mem_cons_of_mem ts hvs, ht⟩

/-- The name of a function holds no assignment sign. -/
theorem Callee.not_assign {ts : List Token} {id : Ident} (h : Callee ts id) :
    ∀ t ∈ ts, t.kind ≠ .assign := by
  induction h with
  | name ht => simp [ht]
  | group ht _ hclose ih =>
    intro t h
    simp only [List.mem_cons, List.mem_append, List.not_mem_nil, or_false] at h
    rcases h with rfl | h | rfl
    · simp [ht]
    · exact ih t h
    · simp [hclose]

/-- **An expression holds no assignment sign**, so that a statement with one is not taken for an
expression. -/
theorem Stratum.not_assign {n : Level} {ts : List Token} {e : Expr} (h : Stratum n ts e) :
    ∀ t ∈ ts, t.kind ≠ .assign := by
  -- on the derivation: operators are no assignment signs, and the marks of groups and calls are not
  -- either
  induction h with
  | binary hop _ _ ihl ihr =>
    intro t h
    simp only [List.mem_cons, List.mem_append] at h
    rcases h with h | rfl | h
    · exact ihl t h
    · intro hk
      rw [hk] at hop
      cases hop
    · exact ihr t h
  | tighter _ _ ih => exact ih
  | unary hop _ ih =>
    intro t h
    rcases List.mem_cons.mp h with rfl | h
    · intro hk
      rw [hk] at hop
      cases hop
    · exact ih t h
  | call hcallee ht _ hmid hclose ih =>
    intro t h
    simp only [List.mem_cons, List.mem_append, List.not_mem_nil, or_false] at h
    rcases h with h | rfl | h | rfl
    · exact hcallee.not_assign t h
    · simp [ht]
    · rcases mem_of_separated hmid t h with hk | ⟨ts, hts, h⟩
      · simp [hk]
      · obtain ⟨a, ha, rfl⟩ := List.mem_map.mp hts
        exact ih a ha t h
    · simp [hclose]
  | name ht | int ht | str ht | kwTrue ht | kwFalse ht => simp [ht]
  | group ht _ hclose ih =>
    intro t h
    simp only [List.mem_cons, List.mem_append, List.not_mem_nil, or_false] at h
    rcases h with rfl | h | rfl
    · simp [ht]
    · exact ih t h
    · simp [hclose]

end Slang.Grammar

namespace Slang.Parser

open Grammar

/-! ### What follows a phrase -/

/-- **Nothing that follows extends an expression** of stratum `n`: the next token is neither an
operator that binds more tightly nor the start of an argument list. -/
def Follows (n : Level) (ts : List Token) : Prop := Ends n ts ∧ nextIs .lparen ts = false

/-- What ends an expression ends a tighter one. -/
theorem Follows.mono {m n : Level} {ts : List Token} (h : Follows m ts) (hmn : m ≤ n) :
    Follows n ts :=
  ⟨fun t ht op hop => Nat.le_trans (h.1 t ht op hop) hmn, h.2⟩

/-- A token that is neither an operator nor an opening parenthesis extends nothing. -/
theorem follows_cons {n : Level} {t : Token} {rest : List Token} (hop : t.kind.binaryOp? = none)
    (ht : t.kind ≠ .lparen) : Follows n (t :: rest) := by
  refine ⟨fun t' ht' op hop' => ?_, beq_eq_false_iff_ne.mpr ht⟩
  obtain rfl := Option.some.inj ht'
  exact absurd (hop.symm.trans hop') (by simp)

/-- An operator extends no expression of a tighter stratum than its own. -/
theorem follows_op {t : Token} {op : BinaryOp} {rest : List Token}
    (hop : t.kind.binaryOp? = some op) : Follows op.level (t :: rest) := by
  refine ⟨fun t' ht' op' hop' => ?_, beq_eq_false_iff_ne.mpr fun ht => ?_⟩
  · obtain rfl := Option.some.inj ht'
    obtain rfl := Option.some.inj (hop.symm.trans hop')
    exact Nat.le_refl _
  · rw [ht] at hop
    cases hop

/-- An expression is not extended by what ends it. -/
theorem extend_of_follows (eof : Token) {level : Level} {e : Expr} {ts : List Token}
    (h : Follows level ts) : extend eof level e ts = .ok e 0 := by
  rw [extend.eq_def]
  cases ts with
  | nil => rfl
  | cons t rest =>
    dsimp only
    split
    · next op hop => rw [if_neg (Nat.not_lt.mpr (h.1 t rfl op hop))]
    · rw [if_neg fun hcall => beq_eq_false_iff_ne.mp h.2 hcall.1]

/-! ### How a phrase starts -/

/-- The kinds of tokens with which an expression starts. -/
def startsExpr : Token.Kind → Bool
  | .ident | .int | .string | .kwTrue | .kwFalse | .lparen | .minus | .bang => true
  | _ => false

/-- What begins an expression begins any longer list of tokens. -/
theorem starts_append {ls rs : List Token}
    (h : ∃ t rest, ls = t :: rest ∧ startsExpr t.kind = true) :
    ∃ t rest, ls ++ rs = t :: rest ∧ startsExpr t.kind = true := by
  obtain ⟨t, rest, rfl, ht⟩ := h
  exact ⟨t, rest ++ rs, rfl, ht⟩

/-- The name of a function begins like an expression. -/
theorem starts_of_callee {ts : List Token} {id : Ident} (h : Callee ts id) :
    ∃ t rest, ts = t :: rest ∧ startsExpr t.kind = true := by
  cases h with
  | name ht => exact ⟨_, _, rfl, by rw [ht]; rfl⟩
  | group ht => exact ⟨_, _, rfl, by rw [ht]; rfl⟩

/-- Expressions begin with one of a few kinds of tokens. -/
theorem starts_of_stratum {n : Level} {ts : List Token} {e : Expr} (h : Stratum n ts e) :
    ∃ t rest, ts = t :: rest ∧ startsExpr t.kind = true := by
  induction h with
  | binary _ _ _ ihl => exact starts_append ihl
  | tighter _ _ ih => exact ih
  | @unary t op ts e ht =>
    refine ⟨t, ts, rfl, ?_⟩
    cases hk : t.kind <;> rw [hk] at ht <;> first | rfl | cases ht
  | call hcallee => exact starts_append (starts_of_callee hcallee)
  | name ht | int ht | str ht | kwTrue ht | kwFalse ht | group ht =>
    exact ⟨_, _, rfl, by rw [ht]; rfl⟩

/-- The next token is another one. -/
theorem nextIs_cons_of_ne {kind : Token.Kind} {t : Token} (h : t.kind ≠ kind) (rest : List Token) :
    nextIs kind (t :: rest) = false :=
  beq_eq_false_iff_ne.mpr h

/-- A phrase that starts with a token of another kind. -/
theorem nextIs_eq_false {kind : Token.Kind} {ts : List Token}
    (h : ∃ t rest, ts = t :: rest ∧ startsExpr t.kind = true) (hkind : startsExpr kind = false) :
    nextIs kind ts = false := by
  obtain ⟨t, rest, rfl, ht⟩ := h
  refine beq_eq_false_iff_ne.mpr fun hk => ?_
  rw [hk, hkind] at ht
  cases ht

/-! ### Expressions -/

section Expressions

variable {eof : Token}

/-- An expression is its operand, extended. -/
theorem expr_of_operand {ts rest : List Token} {e : Expr}
    (h : operand eof (ts ++ rest) = .ok e ts.length) (level : Level) :
    expr eof level (ts ++ rest) = (extend eof level e rest).shift ts.length := by
  rw [expr.eq_def, h]
  dsimp only
  rw [List.drop_left]

/-- What is expected is there. -/
theorem expect_of_kind {kind : Token.Kind} {t : Token} (ht : t.kind = kind) (rest : List Token) :
    expect eof kind (t :: rest) = .ok () 1 := by
  simp [expect, ht]

/-- A group is an operand. -/
theorem operand_group {t close : Token} {ts rest : List Token} {e : Expr} (ht : t.kind = .lparen)
    (hclose : close.kind = .rparen)
    (h : expr eof Level.lowest (ts ++ close :: rest) = .ok e ts.length) :
    operand eof (t :: (ts ++ [close]) ++ rest) =
      .ok (.group t e) (t :: (ts ++ [close])).length := by
  have happ : t :: (ts ++ [close]) ++ rest = t :: (ts ++ close :: rest) := by simp
  rw [happ, operand.eq_def]
  dsimp only
  rw [ht]
  dsimp only
  rw [h]
  simp [Reply.andThen, expect_of_kind hclose, Reply.map, Reply.shift]
  omega

/-- What can be called is read as a name in groups. -/
theorem operand_callee (eof : Token) {ts : List Token} {id : Ident} (h : Callee ts id) :
    ∀ rest, ∃ e, operand eof (ts ++ rest) = .ok e ts.length ∧ e.ungroup = .ident id := by
  -- on the groups around the name
  induction h with
  | name ht =>
    intro rest
    refine ⟨.ident _, ?_, rfl⟩
    rw [List.singleton_append, operand.eq_def]
    dsimp only
    rw [ht]
    rfl
  | @group t close ts id ht h hclose ih =>
    intro rest
    obtain ⟨e, he, hid⟩ := ih (close :: rest)
    -- the name stands alone in its group: what follows it is the bracket that closes
    refine ⟨.group t e, operand_group ht hclose ?_, hid⟩
    rw [expr_of_operand he, extend_of_follows eof (follows_cons (by rw [hclose]; rfl)
      (by rw [hclose]; decide))]
    rfl

/-- An expression that is read when nothing that follows extends it. -/
def ReadsBack (eof : Token) (ts : List Token) (e : Expr) : Prop :=
  ∀ rest, Follows Level.lowest rest → expr eof Level.lowest (ts ++ rest) = .ok e ts.length

/-- **Reading a list by its elements.** A reader that reads the last element with the closing
parenthesis, and any other element with its comma before the rest of the list, reads the list. -/
theorem listed_complete {α : Type} {R : List Token → α → Prop}
    (more : List Token → Reply (List α))
    (hstart : ∀ ts a, R ts a → ∃ t rest, ts = t :: rest ∧ t.kind ≠ .rparen)
    (hlast : ∀ ts a close rest, R ts a → close.kind = .rparen →
      more (ts ++ close :: rest) = .ok [a] (ts.length + 1))
    (hmore : ∀ ts a comma t rest, R ts a → comma.kind = .comma → t.kind ≠ .rparen →
      more (ts ++ comma :: t :: rest) = ((more (t :: rest)).map (a :: ·)).shift (ts.length + 1))
    {close : Token} (hclose : close.kind = .rparen) (rest : List Token)
    (parts : List (List Token × α)) :
    ∀ (a : List Token × α) (mid : List Token), Separated ((a :: parts).map Prod.fst) mid →
      (∀ b ∈ a :: parts, R b.1 b.2) →
      (∃ t rest, mid = t :: rest ∧ t.kind ≠ .rparen) ∧
        more (mid ++ close :: rest) = .ok ((a :: parts).map Prod.snd) (mid.length + 1) := by
  induction parts with
  | nil =>
    -- the list ends here, and nothing but the parenthesis is left of it
    intro a mid hmid hparts
    obtain rfl : mid = a.1 := by cases hmid; rfl
    have ha := hparts a List.mem_cons_self
    exact ⟨hstart _ _ ha, hlast _ _ close rest ha hclose⟩
  | cons b parts ih =>
    intro a mid hmid hparts
    cases hmid with
    | @cons _ _ mid' _ comma hcomma hmid' =>
      have ha := hparts a List.mem_cons_self
      -- a reader refuses a comma before the parenthesis, so the rest of the list has to start
      -- with another token: that is why the induction carries the first token along
      obtain ⟨⟨t, us, rfl, ht⟩, hrest⟩ :=
        ih b mid' hmid' fun c hc => hparts c (List.mem_cons_of_mem a hc)
      obtain ⟨u, vs, hu, hne⟩ := hstart _ _ ha
      refine ⟨⟨u, vs ++ comma :: t :: us, by rw [hu, List.cons_append], hne⟩, ?_⟩
      rw [List.append_assoc, List.cons_append, List.cons_append, hmore _ _ comma t _ ha hcomma ht,
        ← List.cons_append, hrest]
      simp only [Reply.map, Reply.shift, List.map_cons, List.length_append, List.length_cons]
      congr 1
      omega

/-- The last argument, with the bracket after it. -/
theorem moreArguments_last {ts : List Token} {e : Expr} {close : Token} (rest : List Token)
    (h : ReadsBack eof ts e) (hclose : close.kind = .rparen) :
    moreArguments eof (ts ++ close :: rest) = .ok [e] (ts.length + 1) := by
  have hfollows : Follows Level.lowest (close :: rest) :=
    follows_cons (by rw [hclose]; rfl) (by rw [hclose]; decide)
  rw [moreArguments.eq_def, h _ hfollows]
  dsimp only
  split
  · next h => simp at h
  · next t us h =>
    obtain ⟨rfl, rfl⟩ := List.cons.inj ((List.drop_left ..).symm.trans h)
    simp [hclose]

/-- An argument with a comma after it. -/
theorem moreArguments_comma {ts : List Token} {e : Expr} {comma t : Token} (rest : List Token)
    (h : ReadsBack eof ts e) (hcomma : comma.kind = .comma) (ht : t.kind ≠ .rparen) :
    moreArguments eof (ts ++ comma :: t :: rest) =
      ((moreArguments eof (t :: rest)).map (e :: ·)).shift (ts.length + 1) := by
  have hfollows : Follows Level.lowest (comma :: t :: rest) :=
    follows_cons (by rw [hcomma]; rfl) (by rw [hcomma]; decide)
  rw [moreArguments.eq_def, h _ hfollows]
  dsimp only
  split
  · next h => simp at h
  · next u us h =>
    obtain ⟨rfl, rfl⟩ := List.cons.inj ((List.drop_left ..).symm.trans h)
    rw [if_pos hcomma, List.headD_cons, if_neg ht]

/-- An expression does not begin with a token of a kind that begins none. -/
theorem exists_start_of_stratum {n : Level} {kind : Token.Kind} {ts : List Token} {e : Expr}
    (h : Stratum n ts e) (hkind : startsExpr kind = false) :
    ∃ t rest, ts = t :: rest ∧ t.kind ≠ kind := by
  obtain ⟨t, rest, rfl, ht⟩ := starts_of_stratum h
  refine ⟨t, rest, rfl, fun hk => ?_⟩
  rw [hk, hkind] at ht
  cases ht

/-- The arguments of a call are read. -/
theorem arguments_complete {args : List (List Token × Expr)} {mid : List Token} {close : Token}
    (hmid : Separated (args.map Prod.fst) mid)
    (hargs : ∀ a ∈ args, Expression a.1 a.2 ∧ ReadsBack eof a.1 a.2)
    (hclose : close.kind = .rparen) (rest : List Token) :
    arguments eof (mid ++ close :: rest) = .ok (args.map Prod.snd) (mid.length + 1) := by
  rw [arguments.eq_def]
  cases args with
  | nil =>
    cases hmid
    simp [nextIs, hclose]
  | cons a args =>
    -- the list does not begin with the bracket that closes it, so there is a first argument
    obtain ⟨⟨t, us, rfl, ht⟩, hmore⟩ :=
      listed_complete (R := fun ts e => Expression ts e ∧ ReadsBack eof ts e)
        (moreArguments eof) (fun ts e h => exists_start_of_stratum h.1 rfl)
        (fun ts e close rest h => moreArguments_last rest h.2)
        (fun ts e comma t rest h => moreArguments_comma rest h.2) hclose rest args a mid hmid hargs
    rw [List.cons_append] at hmore ⊢
    rw [if_neg (by rw [nextIs_cons_of_ne ht]; decide)]
    exact hmore

/-- Below the prefix operators, a stratum that is read is above the level asked for. -/
theorem lt_of_readStratum_le {level n : Nat} (h : readStratum level ≤ n) (hn : n < Level.unary) :
    level < n := by
  change min (level + 1) 7 ≤ n at h
  change n < 7 at hn
  omega

/-- **Reading a phrase and what follows it** is extending the tree of the phrase by what follows
it. -/
theorem expr_complete {n : Level} {ts : List Token} {e : Expr} (h : Stratum n ts e) :
    ∀ (level : Level) (rest : List Token), level < Level.call → readStratum level ≤ n →
      Follows n rest → expr eof level (ts ++ rest) = (extend eof level e rest).shift ts.length := by
  induction h with
  | @binary t op ls rs l r hop hl hr ihl ihr =>
    intro level rest hcall hn hrest
    have hlt := level_lt_unary hop
    have hlevel : level < op.level := lt_of_readStratum_le hn hlt
    -- the right operand ends where the whole expression does
    have hright : expr eof op.level (rs ++ rest) = .ok r rs.length := by
      rw [ihr op.level rest (Nat.lt_trans hlt (by decide)) (Nat.min_le_left _ _)
        (hrest.mono (Nat.le_succ _)), extend_of_follows eof hrest]
      rfl
    -- the left operand is extended by the operator, since the operator extends no tighter one
    rw [List.append_assoc, List.cons_append, ihl level _ hcall hn (follows_op hop), extend.eq_def]
    dsimp only
    rw [hop]
    dsimp only
    rw [if_pos hlevel, hright]
    dsimp only
    rw [List.drop_left, Reply.shift_shift, List.length_append, List.length_cons]
  | tighter hn _ ih =>
    intro level rest hcall hle hrest
    exact ih level rest hcall (Nat.le_succ_of_le hle) (hrest.mono (Nat.le_succ _))
  | @unary t op ts e hop he ih =>
    intro level rest hcall hn hrest
    -- no infix operator extends the operand, so it ends where the whole expression does
    have hright : expr eof Level.unary (ts ++ rest) = .ok e ts.length := by
      rw [ih Level.unary rest (by decide) (readStratum_le _) hrest, extend_of_follows eof hrest]
      rfl
    refine expr_of_operand ?_ level
    rw [List.cons_append, operand.eq_def]
    dsimp only
    rw [hright]
    cases hk : t.kind <;> rw [hk] at hop <;> cases hop <;>
      simp [Reply.map, Reply.shift, Nat.add_comm]
  | @call t close ts mid callee args hcallee ht hargs hmid hclose ih =>
    intro level rest hcall hn hrest
    have hread : ∀ a ∈ args, ReadsBack eof a.1 a.2 := by
      intro a ha rest hrest
      rw [ih a ha Level.lowest rest (by decide) (by decide) (hrest.mono (by decide)),
        extend_of_follows eof hrest]
      rfl
    have harguments := arguments_complete hmid (fun a ha => ⟨hargs a ha, hread a ha⟩) hclose rest
    -- the callee is read as an operand that the parentheses of the call then extend
    obtain ⟨e, he, hid⟩ := operand_callee eof hcallee (t :: (mid ++ close :: rest))
    have happ : ts ++ t :: (mid ++ [close]) ++ rest = ts ++ t :: (mid ++ close :: rest) := by simp
    rw [happ, expr_of_operand he, extend.eq_def]
    dsimp only
    rw [ht]
    dsimp only [Token.Kind.binaryOp?]
    rw [if_pos ⟨rfl, hcall⟩, hid]
    dsimp only
    rw [harguments]
    dsimp only
    have hdrop : (mid ++ close :: rest).drop (mid.length + 1) = rest := by simp
    rw [hdrop, Reply.shift_shift]
    simp
  | name ht | str ht | kwTrue ht | kwFalse ht =>
    intro level rest _ _ _
    refine expr_of_operand ?_ level
    rw [List.singleton_append, operand.eq_def]
    simp only [ht]
    rfl
  | @int t n ht hn hlt =>
    intro level rest _ _ _
    refine expr_of_operand ?_ level
    have hint : int64? t.literal = some (n : Int) := by
      unfold int64?
      rw [hn]
      exact if_pos hlt
    rw [List.singleton_append, operand.eq_def]
    simp only [ht, hint]
    rfl
  | @group t close ts e ht he hclose ih =>
    intro level rest hcall hn hrest
    refine expr_of_operand (operand_group ht hclose ?_) level
    have hfollows : ∀ n, Follows n (close :: rest) :=
      fun n => follows_cons (by rw [hclose]; rfl) (by rw [hclose]; decide)
    rw [ih Level.lowest _ (by decide) (by decide) (hfollows _), extend_of_follows eof (hfollows _)]
    rfl

/-- **An expression is read** if nothing that follows extends it. -/
theorem expr_readsBack {ts : List Token} {e : Expr} (h : Expression ts e) :
    ReadsBack eof ts e := by
  intro rest hrest
  rw [expr_complete h Level.lowest rest (by decide) (by decide) (hrest.mono (by decide)),
    extend_of_follows eof hrest]
  rfl

end Expressions

/-! ### Statements -/

section Statements

variable {eof : Token}

/-- A semicolon ends every expression. -/
theorem follows_semicolon {semi : Token} (h : semi.kind = .semicolon) (rest : List Token) :
    Follows Level.lowest (semi :: rest) :=
  follows_cons (by rw [h]; rfl) (by rw [h]; decide)

/-- A statement ends with its semicolon. -/
theorem finish_complete (pre : List Token) {rest : List Token} {semi : Token} {node : Stmt}
    (h : semi.kind = .semicolon) :
    finish eof (pre ++ semi :: rest) node [] pre.length = ⟨some node, [], pre.length + 1⟩ := by
  unfold finish
  rw [List.drop_left, expect_of_kind h]

/-- The name of a type is read. -/
theorem typeNode_complete {t : Token} {type : TypeNode} (h : TypeName t type) (rest : List Token) :
    typeNode eof (t :: rest) = .ok type 1 := by
  cases h with
  | mk ht hty => simp [typeNode, Token.isTypeKeyword, ht, hty]

/-- A type that may be left out is read. -/
theorem optionalType_complete (eof : Token) {ts rest : List Token} {type : Option TypeNode}
    (h : OptionalType ts type) (hrest : nextIs .colon rest = false) :
    optionalType eof (ts ++ rest) = .ok type ts.length := by
  cases h with
  | absent => simp [optionalType, hrest]
  | @written colon t type hcolon ht =>
    simp [optionalType, nextIs, hcolon, typeNode_complete ht, Reply.map, Reply.shift]

/-- A value that may be left out is read. -/
theorem optionalValue_complete (eof : Token) {ts rest : List Token} {value : Option Expr}
    (h : OptionalValue ts value) (hrest : nextIs .assign rest = false)
    (hfollows : Follows Level.lowest rest) :
    optionalValue eof (ts ++ rest) = .ok value ts.length := by
  cases h with
  | absent => simp [optionalValue, hrest]
  | @written sign ts e hsign he =>
    simp [optionalValue, nextIs, hsign, expr_readsBack he rest hfollows, Reply.map, Reply.shift,
      Nat.add_comm]

/-- The outcome of reading a statement without an error. -/
def Parsed.done (s : Stmt) (k : Nat) : Parsed Stmt := ⟨some s, [], k⟩

/-- **Every declaration is read**, whatever comes after it. -/
theorem declaration_complete (eof : Token) {ts : List Token} {s : Stmt} (h : Declaration ts s) :
    ∃ t us, ts = t :: us ∧ t.kind = .kwLet ∧
      ∀ rest, letStmt eof t (us ++ rest) = .done s ts.length := by
  cases h with
  | @mk t name semi ts us type value ht hname htype hvalue hone hsemi =>
    refine ⟨t, _, rfl, ht, fun rest => ?_⟩
    have happ : name :: (ts ++ (us ++ [semi])) ++ rest =
        name :: (ts ++ (us ++ semi :: rest)) := by simp
    -- after a missing type stands a sign of assignment or the semicolon
    have hcolon : nextIs .colon (us ++ semi :: rest) = false := by
      cases hvalue with
      | absent => exact nextIs_cons_of_ne (by rw [hsemi]; decide) rest
      | written hsign => exact nextIs_cons_of_ne (by rw [hsign]; decide) _
    have htype' := optionalType_complete eof htype hcolon
    have hvalue' := optionalValue_complete eof hvalue
      (nextIs_cons_of_ne (by rw [hsemi]; decide) rest) (follows_semicolon hsemi rest)
    have hhead : expectSecond eof .ident (t :: name :: (ts ++ (us ++ semi :: rest))) =
        .ok name 2 := by
      simp [expectSecond, hname]
    have hfaults : (type.isNone && value.isNone) = false := by
      cases type <;> cases value <;> simp_all
    have hpre : t :: name :: (ts ++ (us ++ semi :: rest)) =
        (t :: name :: (ts ++ us)) ++ semi :: rest := by simp
    have hlen : 2 + (ts.length + us.length) = (t :: name :: (ts ++ us)).length := by
      simp only [List.length_cons, List.length_append]
      omega
    rw [happ]
    unfold letStmt
    simp only [hhead, Reply.andThen, List.drop_succ_cons, List.drop_zero, htype', hvalue',
      List.drop_left, Reply.map, Reply.shift, hfaults]
    rw [hpre, hlen, if_neg (by simp), finish_complete _ hsemi]
    simp [Parsed.done, Nat.add_assoc]

/-- **Every assignment is read.** -/
theorem assignment_complete (eof : Token) {ts : List Token} {s : Stmt} (h : Assignment ts s) :
    ∃ name sign us, ts = name :: sign :: us ∧ name.kind = .ident ∧ sign.kind = .assign ∧
      ∀ rest, assignStmt eof name sign (us ++ rest) = .done s ts.length := by
  cases h with
  | @mk name sign semi ts e hname hsign he hsemi =>
    refine ⟨name, sign, _, rfl, hname, hsign, fun rest => ?_⟩
    have happ : ts ++ [semi] ++ rest = ts ++ semi :: rest := by simp
    have hpre : name :: sign :: (ts ++ semi :: rest) = (name :: sign :: ts) ++ semi :: rest := rfl
    have hlen : 2 + ts.length = (name :: sign :: ts).length := by
      simp only [List.length_cons]
      omega
    -- name and sign are taken, then the value, which ends before the semicolon
    rw [happ]
    unfold assignStmt
    rw [expr_readsBack he _ (follows_semicolon hsemi rest)]
    dsimp only [Reply.shift]
    rw [hpre, hlen, finish_complete _ hsemi]
    simp [Parsed.done]

/-- A return inside a function is read. -/
theorem return_complete {t semi : Token} {ts : List Token} {value : Option Expr} {depth : Nat}
    (hdepth : 0 < depth) (hvalue : OptionalResult ts value) (hsemi : semi.kind = .semicolon)
    (rest : List Token) :
    returnStmt eof depth t (ts ++ semi :: rest) = .done (.ret t value) (ts.length + 2) := by
  unfold returnStmt
  rw [if_neg (Nat.ne_of_gt hdepth)]
  -- the token after the word settles whether there is a value
  cases hvalue with
  | absent =>
    have hnext : nextIs .semicolon ([] ++ semi :: rest) = true := beq_iff_eq.mpr hsemi
    rw [if_pos hnext]
    exact finish_complete [t] hsemi
  | @written ts e he =>
    have hnext : nextIs .semicolon (ts ++ semi :: rest) = false :=
      nextIs_eq_false (starts_append (starts_of_stratum he)) rfl
    have hlen : 1 + ts.length = (t :: ts).length := Nat.add_comm _ _
    rw [if_neg (by rw [hnext]; decide), expr_readsBack he _ (follows_semicolon hsemi rest)]
    dsimp only [Reply.shift]
    rw [← List.cons_append, hlen, finish_complete _ hsemi]
    rfl

/-- Every expression that stands as a statement is read. -/
theorem exprStmt_complete (eof : Token) {t semi : Token} {ts : List Token} {e : Expr}
    (he : Expression (t :: ts) e) (hsemi : semi.kind = .semicolon) (rest : List Token) :
    exprStmt eof t (ts ++ semi :: rest) = .done (.expr t e) (ts.length + 2) := by
  unfold exprStmt
  dsimp only
  rw [← List.cons_append, expr_readsBack he _ (follows_semicolon hsemi rest)]
  dsimp only
  rw [finish_complete _ hsemi]
  rfl

/-- An expression statement is told from all others by its first two tokens. -/
theorem statement_expr {t semi : Token} {ts : List Token} {e : Expr} {depth : Nat}
    (he : Expression (t :: ts) e) (hsemi : semi.kind = .semicolon) (rest : List Token) :
    statement eof depth (t :: (ts ++ semi :: rest)) = .done (.expr t e) (ts.length + 2) := by
  have hcomplete := exprStmt_complete eof he hsemi rest
  obtain ⟨t', _, ht', hstart⟩ := starts_of_stratum he
  obtain ⟨rfl, -⟩ := List.cons.inj ht'
  -- the second token is one of the expression or the semicolon
  have hsecond : ∀ sign rest', ts ++ semi :: rest = sign :: rest' → sign.kind ≠ .assign := by
    intro sign rest' hsign
    cases ts with
    | nil =>
      obtain ⟨rfl, -⟩ := List.cons.inj hsign
      rw [hsemi]
      decide
    | cons u us =>
      obtain ⟨rfl, -⟩ := List.cons.inj hsign
      exact he.not_assign u (by simp)
  rw [statement.eq_def]
  dsimp only
  -- the keywords and the brace that start other statements start no expression
  split
  · next hk => rw [hk] at hstart; cases hstart
  · next hk => rw [hk] at hstart; cases hstart
  · next hk => rw [hk] at hstart; cases hstart
  · next hk => rw [hk] at hstart; cases hstart
  · split
    · next sign rest' hsign => rw [if_neg (hsecond sign rest' hsign), hcomplete]
    · exact hcomplete
  · exact hcomplete

/-- The outcome of reading a body without an error. -/
def Body.done (ss : List Stmt) (k : Nat) : Body := ⟨true, ss, [], k⟩

/-- No statement starts with a closing brace. -/
theorem Statement.nextIs_rbrace {ts : List Token} {s : Stmt} (h : Statement ts s)
    (rest : List Token) : nextIs .rbrace (ts ++ rest) = false := by
  cases h with
  | declaration h =>
    cases h with
    | mk ht => exact nextIs_cons_of_ne (by rw [ht]; decide) _
  | assignment h =>
    cases h with
    | mk hname => exact nextIs_cons_of_ne (by rw [hname]; decide) _
  | ret ht => exact nextIs_cons_of_ne (by rw [ht]; decide) _
  | block ht => exact nextIs_cons_of_ne (by rw [ht]; decide) _
  | expr he =>
    exact nextIs_eq_false (starts_append (starts_append (starts_of_stratum he))) rfl

/-- The statements of a body are read, if each of them is. -/
theorem body_complete (eof : Token) {depth : Nat} {close : Token} (hclose : close.kind = .rbrace)
    (rest : List Token) (parts : List (List Token × Stmt))
    (hparts : ∀ s ∈ parts, Statement s.1 s.2)
    (hread : ∀ s ∈ parts, ∀ rest, statement eof depth (s.1 ++ rest) = .done s.2 s.1.length) :
    body eof depth (parts.flatMap Prod.fst ++ close :: rest) =
      .done (parts.map Prod.snd) ((parts.flatMap Prod.fst).length + 1) := by
  induction parts with
  | nil =>
    rw [body.eq_def]
    simp [hclose, Body.done]
  | cons s parts ih =>
    have hs := hparts s List.mem_cons_self
    have hothers := ih (fun a ha => hparts a (List.mem_cons_of_mem s ha))
      (fun a ha => hread a (List.mem_cons_of_mem s ha))
    have hfirst := hread s List.mem_cons_self (parts.flatMap Prod.fst ++ close :: rest)
    have hnext := Statement.nextIs_rbrace hs (parts.flatMap Prod.fst ++ close :: rest)
    have hpos : 0 < s.1.length := List.length_pos_iff.mpr hs.ne_nil
    rw [List.flatMap_cons, List.append_assoc, body.eq_def]
    -- the reader of bodies looks at the first token before it reads a statement
    cases hts : s.1 ++ (parts.flatMap Prod.fst ++ close :: rest) with
    | nil => simp [hs.ne_nil] at hts
    | cons t us =>
      rw [hts] at hfirst hnext
      dsimp only
      rw [if_neg (beq_eq_false_iff_ne.mp hnext), hfirst]
      dsimp only [Parsed.done]
      rw [Nat.max_eq_left hpos, ← hts, List.drop_left, hothers]
      simp [Body.done]
      omega

/-- **A statement of a function is read**, whatever follows it. -/
theorem statement_complete {depth : Nat} (hdepth : 0 < depth) {ts : List Token} {s : Stmt}
    (h : Statement ts s) : ∀ rest, statement eof depth (ts ++ rest) = .done s ts.length := by
  -- on the derivation; only blocks hold statements
  induction h with
  | declaration h =>
    intro rest
    obtain ⟨t, us, rfl, ht, hlet⟩ := declaration_complete eof h
    rw [List.cons_append, statement.eq_def]
    simp only [ht]
    exact hlet rest
  | assignment h =>
    intro rest
    obtain ⟨name, sign, us, rfl, hname, hsign, hassign⟩ := assignment_complete eof h
    rw [List.cons_append, List.cons_append, statement.eq_def]
    simp only [hname, hsign, if_true]
    exact hassign rest
  | @ret t semi ts value ht hvalue hsemi =>
    intro rest
    have happ : t :: (ts ++ [semi]) ++ rest = t :: (ts ++ semi :: rest) := by simp
    rw [happ, statement.eq_def]
    simp only [ht]
    rw [return_complete hdepth hvalue hsemi]
    simp
  | @block t close parts ht hparts hclose ih =>
    intro rest
    have happ : t :: (parts.flatMap Prod.fst ++ [close]) ++ rest =
        t :: (parts.flatMap Prod.fst ++ close :: rest) := by simp
    rw [happ, statement.eq_def]
    simp only [ht]
    rw [body_complete eof hclose rest parts hparts ih]
    simp [Body.block, Body.done, Parsed.done]
  | @expr t semi ts e he hsemi =>
    intro rest
    have happ : t :: (ts ++ [semi]) ++ rest = t :: (ts ++ semi :: rest) := by simp
    rw [happ, statement_expr he hsemi]
    simp

/-! ### Functions and programs -/

/-- Every parameter is read. -/
theorem parameter_complete {ts : List Token} {p : ParamDecl} (h : Parameter ts p)
    (rest : List Token) : parameter eof (ts ++ rest) = .ok p ts.length := by
  cases h with
  | @mk name colon t type hname hcolon ht =>
    simp [parameter, hname, expectSecond, hcolon, Reply.andThen, typeNode_complete ht, Reply.map,
      Reply.shift]

/-- A parameter does not begin with a closing bracket. -/
theorem parameter_start {ts : List Token} {p : ParamDecl} (h : Parameter ts p) :
    ∃ t rest, ts = t :: rest ∧ t.kind ≠ .rparen := by
  cases h with
  | mk hname => exact ⟨_, _, rfl, by rw [hname]; decide⟩

/-- The last parameter, with the bracket after it. -/
theorem moreParameters_last {ts : List Token} {p : ParamDecl} {close : Token} (rest : List Token)
    (h : Parameter ts p) (hclose : close.kind = .rparen) :
    moreParameters eof (ts ++ close :: rest) = .ok [p] (ts.length + 1) := by
  rw [moreParameters.eq_def, parameter_complete h]
  dsimp only
  split
  · next h => simp at h
  · next t us h =>
    obtain ⟨rfl, rfl⟩ := List.cons.inj ((List.drop_left ..).symm.trans h)
    simp [hclose]

/-- A parameter with a comma after it. -/
theorem moreParameters_comma {ts : List Token} {p : ParamDecl} {comma t : Token}
    (rest : List Token) (h : Parameter ts p) (hcomma : comma.kind = .comma)
    (ht : t.kind ≠ .rparen) :
    moreParameters eof (ts ++ comma :: t :: rest) =
      ((moreParameters eof (t :: rest)).map (p :: ·)).shift (ts.length + 1) := by
  rw [moreParameters.eq_def, parameter_complete h]
  dsimp only
  split
  · next h => simp at h
  · next u us h =>
    obtain ⟨rfl, rfl⟩ := List.cons.inj ((List.drop_left ..).symm.trans h)
    rw [if_pos hcomma, List.headD_cons, if_neg ht]

/-- **Every list of parameters is read**, also an empty one. -/
theorem parameters_complete (eof : Token) {params : List (List Token × ParamDecl)}
    {mid : List Token} {close : Token} (hmid : Separated (params.map Prod.fst) mid)
    (hparams : ∀ p ∈ params, Parameter p.1 p.2) (hclose : close.kind = .rparen)
    (rest : List Token) :
    parameters eof (mid ++ close :: rest) = .ok (params.map Prod.snd) (mid.length + 1) := by
  unfold parameters
  cases params with
  | nil =>
    cases hmid
    simp [nextIs, hclose]
  | cons p params =>
    -- the same argument as for the arguments of a call
    obtain ⟨⟨t, us, rfl, ht⟩, hmore⟩ :=
      listed_complete (moreParameters eof) (fun _ _ => parameter_start)
        (fun _ _ _ rest => moreParameters_last rest)
        (fun _ _ _ _ rest => moreParameters_comma rest) hclose rest params p mid hmid hparams
    rw [List.cons_append] at hmore ⊢
    rw [if_neg (by rw [nextIs_cons_of_ne ht]; decide)]
    exact hmore

/-- What a function says before its body is read. -/
theorem fnHead_complete (eof : Token) {t name lparen rparen brace : Token} {mid us : List Token}
    {type : Option TypeNode} {params : List (List Token × ParamDecl)} (hname : name.kind = .ident)
    (hlparen : lparen.kind = .lparen) (hparams : ∀ p ∈ params, Parameter p.1 p.2)
    (hmid : Separated (params.map Prod.fst) mid) (hrparen : rparen.kind = .rparen)
    (htype : OptionalType us type) (hbrace : brace.kind = .lbrace) (rest : List Token) :
    fnHead eof t (name :: lparen :: (mid ++ rparen :: (us ++ brace :: rest))) =
      .ok (⟨t, ⟨name, name.literal⟩, params.map Prod.snd, type⟩, brace)
        (mid.length + us.length + 5) := by
  -- what each part of the head is read as, in order
  have hfirst : expectSecond eof .ident
      (t :: name :: lparen :: (mid ++ rparen :: (us ++ brace :: rest))) = .ok name 2 := by
    simp [expectSecond, hname]
  have hsecond : expectSecond eof .lparen
      (name :: lparen :: (mid ++ rparen :: (us ++ brace :: rest))) = .ok lparen 2 := by
    simp [expectSecond, hlparen]
  have hps := parameters_complete eof hmid hparams hrparen (us ++ brace :: rest)
  have hcolon : nextIs .colon (brace :: rest) = false :=
    nextIs_cons_of_ne (by rw [hbrace]; decide) rest
  have hty := optionalType_complete eof htype hcolon
  have hopen : openBrace eof name (brace :: rest) = .ok brace 1 := by
    simp [openBrace, hbrace]
  have hdrop : (mid ++ rparen :: (us ++ brace :: rest)).drop (mid.length + 1) =
      us ++ brace :: rest := by simp
  unfold fnHead
  simp only [hfirst, hsecond, Reply.andThen, List.drop_succ_cons, List.drop_zero, hps, hdrop, hty,
    List.drop_left, hopen, Reply.map, Reply.shift]
  congr 1
  omega

/-- Every function is read. -/
theorem function_complete (eof : Token) {ts : List Token} {s : Stmt} (h : Function ts s) :
    ∃ t us, ts = t :: us ∧ t.kind = .kwFn ∧
      ∀ rest, function eof 0 t (us ++ rest) = .done s ts.length := by
  cases h with
  | @mk t name lparen rparen brace close mid us type params parts ht hname hlparen hparams hmid
      hrparen htype hbrace hparts hclose =>
    refine ⟨t, _, rfl, ht, fun rest => ?_⟩
    have happ : name :: lparen :: (mid ++ rparen :: (us ++ brace ::
        (parts.flatMap Prod.fst ++ [close]))) ++ rest =
        name :: lparen :: (mid ++ rparen :: (us ++ brace ::
          (parts.flatMap Prod.fst ++ close :: rest))) := by simp
    have hhead := fnHead_complete eof (t := t) hname hlparen hparams hmid hrparen htype
      hbrace (parts.flatMap Prod.fst ++ close :: rest)
    -- the body is read one level down, where returns are allowed
    have hbody := body_complete eof hclose rest parts hparts
      fun s hs => statement_complete (Nat.succ_pos 0) (hparts s hs)
    have hpre : t :: name :: lparen :: (mid ++ rparen :: (us ++ brace ::
        (parts.flatMap Prod.fst ++ close :: rest))) =
        (t :: name :: lparen :: (mid ++ rparen :: (us ++ [brace]))) ++
          (parts.flatMap Prod.fst ++ close :: rest) := by simp
    have hlen : mid.length + us.length + 5 =
        (t :: name :: lparen :: (mid ++ rparen :: (us ++ [brace]))).length := by
      simp only [List.length_cons, List.length_append, List.length_nil]
      omega
    rw [happ]
    unfold function
    rw [hhead]
    dsimp only
    rw [hpre, hlen, List.drop_left, hbody]
    simp only [Body.done, Parsed.done, if_true, List.length_cons, List.length_append,
      List.length_nil]
    congr 1
    omega

/-- A top-level statement is read, whatever follows it. -/
theorem topLevel_complete (eof : Token) {ts : List Token} {s : Stmt} (h : TopLevel ts s) :
    ∃ t us, ts = t :: us ∧ ∀ rest, topLevel eof t (us ++ rest) = .done s ts.length := by
  -- the first token, and for a name the second one, tell the three apart
  cases h with
  | declaration h =>
    obtain ⟨t, us, rfl, ht, hlet⟩ := declaration_complete eof h
    refine ⟨t, us, rfl, fun rest => ?_⟩
    unfold topLevel
    simp only [ht]
    exact hlet rest
  | function h =>
    obtain ⟨t, us, rfl, ht, hfn⟩ := function_complete eof h
    refine ⟨t, us, rfl, fun rest => ?_⟩
    unfold topLevel
    simp only [ht]
    exact hfn rest
  | assignment h =>
    obtain ⟨name, sign, us, rfl, hname, hsign, hassign⟩ := assignment_complete eof h
    refine ⟨name, sign :: us, rfl, fun rest => ?_⟩
    unfold topLevel
    simp only [hname, List.cons_append, hsign, if_true]
    exact hassign rest

/-- **A program that is derived from its tokens is read without errors.** -/
theorem program_complete {ts : List Token} {p : Slang.Program} (h : Grammar.Program ts p) :
    program eof ts = ⟨p, []⟩ := by
  induction h with
  | nil => rw [program.eq_def]
  | @cons ts rest s p hs _ ih =>
    obtain ⟨t, us, rfl, htop⟩ := topLevel_complete eof hs
    rw [List.cons_append, program.eq_def]
    dsimp only
    rw [htop rest]
    have hmax : max (Parsed.done s (t :: us).length).taken 1 = (t :: us).length :=
      Nat.max_eq_left (Nat.succ_pos _)
    rw [hmax, ← List.cons_append, List.drop_left, ih]
    rfl

end Statements

/-! ### The grammar is exact -/

end Slang.Parser
