import Slang.Proofs.Alike
import Slang.Tree.Parser

/-!
# Reading two token lists in step

Two lists of tokens that agree in kinds and literals are read in step: every reader takes the same
number of tokens from both, builds the same tree, and stops with the same errors. What differs is
where tokens stand, and no reader looks at that.

Errors are located by the index of the token at which they are reported (`FaultAt`); the end of the
tokens has all indices from the number of tokens on. A statement reports its errors in order, none
of them after the token at which reading goes on (`FaultsIn`). So the errors of a source are found
in the order of their tokens.
-/

namespace Slang

/-- A name at corresponding places. -/
theorem Token.Alike.ident {ρ : Position → Position → Prop} {t t' : Token} (h : t.Alike ρ t') :
    Ident.Alike ρ ⟨t, t.literal⟩ ⟨t', t.literal⟩ :=
  ⟨h, rfl⟩

namespace Parser

/-- Tokens that correspond, one by one. -/
abbrev Rows (ρ : Position → Position → Prop) : List Token → List Token → Prop :=
  List.Forall₂ (Token.Alike ρ)

/-- The ends of two token lists. -/
structure SameEnd (eof eof' : Token) : Prop where
  kind : eof.kind = .eof
  kind_eq : eof'.kind = eof.kind
  literal : eof'.literal = eof.literal

section
variable (eof eof' : Token)

/-- **The same error at the token with index `i` of both lists.** -/
structure FaultAt (ts ts' : List Token) (i : Nat) (f f' : Fault) : Prop where
  what : f'.what = f.what
  left : f.pos = ((ts.drop i).headD eof).pos
  right : f'.pos = ((ts'.drop i).headD eof').pos

/-- **Replies that correspond.** An error stands at a token that was taken or is skipped before
reading goes on, or at the next one. -/
inductive Reply.Alike {α : Type} (R : α → α → Prop) (skip : List Token → Nat)
    (ts ts' : List Token) : Reply α → Reply α → Prop
  | ok {a a' : α} (k : Nat) (ha : R a a') : Alike R skip ts ts' (.ok a k) (.ok a' k)
  | fail {f f' : Fault} (k i : Nat) (hi : i ≤ k + skip (ts.drop k))
      (hf : FaultAt eof eof' ts ts' i f f') : Alike R skip ts ts' (.fail f k) (.fail f' k)

end

/-- Nothing is skipped. -/
def noSkip (_ : List Token) : Nat := 0

section
variable {ρ : Position → Position → Prop} {eof eof' : Token} {ts ts' : List Token}

/-- What is left after the same number of tokens corresponds as well. -/
theorem Rows.drop (h : Rows ρ ts ts') (n : Nat) : Rows ρ (ts.drop n) (ts'.drop n) :=
  List.forall₂_drop n h

/-- Both lists go on with a token of a kind, or neither does. -/
theorem nextIs_of_rows (h : Rows ρ ts ts') (kind : Token.Kind) :
    nextIs kind ts' = nextIs kind ts := by
  cases h with
  | nil => rfl
  | cons ht _ => simp only [nextIs, ht.kind]

/-- The next token, which may be the end. -/
theorem headD_of_rows (he : SameEnd eof eof') (h : Rows ρ ts ts') :
    (ts'.headD eof').kind = (ts.headD eof).kind ∧
      (ts'.headD eof').literal = (ts.headD eof).literal ∧
      ((ts.headD eof).kind ≠ .eof → (ts.headD eof).Alike ρ (ts'.headD eof')) := by
  cases h with
  | nil => exact ⟨he.kind_eq, he.literal, fun hne => absurd he.kind hne⟩
  | cons ht _ => exact ⟨ht.kind, ht.literal, fun _ => ht⟩

/-! ### Errors at a token -/

/-- An error at the next token has index zero. -/
theorem FaultAt.head (ts ts' : List Token) (p : SyntaxProblem) :
    FaultAt eof eof' ts ts' 0 ((ts.headD eof).fault p) ((ts'.headD eof').fault p) :=
  ⟨rfl, rfl, rfl⟩

/-- An error at a token of what is left is one at a later token of the whole. -/
theorem FaultAt.of_drop {n i : Nat} {f f' : Fault}
    (h : FaultAt eof eof' (ts.drop n) (ts'.drop n) i f f') :
    FaultAt eof eof' ts ts' (n + i) f f' := by
  refine ⟨h.what, ?_, ?_⟩
  · rw [h.left, List.drop_drop]
  · rw [h.right, List.drop_drop]

/-! ### Replies -/

namespace Reply.Alike

variable {α β : Type} {R : α → α → Prop} {S : β → β → Prop} {skip : List Token → Nat}

/-- An error at the next token, before anything is taken. -/
theorem failHead (ts ts' : List Token) (p : SyntaxProblem) :
    Alike eof eof' R skip ts ts' (.fail ((ts.headD eof).fault p) 0)
      (.fail ((ts'.headD eof').fault p) 0) :=
  .fail 0 0 (Nat.zero_le _) (.head ts ts' p)

/-- What is made of corresponding results corresponds. -/
theorem map {r r' : Reply α} (h : Alike eof eof' R skip ts ts' r r') {g g' : α → β}
    (hg : ∀ a a', R a a' → S (g a) (g' a')) :
    Alike eof eof' S skip ts ts' (r.map g) (r'.map g') := by
  cases h with
  | ok k ha => exact .ok k (hg _ _ ha)
  | fail k i hi hf => exact .fail k i hi hf

/-- Tokens that were taken before are counted on both sides. -/
theorem shift {n : Nat} {r r' : Reply α}
    (h : Alike eof eof' R skip (ts.drop n) (ts'.drop n) r r') :
    Alike eof eof' R skip ts ts' (r.shift n) (r'.shift n) := by
  cases h with
  | ok k ha => exact .ok (n + k) ha
  | fail k i hi hf =>
    refine .fail (n + k) (n + i) ?_ hf.of_drop
    -- what is skipped starts where reading stopped, counted from the first token
    rw [List.drop_drop] at hi
    omega

/-- Replies correspond if the first parts do, and after those the second parts. -/
theorem andThen {r r' : Reply α} (h : Alike eof eof' R skip ts ts' r r')
    {next next' : α → List Token → Reply β}
    (hnext : ∀ a a' k, R a a' → Alike eof eof' S skip (ts.drop k) (ts'.drop k)
      (next a (ts.drop k)) (next' a' (ts'.drop k))) :
    Alike eof eof' S skip ts ts' (r.andThen ts next) (r'.andThen ts' next') := by
  cases h with
  | ok k ha => exact (hnext _ _ k ha).shift
  | fail k i hi hf => exact .fail k i hi hf

/-- An error after one more token. -/
theorem fail_succ {t t' : Token} {f f' : Fault} {k i : Nat} (hi : i ≤ k + skip (ts.drop k))
    (hf : FaultAt eof eof' ts ts' i f f') :
    Alike eof eof' R skip (t :: ts) (t' :: ts') (.fail f (k + 1)) (.fail f' (k + 1)) := by
  refine .fail (k + 1) (1 + i) ?_ hf.of_drop
  rw [List.drop_succ_cons]
  omega

end Reply.Alike

/-- A token of a kind is taken from both lists, or the same error is reported at the next token of each.
-/
theorem expect_alike (he : SameEnd eof eof') (kind : Token.Kind) (h : Rows ρ ts ts') :
    Reply.Alike eof eof' (fun _ _ => True) noSkip ts ts' (expect eof kind ts)
      (expect eof' kind ts') := by
  obtain ⟨hkind, hliteral, -⟩ := headD_of_rows he h
  unfold expect
  dsimp only
  rw [hkind, hliteral]
  split
  · exact .ok 1 trivial
  · exact .failHead _ _ _

/-! ### Lists in parentheses -/

/-- What comes after an element `a` of a list: a comma and more elements, or the closing
parenthesis. What is said where neither comes, or no element after a comma, depends on the kind of
list. -/
def listTail {α : Type} (eof : Token) (early : Text → SyntaxProblem)
    (late : Token.Kind → Text → SyntaxProblem) (next : List Token → Reply (List α)) (a : α)
    (ts : List Token) : Reply (List α) :=
  let t := ts.headD eof
  if t.kind = .comma then
    let n := (ts.drop 1).headD eof
    if n.kind = .rparen then .fail (n.fault (early n.literal)) 1
    else ((next (ts.drop 1)).map (a :: ·)).shift 1
  else if t.kind = .rparen then .ok [a] 1
  else .fail (t.fault (late t.kind t.literal)) 0

section
variable {α : Type} {early : Text → SyntaxProblem} {late : Token.Kind → Text → SyntaxProblem}
  {next : List Token → Reply (List α)}

/-- At the end of the tokens a list is not closed, and the end is where that is reported. -/
theorem shift_listTail_nil (heof : eof.kind = .eof) (a : α) (k : Nat) :
    (listTail eof early late next a []).shift k =
      .fail (eof.fault (late eof.kind eof.literal)) k := by
  rw [listTail, List.headD_nil, heof]
  rfl

/-- The tail of a list by its first token. -/
theorem shift_listTail_cons (a : α) (t : Token) (rest : List Token) (k : Nat) :
    (listTail eof early late next a (t :: rest)).shift k =
      if t.kind = .comma then
        if (rest.headD eof).kind = .rparen then
          .fail ((rest.headD eof).fault (early (rest.headD eof).literal)) (k + 1)
        else ((next rest).map (a :: ·)).shift (k + 1)
      else if t.kind = .rparen then .ok [a] (k + 1)
      else .fail (t.fault (late t.kind t.literal)) k := by
  rw [listTail, List.headD_cons, List.drop_succ_cons, List.drop_zero]
  dsimp only
  split
  · split
    · rfl
    · exact Reply.shift_shift k 1 _
  · split <;> rfl

end

/-- Arguments are an expression and the tail of a list. The reader counts the tokens that it has taken,
and this form does not have to. -/
theorem moreArguments_eq (heof : eof.kind = .eof) (ts : List Token) :
    moreArguments eof ts = (expr eof Level.lowest ts).andThen ts
      (listTail eof .commaBeforeEnd (.expected .rparen) (moreArguments eof)) := by
  rw [moreArguments.eq_def]
  cases expr eof Level.lowest ts with
  | fail f k => rfl
  | ok e k =>
    dsimp only [Reply.andThen]
    -- the reader looks at the next token, which may be missing
    split
    · next hnil => rw [hnil, shift_listTail_nil heof]
    · next t rest hcons => rw [hcons, shift_listTail_cons]

/-- Lists are read in step if their elements are. -/
theorem listTail_alike (he : SameEnd eof eof') {α : Type} {R : α → α → Prop}
    {skip : List Token → Nat} {early : Text → SyntaxProblem}
    {late : Token.Kind → Text → SyntaxProblem} {next next' : List Token → Reply (List α)}
    {a a' : α} (ha : R a a') (h : Rows ρ ts ts')
    (hnext : 0 < ts.length → Reply.Alike eof eof' (List.Forall₂ R) skip (ts.drop 1) (ts'.drop 1)
      (next (ts.drop 1)) (next' (ts'.drop 1))) :
    Reply.Alike eof eof' (List.Forall₂ R) skip ts ts' (listTail eof early late next a ts)
      (listTail eof' early late next' a' ts') := by
  obtain ⟨hkind, hliteral, -⟩ := headD_of_rows he h
  obtain ⟨hkind₁, hliteral₁, -⟩ := headD_of_rows he (h.drop 1)
  unfold listTail
  dsimp only
  rw [hkind, hliteral, hkind₁, hliteral₁]
  split
  · next hcomma =>
    split
    · exact .fail 1 1 (Nat.le_add_right 1 _) (FaultAt.of_drop (n := 1) (.head _ _ _))
    · refine Reply.Alike.shift ((hnext ?_).map fun _ _ hes => .cons ha hes)
      -- the end is no comma, so there is a token
      cases ts with
      | nil => exact absurd (he.kind.symm.trans hcomma) (by decide)
      | cons t rest => exact Nat.succ_pos _
  · split
    · exact .ok 1 (.cons ha .nil)
    · exact .failHead _ _ _

/-! ### Expressions -/

mutual

/-- **Operands are read in step.** Both readers branch on the kind of the next token, which is the same.
-/
theorem operand_alike (he : SameEnd eof eof') (ts ts' : List Token) (h : Rows ρ ts ts') :
    Reply.Alike eof eof' (Expr.Alike ρ) noSkip ts ts' (operand eof ts) (operand eof' ts') := by
  cases h with
  | nil =>
    rw [operand, operand, he.kind_eq, he.literal]
    exact .failHead [] [] _
  | @cons t t' rest rest' ht hrest =>
    -- wherever no operand begins, the token is reported and stays where it is
    have hfail : ∀ p, Reply.Alike eof eof' (Expr.Alike ρ) noSkip (t :: rest) (t' :: rest')
        (.fail (t.fault p) 0) (.fail (t'.fault p) 0) :=
      fun p => .failHead (t :: rest) (t' :: rest') p
    rw [operand.eq_def, operand.eq_def]
    dsimp only
    rw [ht.kind, ht.literal]
    -- one case for each kind that begins an operand
    generalize t.kind = kind
    cases kind with
    | ident => exact .ok 1 (.ident ht.ident)
    | int =>
      dsimp only
      cases int64? t.literal with
      | some n => exact .ok 1 (.int n ht)
      -- the only error at a token that has been taken
      | none => exact .fail 1 0 (Nat.zero_le _) (.head (t :: rest) (t' :: rest') _)
    | string => exact .ok 1 (.str _ ht)
    | kwTrue => exact .ok 1 (.bool true ht)
    | kwFalse => exact .ok 1 (.bool false ht)
    | lparen =>
      refine Reply.Alike.shift (n := 1) ?_
      refine (expr_alike he Level.lowest rest rest' hrest).andThen fun e e' k hee => ?_
      exact (expect_alike he .rparen (Rows.drop hrest k)).map fun _ _ _ => .group ht hee
    | minus =>
      refine Reply.Alike.shift (n := 1) ?_
      exact (expr_alike he Level.unary rest rest' hrest).map fun e e' hee => .unary .neg ht hee
    | bang =>
      refine Reply.Alike.shift (n := 1) ?_
      exact (expr_alike he Level.unary rest rest' hrest).map fun e e' hee => .unary .not ht hee
    | _ => exact hfail _
termination_by 4 * ts.length

/-- **Expressions are read in step.** -/
theorem expr_alike (he : SameEnd eof eof') (level : Level) (ts ts' : List Token)
    (h : Rows ρ ts ts') :
    Reply.Alike eof eof' (Expr.Alike ρ) noSkip ts ts' (expr eof level ts)
      (expr eof' level ts') := by
  have hoperand := operand_alike he ts ts' h
  rw [expr.eq_def, expr.eq_def]
  generalize operand eof ts = r at hoperand ⊢
  generalize operand eof' ts' = r' at hoperand ⊢
  cases hoperand with
  | ok k hee =>
    dsimp only
    exact (extend_alike he level hee (ts.drop k) (ts'.drop k) (h.drop k)).shift
  | fail k i hi hf => exact .fail k i hi hf
termination_by 4 * ts.length + 2
decreasing_by all_goals (simp_wf; try omega)

/-- **What extends an expression is read in step.** The expression so far corresponds, and so does what
is made of it with an operator or a call. -/
theorem extend_alike (he : SameEnd eof eof') (level : Level) {left left' : Expr}
    (hleft : left.Alike ρ left') (ts ts' : List Token) (h : Rows ρ ts ts') :
    Reply.Alike eof eof' (Expr.Alike ρ) noSkip ts ts' (extend eof level left ts)
      (extend eof' level left' ts') := by
  cases h with
  | nil =>
    rw [extend.eq_def, extend.eq_def]
    exact .ok 0 hleft
  | @cons t t' rest rest' ht hrest =>
    rw [extend.eq_def, extend.eq_def]
    dsimp only
    rw [ht.kind]
    split
    · next op hop =>
      split
      · have hright := expr_alike he op.level rest rest' hrest
        generalize expr eof op.level rest = r at hright ⊢
        generalize expr eof' op.level rest' = r' at hright ⊢
        cases hright with
        | fail k i hi hf =>
          exact .fail_succ hi hf
        | ok k hee =>
          -- the operator and its right side are taken, and reading goes on with the whole
          have hmore := extend_alike he level (.binary op ht hleft hee) (rest.drop k)
            (rest'.drop k) (Rows.drop hrest k)
          exact Reply.Alike.shift (n := k + 1) hmore
      · exact .ok 0 hleft
    · split
      · -- what is called is a name in both trees, or in none
        have hcallee := hleft.ungroup
        generalize left.ungroup = callee at hcallee ⊢
        generalize left'.ungroup = callee' at hcallee ⊢
        cases hcallee with
        | ident hi =>
          dsimp only
          have hargs := arguments_alike he rest rest' hrest
          generalize arguments eof rest = r at hargs ⊢
          generalize arguments eof' rest' = r' at hargs ⊢
          cases hargs with
          | fail k j hj hf => exact .fail_succ hj hf
          | ok k hes =>
            have hcall := Expr.Alike.call ht hi hes.length_eq fun _ ha => List.forall₂_zip hes ha
            have hmore := extend_alike he level hcall (rest.drop k) (rest'.drop k)
              (Rows.drop hrest k)
            exact Reply.Alike.shift (n := k + 1) hmore
        | _ => exact .failHead (t :: rest) (t' :: rest') _
      · exact .ok 0 hleft
termination_by 4 * ts.length + 1
decreasing_by all_goals (simp_wf; try omega)

/-- Arguments are read in step, an empty list among them. -/
theorem arguments_alike (he : SameEnd eof eof') (ts ts' : List Token) (h : Rows ρ ts ts') :
    Reply.Alike eof eof' (List.Forall₂ (Expr.Alike ρ)) noSkip ts ts' (arguments eof ts)
      (arguments eof' ts') := by
  rw [arguments, arguments, nextIs_of_rows h]
  split
  · exact .ok 1 .nil
  · exact moreArguments_alike he ts ts' h
termination_by 4 * ts.length + 4

/-- The arguments that are left are read in step. -/
theorem moreArguments_alike (he : SameEnd eof eof') (ts ts' : List Token) (h : Rows ρ ts ts') :
    Reply.Alike eof eof' (List.Forall₂ (Expr.Alike ρ)) noSkip ts ts' (moreArguments eof ts)
      (moreArguments eof' ts') := by
  rw [moreArguments_eq he.kind, moreArguments_eq (he.kind_eq.trans he.kind)]
  refine (expr_alike he Level.lowest ts ts' h).andThen fun e e' k hee => ?_
  exact listTail_alike he hee (h.drop k) fun hlt =>
    moreArguments_alike he _ _ ((h.drop k).drop 1)
termination_by 4 * ts.length + 3
decreasing_by
  · simp_wf
  · simp only [List.length_drop] at hlt ⊢
    omega

end

end
end Parser
end Slang
