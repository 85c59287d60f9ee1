import Slang.Proofs.Layout.Statements

/-!
# Reading up to a stop

No expression, type or parameter list takes a semicolon or a brace, and none looks past one. So what
a reader makes of `pre ++ s :: rest`, where `s` is such a **stop**, is settled by `pre` and `s`: the
reply is the same for every `rest`, and it takes no more than the tokens of `pre` (`Reply.Stays`).
The opening brace of a function is the one stop that a header takes itself.
-/

namespace Slang.Parser

variable {α β : Type}

/-- **A token at which reading stops**, in token lists with two ends. -/
structure Stops (eof eof' s : Token) : Prop where
  left : eof.kind = .eof
  right : eof'.kind = .eof
  stop : s.kind = .semicolon ∨ s.kind = .lbrace ∨ s.kind = .rbrace

/-- **The same reply from tokens that start with `pre`**, without an error past them. A result may
take `c` tokens more. -/
inductive Reply.Stays (c : Nat) (pre : List Token) : Reply α → Reply α → Prop
  | ok (a : α) {k : Nat} (hk : k ≤ pre.length + c) : Stays c pre (.ok a k) (.ok a k)
  | fail (f : Fault) {k : Nat} (hk : k ≤ pre.length) : Stays c pre (.fail f k) (.fail f k)

namespace Reply.Stays

variable {c : Nat} {pre : List Token} {r r' : Reply α}

theorem map (h : Stays c pre r r') (g : α → β) : Stays c pre (r.map g) (r'.map g) := by
  cases h with
  | ok a hk => exact .ok (g a) hk
  | fail f hk => exact .fail f hk

/-- After the tokens `us`. -/
theorem shift (us : List Token) (h : Stays c pre r r') :
    Stays c (us ++ pre) (r.shift us.length) (r'.shift us.length) := by
  cases h with
  | ok a hk =>
    refine .ok a ?_
    rw [List.length_append]
    omega
  | fail f hk =>
    refine .fail f ?_
    rw [List.length_append]
    omega

theorem shift_one {t : Token} (h : Stays c pre r r') :
    Stays c (t :: pre) (r.shift 1) (r'.shift 1) :=
  shift [t] h

/-- What is left after `k` tokens still starts with the rest of `pre`. -/
theorem shift_drop (pre : List Token) {k : Nat} (hk : k ≤ pre.length)
    (h : Stays c (pre.drop k) r r') :
    Stays c pre (r.shift k) (r'.shift k) := by
  have hshift := shift (pre.take k) h
  rwa [List.take_append_drop, List.length_take_of_le hk] at hshift

theorem andThen {s : Token} {rest rest' : List Token} {next next' : α → List Token → Reply β}
    (h : Stays 0 pre r r')
    (hnext : ∀ a k, k ≤ pre.length → Stays c (pre.drop k) (next a (pre.drop k ++ s :: rest))
      (next' a (pre.drop k ++ s :: rest'))) :
    Stays c pre (r.andThen (pre ++ s :: rest) next) (r'.andThen (pre ++ s :: rest') next') := by
  cases h with
  | fail f hk => exact .fail f hk
  | @ok a k hk =>
    dsimp only [Reply.andThen]
    rw [List.drop_append_of_le_length hk, List.drop_append_of_le_length hk]
    exact (hnext a k hk).shift_drop pre hk

end Reply.Stays

open Reply (Stays)

variable {eof eof' s : Token} {pre rest rest' : List Token}

/-! ### The next token -/

/-- The next token is one of `pre`, or the stop. -/
theorem headD_stop (eof s : Token) (pre rest : List Token) :
    (pre ++ s :: rest).headD eof = pre.headD s := by
  cases pre <;> rfl

theorem nextIs_stop (kind : Token.Kind) (s : Token) (pre rest : List Token) :
    nextIs kind (pre ++ s :: rest) = ((pre.headD s).kind == kind) := by
  cases pre <;> rfl

/-- A token that is not the stop is one of `pre`. -/
theorem exists_of_headD_ne {kind : Token.Kind} (h : (pre.headD s).kind = kind)
    (hne : s.kind ≠ kind) : ∃ t pre', pre = t :: pre' ∧ t.kind = kind := by
  cases pre with
  | nil => exact absurd h hne
  | cons t pre' => exact ⟨t, pre', rfl, h⟩

theorem Stops.ne {kind : Token.Kind} (hs : Stops eof eof' s)
    (hkind : kind ≠ .semicolon ∧ kind ≠ .lbrace ∧ kind ≠ .rbrace) :
    s.kind ≠ kind := by
  rintro rfl
  obtain ⟨h₁, h₂, h₃⟩ := hkind
  exact hs.stop.elim h₁ fun h => h.elim h₂ h₃

theorem expect_stays {kind : Token.Kind} (hne : s.kind ≠ kind) :
    Stays 0 pre (expect eof kind (pre ++ s :: rest)) (expect eof' kind (pre ++ s :: rest')) := by
  unfold expect
  dsimp only
  rw [headD_stop, headD_stop]
  split
  · next h =>
    obtain ⟨t, pre', rfl, -⟩ := exists_of_headD_ne h hne
    exact .ok () (Nat.succ_le_succ (Nat.zero_le _))
  · exact .fail _ (Nat.zero_le _)

theorem expectSecond_stop (eof : Token) (kind : Token.Kind) (t s : Token) (pre rest : List Token) :
    expectSecond eof kind (t :: (pre ++ s :: rest)) =
      if (pre.headD s).kind = kind then .ok (pre.headD s) 2
      else .fail ((pre.headD s).fault
        (.expectedNext kind (pre.headD s).kind (pre.headD s).literal)) 0 := by
  unfold expectSecond
  rw [List.drop_one, List.tail_cons, headD_stop]

theorem expectSecond_stays {kind : Token.Kind} (hne : s.kind ≠ kind) (t : Token) :
    Stays 0 (t :: pre) (expectSecond eof kind (t :: (pre ++ s :: rest)))
      (expectSecond eof' kind (t :: (pre ++ s :: rest'))) := by
  rw [expectSecond_stop, expectSecond_stop]
  split
  · next h =>
    obtain ⟨u, pre', rfl, -⟩ := exists_of_headD_ne h hne
    exact .ok _ (Nat.succ_le_succ (Nat.succ_le_succ (Nat.zero_le _)))
  · exact .fail _ (Nat.zero_le _)

/-! ### Lists in parentheses -/

/-- A list stops before the stop. -/
theorem listTail_stays (hs : Stops eof eof' s) {early : Text → SyntaxProblem}
    {late : Token.Kind → Text → SyntaxProblem} {next next' : List Token → Reply (List α)} (a : α)
    (hnext : ∀ t pre', pre = t :: pre' →
      Stays 0 pre' (next (pre' ++ s :: rest)) (next' (pre' ++ s :: rest'))) :
    Stays 0 pre (listTail eof early late next a (pre ++ s :: rest))
      (listTail eof' early late next' a (pre ++ s :: rest')) := by
  unfold listTail
  dsimp only
  -- the stop is neither a comma nor a bracket, so that what continues or ends a list comes before it
  rw [headD_stop, headD_stop]
  split
  · next hcomma =>
    obtain ⟨t, pre', rfl, -⟩ := exists_of_headD_ne hcomma (hs.ne (by decide))
    rw [List.cons_append, List.cons_append, List.drop_one, List.drop_one, List.tail_cons,
      List.tail_cons, headD_stop, headD_stop]
    split
    · exact .fail _ (Nat.succ_le_succ (Nat.zero_le _))
    · exact ((hnext t pre' rfl).map _).shift_one
  · split
    · next hparen =>
      obtain ⟨t, pre', rfl, -⟩ := exists_of_headD_ne hparen (hs.ne (by decide))
      exact .ok _ (Nat.succ_le_succ (Nat.zero_le _))
    · exact .fail _ (Nat.zero_le _)

/-! ### Expressions -/

mutual

theorem operand_stays (hs : Stops eof eof' s) (pre rest rest' : List Token) :
    Stays 0 pre (operand eof (pre ++ s :: rest)) (operand eof' (pre ++ s :: rest')) := by
  cases pre with
  | nil =>
    -- a stop starts no expression
    rw [List.nil_append, List.nil_append, operand.eq_def, operand.eq_def]
    dsimp only
    rcases hs.stop with h | h | h <;> rw [h] <;> exact .fail _ (Nat.le_refl 0)
  | cons t pre =>
    have hone : 1 ≤ (t :: pre).length := Nat.succ_le_succ (Nat.zero_le _)
    rw [List.cons_append, List.cons_append, operand.eq_def, operand.eq_def]
    dsimp only
    generalize t.kind = kind
    cases kind with
    | ident => exact .ok _ hone
    | int =>
      dsimp only
      cases int64? t.literal with
      | some n => exact .ok _ hone
      | none => exact .fail _ hone
    | string => exact .ok _ hone
    | kwTrue => exact .ok _ hone
    | kwFalse => exact .ok _ hone
    | lparen =>
      refine Stays.shift_one ((expr_stays hs Level.lowest pre rest rest').andThen fun e k hk => ?_)
      exact (expect_stays (hs.ne (by decide))).map _
    | minus => exact ((expr_stays hs Level.unary pre rest rest').map _).shift_one
    | bang => exact ((expr_stays hs Level.unary pre rest rest').map _).shift_one
    | _ => exact .fail _ (Nat.zero_le _)
termination_by 4 * pre.length

/-- **An expression stops before the stop.** -/
theorem expr_stays (hs : Stops eof eof' s) (level : Level)
    (pre rest rest' : List Token) :
    Stays 0 pre (expr eof level (pre ++ s :: rest)) (expr eof' level (pre ++ s :: rest')) := by
  have hoperand := operand_stays hs pre rest rest'
  rw [expr.eq_def, expr.eq_def]
  -- the operand took the same tokens in both, and what is left before the stop is the same
  generalize operand eof (pre ++ s :: rest) = r at hoperand ⊢
  generalize operand eof' (pre ++ s :: rest') = r' at hoperand ⊢
  cases hoperand with
  | fail f hk => exact .fail f hk
  | @ok e k hk =>
    dsimp only
    rw [List.drop_append_of_le_length hk, List.drop_append_of_le_length hk]
    exact (extend_stays hs level e (pre.drop k) rest rest').shift_drop pre hk
termination_by 4 * pre.length + 2
decreasing_by all_goals (simp_wf; try omega)

/-- What an expression is extended to stops before the stop. -/
theorem extend_stays (hs : Stops eof eof' s) (level : Level) (left : Expr)
    (pre rest rest' : List Token) :
    Stays 0 pre (extend eof level left (pre ++ s :: rest))
      (extend eof' level left (pre ++ s :: rest')) := by
  cases pre with
  | nil =>
    rw [List.nil_append, List.nil_append, extend.eq_def, extend.eq_def]
    dsimp only
    -- the stop itself extends nothing
    rcases hs.stop with h | h | h <;> rw [h] <;> exact .ok left (Nat.le_refl 0)
  | cons t pre =>
    rw [List.cons_append, List.cons_append, extend.eq_def, extend.eq_def]
    dsimp only
    split
    · next op hop =>
      split
      · have hright := expr_stays hs op.level pre rest rest'
        generalize expr eof op.level (pre ++ s :: rest) = r at hright ⊢
        generalize expr eof' op.level (pre ++ s :: rest') = r' at hright ⊢
        cases hright with
        | fail f hk => exact .fail f (Nat.succ_le_succ hk)
        | @ok right k hk =>
          dsimp only
          rw [List.drop_append_of_le_length hk, List.drop_append_of_le_length hk]
          -- and so on behind the right operand, or behind the arguments
          have hmore := extend_stays hs level (.binary t op left right) (pre.drop k) rest rest'
          exact hmore.shift_drop (t :: pre) (Nat.succ_le_succ hk)
      · exact .ok left (Nat.zero_le _)
    · split
      · split
        · next callee _ =>
          have hargs := arguments_stays hs pre rest rest'
          generalize arguments eof (pre ++ s :: rest) = r at hargs ⊢
          generalize arguments eof' (pre ++ s :: rest') = r' at hargs ⊢
          cases hargs with
          | fail f hk => exact .fail f (Nat.succ_le_succ hk)
          | @ok args k hk =>
            dsimp only
            rw [List.drop_append_of_le_length hk, List.drop_append_of_le_length hk]
            have hmore := extend_stays hs level (.call t callee args) (pre.drop k) rest rest'
            exact hmore.shift_drop (t :: pre) (Nat.succ_le_succ hk)
        · exact .fail _ (Nat.zero_le _)
      · exact .ok left (Nat.zero_le _)
termination_by 4 * pre.length + 1
decreasing_by all_goals (simp_wf; try omega)

theorem arguments_stays (hs : Stops eof eof' s) (pre rest rest' : List Token) :
    Stays 0 pre (arguments eof (pre ++ s :: rest)) (arguments eof' (pre ++ s :: rest')) := by
  rw [arguments, arguments, nextIs_stop, nextIs_stop]
  split
  · next h =>
    obtain ⟨t, pre', rfl, -⟩ := exists_of_headD_ne (eq_of_beq h) (hs.ne (by decide))
    exact .ok [] (Nat.succ_le_succ (Nat.zero_le _))
  · exact moreArguments_stays hs pre rest rest'
termination_by 4 * pre.length + 4

theorem moreArguments_stays (hs : Stops eof eof' s) (pre rest rest' : List Token) :
    Stays 0 pre (moreArguments eof (pre ++ s :: rest))
      (moreArguments eof' (pre ++ s :: rest')) := by
  rw [moreArguments_eq hs.left, moreArguments_eq hs.right]
  refine (expr_stays hs Level.lowest pre rest rest').andThen fun e k hk => ?_
  refine listTail_stays hs e fun t pre' hpre => ?_
  have hlt : pre'.length < pre.length := by
    have hlen := congrArg List.length hpre
    rw [List.length_drop, List.length_cons] at hlen
    omega
  exact moreArguments_stays hs pre' rest rest'
termination_by 4 * pre.length + 3

end

/-! ### Parts of statements -/

section
variable (hs : Stops eof eof' s)
include hs

theorem typeNode_stays : Stays 0 pre (typeNode eof (pre ++ s :: rest))
    (typeNode eof' (pre ++ s :: rest')) := by
  unfold typeNode
  dsimp only
  rw [headD_stop, headD_stop]
  split
  · next h =>
    obtain ⟨t, pre', rfl, -⟩ := exists_of_headD_ne (eq_of_beq h) (hs.ne (by decide))
    split
    · exact .ok _ (Nat.succ_le_succ (Nat.zero_le _))
    · exact .fail _ (Nat.zero_le _)
  · exact .fail _ (Nat.zero_le _)

theorem optionalType_stays : Stays 0 pre (optionalType eof (pre ++ s :: rest))
    (optionalType eof' (pre ++ s :: rest')) := by
  unfold optionalType
  rw [nextIs_stop, nextIs_stop]
  split
  · next h =>
    obtain ⟨t, pre', rfl, -⟩ := exists_of_headD_ne (eq_of_beq h) (hs.ne (by decide))
    exact ((typeNode_stays hs).map some).shift_one
  · exact .ok none (Nat.zero_le _)

theorem parameter_stays : Stays 0 pre (parameter eof (pre ++ s :: rest))
    (parameter eof' (pre ++ s :: rest')) := by
  unfold parameter
  dsimp only
  rw [headD_stop, headD_stop]
  split
  · next h =>
    obtain ⟨t, pre', rfl, -⟩ := exists_of_headD_ne h (hs.ne (by decide))
    refine (expectSecond_stays (hs.ne (by decide)) t).andThen fun _ _ _ => ?_
    exact (typeNode_stays hs).map _
  · exact .fail _ (Nat.zero_le _)

theorem optionalValue_stays : Stays 0 pre (optionalValue eof (pre ++ s :: rest))
    (optionalValue eof' (pre ++ s :: rest')) := by
  unfold optionalValue
  rw [nextIs_stop, nextIs_stop]
  split
  · next h =>
    obtain ⟨t, pre', rfl, -⟩ := exists_of_headD_ne (eq_of_beq h) (hs.ne (by decide))
    exact ((expr_stays hs Level.lowest pre' rest rest').map some).shift_one
  · exact .ok none (Nat.zero_le _)

theorem typeAndValue_stays : Stays 0 pre (typeAndValue eof (pre ++ s :: rest))
    (typeAndValue eof' (pre ++ s :: rest')) :=
  (optionalType_stays hs).andThen fun _ _ _ => (optionalValue_stays hs).map _

/-! ### Function headers -/

theorem moreParameters_stays (pre rest rest' : List Token) :
    Stays 0 pre (moreParameters eof (pre ++ s :: rest))
      (moreParameters eof' (pre ++ s :: rest')) := by
  rw [moreParameters_eq hs.left, moreParameters_eq hs.right]
  refine (parameter_stays hs).andThen fun p k hk => ?_
  refine listTail_stays hs p fun t pre' hpre => ?_
  have hlt : pre'.length < pre.length := by
    have hlen := congrArg List.length hpre
    rw [List.length_drop, List.length_cons] at hlen
    omega
  exact moreParameters_stays pre' rest rest'
termination_by pre.length

theorem parameters_stays : Stays 0 pre (parameters eof (pre ++ s :: rest))
    (parameters eof' (pre ++ s :: rest')) := by
  unfold parameters
  rw [nextIs_stop, nextIs_stop]
  split
  · next h =>
    obtain ⟨t, pre', rfl, -⟩ := exists_of_headD_ne (eq_of_beq h) (hs.ne (by decide))
    exact .ok [] (Nat.succ_le_succ (Nat.zero_le _))
  · exact moreParameters_stays hs pre rest rest'

end

/-- The opening brace may be the stop itself. -/
theorem openBrace_stays (name : Token) : Stays 1 pre (openBrace eof name (pre ++ s :: rest))
    (openBrace eof' name (pre ++ s :: rest')) := by
  unfold openBrace
  dsimp only
  rw [headD_stop, headD_stop]
  split
  · exact .ok _ (Nat.le_add_left 1 _)
  · exact .fail _ (Nat.zero_le _)

/-- **The head of a function stops before the stop.** -/
theorem fnHead_stays (hs : Stops eof eof' s) (t : Token) :
    Stays 1 (t :: pre) (fnHead eof t (pre ++ s :: rest)) (fnHead eof' t (pre ++ s :: rest')) := by
  unfold fnHead
  dsimp only
  rw [expectSecond_stop, expectSecond_stop]
  -- without a name, reading ends here; with one, each part stops before the stop
  by_cases hident : (pre.headD s).kind = .ident
  · rw [if_pos hident]
    obtain ⟨name, pre', rfl, -⟩ := exists_of_headD_ne hident (hs.ne (by decide))
    refine Stays.shift_one ((expectSecond_stays (hs.ne (by decide)) name).andThen fun _ _ _ => ?_)
    refine (parameters_stays hs).andThen fun params _ _ => ?_
    refine (optionalType_stays hs).andThen fun result _ _ => ?_
    exact (openBrace_stays name).map _
  · rw [if_neg hident]
    exact .fail _ (Nat.zero_le _)

end Slang.Parser
