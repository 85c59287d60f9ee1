import Slang.Proofs.Grammar

/-!
# What is read is a phrase

A reader that reports nothing has taken the tokens of a phrase of the grammar and built the tree of
that phrase. Readers say how many tokens they take; `Reply.Reads` turns the number into a split of
the tokens into those that were taken and those that are left.

Expressions are read by precedence, so the invariant is about the loop of `Parser.extend`: what was
read so far is a phrase of some stratum `n`, and the next operator does not bind more tightly than
`n`. The right operand of an operator is read up to the first operator that binds no more tightly,
which is what makes the invariant hold again for the next turn (`Ends`).
-/

namespace Slang.Grammar

/-! ### Strata -/

/-- Every operator between two operands binds looser than a prefix. -/
theorem level_lt_unary {kind : Token.Kind} {op : BinaryOp} (h : kind.binaryOp? = some op) :
    op.level < Level.unary := by
  cases kind <;> cases h <;> decide

/-- No stratum is tighter than that of calls. -/
theorem Stratum.le_call {n : Level} {ts : List Token} {e : Expr} (h : Stratum n ts e) :
    n ≤ Level.call := by
  cases h with
  | binary ht => exact Nat.le_trans (Nat.le_of_lt (level_lt_unary ht)) (by decide)
  | tighter hn => exact Nat.le_of_lt hn
  | unary | call | name | int | str | kwTrue | kwFalse | group => decide

/-- What belongs to a stratum belongs to all looser ones. -/
theorem Stratum.loosen {m n : Level} {ts : List Token} {e : Expr} (h : Stratum n ts e)
    (hmn : m ≤ n) : Stratum m ts e := by
  induction hmn with
  | refl => exact h
  | step hle ih => exact ih (.tighter h.le_call h)

/-- An expression that is a name without its parentheses can be called. -/
theorem Stratum.callee {n : Level} {ts : List Token} {e : Expr} {id : Ident} (h : Stratum n ts e)
    (he : e.ungroup = .ident id) : Callee ts id := by
  induction h with
  | tighter _ _ ih => exact ih he
  | name ht =>
    obtain rfl := Expr.ident.inj he
    exact .name ht
  | group ht _ hclose ih => exact .group ht (ih he) hclose
  | binary | unary | call | int | str | kwTrue | kwFalse => cases he

/-- An expression has tokens. -/
theorem Stratum.ne_nil {n : Level} {ts : List Token} {e : Expr} (h : Stratum n ts e) :
    ts ≠ [] := by
  induction h with
  | tighter _ _ ih => exact ih
  | binary | unary | call | name | int | str | kwTrue | kwFalse | group => simp

/-- A statement has tokens. -/
theorem Statement.ne_nil {ts : List Token} {s : Stmt} (h : Statement ts s) : ts ≠ [] := by
  cases h with
  | declaration h => cases h; simp
  | assignment h => cases h; simp
  | ret | block | expr => simp

/-- A statement of the top level has tokens. -/
theorem TopLevel.ne_nil {ts : List Token} {s : Stmt} (h : TopLevel ts s) : ts ≠ [] := by
  cases h with
  | declaration h => cases h; simp
  | function h => cases h; simp
  | assignment h => cases h; simp

end Slang.Grammar

namespace Slang.Parser

open Grammar

variable {α β : Type}

/-- **A reply that is right if it is a result**: the tokens that it takes and those that it leaves
are related to the result. -/
def Reply.Reads (R : List Token → List Token → α → Prop) (ts : List Token) (r : Reply α) : Prop :=
  ∀ a k, r = .ok a k → ∃ ls rs, ts = ls ++ rs ∧ ls.length = k ∧ R ls rs a

namespace Reply.Reads

/-- A reply without a result says nothing. -/
theorem fail {R : List Token → List Token → α → Prop} {ts : List Token} {f : Fault} {k : Nat} :
    Reads R ts (.fail f k) := by
  intro a k' h
  cases h

/-- A result that takes the tokens `ls`. -/
theorem ok {R : List Token → List Token → α → Prop} (ls : List Token) {rs : List Token} {a : α}
    (h : R ls rs a) : Reads R (ls ++ rs) (.ok a ls.length) := by
  intro a' k hk
  cases hk
  exact ⟨ls, rs, rfl, rfl, h⟩

/-- A weaker relation. -/
theorem imp {R S : List Token → List Token → α → Prop} {ts : List Token} {r : Reply α}
    (h : Reads R ts r) (hRS : ∀ ls rs a, R ls rs a → S ls rs a) : Reads S ts r := by
  intro a k hk
  obtain ⟨ls, rs, hts, hlen, ha⟩ := h a k hk
  exact ⟨ls, rs, hts, hlen, hRS ls rs a ha⟩

/-- The result is changed. -/
theorem map {R : List Token → List Token → β → Prop} {ts : List Token} {r : Reply α} {g : α → β}
    (h : Reads (fun ls rs a => R ls rs (g a)) ts r) : Reads R ts (r.map g) := by
  intro b k hk
  cases r with
  | fail f n => cases hk
  | ok a n =>
    obtain ⟨rfl, rfl⟩ := Reply.ok.inj hk
    exact h a n rfl

/-- Tokens taken before belong to what is read. -/
theorem shift {R : List Token → List Token → α → Prop} (pre : List Token) {ts : List Token}
    {r : Reply α} {n : Nat} (h : Reads (fun ls rs a => R (pre ++ ls) rs a) ts r)
    (hn : pre.length = n) : Reads R (pre ++ ts) (r.shift n) := by
  intro a k hk
  cases r with
  | fail f m => cases hk
  | ok b m =>
    obtain ⟨rfl, rfl⟩ := Reply.ok.inj hk
    obtain ⟨ls, rs, hts, hlen, hb⟩ := h b m rfl
    refine ⟨pre ++ ls, rs, ?_, ?_, hb⟩
    · rw [hts, List.append_assoc]
    · rw [List.length_append, hlen, hn]

/-- One reader after another. -/
theorem andThen {R : List Token → List Token → α → Prop} {S : List Token → List Token → β → Prop}
    {ts : List Token} {r : Reply α} {next : α → List Token → Reply β} (h : Reads R ts r)
    (hnext : ∀ ls rs a, R ls rs a → Reads (fun ls' rs' b => S (ls ++ ls') rs' b) rs (next a rs)) :
    Reads S ts (r.andThen ts next) := by
  cases r with
  | fail f k => exact fail
  | ok a k =>
    obtain ⟨ls, rs, hts, hlen, ha⟩ := h a k rfl
    have hdrop : ts.drop k = rs := by rw [hts, ← hlen, List.drop_left]
    change Reads S ts ((next a (ts.drop k)).shift k)
    rw [hdrop, hts]
    exact shift _ (hnext ls rs a ha) hlen

end Reply.Reads

open Reply (Reads)

/-! ### Single tokens -/

section Tokens

variable {eof : Token} {kind : Token.Kind} {ts : List Token}

/-- A kind of the next token that the end of the tokens does not have is that of a token. -/
theorem exists_of_headD_kind (heof : eof.kind = .eof) (hkind : kind ≠ .eof)
    (h : (ts.headD eof).kind = kind) : ∃ t rest, ts = t :: rest ∧ t.kind = kind := by
  cases ts with
  | nil => exact absurd (h.symm.trans heof) hkind
  | cons t rest => exact ⟨t, rest, rfl, h⟩

/-- There is a next token, of this kind. -/
theorem exists_of_nextIs (h : nextIs kind ts = true) :
    ∃ t rest, ts = t :: rest ∧ t.kind = kind := by
  cases ts with
  | nil => cases h
  | cons t rest => exact ⟨t, rest, rfl, eq_of_beq h⟩

/-- What is expected is one token. -/
theorem expect_reads (heof : eof.kind = .eof) (hkind : kind ≠ .eof) :
    Reads (fun ls _ _ => ∃ t, ls = [t] ∧ t.kind = kind) ts (expect eof kind ts) := by
  unfold expect
  dsimp only
  split
  · next h =>
    obtain ⟨t, rest, rfl, ht⟩ := exists_of_headD_kind heof hkind h
    exact Reads.ok [t] ⟨t, rfl, ht⟩
  · exact Reads.fail

/-- What is expected after a token is one token. -/
theorem expectSecond_reads (heof : eof.kind = .eof) (hkind : kind ≠ .eof) (s : Token) :
    Reads (fun ls _ t => ls = [s, t] ∧ t.kind = kind) (s :: ts)
      (expectSecond eof kind (s :: ts)) := by
  unfold expectSecond
  dsimp only [List.drop_succ_cons, List.drop_zero]
  split
  · next h =>
    obtain ⟨t, rest, rfl, ht⟩ := exists_of_headD_kind heof hkind h
    exact Reads.ok [s, t] ⟨rfl, ht⟩
  · exact Reads.fail

end Tokens

/-! ### Expressions -/

/-- **The next operator binds no more tightly than `level`**, or there is none. -/
def Ends (level : Level) (ts : List Token) : Prop :=
  ∀ t ∈ ts.head?, ∀ op, t.kind.binaryOp? = some op → op.level ≤ level

/-- No infix operator binds more tightly than a prefix operator. -/
theorem ends_unary (ts : List Token) : Ends Level.unary ts :=
  fun _ _ _ hop => Nat.le_of_lt (level_lt_unary hop)

/-- The stratum of what `expr` reads when operators have to bind more tightly than `level`. A prefix
operator may stand in front whatever the level. -/
def readStratum (level : Level) : Level := min (level + 1) Level.unary

/-- Nothing is read that binds tighter than a prefix needs. -/
theorem readStratum_le (level : Level) : readStratum level ≤ Level.unary := Nat.min_le_right _ _

/-- A literal with a value is a number that fits. -/
theorem int64?_eq_some {literal : Text} {i : Int} (h : int64? literal = some i) :
    ∃ n : Nat, literal.toNat? = some n ∧ n < 9223372036854775808 ∧ i = n := by
  unfold int64? at h
  split at h
  · next n hn =>
    split at h
    · next hlt => exact ⟨n, hn, hlt, (Option.some.inj h).symm⟩
    · cases h
  · cases h

/-- **A list in parentheses** from after the opening one: phrases with commas between them, and the
closing parenthesis. -/
def Listed (R : List Token → α → Prop) (ts : List Token) (as : List α) : Prop :=
  ∃ (parts : List (List Token × α)) (mid : List Token) (close : Token),
    ts = mid ++ [close] ∧ as = parts.map Prod.snd ∧ (∀ a ∈ parts, R a.1 a.2) ∧
      Separated (parts.map Prod.fst) mid ∧ close.kind = .rparen

namespace Listed

variable {R : List Token → α → Prop}

/-- An empty list has its closing bracket only. -/
theorem nil {close : Token} (hclose : close.kind = .rparen) : Listed R [close] [] :=
  ⟨[], [], close, rfl, rfl, fun _ h => absurd h List.not_mem_nil, .nil, hclose⟩

/-- A list with one member. -/
theorem single {ts : List Token} {a : α} {close : Token} (ha : R ts a)
    (hclose : close.kind = .rparen) : Listed R (ts ++ [close]) [a] := by
  refine ⟨[(ts, a)], ts, close, rfl, rfl, ?_, .single ts, hclose⟩
  intro b hb
  obtain rfl := List.mem_singleton.mp hb
  exact ha

/-- A further phrase in front of a list that is not empty. -/
theorem cons {ts us : List Token} {a : α} {as : List α} {comma : Token} (ha : R ts a)
    (hcomma : comma.kind = .comma) (hus : Listed R us as) (has : as ≠ []) :
    Listed R (ts ++ comma :: us) (a :: as) := by
  obtain ⟨parts, mid, close, rfl, rfl, hparts, hmid, hclose⟩ := hus
  cases parts with
  | nil => exact absurd rfl has
  | cons b parts =>
    refine ⟨(ts, a) :: b :: parts, ts ++ comma :: mid, close, ?_, rfl, ?_, .cons hcomma hmid,
      hclose⟩
    · rw [List.append_assoc, List.cons_append]
    · intro c hc
      rcases List.mem_cons.mp hc with rfl | hc
      · exact ha
      · exact hparts c hc

/-- The last phrase of a list, and the parenthesis after it. -/
theorem reads_last {ts rest : List Token} {a : α} {close : Token} (ha : R ts a)
    (hclose : close.kind = .rparen) :
    Reads (fun ls _ as => Listed R ls as ∧ as ≠ []) (ts ++ close :: rest)
      (.ok [a] (ts.length + 1)) := by
  have hlen : ts.length + 1 = (ts ++ [close]).length := by simp
  rw [← List.singleton_append, ← List.append_assoc, hlen]
  exact Reads.ok _ ⟨single ha hclose, by simp⟩

/-- A phrase of a list, a comma, and the rest of the list. -/
theorem reads_more {ts rest : List Token} {a : α} {comma : Token} {r : Reply (List α)} (ha : R ts a)
    (hcomma : comma.kind = .comma)
    (h : Reads (fun ls _ as => Listed R ls as ∧ as ≠ []) rest r) :
    Reads (fun ls _ as => Listed R ls as ∧ as ≠ []) (ts ++ comma :: rest)
      ((r.map (a :: ·)).shift (ts.length + 1)) := by
  rw [← List.singleton_append, ← List.append_assoc]
  refine Reads.shift _ (Reads.map ?_) (by simp)
  refine h.imp fun us _ as has => ?_
  rw [List.append_assoc, List.singleton_append]
  exact ⟨cons ha hcomma has.1 has.2, by simp⟩

end Listed

mutual

/-- **An operand is read as the grammar has it.** -/
theorem operand_reads {eof : Token} (heof : eof.kind = .eof) (ts : List Token) :
    Reads (fun ls _ e => Stratum Level.unary ls e) ts (operand eof ts) := by
  rw [operand.eq_def]
  rcases hts : ts with _ | ⟨t, rest⟩
  · exact Reads.fail
  · have hlt : rest.length < ts.length := by simp [hts]
    -- a token on its own is a phrase of the tightest stratum
    have leaf : ∀ e : Expr, Stratum Level.call [t] e →
        Reads (fun ls _ e => Stratum Level.unary ls e) (t :: rest) (.ok e 1) :=
      fun e he => Reads.ok [t] (.tighter (by decide) he)
    -- a prefix operator and its operand
    have unary : ∀ op, unaryOp? t.kind = some op →
        Reads (fun ls _ e => Stratum Level.unary ls e) (t :: rest)
          (((expr eof Level.unary rest).map (.unary t op)).shift 1) := by
      intro op hop
      refine Reads.shift [t] (Reads.map ?_) rfl
      refine (expr_reads heof Level.unary rest).imp fun ls rs e h => ?_
      exact .unary hop h.1
    dsimp only
    split
    · next ht => exact leaf _ (.name ht)
    · next ht =>
      split
      · next i hi =>
        -- a literal that was read is in range, as the grammar asks
        obtain ⟨n, hn, hlt, rfl⟩ := int64?_eq_some hi
        exact leaf _ (.int ht hn hlt)
      · exact Reads.fail
    · next ht => exact leaf _ (.str ht)
    · next ht => exact leaf _ (.kwTrue ht)
    · next ht => exact leaf _ (.kwFalse ht)
    · next ht =>
      -- an expression in parentheses: the operators inside may bind as loosely as they like
      refine Reads.shift [t] ?_ rfl
      refine (expr_reads heof Level.lowest rest).andThen fun ls rs e h => Reads.map ?_
      refine (expect_reads heof (by decide)).imp fun ls' rs' _ hclose => ?_
      obtain ⟨close, rfl, hclose⟩ := hclose
      exact .tighter (by decide) (.group ht h.1 hclose)
    · next ht => exact unary _ (by rw [ht]; rfl)
    · next ht => exact unary _ (by rw [ht]; rfl)
    · exact Reads.fail
    · exact Reads.fail
termination_by 4 * ts.length
decreasing_by all_goals (try simp only [List.length_cons]); omega

/-- **An expression is read as the grammar has it**, and as far as its level goes. -/
theorem expr_reads {eof : Token} (heof : eof.kind = .eof) (level : Level) (ts : List Token) :
    Reads (fun ls rs e => Stratum (readStratum level) ls e ∧ Ends level rs) ts
      (expr eof level ts) := by
  rw [expr.eq_def]
  split
  · exact Reads.fail
  · next e k hk =>
    obtain ⟨ls, rs, hts, hlen, he⟩ := operand_reads heof ts e k hk
    have hle : rs.length ≤ ts.length := by simp [hts]
    rw [hts, ← hlen, List.drop_left]
    -- the loop starts from an operand, and no operator binds more tightly than that
    exact Reads.shift _ (extend_reads heof level e rs he (readStratum_le level) (ends_unary rs)) rfl
termination_by 4 * ts.length + 2
decreasing_by all_goals omega

/-- **What an expression is extended to is read as the grammar has it.** -/
theorem extend_reads {eof : Token} (heof : eof.kind = .eof) (level : Level) (left : Expr)
    (ts : List Token) {n : Level} {pre : List Token} (hleft : Stratum n pre left)
    (hn : readStratum level ≤ n) (hends : Ends n ts) :
    Reads (fun ls rs e => Stratum (readStratum level) (pre ++ ls) e ∧ Ends level rs) ts
      (extend eof level left ts) := by
  rw [extend.eq_def]
  -- what was read so far is the whole expression
  have stop : Ends level ts →
      Reads (fun ls rs e => Stratum (readStratum level) (pre ++ ls) e ∧ Ends level rs) ts
        (.ok left 0) := by
    intro h
    refine Reads.ok [] ⟨?_, h⟩
    rw [List.append_nil]
    exact hleft.loosen hn
  rcases hts : ts with _ | ⟨t, rest⟩
  · rw [hts] at stop
    exact stop fun t ht => by cases ht
  · rw [hts] at stop hends
    have hlt : rest.length < ts.length := by simp [hts]
    dsimp only
    split
    · next op hop =>
      split
      · next hlevel =>
        split
        · exact Reads.fail
        · next right k hk =>
          obtain ⟨ls, rs, hrest, hlen, hright, hends'⟩ := expr_reads heof op.level rest right k hk
          have hle : rs.length ≤ rest.length := by simp [hrest]
          rw [hrest, ← hlen, List.drop_left]
          -- the operands fit the operator: the left one by the invariant, the right one as read
          have hl : Stratum op.level pre left := hleft.loosen (hends t rfl op hop)
          have hr : Stratum (op.level + 1) ls right := by
            rwa [readStratum, Nat.min_eq_left (level_lt_unary hop)] at hright
          have hstratum : readStratum level ≤ op.level :=
            Nat.le_trans (Nat.min_le_left _ _) hlevel
          refine Reads.shift (t :: ls) ?_ rfl
          -- the invariant for the next turn, with the level of this operator as the stratum
          refine (extend_reads heof level _ rs (.binary hop hl hr) hstratum hends').imp ?_
          intro ls' rs' e h
          simpa using h
      · next hlevel =>
        -- the operator is too loose and left to whoever asked for this expression
        refine stop fun t' ht' op' hop' => ?_
        obtain rfl := Option.some.inj ht'
        obtain rfl := Option.some.inj (hop.symm.trans hop')
        exact Nat.le_of_not_lt hlevel
    · next hop =>
      have hstop : Ends level (t :: rest) := by
        intro t' ht' op' hop'
        obtain rfl := Option.some.inj ht'
        exact absurd (hop.symm.trans hop') (by simp)
      split
      · next hcall =>
        split
        · next callee hcallee =>
          split
          · exact Reads.fail
          · next args k hk =>
            obtain ⟨ls, rs, hrest, hlen, hargs⟩ := arguments_reads heof rest args k hk
            have hle : rs.length ≤ rest.length := by simp [hrest]
            rw [hrest, ← hlen, List.drop_left]
            obtain ⟨parts, mid, close, rfl, rfl, hparts, hmid, hclose⟩ := hargs
            -- a call is an operand again, so the loop goes on as it started
            have hnew := Stratum.call (hleft.callee hcallee) hcall.1 hparts hmid hclose
            refine Reads.shift (t :: (mid ++ [close])) ?_ rfl
            refine (extend_reads heof level _ rs (hnew.loosen (m := Level.unary) (by decide))
              (readStratum_le level) (ends_unary rs)).imp ?_
            intro ls' rs' e h
            simpa using h
        · exact Reads.fail
      · exact stop hstop
termination_by 4 * ts.length + 1
decreasing_by all_goals omega

/-- Arguments are read as the grammar has them. -/
theorem arguments_reads {eof : Token} (heof : eof.kind = .eof) (ts : List Token) :
    Reads (fun ls _ es => Listed Expression ls es) ts (arguments eof ts) := by
  rw [arguments.eq_def]
  split
  · next h =>
    obtain ⟨close, rest, rfl, hclose⟩ := exists_of_nextIs h
    exact Reads.ok [close] (.nil hclose)
  · exact (moreArguments_reads heof ts).imp fun _ _ _ h => h.1
termination_by 4 * ts.length + 4

/-- Arguments are read one by one. -/
theorem moreArguments_reads {eof : Token} (heof : eof.kind = .eof) (ts : List Token) :
    Reads (fun ls _ es => Listed Expression ls es ∧ es ≠ []) ts (moreArguments eof ts) := by
  rw [moreArguments.eq_def]
  split
  · exact Reads.fail
  · next e k hk =>
    -- an argument, and then a comma with more of them or the bracket that closes
    obtain ⟨ls, rs, hts, hlen, he, -⟩ := expr_reads heof Level.lowest ts e k hk
    split
    · exact Reads.fail
    · next t rest hrest =>
      obtain rfl : rs = t :: rest := by rw [← hrest, hts, ← hlen, List.drop_left]
      have hlt : rest.length < ts.length := by simp [hts]; omega
      rw [hts, ← hlen]
      dsimp only
      split
      · next hcomma =>
        split
        · exact Reads.fail
        · exact Listed.reads_more he hcomma (moreArguments_reads heof rest)
      · split
        · next hclose => exact Listed.reads_last he hclose
        · exact Reads.fail
termination_by 4 * ts.length + 3
decreasing_by all_goals omega

end

/-! ### Parts of statements -/

section Statements

variable {eof : Token}

/-- The name of a type is read. -/
theorem typeNode_reads (heof : eof.kind = .eof) (ts : List Token) :
    Reads (fun ls _ type => ∃ t, ls = [t] ∧ TypeName t type) ts (typeNode eof ts) := by
  unfold typeNode
  dsimp only
  split
  · next hkind =>
    obtain ⟨t, rest, rfl, ht⟩ :=
      exists_of_headD_kind heof (by decide : Token.Kind.typeLiteral ≠ .eof) (eq_of_beq hkind)
    split
    · next ty hty => exact Reads.ok [t] ⟨t, rfl, .mk ht hty⟩
    · exact Reads.fail
  · exact Reads.fail

/-- A type that may be left out is read. -/
theorem optionalType_reads (heof : eof.kind = .eof) (ts : List Token) :
    Reads (fun ls _ type => OptionalType ls type) ts (optionalType eof ts) := by
  unfold optionalType
  split
  · next h =>
    obtain ⟨colon, rest, rfl, hcolon⟩ := exists_of_nextIs h
    refine Reads.shift [colon] (Reads.map ?_) rfl
    refine (typeNode_reads heof rest).imp fun ls _ type htype => ?_
    obtain ⟨t, rfl, ht⟩ := htype
    exact .written hcolon ht
  · exact Reads.ok [] .absent

/-- A value that may be left out is read. -/
theorem optionalValue_reads (heof : eof.kind = .eof) (ts : List Token) :
    Reads (fun ls _ value => OptionalValue ls value) ts (optionalValue eof ts) := by
  unfold optionalValue
  split
  · next h =>
    obtain ⟨sign, rest, rfl, hsign⟩ := exists_of_nextIs h
    refine Reads.shift [sign] (Reads.map ?_) rfl
    exact (expr_reads heof Level.lowest rest).imp fun ls _ e he => .written hsign he.1
  · exact Reads.ok [] .absent

/-! ### Statements -/

/-- **A statement that is right if nothing is reported**: the tokens that it takes are related to
it. -/
def Parsed.Reads (R : List Token → Stmt → Prop) (ts : List Token) (p : Parsed Stmt) : Prop :=
  p.faults = [] → ∃ s ls rs, p.node = some s ∧ ts = ls ++ rs ∧ ls.length = p.taken ∧ R ls s

namespace Parsed.Reads

/-- A weaker relation. -/
theorem imp {R S : List Token → Stmt → Prop} {ts : List Token} {p : Parsed Stmt}
    (h : Parsed.Reads R ts p) (hRS : ∀ ls s, R ls s → S ls s) : Parsed.Reads S ts p := by
  intro hp
  obtain ⟨s, ls, rs, hnode, hts, hlen, hs⟩ := h hp
  exact ⟨s, ls, rs, hnode, hts, hlen, hRS ls s hs⟩

/-- A statement that is dropped has been reported. -/
theorem of_faults {R : List Token → Stmt → Prop} {ts : List Token} {p : Parsed Stmt}
    (h : p.faults ≠ []) : Parsed.Reads R ts p :=
  fun hp => absurd hp h

/-- **A statement without errors ends with a semicolon.** -/
theorem finish {R : List Token → Stmt → Prop} (pre : List Token) {rest : List Token} {node : Stmt}
    {faults : List Fault} {k : Nat} (heof : eof.kind = .eof) (hk : pre.length = k)
    (h : faults = [] → ∀ semi : Token, semi.kind = .semicolon → R (pre ++ [semi]) node) :
    Parsed.Reads R (pre ++ rest) (finish eof (pre ++ rest) node faults k) := by
  have hdrop : (pre ++ rest).drop k = rest := by rw [← hk, List.drop_left]
  unfold Parser.finish
  rw [hdrop]
  split
  · -- the semicolon is there; without it there would be an error
    next n hn =>
    obtain ⟨ls, rs, rfl, hlen, semi, rfl, hsemi⟩ := expect_reads heof (by decide) () n hn
    intro hfaults
    refine ⟨node, pre ++ [semi], rs, rfl, ?_, ?_, h hfaults semi hsemi⟩
    · rw [List.append_assoc]
    · rw [List.length_append, hk, hlen]
  · refine of_faults ?_
    simp [Parsed.dropped]

end Parsed.Reads

/-- A let statement without errors is a declaration. -/
theorem letStmt_reads (heof : eof.kind = .eof) {t : Token} (rest : List Token)
    (ht : t.kind = .kwLet) : Parsed.Reads Declaration (t :: rest) (letStmt eof t rest) := by
  unfold letStmt
  dsimp only
  split
  · exact Parsed.Reads.of_faults (by simp [Parsed.dropped])
  · next name type value k hk =>
    have hread : Reads (fun ls _ (x : Token × Option TypeNode × Option Expr) =>
        ∃ ts us, ls = t :: x.1 :: (ts ++ us) ∧ x.1.kind = .ident ∧ OptionalType ts x.2.1 ∧
          OptionalValue us x.2.2) (t :: rest)
        ((expectSecond eof .ident (t :: rest)).andThen (t :: rest) fun name rest =>
          (optionalType eof rest).andThen rest fun type rest =>
            (optionalValue eof rest).map fun value => (name, type, value)) := by
      refine (expectSecond_reads heof (by decide) t).andThen ?_
      rintro _ rs name ⟨rfl, hname⟩
      refine (optionalType_reads heof rs).andThen fun ts rs' type htype => Reads.map ?_
      exact (optionalValue_reads heof rs').imp fun us _ value hvalue =>
        ⟨ts, us, rfl, hname, htype, hvalue⟩
    obtain ⟨ls, rs, hts, hlen, ts, us, rfl, hname, htype, hvalue⟩ := hread _ k hk
    rw [hts]
    refine Parsed.Reads.finish _ heof hlen fun hfaults semi hsemi => ?_
    -- a declaration with neither would have been reported
    have hone : type.isSome ∨ value.isSome := by
      cases type with
      | some _ => exact .inl rfl
      | none =>
        cases value with
        | some _ => exact .inr rfl
        | none => simp at hfaults
    have := Declaration.mk ht hname htype hvalue hone hsemi
    simpa using this

/-- An assignment without errors is one. -/
theorem assignStmt_reads (heof : eof.kind = .eof) {name sign : Token} (rest : List Token)
    (hname : name.kind = .ident) (hsign : sign.kind = .assign) :
    Parsed.Reads Assignment (name :: sign :: rest) (assignStmt eof name sign rest) := by
  unfold assignStmt
  dsimp only
  split
  · exact Parsed.Reads.of_faults (by simp [Parsed.dropped])
  · next e k hk =>
    -- the value stands behind two tokens
    have hread : Reads (fun ls _ e => ∃ ts, ls = name :: sign :: ts ∧ Expression ts e)
        (name :: sign :: rest) ((expr eof Level.lowest rest).shift 2) := by
      refine Reads.shift [name, sign] ?_ rfl
      exact (expr_reads heof Level.lowest rest).imp fun ls _ e he => ⟨ls, rfl, he.1⟩
    obtain ⟨_, rs, hts, hlen, ts, rfl, he⟩ := hread e k hk
    rw [hts]
    exact Parsed.Reads.finish _ heof hlen fun _ semi hsemi => .mk hname hsign he hsemi

/-- A return statement without errors is one. -/
theorem returnStmt_reads (heof : eof.kind = .eof) {t : Token} (depth : Nat) (rest : List Token)
    (ht : t.kind = .kwReturn) :
    Parsed.Reads Statement (t :: rest) (returnStmt eof depth t rest) := by
  unfold returnStmt
  dsimp only
  split
  · exact Parsed.Reads.finish [t] heof rfl fun _ semi hsemi => .ret ht .absent hsemi
  · split
    · exact Parsed.Reads.of_faults (by simp [Parsed.dropped])
    · next e k hk =>
      -- the value stands behind one token
      have hread : Reads (fun ls _ e => ∃ ts, ls = t :: ts ∧ Expression ts e) (t :: rest)
          ((expr eof Level.lowest rest).shift 1) := by
        refine Reads.shift [t] ?_ rfl
        exact (expr_reads heof Level.lowest rest).imp fun ls _ e he => ⟨ls, rfl, he.1⟩
      obtain ⟨_, rs, hts, hlen, ts, rfl, he⟩ := hread e k hk
      rw [hts]
      exact Parsed.Reads.finish _ heof hlen fun _ semi hsemi => .ret ht (.written he) hsemi

/-- An expression that stands as a statement is one. -/
theorem exprStmt_reads (heof : eof.kind = .eof) (t : Token) (rest : List Token) :
    Parsed.Reads Statement (t :: rest) (exprStmt eof t rest) := by
  unfold exprStmt
  dsimp only
  split
  · exact Parsed.Reads.of_faults (by simp [Parsed.dropped])
  · next e k hk =>
    obtain ⟨ls, rs, hts, hlen, he, -⟩ := expr_reads heof Level.lowest (t :: rest) e k hk
    -- the expression takes at least the token that names the statement
    obtain ⟨us, rfl⟩ : ∃ us, ls = t :: us := by
      cases ls with
      | nil => exact absurd rfl he.ne_nil
      | cons u us =>
        obtain rfl : t = u := (List.cons.inj hts).1
        exact ⟨us, rfl⟩
    rw [hts]
    exact Parsed.Reads.finish _ heof hlen fun _ semi hsemi => .expr he hsemi

/-- A sequence of statements with the closing brace. -/
def StatementList (ts : List Token) (ss : List Stmt) : Prop :=
  ∃ (parts : List (List Token × Stmt)) (close : Token),
    ts = parts.flatMap Prod.fst ++ [close] ∧ ss = parts.map Prod.snd ∧
      (∀ s ∈ parts, Statement s.1 s.2) ∧ close.kind = .rbrace

/-- No statements, and the brace that closes. -/
theorem StatementList.nil {close : Token} (hclose : close.kind = .rbrace) :
    StatementList [close] [] :=
  ⟨[], close, rfl, rfl, fun _ h => absurd h List.not_mem_nil, hclose⟩

/-- A statement before others. -/
theorem StatementList.cons {ts us : List Token} {s : Stmt} {ss : List Stmt} (hs : Statement ts s)
    (hss : StatementList us ss) : StatementList (ts ++ us) (s :: ss) := by
  obtain ⟨parts, close, rfl, rfl, hparts, hclose⟩ := hss
  refine ⟨(ts, s) :: parts, close, ?_, rfl, ?_, hclose⟩
  · rw [List.flatMap_cons, List.append_assoc]
  · intro a ha
    rcases List.mem_cons.mp ha with rfl | ha
    · exact hs
    · exact hparts a ha

mutual

/-- **A statement without errors is read as the grammar has it.** -/
theorem statement_reads {eof : Token} (heof : eof.kind = .eof) (depth : Nat) (ts : List Token) :
    Parsed.Reads Statement ts (statement eof depth ts) := by
  rw [statement.eq_def]
  rcases hts : ts with _ | ⟨t, rest⟩
  · exact Parsed.Reads.of_faults (by simp [exprStmt, expr, operand, Parsed.dropped, heof])
  · have hlt : rest.length < ts.length := by simp [hts]
    dsimp only
    split
    · next ht => exact (letStmt_reads heof rest ht).imp fun _ _ h => .declaration h
    · next ht => exact returnStmt_reads heof depth rest ht
    · next ht =>
      -- a block has the errors of its statements and no others
      intro hfaults
      obtain ⟨hclosed, ls, rs, hrest, hlen, parts, close, rfl, hss, hparts, hclose⟩ :=
        body_reads heof depth rest hfaults
      refine ⟨.block t (parts.map Prod.snd), t :: (parts.flatMap Prod.fst ++ [close]), rs, ?_, ?_,
        ?_, .block ht hparts hclose⟩
      · simp [Body.block, hclosed, hss]
      · rw [hrest, List.cons_append]
      · rw [List.length_cons, hlen]
        rfl
    · exact Parsed.Reads.of_faults (by simp)
    · next ht =>
      -- a name: what comes after it tells an assignment from an expression
      split
      · next sign rest' =>
        split
        · next hsign => exact (assignStmt_reads heof rest' ht hsign).imp fun _ _ h => .assignment h
        · exact exprStmt_reads heof t _
      · exact exprStmt_reads heof t _
    · exact exprStmt_reads heof t rest
termination_by 2 * ts.length
decreasing_by all_goals (try simp only [List.length_cons]); omega

/-- **A body without errors is closed, and its statements are read as the grammar has them.** -/
theorem body_reads {eof : Token} (heof : eof.kind = .eof) (depth : Nat) (ts : List Token)
    (hfaults : (body eof depth ts).faults = []) :
    (body eof depth ts).closed = true ∧ ∃ ls rs, ts = ls ++ rs ∧
      ls.length = (body eof depth ts).taken ∧ StatementList ls (body eof depth ts).stmts := by
  rw [body.eq_def] at hfaults ⊢
  rcases hts : ts with _ | ⟨t, rest⟩
  · rw [hts] at hfaults
    simp at hfaults
  · have hlt : rest.length < ts.length := by simp [hts]
    rw [hts] at hfaults
    dsimp only at hfaults ⊢
    split at hfaults
    · next hclose =>
      rw [if_pos hclose]
      exact ⟨rfl, [t], rest, rfl, rfl, .nil hclose⟩
    · next hclose =>
      rw [if_neg hclose]
      obtain ⟨hfirst, hothers⟩ := List.append_eq_nil_iff.mp hfaults
      obtain ⟨s, ls, rs, hnode, hsplit, hlen, hs⟩ := statement_reads heof depth (t :: rest) hfirst
      -- a statement takes at least one token, so the bound from below plays no part
      have hpos : 0 < ls.length := List.length_pos_iff.mpr hs.ne_nil
      have hmax : max (statement eof depth (t :: rest)).taken 1 = ls.length := by omega
      have hdrop : (t :: rest).drop ls.length = rs := by rw [hsplit, List.drop_left]
      have hrs : rs.length < ts.length := by simp [hts, hsplit]; omega
      rw [hmax, hdrop] at hothers ⊢
      obtain ⟨hclosed, us, vs, hrs', hlen', hss⟩ := body_reads heof depth rs hothers
      refine ⟨hclosed, ls ++ us, vs, ?_, ?_, ?_⟩
      · rw [hsplit, hrs', List.append_assoc]
      · rw [List.length_append, hlen']
      · rw [hnode]
        exact .cons hs hss
termination_by 2 * ts.length + 1
decreasing_by all_goals (try simp only [List.length_cons]); omega

end

/-! ### Functions and programs -/

/-- A parameter is read as the grammar has it. -/
theorem parameter_reads (heof : eof.kind = .eof) (ts : List Token) :
    Reads (fun ls _ p => Parameter ls p) ts (parameter eof ts) := by
  unfold parameter
  dsimp only
  split
  · next h =>
    obtain ⟨name, rest, rfl, hname⟩ := exists_of_headD_kind heof (by decide) h
    refine (expectSecond_reads heof (by decide) name).andThen ?_
    rintro _ rs colon ⟨rfl, hcolon⟩
    refine Reads.map ((typeNode_reads heof rs).imp fun ls _ type htype => ?_)
    obtain ⟨t, rfl, ht⟩ := htype
    exact .mk hname hcolon ht
  · exact Reads.fail

/-- Parameters are read one by one. -/
theorem moreParameters_reads (heof : eof.kind = .eof) (ts : List Token) :
    Reads (fun ls _ ps => Listed Parameter ls ps ∧ ps ≠ []) ts (moreParameters eof ts) := by
  rw [moreParameters.eq_def]
  split
  · exact Reads.fail
  · next p k hk =>
    -- the same argument as for the arguments of a call
    obtain ⟨ls, rs, hts, hlen, hp⟩ := parameter_reads heof ts p k hk
    split
    · exact Reads.fail
    · next t rest hrest =>
      obtain rfl : rs = t :: rest := by rw [← hrest, hts, ← hlen, List.drop_left]
      have hlt : rest.length < ts.length := by simp [hts]; omega
      rw [hts, ← hlen]
      dsimp only
      split
      · next hcomma =>
        split
        · exact Reads.fail
        · exact Listed.reads_more hp hcomma (moreParameters_reads heof rest)
      · split
        · next hclose => exact Listed.reads_last hp hclose
        · exact Reads.fail
termination_by ts.length

/-- Parameters are read as the grammar has them. -/
theorem parameters_reads (heof : eof.kind = .eof) (ts : List Token) :
    Reads (fun ls _ ps => Listed Parameter ls ps) ts (parameters eof ts) := by
  unfold parameters
  split
  · next h =>
    obtain ⟨close, rest, rfl, hclose⟩ := exists_of_nextIs h
    exact Reads.ok [close] (.nil hclose)
  · exact (moreParameters_reads heof ts).imp fun _ _ _ h => h.1

/-- A body begins with a brace. -/
theorem openBrace_reads (heof : eof.kind = .eof) (name : Token) (ts : List Token) :
    Reads (fun ls _ t => ls = [t] ∧ t.kind = .lbrace) ts (openBrace eof name ts) := by
  unfold openBrace
  dsimp only
  split
  · next h =>
    obtain ⟨t, rest, rfl, ht⟩ := exists_of_headD_kind heof (by decide) h
    exact Reads.ok [t] ⟨rfl, ht⟩
  · exact Reads.fail

/-- What a function says before its body, with the opening brace. -/
inductive Head (t : Token) : List Token → FnHead × Token → Prop
  | mk {name lparen brace : Token} {ts us : List Token} {type : Option TypeNode}
      {params : List ParamDecl} (hname : name.kind = .ident) (hlparen : lparen.kind = .lparen)
      (hparams : Listed Parameter ts params) (htype : OptionalType us type)
      (hbrace : brace.kind = .lbrace) :
      Head t (t :: name :: lparen :: (ts ++ (us ++ [brace])))
        (⟨t, ⟨name, name.literal⟩, params, type⟩, brace)

/-- The head of a function is read as the grammar has it. -/
theorem fnHead_reads (heof : eof.kind = .eof) (t : Token) (rest : List Token) :
    Reads (fun ls _ x => Head t ls x) (t :: rest) (fnHead eof t rest) := by
  unfold fnHead
  dsimp only
  split
  · exact Reads.fail
  · next name k hk =>
    -- the name is read ahead of the rest, which starts over at the name
    obtain ⟨_, rs, hts, -, rfl, hname⟩ := expectSecond_reads heof (by decide) t name k hk
    obtain rfl : rest = name :: rs := (List.cons.inj hts).2
    refine Reads.shift [t] ?_ rfl
    refine (expectSecond_reads heof (by decide) name).andThen ?_
    rintro _ rs lparen ⟨rfl, hlparen⟩
    refine (parameters_reads heof rs).andThen fun ts rs params hparams => ?_
    refine (optionalType_reads heof rs).andThen fun us rs type htype => Reads.map ?_
    refine (openBrace_reads heof name rs).imp ?_
    rintro _ _ brace ⟨rfl, hbrace⟩
    exact .mk hname hlparen hparams htype hbrace

/-- **A function without errors is read as the grammar has it.** -/
theorem function_reads (heof : eof.kind = .eof) (depth : Nat) {t : Token} (rest : List Token)
    (ht : t.kind = .kwFn) : Parsed.Reads Function (t :: rest) (function eof depth t rest) := by
  unfold function
  dsimp only
  split
  · exact Parsed.Reads.of_faults (by simp [Parsed.droppedFunction])
  · next head brace k hk =>
    obtain ⟨ls, rs, hts, hlen, hhead⟩ := fnHead_reads heof t rest _ k hk
    have hdrop : (t :: rest).drop k = rs := by rw [hts, ← hlen, List.drop_left]
    -- the head takes its tokens, and the body begins behind them
    rw [hdrop]
    intro hfaults
    obtain ⟨hclosed, us, vs, hrs, hlen', parts, close, rfl, hss, hparts, hclose⟩ :=
      body_reads heof (depth + 1) rs hfaults
    refine ⟨_, ls ++ (parts.flatMap Prod.fst ++ [close]), vs, if_pos hclosed, ?_, ?_, ?_⟩
    · rw [hts, hrs, List.append_assoc ls]
    · rw [List.length_append, hlen, hlen']
    · rw [hss]
      cases hhead with
      | mk hname hlparen hparams htype hbrace =>
        obtain ⟨params, mid, rparen, rfl, rfl, hparams, hmid, hrparen⟩ := hparams
        have := Function.mk ht hname hlparen hparams hmid hrparen htype hbrace hparts hclose
        simpa using this

/-- A statement of the top level without errors is read as the grammar has it. -/
theorem topLevel_reads (heof : eof.kind = .eof) (t : Token) (rest : List Token) :
    Parsed.Reads TopLevel (t :: rest) (topLevel eof t rest) := by
  unfold topLevel
  dsimp only
  -- by the kind of the first token; a name also needs the second one
  split
  · next ht => exact (letStmt_reads heof rest ht).imp fun _ _ h => .declaration h
  · next ht => exact (function_reads heof 0 rest ht).imp fun _ _ h => .function h
  · next ht =>
    split
    · next sign rest' =>
      split
      · next hsign => exact (assignStmt_reads heof rest' ht hsign).imp fun _ _ h => .assignment h
      · exact Parsed.Reads.of_faults (by simp [Parsed.dropped])
    · exact Parsed.Reads.of_faults (by simp [Parsed.dropped])
  · exact Parsed.Reads.of_faults (by simp [Parsed.dropped])
  · exact Parsed.Reads.of_faults (by simp [Parsed.dropped])

/-- **A program that is read without errors is derived from its tokens.** -/
theorem program_derived (heof : eof.kind = .eof) (ts : List Token)
    (h : (program eof ts).faults = []) : Grammar.Program ts (program eof ts).program := by
  rw [program.eq_def] at h ⊢
  rcases hts : ts with _ | ⟨t, rest⟩
  · exact .nil
  · rw [hts] at h
    dsimp only at h ⊢
    obtain ⟨hfirst, hothers⟩ := List.append_eq_nil_iff.mp h
    obtain ⟨s, ls, rs, hnode, hsplit, hlen, hs⟩ := topLevel_reads heof t rest hfirst
    -- as in a body, a statement takes at least one token
    have hpos : 0 < ls.length := List.length_pos_iff.mpr hs.ne_nil
    have hmax : max (topLevel eof t rest).taken 1 = ls.length := by omega
    have hdrop : (t :: rest).drop ls.length = rs := by rw [hsplit, List.drop_left]
    have hrs : rs.length < ts.length := by simp [hts, hsplit]; omega
    rw [hmax, hdrop] at hothers ⊢
    rw [hsplit, hnode]
    exact .cons hs (program_derived heof rs hothers)
termination_by ts.length

end Statements

end Slang.Parser
