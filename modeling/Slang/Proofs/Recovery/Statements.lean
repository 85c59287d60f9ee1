import Slang.Proofs.Recovery.Reading

/-!
# Statements up to a border

A statement with an error is dropped, and reading goes on where `resync` says. What a statement
takes is therefore known from the tokens `ts` before a stop `s` alone if `resync` never has to look
past the stop: then `ts` and `s` are a **border** (`Border`), and no statement that starts with `ts`
depends on what follows.

Two borders are used. The tokens of one statement and its semicolon are one, and a statement takes
all of them (`border_semicolon`). What stands before a closing brace is another, and a statement
stays before the brace (`border_rbrace`), which is why the body of a function ends where its brace
is (`body_stays`).
-/

namespace Slang.Parser

open Reply (Stays)

variable {eof eof' s t : Token} {ts pre rest rest' : List Token} {E : Nat → Prop}

/-- **A place that recovery does not look past**: with an error after any number of the tokens
`ts`, or at their end, what is passed over in all is a number of which `E` holds, whatever comes
after the stop. -/
structure Border (ts : List Token) (s : Token) (E : Nat → Prop) : Prop where
  recovers : ∀ k ≤ ts.length, ∃ n, E (k + n) ∧ ∀ rest, resync (ts.drop k ++ s :: rest) = n
  ends : ∀ k ≤ ts.length, ((ts.drop k).headD s).kind = .semicolon → E (k + 1)

/-- **The same statement**, which takes a number of tokens of which `E` holds. -/
structure Parsed.Stays (E : Nat → Prop) (p p' : Parsed Stmt) : Prop where
  same : p' = p
  ends : E p.taken

/-! ### The two borders -/

/-- Recovery ends with the semicolon if no declaration starts before it. -/
theorem resync_semicolon (hs : s.kind = .semicolon) (rest : List Token) :
    ∀ ts : List Token, (∀ t ∈ ts, t.kind ≠ .semicolon ∧ t.kind ≠ .rbrace) →
      (∀ t ∈ ts.tail, t.kind ≠ .kwLet ∧ t.kind ≠ .kwFn) →
      resync (ts ++ s :: rest) = ts.length + 1
  | [], _, _ => by rw [List.nil_append, resync, if_pos hs]; rfl
  | t :: ts, hends, hstarts => by
    have hdecl : atDeclaration (ts ++ s :: rest) = false := by
      rw [atDeclaration, nextIs_stop, nextIs_stop]
      cases ts with
      | nil => rw [List.headD_nil, hs]; rfl
      | cons u us =>
        obtain ⟨hlet, hfn⟩ := hstarts u List.mem_cons_self
        rw [List.headD_cons, beq_eq_false_iff_ne.mpr hlet, beq_eq_false_iff_ne.mpr hfn]
        rfl
    obtain ⟨hsemi, hclose⟩ := hends t List.mem_cons_self
    rw [List.cons_append, resync, if_neg hsemi, if_neg hclose, hdecl, if_neg Bool.false_ne_true,
      resync_semicolon hs rest ts (fun u hu => hends u (List.mem_cons_of_mem t hu))
        fun u hu => hstarts u (List.mem_of_mem_tail hu)]
    rfl

/-- Recovery stays before a closing brace. -/
theorem exists_resync_rbrace (hs : s.kind = .rbrace) :
    ∀ ts : List Token, ∃ n ≤ ts.length, ∀ rest, resync (ts ++ s :: rest) = n
  | [] => by
    refine ⟨0, Nat.le_refl 0, fun rest => ?_⟩
    rw [List.nil_append, resync, if_neg (by rw [hs]; decide), if_pos hs]
  | t :: ts => by
    obtain ⟨n, hn, hresync⟩ := exists_resync_rbrace hs ts
    have hpos : 1 ≤ (t :: ts).length := Nat.succ_le_succ (Nat.zero_le _)
    -- whether a declaration comes next is seen at the next token, or at the brace
    have hdecl : ∀ rest, atDeclaration (ts ++ s :: rest) =
        ((ts.headD s).kind == .kwLet || (ts.headD s).kind == .kwFn) := fun rest => by
      rw [atDeclaration, nextIs_stop, nextIs_stop]
    simp only [List.cons_append, resync, hdecl, hresync]
    split_ifs
    · exact ⟨1, hpos, fun _ => rfl⟩
    · exact ⟨0, Nat.zero_le _, fun _ => rfl⟩
    · exact ⟨1, hpos, fun _ => rfl⟩
    · exact ⟨n + 1, Nat.succ_le_succ hn, fun _ => rfl⟩

theorem border_semicolon (hs : s.kind = .semicolon)
    (hends : ∀ t ∈ ts, t.kind ≠ .semicolon ∧ t.kind ≠ .rbrace)
    (hstarts : ∀ t ∈ ts.tail, t.kind ≠ .kwLet ∧ t.kind ≠ .kwFn) :
    Border ts s (· = ts.length + 1) where
  recovers k hk := by
    refine ⟨(ts.drop k).length + 1, ?_, fun rest => resync_semicolon hs rest _ ?_ ?_⟩
    · rw [List.length_drop]
      omega
    · exact fun t ht => hends t (List.mem_of_mem_drop ht)
    · intro t ht
      rw [List.tail_drop, Nat.add_comm, ← List.drop_drop, List.drop_one] at ht
      exact hstarts t (List.mem_of_mem_drop ht)
  ends k hk hsemi := by
    -- none of the tokens is a semicolon, so all of them are taken
    cases hdrop : ts.drop k with
    | nil =>
      have hlen := congrArg List.length hdrop
      rw [List.length_drop, List.length_nil] at hlen
      omega
    | cons t us =>
      rw [hdrop] at hsemi
      have ht : t ∈ ts := List.mem_of_mem_drop (hdrop ▸ List.mem_cons_self)
      exact absurd hsemi (hends t ht).1

theorem border_rbrace (hs : s.kind = .rbrace) (ts : List Token) :
    Border ts s (· ≤ ts.length) where
  recovers k hk := by
    obtain ⟨n, hn, hresync⟩ := exists_resync_rbrace hs (ts.drop k)
    rw [List.length_drop] at hn
    exact ⟨n, by omega, hresync⟩
  ends k hk hsemi := by
    obtain ⟨t, us, hdrop, -⟩ := exists_of_headD_ne hsemi (by rw [hs]; decide)
    have hlen := congrArg List.length hdrop
    rw [List.length_drop, List.length_cons] at hlen
    omega

/-! ### Statements -/

theorem Border.dropped (hb : Border ts s E) (faults : List Fault) {k : Nat} (hk : k ≤ ts.length) :
    Parsed.Stays E (.dropped (ts ++ s :: rest) faults k) (.dropped (ts ++ s :: rest') faults k) := by
  obtain ⟨n, hn, hresync⟩ := hb.recovers k hk
  unfold Parsed.dropped
  rw [List.drop_append_of_le_length hk, List.drop_append_of_le_length hk, hresync, hresync]
  exact ⟨rfl, hn⟩

theorem Border.finish (hb : Border ts s E) (node : Stmt) (faults : List Fault) {k : Nat}
    (hk : k ≤ ts.length) :
    Parsed.Stays E (finish eof (ts ++ s :: rest) node faults k)
      (finish eof' (ts ++ s :: rest') node faults k) := by
  unfold Parser.finish expect
  dsimp only
  rw [List.drop_append_of_le_length hk, List.drop_append_of_le_length hk, headD_stop, headD_stop]
  by_cases hsemi : ((ts.drop k).headD s).kind = .semicolon
  · rw [if_pos hsemi]
    exact ⟨rfl, hb.ends k hk hsemi⟩
  · rw [if_neg hsemi]
    exact hb.dropped _ hk

section
variable (hs : Stops eof eof' s)
include hs

theorem letStmt_stays (hb : Border (t :: pre) s E) :
    Parsed.Stays E (letStmt eof t (pre ++ s :: rest)) (letStmt eof' t (pre ++ s :: rest')) := by
  by_cases hident : (pre.headD s).kind = .ident
  · obtain ⟨name, pre, rfl, -⟩ := exists_of_headD_ne hident (hs.ne (by decide))
    have hname : ∀ eof rest, expectSecond eof .ident (t :: (name :: pre ++ s :: rest)) =
        .ok name 2 := fun eof rest => by rw [expectSecond_stop, if_pos hident]; rfl
    have hdrop : ∀ rest, (t :: (name :: pre ++ s :: rest)).drop 2 = pre ++ s :: rest := fun _ => rfl
    have hparts : Stays 0 pre (typeAndValue eof (pre ++ s :: rest))
        (typeAndValue eof' (pre ++ s :: rest')) := typeAndValue_stays hs
    rw [letStmt_of_name (hname eof rest), letStmt_of_name (hname eof' rest'), hdrop, hdrop]
    generalize typeAndValue eof (pre ++ s :: rest) = r at hparts
    generalize typeAndValue eof' (pre ++ s :: rest') = r' at hparts
    have hle : ∀ {k}, k ≤ pre.length → 2 + k ≤ (t :: name :: pre).length := fun hk => by
      rw [List.length_cons, List.length_cons]
      omega
    cases hparts with
    | fail f hk => exact hb.dropped [f] (hle hk)
    | ok x hk => exact hb.finish _ _ (hle hk)
  · unfold letStmt
    dsimp only
    rw [expectSecond_stop, expectSecond_stop, if_neg hident]
    exact hb.dropped _ (Nat.zero_le _)

theorem assignStmt_stays {name sign : Token} (hb : Border (name :: sign :: pre) s E) :
    Parsed.Stays E (assignStmt eof name sign (pre ++ s :: rest))
      (assignStmt eof' name sign (pre ++ s :: rest')) := by
  have hvalue := (expr_stays hs Level.lowest pre rest rest').shift [name, sign]
  unfold assignStmt
  dsimp only
  change Stays 0 _ (Reply.shift 2 _) (Reply.shift 2 _) at hvalue
  generalize (expr eof Level.lowest (pre ++ s :: rest)).shift 2 = r at hvalue
  generalize (expr eof' Level.lowest (pre ++ s :: rest')).shift 2 = r' at hvalue
  cases hvalue with
  | fail f hk => exact hb.dropped [f] hk
  | ok e hk => exact hb.finish _ _ hk

theorem returnStmt_stays (depth : Nat) (hb : Border (t :: pre) s E) :
    Parsed.Stays E (returnStmt eof depth t (pre ++ s :: rest))
      (returnStmt eof' depth t (pre ++ s :: rest')) := by
  unfold returnStmt
  dsimp only
  rw [nextIs_stop, nextIs_stop]
  split
  · exact hb.finish _ _ (Nat.succ_le_succ (Nat.zero_le _))
  · have hvalue := (expr_stays hs Level.lowest pre rest rest').shift_one (t := t)
    generalize (expr eof Level.lowest (pre ++ s :: rest)).shift 1 = r at hvalue
    generalize (expr eof' Level.lowest (pre ++ s :: rest')).shift 1 = r' at hvalue
    cases hvalue with
    | fail f hk => exact hb.dropped _ hk
    | ok e hk => exact hb.finish _ _ hk

theorem exprStmt_stays (hb : Border (t :: pre) s E) :
    Parsed.Stays E (exprStmt eof t (pre ++ s :: rest)) (exprStmt eof' t (pre ++ s :: rest')) := by
  have hvalue := expr_stays hs Level.lowest (t :: pre) rest rest'
  unfold exprStmt
  dsimp only
  rw [List.cons_append, List.cons_append] at hvalue
  generalize expr eof Level.lowest (t :: (pre ++ s :: rest)) = r at hvalue
  generalize expr eof' Level.lowest (t :: (pre ++ s :: rest')) = r' at hvalue
  cases hvalue with
  | fail f hk => exact hb.dropped _ hk
  | ok e hk => exact hb.finish _ _ hk

/-- A statement of a body that is neither a block nor a function. -/
theorem statement_stays (depth : Nat) (hb : Border (t :: pre) s E) (hbrace : t.kind ≠ .lbrace)
    (hfn : t.kind ≠ .kwFn) :
    Parsed.Stays E (statement eof depth (t :: (pre ++ s :: rest)))
      (statement eof' depth (t :: (pre ++ s :: rest'))) := by
  have hexpr : Parsed.Stays E (exprStmt eof t (pre ++ s :: rest))
      (exprStmt eof' t (pre ++ s :: rest')) := exprStmt_stays hs hb
  rw [statement.eq_def, statement.eq_def]
  dsimp only
  generalize hkind : t.kind = kind at hbrace hfn
  cases kind with
  | kwLet => exact letStmt_stays hs hb
  | kwReturn => exact returnStmt_stays hs depth hb
  | lbrace => exact absurd rfl hbrace
  | kwFn => exact absurd rfl hfn
  | ident =>
    cases pre with
    | nil =>
      dsimp only [List.nil_append]
      rw [if_neg (hs.ne (by decide)), if_neg (hs.ne (by decide))]
      exact hexpr
    | cons sign pre =>
      dsimp only [List.cons_append]
      by_cases hsign : sign.kind = .assign
      · rw [if_pos hsign, if_pos hsign]
        exact assignStmt_stays hs hb
      · rw [if_neg hsign, if_neg hsign]
        exact hexpr
  | _ => exact hexpr

/-- A statement at top level that is not a function. -/
theorem topLevel_stays (hb : Border (t :: pre) s E) (hfn : t.kind ≠ .kwFn) :
    Parsed.Stays E (topLevel eof t (pre ++ s :: rest)) (topLevel eof' t (pre ++ s :: rest')) := by
  have hdropped : ∀ p, Parsed.Stays E (.dropped (t :: (pre ++ s :: rest)) [t.fault p] 0)
      (.dropped (t :: (pre ++ s :: rest')) [t.fault p] 0) :=
    fun p => hb.dropped [t.fault p] (Nat.zero_le _)
  unfold topLevel
  dsimp only
  generalize hkind : t.kind = kind at hfn
  cases kind with
  | kwLet => exact letStmt_stays hs hb
  | kwFn => exact absurd rfl hfn
  | ident =>
    cases pre with
    | nil =>
      dsimp only [List.nil_append]
      rw [if_neg (hs.ne (by decide)), if_neg (hs.ne (by decide))]
      exact hdropped _
    | cons sign pre =>
      dsimp only [List.cons_append]
      by_cases hsign : sign.kind = .assign
      · rw [if_pos hsign, if_pos hsign]
        exact assignStmt_stays hs hb
      · rw [if_neg hsign, if_neg hsign]
        exact hdropped _
  | kwReturn => exact hdropped _
  | _ => exact hdropped _

end

/-! ### Bodies -/

/-- **The same body**, closed after `n` tokens. -/
structure Body.Stays (n : Nat) (b b' : Body) : Prop where
  same : b' = b
  closed : b.closed = true
  taken : b.taken = n

/-- **A body without blocks and functions ends at its brace**, with or without errors. -/
theorem body_stays (hs : Stops eof eof' s) (hclose : s.kind = .rbrace) (depth : Nat)
    (rest rest' : List Token) :
    ∀ ts : List Token, (∀ t ∈ ts, t.kind ∉ [.lbrace, .rbrace, .kwFn]) →
      Body.Stays (ts.length + 1) (body eof depth (ts ++ s :: rest))
        (body eof' depth (ts ++ s :: rest'))
  | [], _ => by
    rw [List.nil_append, List.nil_append, body, body, if_pos hclose, if_pos hclose]
    exact ⟨rfl, rfl, rfl⟩
  | t :: ts, hts => by
    obtain ⟨hlbrace, hrbrace, hfn⟩ : t.kind ≠ .lbrace ∧ t.kind ≠ .rbrace ∧ t.kind ≠ .kwFn := by
      simpa using hts t List.mem_cons_self
    have hfirst : Parsed.Stays (· ≤ (t :: ts).length) (statement eof depth (t :: (ts ++ s :: rest)))
        (statement eof' depth (t :: (ts ++ s :: rest'))) :=
      statement_stays hs depth (border_rbrace hclose (t :: ts)) hlbrace hfn
    obtain ⟨hsame, hends⟩ := hfirst
    rw [List.cons_append, List.cons_append, body, body, if_neg hrbrace, if_neg hrbrace]
    dsimp only
    rw [hsame]
    generalize statement eof depth (t :: (ts ++ s :: rest)) = first at hends
    -- the statement takes a token at least, and none past the brace: the induction is on what
    -- is left before the brace
    have hk : max first.taken 1 ≤ (t :: ts).length :=
      Nat.max_le.mpr ⟨hends, Nat.succ_le_succ (Nat.zero_le _)⟩
    rw [← List.cons_append, ← List.cons_append, List.drop_append_of_le_length hk,
      List.drop_append_of_le_length hk]
    have hothers := body_stays hs hclose depth rest rest' ((t :: ts).drop (max first.taken 1))
      fun u hu => hts u (List.mem_of_mem_drop hu)
    rw [hothers.same]
    refine ⟨rfl, hothers.closed, ?_⟩
    dsimp only
    rw [hothers.taken, List.length_drop]
    omega
termination_by ts => ts.length
decreasing_by
  simp only [List.length_drop, List.length_cons]
  omega

end Slang.Parser
