import Slang.Proofs.Guards.Source
import Slang.Proofs.Sites

/-!
# Why an expression has no type

Analysis says nothing about an expression whose parts have no type: the reason has been reported. That
this is so is an induction over expressions. An expression either has a part without a type, or is the
first one that has none, and then an error is reported at one of its own tokens
(`reportedAt_of_invalid`).

What is found in a part of an expression is found in the whole (`findings_subset_of_part`), and what
is found in the expression of a statement is found in the program (`reads_of_site`). So the error is
among the findings of the program.
-/

namespace Slang

open Typing

namespace Expr

mutual

/-- The tokens that an expression keeps. -/
def tokens : Expr → List Token
  | .int t _ | .str t _ | .bool t _ => [t]
  | .ident id => [id.token]
  | .unary t _ e => t :: tokens e
  | .binary t _ l r => tokens l ++ t :: tokens r
  | .group t e => t :: tokens e
  | .call t callee args => callee.token :: t :: tokensAll args
  | .hole => []

/-- The tokens that the arguments of a call keep. -/
def tokensAll : List Expr → List Token
  | [] => []
  | e :: es => tokens e ++ tokensAll es

end

/-- A part of an expression without gaps has none. -/
theorem Whole.of_part {e part : Expr} {path : List Nat} (hw : e.Whole)
    (h : e.part? path = some part) : part.Whole := by
  -- on the way to the part; a part of a whole expression is whole
  induction path generalizing e with
  | nil =>
    obtain rfl := Option.some.inj h
    exact hw
  | cons i path ih =>
    rw [part?] at h
    obtain ⟨e', he', hpart⟩ := Option.bind_eq_some_iff.mp h
    have hmem : e' ∈ e.parts := List.mem_of_getElem? he'
    refine ih ?_ hpart
    cases hw with
    | ident | int | str | bool => cases hmem
    | unary he =>
      obtain rfl := List.mem_singleton.mp hmem
      exact he
    | binary hl hr =>
      rcases List.mem_cons.mp hmem with rfl | hmem
      · exact hl
      · obtain rfl := List.mem_singleton.mp hmem
        exact hr
    | group he =>
      obtain rfl := List.mem_singleton.mp hmem
      exact he
    | call hargs => exact hargs e' hmem

end Expr

/-- The expression of a statement that is there is whole. -/
theorem Stmt.Present.whole_value {s : Stmt} (h : s.Present) {e : Expr} (he : s.value? = some e) :
    e.Whole := by
  cases h with
  | letDecl hvalue | ret hvalue => exact hvalue e he
  | assign hwhole | expr hwhole =>
    obtain rfl := Option.some.inj he
    exact hwhole
  | block => cases he

namespace Analysis

/-! ### Reports -/

/-- **An error was found at one of the tokens.** -/
def ReportedAt (fs : List Finding) (ts : List Token) : Prop :=
  ∃ f ∈ fs, f.what.severity = .error ∧ ∃ t ∈ ts, f.pos = t.pos

/-- What was reported at some tokens stays reported. -/
theorem ReportedAt.mono {fs gs : List Finding} {ts us : List Token} (h : ReportedAt fs ts)
    (hfs : fs ⊆ gs) (hts : ts ⊆ us) : ReportedAt gs us := by
  obtain ⟨f, hf, herr, t, ht, hpos⟩ := h
  exact ⟨f, hfs hf, herr, t, hts ht, hpos⟩

/-- An error that is reported last, at a token. -/
theorem reportedAt_last (fs : List Finding) (tok : Token) {p : SemanticProblem}
    (hp : p.severity = .error) : ReportedAt (fs ++ [tok.finding p]) [tok] :=
  ⟨tok.finding p, List.mem_append_right fs List.mem_cons_self, hp, tok, List.mem_cons_self, rfl⟩

section
variable {ctx : Context} {t : Table}

/-- A name without a type is reported. -/
theorem reportedAt_checkName (id : Ident) (h : (checkName ctx t id).ty = .invalid) :
    ReportedAt (checkName ctx t id).findings [id.token] := by
  revert h
  unfold checkName
  cases t.find? ctx.scope id.name with
  | none => exact fun _ => reportedAt_last [] id.token rfl
  | some i =>
    dsimp only
    cases t.symbol? i with
    | none => exact fun _ => reportedAt_last [] id.token rfl
    | some s =>
      dsimp only
      cases s.content with
      | function ps result => exact fun _ => reportedAt_last [] id.token rfl
      | «variable» v calculated =>
        -- a variable has the type of its value
        intro h
        have hty : v.ty = .invalid := by
          dsimp only at h
          split at h <;> exact h
        exact absurd hty (isValue_ty v).ne_invalid

/-- Folding keeps what was found before. -/
theorem findings_folded (tok : Token) (ty : Ty) (before : List Finding)
    (r : Except FoldError Value) : before ⊆ (folded tok ty before r).findings := by
  cases r with
  | ok v => exact List.Subset.refl before
  | error e => exact List.subset_append_left before _

/-- What was found in the operand is kept. -/
theorem findings_checkUnary (tok : Token) (op : UnaryOp) (right : Checked) :
    right.findings ⊆ (checkUnary tok op right).findings := by
  unfold checkUnary
  split
  · exact List.Subset.refl _
  · split
    · exact List.subset_append_left _ _
    · split
      · exact List.Subset.refl _
      · exact findings_folded _ _ _ _

/-- A prefix operation without a type has an operand without one, or is reported. -/
theorem reportedAt_checkUnary (tok : Token) (op : UnaryOp) {right : Checked}
    (h : (checkUnary tok op right).ty = .invalid) :
    right.ty = .invalid ∨ ReportedAt (checkUnary tok op right).findings [tok] := by
  by_cases hinvalid : right.ty = .invalid
  · exact .inl hinvalid
  by_cases hty : right.ty = op.operandTy
  · -- then the result has the type of the operand
    have hresult : (checkUnary tok op right).ty = right.ty := by
      unfold checkUnary
      rw [if_neg hinvalid, if_neg (not_not_intro hty), hty]
      cases right.value with
      | none => rfl
      | some v => exact ty_folded _ _ _ _
    exact absurd (hresult.symm.trans h) hinvalid
  · refine .inr ?_
    unfold checkUnary
    rw [if_neg hinvalid, if_pos hty]
    exact reportedAt_last _ tok rfl

/-- What was found in the operands is kept. -/
theorem findings_checkBinary (tok : Token) (op : BinaryOp) (left right : Checked) :
    left.findings ++ right.findings ⊆ (checkBinary tok op left right).findings := by
  unfold checkBinary
  dsimp only
  split
  · exact List.Subset.refl _
  · split
    · exact List.subset_append_left _ _
    · split
      · exact findings_folded _ _ _ _
      · exact List.Subset.refl _

/-- An infix operation without a type has an operand without one, or is reported. -/
theorem reportedAt_checkBinary (tok : Token) (op : BinaryOp) {left right : Checked}
    (h : (checkBinary tok op left right).ty = .invalid) :
    (left.ty = .invalid ∨ right.ty = .invalid) ∨
      ReportedAt (checkBinary tok op left right).findings [tok] := by
  by_cases hinvalid : left.ty = .invalid ∨ right.ty = .invalid
  · exact .inl hinvalid
  revert h
  unfold checkBinary
  dsimp only
  rw [if_neg hinvalid]
  -- no result for these types, which is reported; or a result, and it is a type of values
  cases hty : op.resultTy? left.ty right.ty with
  | none => exact fun _ => .inr (reportedAt_last _ tok rfl)
  | some ty =>
    intro h
    have hresult : ty = .invalid := by
      dsimp only at h
      split at h
      · rwa [ty_folded] at h
      · exact h
    exact absurd hresult (isValue_of_resultTy? hty).ne_invalid

/-- What was found in the arguments is kept. -/
theorem findings_checkCall (callee : Ident) (args : List Expr) (checked : List Checked) :
    checked.flatMap (·.findings) ⊆ (checkCall ctx t callee args checked).findings := by
  unfold checkCall
  dsimp only
  split
  · exact List.subset_append_left _ _
  · split
    · exact List.subset_append_left _ _
    · split <;> exact List.subset_append_left _ _

/-- A call without a type is reported: functions have types that functions may have. -/
theorem reportedAt_checkCall (hv : t.Valid) (callee : Ident) (args : List Expr)
    (checked : List Checked) (h : (checkCall ctx t callee args checked).ty = .invalid) :
    ReportedAt (checkCall ctx t callee args checked).findings [callee.token] := by
  revert h
  unfold checkCall
  dsimp only
  cases hs : (t.find? ctx.scope callee.name).bind t.symbol? with
  | none =>
    refine fun _ => reportedAt_last _ callee.token ?_
    split <;> rfl
  | some s =>
    dsimp only
    cases hc : s.content with
    | «variable» v calculated => exact fun _ => reportedAt_last _ callee.token rfl
    | function params result =>
      intro h
      have hresult : result = .invalid := by
        dsimp only at h
        split at h <;> exact h
      obtain ⟨i, -, hi⟩ := Option.bind_eq_some_iff.mp hs
      -- a function never returns the invalid type, as the table is valid
      have htyped := hv.typed i s hi
      unfold Symbol.Typed at htyped
      rw [hc] at htyped
      rcases htyped.2 with hvalue | hvoid
      · exact absurd hresult hvalue.ne_invalid
      · rw [hresult] at hvoid
        cases hvoid

/-- **An expression has a type, or an error is reported at one of its tokens.** -/
theorem reportedAt_of_invalid (hv : t.Valid) {e : Expr} (hw : e.Whole)
    (h : (check ctx t e).ty = .invalid) : ReportedAt (check ctx t e).findings e.tokens := by
  -- on the expression: an operand without a type has been reported within it, else the operator is
  induction hw with
  | ident =>
    rw [check] at h ⊢
    exact reportedAt_checkName _ h
  | int =>
    rw [check] at h
    split at h <;> cases h
  | str | bool =>
    rw [check] at h
    cases h
  | @unary tok op e he ih =>
    rw [check] at h ⊢
    split at h
    · cases h
    · next hleast =>
      rw [if_neg hleast]
      rcases reportedAt_checkUnary tok op h with hinvalid | hreported
      · exact (ih hinvalid).mono (findings_checkUnary tok op _) (List.subset_cons_self _ _)
      · exact hreported.mono (List.Subset.refl _)
          (List.cons_subset_cons _ (List.nil_subset _))
  | @binary tok op l r hl hr ihl ihr =>
    rw [check] at h ⊢
    have hfindings := findings_checkBinary tok op (check ctx t l) (check ctx t r)
    rw [Expr.tokens]
    rcases reportedAt_checkBinary tok op h with (hinvalid | hinvalid) | hreported
    · exact (ihl hinvalid).mono (List.Subset.trans (List.subset_append_left _ _) hfindings)
        (List.subset_append_left _ _)
    · exact (ihr hinvalid).mono (List.Subset.trans (List.subset_append_right _ _) hfindings)
        (List.Subset.trans (List.subset_cons_self _ _) (List.subset_append_right _ _))
    · refine hreported.mono (List.Subset.refl _) ?_
      exact List.Subset.trans (List.cons_subset_cons _ (List.nil_subset _))
        (List.subset_append_right _ _)
  | group he ih =>
    rw [check] at h ⊢
    exact (ih h).mono (List.Subset.refl _) (List.subset_cons_self _ _)
  -- the type of a call is that of its function, whatever the arguments are
  | call hargs ih =>
    rw [check] at h ⊢
    exact (reportedAt_checkCall hv _ _ _ h).mono (List.Subset.refl _)
      (List.cons_subset_cons _ (List.nil_subset _))

/-! ### Parts -/

/-- What is found in a direct part is found in the whole. The exception is a literal after a minus
sign, which may be out of range by itself. -/
theorem findings_subset_of_mem_parts {e part : Expr} (h : part ∈ e.parts)
    (hliteral : ∀ tok n, part ≠ .int tok n) :
    (check ctx t part).findings ⊆ (check ctx t e).findings := by
  cases e with
  | int | str | bool | ident | hole => cases h
  | unary tok op right =>
    obtain rfl := List.mem_singleton.mp h
    -- the one operand that is not read by itself is the literal of the least number
    have hleast : ¬isLeastInt op part = true := by
      intro hleast
      obtain ⟨-, tok, rfl⟩ := isLeastInt_iff.mp hleast
      exact hliteral tok _ rfl
    rw [check.eq_def ctx t (.unary tok op part)]
    dsimp only
    rw [if_neg hleast]
    exact findings_checkUnary tok op _
  | binary tok op left right =>
    rw [check.eq_def ctx t (.binary tok op left right)]
    have hfindings := findings_checkBinary tok op (check ctx t left) (check ctx t right)
    rcases List.mem_cons.mp h with rfl | h
    · exact List.Subset.trans (List.subset_append_left _ _) hfindings
    · obtain rfl := List.mem_singleton.mp h
      exact List.Subset.trans (List.subset_append_right _ _) hfindings
  | group tok e =>
    obtain rfl := List.mem_singleton.mp h
    rw [check.eq_def ctx t (.group tok part)]
    exact List.Subset.refl _
  | call tok callee args =>
    rw [check.eq_def ctx t (.call tok callee args)]
    refine List.Subset.trans ?_ (findings_checkCall callee args (checkAll ctx t args))
    intro f hf
    rw [checkAll_eq_map]
    exact List.mem_flatMap.mpr ⟨_, List.mem_map_of_mem h, hf⟩

/-- **What is found in a part without a type is found in the whole expression.** -/
theorem findings_subset_of_part {e part : Expr} {path : List Nat} (h : e.part? path = some part)
    (hinvalid : (check ctx t part).ty = .invalid) :
    (check ctx t part).findings ⊆ (check ctx t e).findings := by
  induction path generalizing e with
  | nil =>
    obtain rfl := Option.some.inj h
    exact List.Subset.refl _
  | cons i path ih =>
    rw [Expr.part?] at h
    obtain ⟨e', he', hpart⟩ := Option.bind_eq_some_iff.mp h
    refine List.Subset.trans (ih hpart)
      (findings_subset_of_mem_parts (List.mem_of_getElem? he') ?_)
    -- a literal has no parts, and it has a type
    rintro tok n rfl
    cases path with
    | nil =>
      obtain rfl := Option.some.inj hpart
      rw [check] at hinvalid
      split at hinvalid <;> cases hinvalid
    | cons j path => cases hpart

end

/-! ### Statements -/

/-- What was found stays found. -/
theorem State.Grows.found {sc : ScopeId} {st st' : State} (h : st.Grows sc st') :
    st.found ⊆ st'.found := by
  obtain ⟨es, hes⟩ := h.trace
  unfold State.found
  rw [hes, List.filterMap_append]
  exact List.subset_append_left _ _

/-- What is reported first is found in the end. -/
theorem found_of_grows_report {sc : ScopeId} {st st' : State} {fs : List Finding}
    (h : (st.report fs).Grows sc st') : fs ⊆ st'.found := by
  refine List.Subset.trans ?_ h.found
  rw [State.found_report]
  exact List.subset_append_right _ _

section
variable (ctx : Context) (st : State)

/-- What is found in the value of a let statement is reported. -/
theorem found_checkLet (name : Ident) (type : Option TypeNode) (e : Expr) :
    (check ctx st.table e).findings ⊆ (checkLet ctx name type (some e) st).found :=
  List.Subset.trans (List.subset_append_left _ _)
    (found_of_grows_report (grows_declareLet ctx st name type (some e)))

/-- What is found in the value of an assignment is reported. -/
theorem found_checkAssign (name : Ident) (e : Expr) :
    (check ctx st.table e).findings ⊆ (checkAssign ctx name e st).found :=
  found_of_grows_report (grows_writeAssign ctx st name e)

variable {ctx}

/-- **What is found in the expression of a statement is reported**, inside a function. -/
theorem found_checkStmt (hfn : ctx.fn.isSome) {s : Stmt} {e : Expr} (he : s.value? = some e) :
    (check ctx st.table e).findings ⊆ (checkStmt ctx st s).found := by
  cases s with
  | letDecl tok name type value =>
    obtain rfl : value = some e := he
    rw [checkStmt]
    exact found_checkLet ctx st name type e
  | assign tok name value =>
    obtain rfl : value = e := Option.some.inj he
    rw [checkStmt]
    exact found_checkAssign ctx st name value
  -- a return statement is read within a function only
  | ret tok value =>
    obtain rfl : value = some e := he
    obtain ⟨f, hf⟩ := Option.isSome_iff_exists.mp hfn
    rw [checkStmt]
    exact found_of_grows_report (grows_returnValue ctx st hf tok e)
  | expr tok value =>
    obtain rfl : value = e := Option.some.inj he
    rw [checkStmt]
    exact found_of_grows_report (grows_unusedResult ctx st value)
  | block | fn | hole => cases he

end

/-! ### Sites -/

/-- **A site is read on the way to a later state**: its table is valid, nothing is missing from its
expression, and what is found in the expression has been found by then. -/
structure Site.Reads (s : Site) (st : State) : Prop where
  valid : s.st.table.Valid
  whole : ∀ e, s.stmt.value? = some e → e.Whole
  found : ∀ e, s.stmt.value? = some e → (check s.ctx s.st.table e).findings ⊆ st.found

/-- What has been read stays read. -/
theorem Site.Reads.grows {s : Site} {sc : ScopeId} {st st' : State} (h : s.Reads st)
    (hgrows : st.Grows sc st') : s.Reads st' :=
  ⟨h.valid, h.whole, fun e he => List.Subset.trans (h.found e he) hgrows.found⟩

/-- **The sites inside a body are read** while the body is. -/
theorem reads_of_siteIn (ctx : Context) (st : State) (hv : st.table.Valid)
    (hsc : ctx.scope < st.table.scopes.length) (hfn : ctx.fn.isSome) (ss : List Stmt)
    (hss : ∀ s ∈ ss, s.Present) {place : StmtPlace} {site : Site}
    (h : siteIn place ctx st ss = some site) : site.Reads (checkStmts ctx st ss) := by
  match ss, place with
  | _, [] => cases h
  | [], [i] => cases h
  | [], i :: j :: place => cases h
  | s :: ss, i :: place =>
    rw [checkStmts_cons]
    rw [List.forall_mem_cons] at hss
    have hgrown := grows_checkStmt ctx st hsc s
    have hrest := grows_checkStmts ctx _ (hgrown.scope_lt hsc) ss
    -- the site is the statement, or inside it, or after it
    match i, place with
    | 0, [] =>
      rw [siteIn_here] at h
      obtain rfl := Option.some.inj h
      have hreads : Site.Reads ⟨ctx, st, s⟩ (checkStmt ctx st s) :=
        ⟨hv, fun e he => hss.1.whole_value he, fun e he => found_checkStmt st hfn he⟩
      exact hreads.grows hrest
    | 0, j :: place =>
      cases s with
      | block tok body =>
        rw [siteIn_block] at h
        have hreads := reads_of_siteIn (blockContext ctx st)
          (scopeStart ctx "block" st.returns st) (valid_scopeStart hv hsc "block" st.returns)
          (scope_lt_blockStart ctx st) hfn body hss.1.of_block h
        rw [← checkStmt_block ctx st tok] at hreads
        exact hreads.grows hrest
      | _ => cases h
    | i + 1, place =>
      rw [siteIn_next] at h
      exact reads_of_siteIn ctx (checkStmt ctx st s) (hgrown.table.valid hv) (hgrown.scope_lt hsc)
        hfn ss hss.2 h
termination_by sizeOf ss

/-- The sites inside a function are read while its body is. -/
theorem reads_of_siteBody {ctx : Context} {st : State} (hv : st.table.Valid)
    (hsc : ctx.scope < st.table.scopes.length) (head : FnHead) (declared : Option Ty)
    (params : List Param) {body : List Stmt} (hbody : ∀ s ∈ body, s.Present) {place : StmtPlace}
    {site : Site}
    (h : siteIn place (bodyContext ctx head declared params st)
      (bodyStart ctx head declared params st) body = some site) :
    site.Reads (checkBody ctx head declared params body st) := by
  rw [checkBody_eq]
  exact reads_of_siteIn _ _ (valid_bodyStart hv hsc head declared params)
    (scope_lt_bodyStart ctx head declared params st) rfl body hbody h

/-- The sites inside a top-level statement are read while the statement is. -/
theorem reads_of_siteTop {ctx : Context} {st : State} (hv : st.table.Valid)
    (hsc : ctx.scope < st.table.scopes.length) {s : Stmt} (hs : s.PresentTop)
    {signature : Option Symbol} {place : StmtPlace} {site : Site}
    (h : siteAmong ctx st [(s, signature)] (0 :: place) = some site) :
    site.Reads (checkTop ctx st (s, signature)) := by
  -- the statement itself, or a statement in its body
  cases place with
  | nil =>
    obtain rfl := Option.some.inj h
    cases hs with
    | @letDecl tok name type value hvalue =>
      rw [checkTop_letDecl]
      refine ⟨hv, hvalue, fun e he => ?_⟩
      obtain rfl : value = some e := he
      exact found_checkLet ctx st name type e
    | @assign tok name e he =>
      rw [checkTop_assign]
      refine ⟨hv, fun e' he' => ?_, fun e' he' => ?_⟩
      · obtain rfl := Option.some.inj he'
        exact he
      · obtain rfl := Option.some.inj he'
        exact found_checkAssign ctx st name e
    | fn => refine ⟨hv, fun _ he => ?_, fun _ he => ?_⟩ <;> cases he
  | cons j place =>
    cases hs with
    | letDecl | assign => cases h
    | @fn head brace body hresult hbody =>
      have hbind : (bodyEntry ctx st head signature).bind
          (fun entry => siteIn (j :: place) entry.1 entry.2 body) = some site := h
      obtain ⟨entry, hentry, hsite⟩ := Option.bind_eq_some_iff.mp hbind
      revert hentry
      unfold bodyEntry checkTop
      dsimp only
      -- the body is read in the first case to find the type, in the second with the signature
      cases head.result with
      | none =>
        intro hentry
        obtain rfl := Option.some.inj hentry
        have hmade := grows_makeParams ctx.scope [] st head.params
        exact (reads_of_siteBody (hmade.table.valid hv) (hmade.scope_lt hsc) head none _ hbody
          hsite).grows (grows_declareInferred ctx st head body)
      | some type =>
        cases signature with
        | none => exact fun hentry => by cases hentry
        | some sig =>
          intro hentry
          obtain rfl := Option.some.inj hentry
          exact (reads_of_siteBody hv hsc head (some type.ty) sig.params hbody hsite).grows
            (grows_missingReturn ctx st head sig.params type.ty body)

/-- **The sites of a program are read** by the second pass. -/
theorem reads_of_siteAmong {ctx : Context} {st : State} (hv : st.table.Valid)
    (hsc : ctx.scope < st.table.scopes.length) {l : List (Stmt × Option Symbol)}
    (hl : ∀ s ∈ l, s.1.PresentTop) {place : StmtPlace} {site : Site}
    (h : siteAmong ctx st l place = some site) : site.Reads (l.foldl (checkTop ctx) st) := by
  induction l generalizing st place with
  | nil =>
    match place with
    | [] => cases h
    | [i] => cases h
    | i :: j :: place => cases h
  | cons s l ih =>
    rw [List.forall_mem_cons] at hl
    have hgrown := grows_checkTop ctx st hsc s
    match place with
    | [] => cases h
    | 0 :: place =>
      -- the statement is the first one; what comes after it only adds findings
      have hfirst : siteAmong ctx st [s] (0 :: place) = some site := by
        rw [← h]
        cases place <;> rfl
      have hreads : site.Reads (checkTop ctx st s) := reads_of_siteTop hv hsc hl.1 hfirst
      exact hreads.grows (grows_checkTops ctx _ (hgrown.scope_lt hsc) l)
    | (i + 1) :: place =>
      rw [siteAmong_next] at h
      exact ih (hgrown.table.valid hv) (hgrown.scope_lt hsc) hl.2 h

/-- The first pass keeps the statements. -/
theorem map_fst_hoistAll (ctx : Context) (st : State) (p : Program) :
    (hoistAll ctx st p).2.map Prod.fst = p := by
  induction p generalizing st with
  | nil => rfl
  | cons s ss ih => exact congrArg (s :: ·) (ih _)

/-- **Every site of a program is read**, if nothing is missing from the program. -/
theorem reads_of_site {options : Options} {p : Program} (hp : ∀ s ∈ p, s.PresentTop)
    {place : StmtPlace} {s : Site} (h : site options p place = some s) :
    s.Reads (checkProgram options p.globalWrites p) := by
  have hgrows := grows_hoistAll (topContext options p.globalWrites) startState p
  have hstmts : ∀ s ∈ (hoistAll (topContext options p.globalWrites) startState p).2,
      s.1.PresentTop := by
    intro s hs
    refine hp s.1 ?_
    rw [← map_fst_hoistAll (topContext options p.globalWrites) startState p]
    exact List.mem_map_of_mem hs
  rw [checkProgram_eq]
  exact reads_of_siteAmong (hgrows.table.valid valid_freshTable)
    (hgrows.scope_lt (scope_lt_startState options _)) hstmts h

end Analysis
end Slang
