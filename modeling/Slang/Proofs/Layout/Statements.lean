import Slang.Proofs.Layout.Reading

/-!
# Reading two programs in step

Two token lists that agree in kinds and literals hold the same program and the same syntax errors
(`program_alike`). A statement reports its errors in the order of tokens, none of them after the
token at which reading goes on (`FaultsIn`): recovery passes over the token at which an error is
reported, or stops at it. So the errors of a program are found in the order of their tokens.
-/

namespace Slang.Parser

section
variable (eof eof' : Token)

/-- **The same errors**, in order, at tokens with indices from `lo` to `hi`. -/
inductive FaultsIn (ts ts' : List Token) : Nat → Nat → List Fault → List Fault → Prop
  | nil {lo hi : Nat} (h : lo ≤ hi) : FaultsIn ts ts' lo hi [] []
  | cons {lo hi i : Nat} {f f' : Fault} {fs fs' : List Fault} (hlo : lo ≤ i)
      (hf : FaultAt eof eof' ts ts' i f f') (hfs : FaultsIn ts ts' i hi fs fs') :
      FaultsIn ts ts' lo hi (f :: fs) (f' :: fs')

/-- **Statements that correspond.** Their errors stand before the token at which reading goes on, or
at that token. -/
structure Parsed.Alike {α : Type} (R : α → α → Prop) (ts ts' : List Token) (p p' : Parsed α) :
    Prop where
  node : Option.Rel R p.node p'.node
  taken : p'.taken = p.taken
  faults : FaultsIn eof eof' ts ts' 0 p.taken p.faults p'.faults

/-- Blocks that correspond. -/
structure Body.Alike (ρ : Position → Position → Prop) (ts ts' : List Token) (b b' : Body) :
    Prop where
  closed : b'.closed = b.closed
  stmts : List.Forall₂ (Stmt.Alike ρ) b.stmts b'.stmts
  taken : b'.taken = b.taken
  faults : FaultsIn eof eof' ts ts' 0 b.taken b.faults b'.faults

end

section
variable {ρ : Position → Position → Prop} {eof eof' : Token} {ts ts' : List Token}

/-! ### Errors in order -/

namespace FaultsIn

variable {lo mid hi : Nat} {fs fs' gs gs' : List Fault}

/-- One error between two indices. -/
theorem single {i : Nat} {f f' : Fault} (hlo : lo ≤ i) (hhi : i ≤ hi)
    (hf : FaultAt eof eof' ts ts' i f f') : FaultsIn eof eof' ts ts' lo hi [f] [f'] :=
  .cons hlo hf (.nil hhi)

/-- The indices of some errors may be bounded less tightly. -/
theorem mono {lo' hi' : Nat} (h : FaultsIn eof eof' ts ts' lo hi fs fs') (hlo : lo' ≤ lo)
    (hhi : hi ≤ hi') : FaultsIn eof eof' ts ts' lo' hi' fs fs' := by
  induction h generalizing lo' with
  | nil h => exact .nil (Nat.le_trans hlo (Nat.le_trans h hhi))
  | cons hi hf _ ih => exact .cons (Nat.le_trans hlo hi) hf (ih (Nat.le_refl _) hhi)

/-- Errors up to an index, and errors from that index on. -/
theorem append (h : FaultsIn eof eof' ts ts' lo mid fs fs')
    (h' : FaultsIn eof eof' ts ts' mid hi gs gs') :
    FaultsIn eof eof' ts ts' lo hi (fs ++ gs) (fs' ++ gs') := by
  induction h with
  | nil h => exact h'.mono h (Nat.le_refl _)
  | cons hi hf _ ih => exact .cons hi hf (ih h')

/-- Errors in what is left of the tokens, counted from the first token. -/
theorem of_drop {n : Nat} (h : FaultsIn eof eof' (ts.drop n) (ts'.drop n) lo hi fs fs') :
    FaultsIn eof eof' ts ts' (n + lo) (n + hi) fs fs' := by
  induction h with
  | nil h => exact .nil (Nat.add_le_add_left h n)
  | cons hlo hf _ ih => exact .cons (Nat.add_le_add_left hlo n) hf.of_drop ih

end FaultsIn

/-! ### Recovery -/

/-- Both lists go on with a declaration, or neither does. -/
theorem atDeclaration_of_rows (h : Rows ρ ts ts') : atDeclaration ts' = atDeclaration ts := by
  rw [atDeclaration, atDeclaration, nextIs_of_rows h, nextIs_of_rows h]

/-- Recovery skips as many tokens in both lists. -/
theorem resync_of_rows (h : Rows ρ ts ts') : resync ts' = resync ts := by
  induction h with
  | nil => rfl
  -- it looks at the kind of one token, and at whether a declaration comes next
  | cons ht hrest ih => rw [resync, resync, ht.kind, atDeclaration_of_rows hrest, ih]

/-- As many tokens stand between braces in both lists. -/
theorem skipBraces_of_rows (h : Rows ρ ts ts') (depth : Nat) :
    skipBraces depth ts' = skipBraces depth ts := by
  induction h generalizing depth with
  | nil => rfl
  | cons ht hrest ih =>
    rw [skipBraces, skipBraces, ht.kind, ih]

/-- As many tokens are skipped after a broken head of a function. -/
theorem skipFunction_of_rows (h : Rows ρ ts ts') : skipFunction ts' = skipFunction ts := by
  induction h with
  | nil => rfl
  | cons ht hrest ih =>
    rw [skipFunction, skipFunction, ht.kind, nextIs_of_rows hrest, ih,
      skipBraces_of_rows (.cons ht hrest)]

/-- The keyword of a declaration is passed over. -/
theorem one_le_resync {t : Token} (ht : t.kind = .kwLet) (rest : List Token) :
    1 ≤ resync (t :: rest) := by
  rw [resync, ht]
  split
  · exact Nat.le_refl 1
  · split
    · contradiction
    · split
      · exact Nat.le_refl 1
      · exact Nat.le_add_left 1 _

/-- A token is passed over that is none of those at which recovery stops. -/
theorem one_le_skipFunction {t : Token} {rest : List Token} (hbrace : t.kind ≠ .lbrace)
    (hlet : t.kind ≠ .kwLet) (hfn : t.kind = .kwFn → nextIs .ident rest = false) :
    1 ≤ skipFunction (t :: rest) := by
  have hstop : ¬(t.kind = .kwLet ∨ t.kind = .kwFn ∧ nextIs .ident rest = true) := by
    rintro (h | ⟨h, hident⟩)
    · exact hlet h
    · rw [hfn h] at hident
      cases hident
  rw [skipFunction, if_neg hbrace, if_neg hstop]
  exact Nat.le_add_left 1 _

/-- A name is passed over. -/
theorem one_le_skipFunction_of_ident (heof : eof.kind = .eof)
    (h : (ts.headD eof).kind = .ident) : 1 ≤ skipFunction ts := by
  cases ts with
  | nil => exact absurd (heof.symm.trans h) (by decide)
  | cons t rest =>
    rw [List.headD_cons] at h
    refine one_le_skipFunction ?_ ?_ fun hfn => ?_
    · rw [h]
      decide
    · rw [h]
      decide
    · exact absurd (h.symm.trans hfn) (by decide)

section
variable {R : Stmt → Stmt → Prop}

/-- A dropped statement with its errors. -/
theorem dropped_alike (h : Rows ρ ts ts') {fs fs' : List Fault} {k : Nat}
    (hfs : FaultsIn eof eof' ts ts' 0 (k + resync (ts.drop k)) fs fs') :
    Parsed.Alike eof eof' R ts ts' (.dropped ts fs k) (.dropped ts' fs' k) := by
  refine ⟨.none, ?_, hfs⟩
  simp only [Parsed.dropped, resync_of_rows (h.drop k)]

/-- A dropped function with its error. Recovery after a head goes past the token of the error, or stops
at it. -/
theorem droppedFunction_alike (h : Rows ρ ts ts') {f f' : Fault} {k i : Nat}
    (hi : i ≤ k + skipFunction (ts.drop k)) (hf : FaultAt eof eof' ts ts' i f f') :
    Parsed.Alike eof eof' R ts ts' (.droppedFunction ts f k) (.droppedFunction ts' f' k) := by
  refine ⟨.none, ?_, .single (Nat.zero_le i) hi hf⟩
  simp only [Parsed.droppedFunction, skipFunction_of_rows (h.drop k)]

end

/-! ### Parts of statements -/

section
variable (he : SameEnd eof eof')
include he

/-- Two tokens of which the second is of a kind, or an error at the second. -/
theorem expectSecond_alike (kind : Token.Kind) (hne : kind ≠ .eof) (h : Rows ρ ts ts') :
    (∃ f f', expectSecond eof kind ts = .fail f 0 ∧ expectSecond eof' kind ts' = .fail f' 0 ∧
        nextIs kind (ts.drop 1) = false ∧ FaultAt eof eof' ts ts' 1 f f') ∨
      ∃ t t', expectSecond eof kind ts = .ok t 2 ∧ expectSecond eof' kind ts' = .ok t' 2 ∧
        t.kind = kind ∧ t = (ts.drop 1).headD eof ∧ t' = (ts'.drop 1).headD eof' ∧
        t.Alike ρ t' := by
  obtain ⟨hkind, hliteral, halike⟩ := headD_of_rows he (h.drop 1)
  unfold expectSecond
  dsimp only
  rw [hkind, hliteral]
  -- the second token is of the kind in both lists, or in neither
  by_cases hnext : ((ts.drop 1).headD eof).kind = kind
  · rw [if_pos hnext, if_pos hnext]
    exact .inr ⟨_, _, rfl, rfl, hnext, rfl, rfl, halike (hnext ▸ hne)⟩
  · rw [if_neg hnext, if_neg hnext]
    refine .inl ⟨_, _, rfl, rfl, ?_, FaultAt.of_drop (n := 1) (.head _ _ _)⟩
    -- the end is not a token that could be next
    generalize ts.drop 1 = rest at hnext
    cases rest with
    | nil => rfl
    | cons t rest => exact beq_false_of_ne hnext

/-- A type is read in step. A word that names no type is reported where it stands. -/
theorem typeNode_alike (h : Rows ρ ts ts') {skip : List Token → Nat} :
    Reply.Alike eof eof' (TypeNode.Alike ρ) skip ts ts' (typeNode eof ts) (typeNode eof' ts') := by
  obtain ⟨hkind, hliteral, halike⟩ := headD_of_rows he h
  unfold typeNode Token.isTypeKeyword
  dsimp only
  rw [hkind, hliteral]
  split
  · next hkeyword =>
    have ht := halike (by rw [eq_of_beq hkeyword]; decide)
    cases Ty.ofKeyword? (ts.headD eof).literal with
    | some ty => exact .ok 1 ⟨ht, rfl⟩
    | none => exact .failHead _ _ _
  · exact .failHead _ _ _

/-- A type may be left out, in both lists or in neither. -/
theorem optionalType_alike (h : Rows ρ ts ts') {skip : List Token → Nat} :
    Reply.Alike eof eof' (Option.Rel (TypeNode.Alike ρ)) skip ts ts' (optionalType eof ts)
      (optionalType eof' ts') := by
  unfold optionalType
  rw [nextIs_of_rows h]
  split
  · exact ((typeNode_alike he (h.drop 1)).map fun _ _ htype => .some htype).shift
  · exact .ok 0 .none

/-- A value may be left out, in both lists or in neither. -/
theorem optionalValue_alike (h : Rows ρ ts ts') :
    Reply.Alike eof eof' (Option.Rel (Expr.Alike ρ)) noSkip ts ts' (optionalValue eof ts)
      (optionalValue eof' ts') := by
  unfold optionalValue
  rw [nextIs_of_rows h]
  split
  · exact ((expr_alike he _ _ _ (h.drop 1)).map fun _ _ hee => .some hee).shift
  · exact .ok 0 .none

/-- The end of a statement: a semicolon, or an error at the token in its place. -/
theorem finish_alike (h : Rows ρ ts ts') {node node' : Stmt} (hnode : node.Alike ρ node')
    {fs fs' : List Fault} {k : Nat} (hfs : FaultsIn eof eof' ts ts' 0 k fs fs') :
    Parsed.Alike eof eof' (Stmt.Alike ρ) ts ts' (finish eof ts node fs k)
      (finish eof' ts' node' fs' k) := by
  obtain ⟨hkind, hliteral, -⟩ := headD_of_rows he (h.drop k)
  unfold finish expect
  dsimp only
  rw [hkind, hliteral]
  by_cases hsemicolon : ((ts.drop k).headD eof).kind = .semicolon
  · rw [if_pos hsemicolon, if_pos hsemicolon]
    exact ⟨.some hnode, rfl, hfs.mono (Nat.le_refl 0) (Nat.le_add_right k 1)⟩
  · rw [if_neg hsemicolon, if_neg hsemicolon]
    -- the missing semicolon comes after all errors of the statement itself
    refine dropped_alike h (hfs.append (.single (Nat.le_refl k) (Nat.le_add_right k _) ?_))
    exact FaultAt.of_drop (.head _ _ _)

end

/-! ### Simple statements -/

/-- The type and the value of a declaration. -/
def typeAndValue (eof : Token) (ts : List Token) : Reply (Option TypeNode × Option Expr) :=
  (optionalType eof ts).andThen ts fun type rest =>
    (optionalValue eof rest).map fun value => (type, value)

/-- After its name, a declaration is its type and its value, and is dropped if one of them is broken. -/
theorem letStmt_of_name {t name : Token} {rest : List Token}
    (hname : expectSecond eof .ident (t :: rest) = .ok name 2) :
    letStmt eof t rest =
      match typeAndValue eof ((t :: rest).drop 2) with
      | .fail f k => .dropped (t :: rest) [f] (2 + k)
      | .ok (type, value) k =>
        finish eof (t :: rest) (.letDecl t ⟨name, name.literal⟩ type value)
          (if type.isNone && value.isNone then [name.fault (.noInitializer name.literal)] else [])
          (2 + k) := by
  unfold letStmt typeAndValue
  dsimp only
  rw [hname]
  dsimp only [Reply.andThen]
  cases optionalType eof ((t :: rest).drop 2) with
  | fail f k => rfl
  | ok type k =>
    dsimp only
    cases optionalValue eof (((t :: rest).drop 2).drop k) <;> rfl

section
variable (he : SameEnd eof eof') {t t' : Token} (ht : t.Alike ρ t')
include he ht

/-- **Declarations are read in step**, with the errors at their names. -/
theorem letStmt_alike (hlet : t.kind = .kwLet) (h : Rows ρ ts ts') :
    Parsed.Alike eof eof' (Stmt.Alike ρ) (t :: ts) (t' :: ts') (letStmt eof t ts)
      (letStmt eof' t' ts') := by
  have hrows : Rows ρ (t :: ts) (t' :: ts') := .cons ht h
  rcases expectSecond_alike he .ident (by decide) hrows with
    ⟨f, f', hf, hf', -, hfault⟩ | ⟨name, name', hname, hname', -, hat, hat', halike⟩
  · -- the error is at the second token, and the first one is passed over
    unfold letStmt
    dsimp only
    rw [hf, hf']
    exact dropped_alike hrows (.single (Nat.zero_le 1)
      (Nat.le_add_left_of_le (one_le_resync hlet ts)) hfault)
  · -- the name is there in both, so both go on after two tokens
    have hparts : Reply.Alike eof eof' (fun x x' => Option.Rel (TypeNode.Alike ρ) x.1 x'.1 ∧
        Option.Rel (Expr.Alike ρ) x.2 x'.2) noSkip ((t :: ts).drop 2) ((t' :: ts').drop 2)
        (typeAndValue eof ((t :: ts).drop 2)) (typeAndValue eof' ((t' :: ts').drop 2)) := by
      refine (optionalType_alike he (hrows.drop 2)).andThen fun type type' k htype => ?_
      exact (optionalValue_alike he ((hrows.drop 2).drop k)).map fun value value' hvalue =>
        ⟨htype, hvalue⟩
    rw [letStmt_of_name hname, letStmt_of_name hname']
    generalize typeAndValue eof ((t :: ts).drop 2) = r at hparts
    generalize typeAndValue eof' ((t' :: ts').drop 2) = r' at hparts
    cases hparts with
    | fail k i hi hf =>
      refine dropped_alike hrows (.single (Nat.zero_le _) ?_ hf.of_drop)
      exact Nat.le_add_right_of_le (Nat.add_le_add_left hi 2)
    | @ok x x' k hx =>
      obtain ⟨type, value⟩ := x
      obtain ⟨type', value'⟩ := x'
      obtain ⟨htype, hvalue⟩ := hx
      dsimp only at htype hvalue ⊢
      -- type and value are missing in both, or in neither
      have hbare : (type'.isNone && value'.isNone) = (type.isNone && value.isNone) := by
        cases htype <;> cases hvalue <;> rfl
      rw [hbare, halike.literal]
      refine finish_alike he hrows (.letDecl ht halike.ident htype hvalue) ?_
      split
      · -- at the name, which stands before all that `finish` may report
        have hfault : FaultAt eof eof' (t :: ts) (t' :: ts') 1
            (name.fault (.noInitializer name.literal))
            (name'.fault (.noInitializer name.literal)) :=
          ⟨rfl, by rw [hat]; rfl, by rw [hat']; rfl⟩
        exact .single (Nat.zero_le 1) (by omega) hfault
      · exact .nil (Nat.zero_le _)

/-- Expressions as statements are read in step. -/
theorem exprStmt_alike (h : Rows ρ ts ts') :
    Parsed.Alike eof eof' (Stmt.Alike ρ) (t :: ts) (t' :: ts') (exprStmt eof t ts)
      (exprStmt eof' t' ts') := by
  have hrows : Rows ρ (t :: ts) (t' :: ts') := .cons ht h
  have hexpr := expr_alike he Level.lowest _ _ hrows
  unfold exprStmt
  dsimp only
  generalize expr eof Level.lowest (t :: ts) = r at hexpr
  generalize expr eof' Level.lowest (t' :: ts') = r' at hexpr
  cases hexpr with
  | fail k i hi hf =>
    exact dropped_alike hrows (.single (Nat.zero_le i) (Nat.le_add_right_of_le hi) hf)
  | ok k hee => exact finish_alike he hrows (.expr ht hee) (.nil (Nat.zero_le k))

/-- Returns are read in step. One at top level is reported before its value is read. -/
theorem returnStmt_alike (depth : Nat) (h : Rows ρ ts ts') :
    Parsed.Alike eof eof' (Stmt.Alike ρ) (t :: ts) (t' :: ts') (returnStmt eof depth t ts)
      (returnStmt eof' depth t' ts') := by
  have hrows : Rows ρ (t :: ts) (t' :: ts') := .cons ht h
  have houtside : FaultsIn eof eof' (t :: ts) (t' :: ts') 0 1
      (if depth = 0 then [t.fault .returnOutsideFunction] else [])
      (if depth = 0 then [t'.fault .returnOutsideFunction] else []) := by
    split
    · exact .single (Nat.le_refl 0) (Nat.zero_le 1) (.head (t :: ts) (t' :: ts') _)
    · exact .nil (Nat.zero_le 1)
  unfold returnStmt
  dsimp only
  rw [nextIs_of_rows h]
  split
  · exact finish_alike he hrows (.ret ht .none) houtside
  · have hexpr := expr_alike he Level.lowest _ _ h
    generalize expr eof Level.lowest ts = r at hexpr
    generalize expr eof' Level.lowest ts' = r' at hexpr
    cases hexpr with
    | @fail f f' k i hi hf =>
      have hfault : FaultAt eof eof' (t :: ts) (t' :: ts') (1 + i) f f' :=
        FaultAt.of_drop (n := 1) hf
      refine dropped_alike hrows (houtside.append (.single (Nat.le_add_right 1 i) ?_ hfault))
      exact Nat.le_add_right_of_le (Nat.add_le_add_left hi 1)
    | ok k hee =>
      exact finish_alike he hrows (.ret ht (.some hee))
        (houtside.mono (Nat.le_refl 0) (Nat.le_add_right 1 k))

/-- Assignments are read in step. -/
theorem assignStmt_alike {sign sign' : Token} (hsign : sign.Alike ρ sign') (h : Rows ρ ts ts') :
    Parsed.Alike eof eof' (Stmt.Alike ρ) (t :: sign :: ts) (t' :: sign' :: ts')
      (assignStmt eof t sign ts) (assignStmt eof' t' sign' ts') := by
  have hrows : Rows ρ (t :: sign :: ts) (t' :: sign' :: ts') := .cons ht (.cons hsign h)
  have hexpr := expr_alike he Level.lowest _ _ h
  unfold assignStmt
  dsimp only
  rw [ht.literal]
  generalize expr eof Level.lowest ts = r at hexpr
  generalize expr eof' Level.lowest ts' = r' at hexpr
  cases hexpr with
  | @fail f f' k i hi hf =>
    have hfault : FaultAt eof eof' (t :: sign :: ts) (t' :: sign' :: ts') (2 + i) f f' :=
      FaultAt.of_drop (n := 2) hf
    refine dropped_alike hrows (.single (Nat.zero_le _) ?_ hfault)
    exact Nat.le_add_right_of_le (Nat.add_le_add_left hi 2)
  | ok k hee =>
    exact finish_alike he hrows (.assign hsign ht.ident hee) (.nil (Nat.zero_le _))

end

/-! ### Blocks -/

/-- A statement that was dropped in one list was dropped in the other. -/
theorem optionToList_of_rel {o o' : Option Stmt} (h : Option.Rel (Stmt.Alike ρ) o o') :
    List.Forall₂ (Stmt.Alike ρ) o.toList o'.toList := by
  cases h with
  | none => exact .nil
  | some h => exact .cons h .nil

/-- A block as a statement: its brace is one more token before the errors of its statements. -/
theorem Body.Alike.block {t t' : Token} (ht : t.Alike ρ t') {b b' : Body}
    (h : Body.Alike eof eof' ρ ts ts' b b') :
    Parsed.Alike eof eof' (Stmt.Alike ρ) (t :: ts) (t' :: ts') (b.block t) (b'.block t') := by
  refine ⟨?_, congrArg (· + 1) h.taken, ?_⟩
  · unfold Body.block
    rw [h.closed]
    split
    · exact .some (.block ht h.stmts.length_eq fun _ ha => List.forall₂_zip h.stmts ha)
    · exact .none
  · have hfaults : FaultsIn eof eof' (t :: ts) (t' :: ts') (1 + 0) (1 + b.taken) b.faults
        b'.faults :=
      FaultsIn.of_drop (n := 1) h.faults
    exact hfaults.mono (Nat.zero_le _) (Nat.le_of_eq (Nat.add_comm 1 _))

mutual

/-- **Statements are read in step.** -/
theorem statement_alike (he : SameEnd eof eof') (depth : Nat) {t t' : Token} (ht : t.Alike ρ t')
    (ts ts' : List Token) (h : Rows ρ ts ts') :
    Parsed.Alike eof eof' (Stmt.Alike ρ) (t :: ts) (t' :: ts') (statement eof depth (t :: ts))
      (statement eof' depth (t' :: ts')) := by
  have hexpr := exprStmt_alike he ht h
  rw [statement.eq_def, statement.eq_def]
  dsimp only
  rw [ht.kind]
  generalize hkind : t.kind = kind
  cases kind with
  | kwLet => exact letStmt_alike he ht hkind h
  | kwReturn => exact returnStmt_alike he ht depth h
  | lbrace => exact (body_alike he depth ts ts' h).block ht
  | kwFn =>
    -- a function inside a block is reported at its keyword, and skipped
    refine ⟨.none, congrArg (· + 1) (skipFunction_of_rows h), ?_⟩
    exact .single (Nat.le_refl 0) (Nat.zero_le _) (.head (t :: ts) (t' :: ts') _)
  | ident =>
    cases h with
    | nil => exact hexpr
    | cons hsign hrest =>
      dsimp only
      rw [hsign.kind]
      split
      · exact assignStmt_alike he ht hsign hrest
      · exact hexpr
  | _ => exact hexpr
termination_by 2 * ts.length + 2

/-- **Blocks are read in step**, statement by statement. -/
theorem body_alike (he : SameEnd eof eof') (depth : Nat) (ts ts' : List Token)
    (h : Rows ρ ts ts') :
    Body.Alike eof eof' ρ ts ts' (body eof depth ts) (body eof' depth ts') := by
  cases h with
  | nil =>
    rw [body, body, he.kind_eq, he.literal]
    exact ⟨rfl, .nil, rfl, .single (Nat.le_refl 0) (Nat.le_refl 0) (.head [] [] _)⟩
  | @cons t t' rest rest' ht hrest =>
    have hfirst := statement_alike he depth ht rest rest' hrest
    rw [body, body, ht.kind]
    split
    · exact ⟨rfl, .nil, rfl, .nil (Nat.zero_le _)⟩
    · dsimp only
      -- both runs go on at the same index, so the rest of the block is read in step too
      rw [hfirst.taken]
      have hrows : Rows ρ (t :: rest) (t' :: rest') := .cons ht hrest
      have hothers := body_alike he depth _ _
        (hrows.drop (max (statement eof depth (t :: rest)).taken 1))
      refine ⟨hothers.closed, ?_, congrArg (_ + ·) hothers.taken, ?_⟩
      · exact List.rel_append (optionToList_of_rel hfirst.node) hothers.stmts
      · -- at least one token is taken, also by a statement that takes none
        have hbefore := hfirst.faults.mono (Nat.le_refl 0) (Nat.le_max_left _ 1)
        exact hbefore.append hothers.faults.of_drop
termination_by 2 * ts.length + 1
decreasing_by
  · simp only [List.length_cons]
    omega
  · simp only [List.length_drop, List.length_cons]
    omega

end

/-! ### Functions -/

/-- Parameters are a parameter and the tail of a list. -/
theorem moreParameters_eq (heof : eof.kind = .eof) (ts : List Token) :
    moreParameters eof ts = (parameter eof ts).andThen ts
      (listTail eof (fun _ => .commaBeforeParen) (fun kind _ => .parameterEnd kind)
        (moreParameters eof)) := by
  rw [moreParameters.eq_def]
  cases parameter eof ts with
  | fail f k => rfl
  | ok p k =>
    dsimp only [Reply.andThen]
    split
    · next hnil => rw [hnil, shift_listTail_nil heof]
    · next t rest hcons => rw [hcons, shift_listTail_cons]

section
variable (he : SameEnd eof eof')
include he

/-- Parameters are read in step. A name without a type is reported at the token after the name, which
recovery passes over. -/
theorem parameter_alike (h : Rows ρ ts ts') :
    Reply.Alike eof eof' (ParamDecl.Alike ρ) skipFunction ts ts' (parameter eof ts)
      (parameter eof' ts') := by
  obtain ⟨hkind, hliteral, halike⟩ := headD_of_rows he h
  unfold parameter
  dsimp only
  rw [hkind, hliteral]
  split
  · next hident =>
    have ht := halike (by rw [hident]; decide)
    rcases expectSecond_alike he .colon (by decide) h with
      ⟨f, f', hf, hf', -, hfault⟩ | ⟨colon, colon', hcolon, hcolon', -⟩
    · rw [hf, hf']
      exact .fail 0 1 (Nat.le_add_left_of_le (one_le_skipFunction_of_ident he.kind hident)) hfault
    · rw [hcolon, hcolon']
      exact ((typeNode_alike he (h.drop 2)).map fun _ _ htype => ⟨ht.ident, htype⟩).shift
  · exact .failHead _ _ _

/-- The parameters that are left are read in step. -/
theorem moreParameters_alike (ts ts' : List Token) (h : Rows ρ ts ts') :
    Reply.Alike eof eof' (List.Forall₂ (ParamDecl.Alike ρ)) skipFunction ts ts'
      (moreParameters eof ts) (moreParameters eof' ts') := by
  rw [moreParameters_eq he.kind, moreParameters_eq (he.kind_eq.trans he.kind)]
  refine (parameter_alike he h).andThen fun p p' k hp => ?_
  exact listTail_alike he hp (h.drop k) fun hlt =>
    moreParameters_alike _ _ ((h.drop k).drop 1)
termination_by ts.length
decreasing_by
  simp only [List.length_drop] at hlt ⊢
  omega

/-- Parameters are read in step, an empty list among them. -/
theorem parameters_alike (h : Rows ρ ts ts') :
    Reply.Alike eof eof' (List.Forall₂ (ParamDecl.Alike ρ)) skipFunction ts ts'
      (parameters eof ts) (parameters eof' ts') := by
  unfold parameters
  rw [nextIs_of_rows h]
  split
  · exact .ok 1 .nil
  · exact moreParameters_alike he ts ts' h

/-- The brace of a body is there in both lists, or missing in both. -/
theorem openBrace_alike {name name' : Token} (hname : name.Alike ρ name') (h : Rows ρ ts ts') :
    Reply.Alike eof eof' (Token.Alike ρ) skipFunction ts ts' (openBrace eof name ts)
      (openBrace eof' name' ts') := by
  obtain ⟨hkind, hliteral, halike⟩ := headD_of_rows he h
  unfold openBrace
  dsimp only
  rw [hkind, hliteral, hname.literal]
  split
  · next hbrace => exact .ok 1 (halike (by rw [hbrace]; decide))
  · exact .failHead _ _ _

/-- **Heads of functions are read in step.** -/
theorem fnHead_alike {t t' : Token} (ht : t.Alike ρ t') (hfn : t.kind = .kwFn)
    (h : Rows ρ ts ts') :
    Reply.Alike eof eof' (fun x x' => x.1.Alike ρ x'.1 ∧ x.2.Alike ρ x'.2) skipFunction (t :: ts)
      (t' :: ts') (fnHead eof t ts) (fnHead eof' t' ts') := by
  unfold fnHead
  dsimp only
  rcases expectSecond_alike he .ident (by decide) (.cons ht h) with
    ⟨f, f', hf, hf', hnext, hfault⟩ | ⟨name, name', hname, hname', hident, hat, -, halike⟩
  · rw [hf, hf']
    -- a keyword that no name follows does not stop recovery
    have hskip : 1 ≤ skipFunction (t :: ts) :=
      one_le_skipFunction (by rw [hfn]; decide) (by rw [hfn]; decide) fun _ => hnext
    exact .fail 0 1 (Nat.le_add_left_of_le hskip) hfault
  · rw [hname, hname']
    dsimp only
    rw [halike.literal]
    refine Reply.Alike.shift (n := 1) ?_
    rcases expectSecond_alike he .lparen (by decide) h with
      ⟨f, f', hf, hf', -, hfault⟩ | ⟨paren, paren', hparen, hparen', -⟩
    · rw [hf, hf']
      rw [hat] at hident
      -- recovery starts at the name and passes over it
      exact .fail 0 1 (Nat.le_add_left_of_le (one_le_skipFunction_of_ident he.kind hident)) hfault
    · rw [hparen, hparen']
      refine Reply.Alike.shift (n := 2) ?_
      refine (parameters_alike he (h.drop 2)).andThen fun ps ps' k hps => ?_
      refine (optionalType_alike he ((h.drop 2).drop k)).andThen fun type type' n htype => ?_
      refine (openBrace_alike he halike (((h.drop 2).drop k).drop n)).map fun brace brace' hb => ?_
      exact ⟨⟨ht, halike.ident, hps, htype⟩, hb⟩

/-- **Functions are read in step.** A broken head is recovered from in another way than a broken
statement. -/
theorem function_alike (depth : Nat) {t t' : Token} (ht : t.Alike ρ t') (hfn : t.kind = .kwFn)
    (h : Rows ρ ts ts') :
    Parsed.Alike eof eof' (Stmt.Alike ρ) (t :: ts) (t' :: ts') (function eof depth t ts)
      (function eof' depth t' ts') := by
  have hrows : Rows ρ (t :: ts) (t' :: ts') := .cons ht h
  have hhead := fnHead_alike he ht hfn h
  unfold function
  dsimp only
  generalize fnHead eof t ts = r at hhead
  generalize fnHead eof' t' ts' = r' at hhead
  cases hhead with
  | fail k i hi hf => exact droppedFunction_alike hrows hi hf
  | @ok x x' k hx =>
    obtain ⟨head, brace⟩ := x
    obtain ⟨head', brace'⟩ := x'
    -- the body is read one level deeper in both
    have hbody := body_alike he (depth + 1) _ _ (hrows.drop k)
    dsimp only
    refine ⟨?_, congrArg (k + ·) hbody.taken, ?_⟩
    · rw [hbody.closed]
      split
      · exact .some (.fn hx.1 (.some hx.2) hbody.stmts.length_eq
          fun _ ha => List.forall₂_zip hbody.stmts ha)
      · exact .none
    · exact hbody.faults.of_drop.mono (Nat.zero_le _) (Nat.le_refl _)

/-! ### Programs -/

/-- **Statements at top level are read in step.** -/
theorem topLevel_alike {t t' : Token} (ht : t.Alike ρ t') (h : Rows ρ ts ts') :
    Parsed.Alike eof eof' (Stmt.Alike ρ) (t :: ts) (t' :: ts') (topLevel eof t ts)
      (topLevel eof' t' ts') := by
  -- whatever cannot stand at top level is reported at its first token
  have hdropped : ∀ p, Parsed.Alike eof eof' (Stmt.Alike ρ) (t :: ts) (t' :: ts')
      (.dropped (t :: ts) [t.fault p] 0) (.dropped (t' :: ts') [t'.fault p] 0) := fun p =>
    dropped_alike (.cons ht h) (.single (Nat.le_refl 0) (Nat.zero_le _)
      (.head (t :: ts) (t' :: ts') p))
  unfold topLevel
  dsimp only
  rw [ht.kind, ht.literal]
  generalize hkind : t.kind = kind
  cases kind with
  | kwLet => exact letStmt_alike he ht hkind h
  | kwFn => exact function_alike he 0 ht hkind h
  | ident =>
    cases h with
    | nil => exact hdropped _
    | cons hsign hrest =>
      dsimp only
      rw [hsign.kind]
      split
      · exact assignStmt_alike he ht hsign hrest
      · exact hdropped _
  | kwReturn => exact hdropped _
  | _ => exact hdropped _

/-- **The same program and the same syntax errors**, in the order of tokens. -/
theorem program_alike (ts ts' : List Token) (h : Rows ρ ts ts') :
    Program.Alike ρ (program eof ts).program (program eof' ts').program ∧
      ∃ hi, FaultsIn eof eof' ts ts' 0 hi (program eof ts).faults (program eof' ts').faults := by
  cases h with
  | nil =>
    rw [program, program]
    exact ⟨.nil, 0, .nil (Nat.le_refl 0)⟩
  | @cons t t' rest rest' ht hrest =>
    have hfirst := topLevel_alike he ht hrest
    have hrows : Rows ρ (t :: rest) (t' :: rest') := .cons ht hrest
    rw [program, program]
    dsimp only
    rw [hfirst.taken]
    obtain ⟨hprogram, hi, hfaults⟩ := program_alike _ _
      (hrows.drop (max (topLevel eof t rest).taken 1))
    refine ⟨List.rel_append (optionToList_of_rel hfirst.node) hprogram, ?_⟩
    have hbefore := hfirst.faults.mono (Nat.le_refl 0) (Nat.le_max_left _ 1)
    exact ⟨_, hbefore.append hfaults.of_drop⟩
termination_by ts.length
decreasing_by
  simp only [List.length_drop, List.length_cons]
  omega

end

end
end Slang.Parser
