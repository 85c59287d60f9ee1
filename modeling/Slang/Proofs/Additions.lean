import Slang.Proofs.Bodies

/-!
# What a statement adds to its scope

A statement without errors adds at most one name to the scope in which it is read, that of a new
symbol. This is so in all trees, also in those with gaps. A declaration without a type and without a
value is an error of the reader and no error of analysis, which declares nothing; it is **vague**
(`Stmt.Vague`). All other declarations add their name (`declares_or_keeps`).
-/

namespace Slang

/-- **A vague declaration of a name**, as a statement or inside it: there is no type, and no value to
take the type from. -/
inductive Stmt.Vague (x : Text) : Stmt → Prop
  | letDecl {t : Token} {name : Ident} {value : Option Expr} (hname : name.name = x)
      (hvalue : ∀ e ∈ value, ¬e.Whole) : Vague x (.letDecl t name none value)
  | block {t : Token} {body : List Stmt} {s : Stmt} (hmem : s ∈ body) (hs : Vague x s) :
      Vague x (.block t body)

/-- Statements without gaps are not vague. -/
theorem Stmt.Proper.not_vague {s : Stmt} (h : s.Proper) (x : Text) : ¬s.Vague x := by
  induction h with
  | letDecl hone hvalue =>
    rintro (⟨-, habsent⟩ | _)
    obtain ⟨e, he⟩ := Option.isSome_iff_exists.mp (hone.resolve_left Bool.false_ne_true)
    exact habsent e he (hvalue e he)
  | block hbody ih =>
    rintro (_ | ⟨hmem, hs⟩)
    exact ih _ hmem hs
  | assign he => exact nofun
  | ret hvalue => exact nofun
  | expr he => exact nofun

/-- With the same frames, a scope has the same names. -/
theorem Table.namesOf_eq_of_frames {t t' : Table} {sc : ScopeId} (hsc : sc < t.scopes.length)
    (h : t'.frames sc = t.frames sc) : t'.namesOf sc = t.namesOf sc := by
  obtain ⟨s, hs⟩ := exists_scope? hsc
  have hframes : t.frames sc = t.namesOf sc :: s.outer.map t.namesOf := by
    rw [frames, chain_of_scope? hs, List.map_cons]
  exact namesOf_of_frames (h.trans hframes)

namespace Analysis

section
variable {ctx : Context} {st : State}

/-- A declaration without errors that declares nothing is vague. -/
theorem vague_of_letTy {tok : Token} {name : Ident} {type : Option TypeNode} {value : Option Expr}
    (hv : st.table.Valid) (hinit : Clean (letInit ctx st.table value).findings)
    (h : letTy name type value (letInit ctx st.table value) = (none, [])) :
    (Stmt.letDecl tok name type value).Vague name.name := by
  cases type with
  | some tn =>
    -- a written type is enough, whatever the value is
    cases value with
    | none => cases h
    | some e =>
      unfold letTy at h
      dsimp only at h
      repeat' split at h
      all_goals cases h
  | none =>
    refine .letDecl rfl fun e he hwhole => ?_
    obtain rfl : value = some e := he
    refine letTy_ne_none hv (.inr rfl) ?_ hinit h
    rintro _ ⟨⟩
    exact hwhole

/-- **What a statement without errors adds to its scope**: the name that it declares, or nothing if
there is none or the declaration is vague. -/
theorem declares_or_keeps (hv : st.table.Valid) (hsc : ctx.scope < st.table.scopes.length)
    {s : Stmt} (h : (checkStmt ctx st s).Clean) :
    (∃ sym : Symbol, s.declares = [sym.name] ∧
      st.table.Declared ctx.scope sym (checkStmt ctx st s).table) ∨
    (∀ x ∈ s.declares, s.Vague x) ∧
      (checkStmt ctx st s).table.frames ctx.scope = st.table.frames ctx.scope := by
  -- most statements declare nothing
  have hkeep : s.declares = [] →
      (checkStmt ctx st s).table.frames ctx.scope = st.table.frames ctx.scope →
      (∀ x ∈ s.declares, s.Vague x) ∧
        (checkStmt ctx st s).table.frames ctx.scope = st.table.frames ctx.scope := by
    intro hnone hframes
    rw [hnone]
    exact ⟨fun x hx => absurd hx List.not_mem_nil, hframes⟩
  cases s with
  | letDecl tok name type value =>
    rw [checkStmt] at h ⊢
    obtain ⟨-, hinit, hty | ⟨ty, v, sym, -, hsym, -, hdeclared, -⟩⟩ := checkLet_inv hv hsc h
    · refine .inr ⟨fun x hx => ?_, by rw [checkLet_of_none hty]; rfl⟩
      obtain rfl := List.mem_singleton.mp hx
      exact vague_of_letTy hv hinit hty
    · obtain ⟨w, -, -, rfl⟩ := letSymbol_ok hsym
      exact .inl ⟨_, rfl, hdeclared⟩
  | assign tok name e =>
    refine .inr (hkeep rfl ?_)
    rw [checkStmt] at h ⊢
    obtain ⟨-, -, _, _, _, _, -, -, -, -, htable⟩ := checkAssign_inv h
    rcases htable with ⟨-, htable⟩ | ⟨-, htable⟩ <;> rw [htable] <;> rfl
  | ret tok value =>
    refine .inr (hkeep rfl ?_)
    rw [checkStmt, table_checkReturn]
  | expr tok e =>
    refine .inr (hkeep rfl ?_)
    rw [checkStmt, (table_checkExprStmt ctx st e).1]
  | block tok body =>
    refine .inr (hkeep rfl ?_)
    rw [checkStmt_block]
    exact (grows_checkStmts _ _ (scope_lt_blockStart ctx st) body).table.frames_of_inner hv hsc
  | fn head brace body =>
    rw [checkStmt] at h
    simp [SemanticProblem.severity] at h
  | hole =>
    refine .inr (hkeep rfl ?_)
    rw [checkStmt]

end

/-! ### New names -/

/-- The scope `sc` may get new names, for new symbols. -/
def AddsNames (sc : ScopeId) (t t' : Table) : Prop :=
  ∃ new, t'.namesOf sc = t.namesOf sc ++ new ∧ ∀ i ∈ new.map Prod.snd, t.symbols.length ≤ i

section
variable {ctx : Context} {st : State}

theorem addsNames_of_eq {sc : ScopeId} {t t' : Table} (h : t'.namesOf sc = t.namesOf sc) :
    AddsNames sc t t' :=
  ⟨[], by rw [h, List.append_nil], by simp⟩

/-- A statement adds the name of a new symbol at most. -/
theorem addsNames_checkStmt (hv : st.table.Valid) (hsc : ctx.scope < st.table.scopes.length)
    {s : Stmt} (h : (checkStmt ctx st s).Clean) :
    AddsNames ctx.scope st.table (checkStmt ctx st s).table := by
  rcases declares_or_keeps hv hsc h with ⟨sym, -, hdeclared⟩ | ⟨-, hframes⟩
  · exact ⟨_, hdeclared.namesOf_eq, by simp⟩
  · exact addsNames_of_eq (Table.namesOf_eq_of_frames hsc hframes)

/-- New parameters are not bound yet. -/
theorem MadeParams.namesOf_eq {ps : List ParamDecl} {qs : List Param} {st st' : State}
    (h : MadeParams ps qs st st') (sc : ScopeId) : st'.table.namesOf sc = st.table.namesOf sc :=
  Table.namesOf_congr (by rw [Table.scope?, h.scopes]; rfl)

/-- A function adds its own name at most. -/
theorem addsNames_fn (hv : st.table.Valid) (hsc : ctx.scope < st.table.scopes.length)
    {head : FnHead} {brace : Option Token} {body : List Stmt} {signature : Option Symbol}
    (h : (checkTop ctx st (.fn head brace body, signature)).Clean) :
    AddsNames ctx.scope st.table (checkTop ctx st (.fn head brace body, signature)).table := by
  -- a body adds names to scopes of its own only
  have hbody : ∀ (st : State), ctx.scope < st.table.scopes.length → ∀ declared qs,
      (checkBody ctx head declared qs body st).table.namesOf ctx.scope =
        st.table.namesOf ctx.scope := fun st hsc declared qs =>
    (extends_checkBody ctx st head declared qs body).namesOf_of_inner hsc
  cases hresult : head.result with
  | none =>
    rw [checkTop_inferred ctx st signature hresult] at h ⊢
    obtain ⟨st₁, qs, st₂, hmake, hclean₁, rfl, -, hret, hdeclare, htable⟩ :=
      checkInferred_inv hsc h
    obtain ⟨hdistinct, hmade, hgrown⟩ := makeParams_inv ctx.scope hmake hclean₁
    have hsc₁ := hgrown.scope_lt hsc
    have hgrown₂ := grows_checkBody ctx st₁ hsc₁ head none qs body
    obtain ⟨-, hdeclared⟩ := declareFunction_inv (hgrown₂.table.valid (hgrown.table.valid hv))
      (hgrown₂.scope_lt hsc₁) (values_of_hasParams hmade.hasParams hdistinct) hret hdeclare
    refine ⟨_, by rw [htable, hdeclared.namesOf_eq, hbody st₁ hsc₁, hmade.namesOf_eq], ?_⟩
    simpa using Nat.le_trans hgrown.table.symbols_le hgrown₂.table.symbols_le
  | some type =>
    refine addsNames_of_eq ?_
    cases signature with
    | none => rw [checkTop_unsigned ctx st hresult]
    | some sym =>
      rw [checkTop_declared ctx st hresult] at h ⊢
      rw [(checkDeclared_inv h).2.2]
      exact hbody st hsc _ _

/-- **The same for top-level statements.** -/
theorem addsNames_checkTop (hv : st.table.Valid) (hsc : ctx.scope < st.table.scopes.length)
    {s : Stmt × Option Symbol} (h : (checkTop ctx st s).Clean) :
    AddsNames ctx.scope st.table (checkTop ctx st s).table := by
  obtain ⟨s, signature⟩ := s
  cases s with
  | fn head brace body => exact addsNames_fn hv hsc h
  | _ => exact addsNames_checkStmt hv hsc h

end

end Analysis
end Slang
