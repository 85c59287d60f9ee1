import Slang.Proofs.Accepted

/-!
# What a body reaches

The scopes of a function body lie in each other and in the scope of the whole program, and nowhere
else: this is `Table.Confined`. So a name in a body stands for a parameter, for something that is
declared there, or for a global. `Aside` says what follows for the symbols that were there before:
a body leaves them as they are, except that it may mark its parameters and the globals as not known.
Nothing here depends on whether errors are found.
-/

namespace Slang

namespace Symbol

@[simp] theorem setCalculated_setCalculated (s : Symbol) (b c : Bool) :
    (s.setCalculated b).setCalculated c = s.setCalculated c := by
  unfold setCalculated
  cases hc : s.content with
  | «variable» v d => rfl
  | function ps result => simp [hc]

end Symbol

namespace Table

open Analysis

/-- **Scopes that keep to themselves**: those from `base` on lie in `base`, and around it there is at
most the scope of the whole program. Their names stand for symbols of their own or for globals. -/
structure Confined (base : ScopeId) (own : SymbolId → Prop) (t : Table) : Prop where
  outer : ∀ i s, base ≤ i → t.scope? i = some s → ∀ o ∈ s.outer, o = globalScope ∨ base ≤ o
  inside : ∀ i s, base < i → t.scope? i = some s → base ∈ s.outer
  names : ∀ i, base ≤ i → ∀ b ∈ t.namesOf i, own b.2 ∨ t.findIn? globalScope b.1 = some b.2
  /-- What is made from now on is their own. -/
  fresh : ∀ k, t.symbols.length ≤ k → own k

namespace Confined

variable {base sc : ScopeId} {own : SymbolId → Prop} {t : Table}

/-- Nothing has been made yet. -/
theorem start (t : Table) (hown : ∀ k, t.symbols.length ≤ k → own k) :
    t.Confined t.scopes.length own where
  outer := fun _ _ hi hs => absurd (scope?_lt hs) (Nat.not_lt.mpr hi)
  inside := fun _ _ hi hs => absurd (scope?_lt hs) (Nat.not_lt.mpr (Nat.le_of_lt hi))
  names := fun i hi b hb => by
    have hnone : t.scope? i = none := List.getElem?_eq_none hi
    unfold namesOf at hb
    rw [hnone] at hb
    cases hb
  fresh := hown

/-- From an inner scope, nothing around is seen but the scope of the whole program and inner scopes. -/
theorem chain (h : t.Confined base own) (hsc : base ≤ sc) {o : ScopeId} (ho : o ∈ t.chain sc) :
    o = globalScope ∨ base ≤ o := by
  unfold Table.chain at ho
  split at ho
  · next s hs =>
    rcases List.mem_cons.mp ho with rfl | ho
    · exact .inr hsc
    · exact h.outer sc s hsc hs o ho
  · cases ho

/-- **What a name stands for** in such a scope. -/
theorem find? (h : t.Confined base own) (hsc : base ≤ sc) {x : Text} {k : SymbolId}
    (hx : t.find? sc x = some k) : own k ∨ t.findIn? globalScope x = some k := by
  obtain ⟨o, ho, hk⟩ := List.exists_of_findSome?_eq_some hx
  rcases h.chain hsc ho with rfl | hbase
  · exact .inr hk
  · rw [findIn?_eq_lookup] at hk
    exact h.names o hbase _ (mem_of_lookup hk)

theorem addSymbol (h : t.Confined base own) (s : Symbol) :
    (t.addSymbol s).1.Confined base own where
  outer := h.outer
  inside := h.inside
  names := h.names
  fresh := by
    intro k hk
    simp only [Table.addSymbol, List.length_append, List.length_singleton] at hk
    exact h.fresh k (by omega)

theorem modify (h : t.Confined base own) (id : SymbolId) (f : Symbol → Symbol) :
    (t.modify id f).Confined base own where
  outer := h.outer
  inside := h.inside
  names := h.names
  fresh := by
    intro k hk
    simp only [Table.modify, List.length_modify] at hk
    exact h.fresh k hk

/-- A name is put into a scope, the name of an own symbol if the scope is inner. -/
theorem bound (h : t.Confined base own) {b : Text × SymbolId}
    (hb : base ≤ sc → own b.2 ∨ t.findIn? globalScope b.1 = some b.2) :
    (t.bound sc b).Confined base own where
  outer := by
    intro i s hi hs
    obtain ⟨x, hx, -, houter⟩ := scope?_of_bound hs
    rw [houter]
    exact h.outer i x hi hx
  inside := by
    intro i s hi hs
    obtain ⟨x, hx, -, houter⟩ := scope?_of_bound hs
    rw [houter]
    exact h.inside i x hi hx
  names := by
    intro i hi c hc
    have hold : ∀ c : Text × SymbolId, own c.2 ∨ t.findIn? globalScope c.1 = some c.2 →
        own c.2 ∨ (t.bound sc b).findIn? globalScope c.1 = some c.2 :=
      fun c hc => hc.imp_right fun hc => findIn?_bound hc sc b
    -- only one scope gets a name, and only if it is there
    by_cases hsc : sc = i
    · subst hsc
      by_cases hlt : sc < t.scopes.length
      · rw [namesOf_bound hlt] at hc
        rcases List.mem_append.mp hc with hc | hc
        · exact hold c (h.names sc hi c hc)
        · obtain rfl := List.mem_singleton.mp hc
          exact hold c (hb hi)
      · have hnone : (t.bound sc b).scope? sc = none := by
          rw [scope?_bound, if_pos rfl]
          exact congrArg _ (List.getElem?_eq_none (Nat.not_lt.mp hlt))
        unfold namesOf at hc
        rw [hnone] at hc
        cases hc
    · rw [namesOf_bound_of_ne t b hsc] at hc
      exact hold c (h.names i hi c hc)
  fresh := h.fresh

/-- A scope is made inside one of them, or it is the first of them. -/
theorem addScope (h : t.Confined base own) (hv : t.Valid) (hlt : sc < t.scopes.length)
    (hsc : base ≤ sc ∨ sc = globalScope ∧ base = t.scopes.length) (name : Text) :
    (t.addScope (some sc) name).1.Confined base own where
  outer := by
    intro i s hi hs o ho
    rcases scope?_of_addScope hs with hs | ⟨-, -, -, hinner⟩
    · exact h.outer i s hi hs o ho
    · rw [(hinner sc rfl).2] at ho
      -- within an inner scope, or at the top, where the new scope is the first inner one
      rcases hsc with hsc | ⟨rfl, -⟩
      · exact h.chain hsc ho
      · exact .inl (Nat.le_zero.mp (hv.chain_le ho))
  inside := by
    intro i s hi hs
    rcases scope?_of_addScope hs with hs | ⟨rfl, -, -, hinner⟩
    · exact h.inside i s hi hs
    · have hle : base ≤ sc := hsc.resolve_right fun hfirst => Nat.ne_of_lt hi hfirst.2
      obtain ⟨x, hx⟩ := exists_scope? hlt
      rw [(hinner sc rfl).2, chain_of_scope? hx]
      -- the first inner scope is the scope around, or around it
      rcases Nat.eq_or_lt_of_le hle with rfl | hbase
      · exact List.mem_cons_self
      · exact List.mem_cons_of_mem sc (h.inside sc x hbase hx)
  names := by
    intro i hi b hb
    rw [namesOf_addScope] at hb
    rw [findIn?_eq_lookup, namesOf_addScope, ← findIn?_eq_lookup]
    exact h.names i hi b hb
  fresh := h.fresh

end Confined
end Table

namespace Analysis

/-! ### What a body does to the symbols before it -/

/-- **What a body may do to a table**, by the numbers of its parameters: the symbols of `t₀` stay as
they are, but its parameters and the globals may be marked as not known. -/
structure Aside (base : ScopeId) (params : List SymbolId) (t₀ t : Table) : Prop where
  valid : t.Valid
  confined : t.Confined base fun k => k ∈ params ∨ t₀.symbols.length ≤ k
  length : t₀.symbols.length ≤ t.symbols.length
  kept : ∀ k s, t₀.symbol? k = some s → t.symbol? k = some s ∨
    (k ∈ params ∨ ∃ x, t.findIn? globalScope x = some k) ∧
      t.symbol? k = some (s.setCalculated false)

namespace Aside

variable {base : ScopeId} {params : List SymbolId} {t₀ t : Table}

theorem refl (h : t.Valid) (params : List SymbolId) : Aside t.scopes.length params t t where
  valid := h
  confined := .start t fun _ hk => .inr hk
  length := Nat.le_refl _
  kept := fun _ _ hs => .inl hs

theorem addSymbol (h : Aside base params t₀ t) {s : Symbol} (hs : s.Typed) :
    Aside base params t₀ (t.addSymbol s).1 where
  valid := (Table.extends_addSymbol globalScope t hs).valid h.valid
  confined := h.confined.addSymbol s
  length := by
    simp only [Table.addSymbol, List.length_append, List.length_singleton]
    exact Nat.le_succ_of_le h.length
  kept := by
    intro k x hx
    have hlt := Nat.lt_of_lt_of_le (Table.symbol?_lt hx) h.length
    rw [Table.symbol?_addSymbol_of_lt s hlt]
    exact h.kept k x hx

/-- A symbol is changed that was made by the body. -/
theorem modify_own (h : Aside base params t₀ t) {id : SymbolId} (hid : t₀.symbols.length ≤ id)
    {f : Symbol → Symbol} (hf : ∀ s, Symbol.Same s (f s)) :
    Aside base params t₀ (t.modify id f) where
  valid := (Table.extends_modify globalScope t id hf).valid h.valid
  confined := h.confined.modify id f
  length := by
    simp only [Table.modify, List.length_modify]
    exact h.length
  kept := by
    intro k x hx
    have hne : id ≠ k := Nat.ne_of_gt (Nat.lt_of_lt_of_le (Table.symbol?_lt hx) hid)
    rw [Table.symbol?_modify, if_neg hne]
    exact h.kept k x hx

/-- A parameter or a global is marked as not known. -/
theorem clear (h : Aside base params t₀ t) {id : SymbolId}
    (hid : id ∈ params ∨ ∃ x, t.findIn? globalScope x = some id) :
    Aside base params t₀ (t.modify id (·.setCalculated false)) where
  valid := (Table.extends_modify globalScope t id
    fun s => Symbol.same_setCalculated s false).valid h.valid
  confined := h.confined.modify id _
  length := by
    simp only [Table.modify, List.length_modify]
    exact h.length
  kept := by
    intro k x hx
    rw [Table.symbol?_modify]
    split
    · next heq =>
      subst heq
      refine .inr ⟨hid, ?_⟩
      -- forgetting a value twice is forgetting it once
      rcases h.kept id x hx with hsame | ⟨-, hcleared⟩
      · rw [hsame]
        rfl
      · rw [hcleared, Option.map_some, Symbol.setCalculated_setCalculated]
    · exact h.kept k x hx

theorem bound (h : Aside base params t₀ t) {sc : ScopeId} {b : Text × SymbolId} {s : Symbol}
    (hs : t.symbol? b.2 = some s) (hname : s.name = b.1)
    (hb : b.2 ∈ params ∨ t₀.symbols.length ≤ b.2) : Aside base params t₀ (t.bound sc b) where
  valid := (Table.extends_bound sc hs hname).valid h.valid
  confined := h.confined.bound fun _ => .inl hb
  length := h.length
  kept := by
    intro k x hx
    refine (h.kept k x hx).imp_right fun hcleared => ⟨hcleared.1.imp_right ?_, hcleared.2⟩
    rintro ⟨y, hy⟩
    exact ⟨y, Table.findIn?_bound hy sc b⟩

/-- A body opens scopes within itself. -/
theorem addScope (h : Aside base params t₀ t) {sc : ScopeId} (hlt : sc < t.scopes.length)
    (hsc : base ≤ sc ∨ sc = globalScope ∧ base = t.scopes.length) (name : Text) :
    Aside base params t₀ (t.addScope (some sc) name).1 where
  valid := h.valid.addScope hlt name
  confined := h.confined.addScope h.valid hlt hsc name
  length := h.length
  kept := by
    intro k x hx
    refine (h.kept k x hx).imp_right fun hcleared => ⟨hcleared.1.imp_right ?_, hcleared.2⟩
    rintro ⟨y, hy⟩
    refine ⟨y, ?_⟩
    -- a new scope has no names, so that the whole program lists what it listed
    rw [Table.findIn?_eq_lookup] at hy ⊢
    rw [Table.namesOf_addScope]
    exact hy

end Aside

section
variable {base : ScopeId} {t₀ : Table} {ctx : Context} {f : Frame} {st : State}

theorem aside_declare {params : List SymbolId} (h : Aside base params t₀ st.table) {s : Symbol}
    (hs : s.Typed) (tok : Token) : Aside base params t₀ (declare ctx s tok st).table := by
  have hadd := h.addSymbol hs
  cases hx : (st.table.findIn? ctx.scope s.name).bind (st.addSymbol s).1.table.symbol? with
  | some prev =>
    rw [declare_of_old hx]
    exact hadd
  | none =>
    obtain ⟨g, hg, fs, -, heq⟩ := declare_of_new tok hx
    rw [heq]
    refine Aside.modify_own ?_ h.length (Symbol.same_of_augmented hg)
    exact hadd.bound (Table.symbol?_addSymbol_self st.table s) rfl (.inr h.length)

theorem aside_checkLet {params : List SymbolId} (h : Aside base params t₀ st.table) (name : Ident)
    (type : Option TypeNode) (value : Option Expr) :
    Aside base params t₀ (checkLet ctx name type value st).table := by
  unfold checkLet
  dsimp only
  split
  · exact h
  · split
    · next hs =>
      refine aside_declare ?_ (typed_of_letSymbol hs) _
      exact h
    · exact h
    · exact h

/-- In a function, an assignment to what was there before marks it as not known. -/
theorem aside_checkAssign (h : Aside base f.params t₀ st.table) (hfn : ctx.fn = some f)
    (hglobal : ctx.global = globalScope) (hbase : base ≤ ctx.scope) (name : Ident) (value : Expr) :
    Aside base f.params t₀ (checkAssign ctx name value st).table := by
  unfold checkAssign
  dsimp only [State.table_report]
  split
  · exact h
  · next id hid =>
    have hown := h.confined.find? hbase hid
    split
    · exact h
    · next s hs =>
      split
      · exact h
      · split
        · -- nothing is known of the value
          rcases hown with (hparam | hnew) | hname
          · exact h.clear (.inl hparam)
          · exact h.modify_own hnew fun s => Symbol.same_setCalculated s false
          · exact h.clear (.inr ⟨_, hname⟩)
        · split
          · exact h
          · split
            · exact h
            · rcases Nat.lt_or_ge id t₀.symbols.length with hlt | hnew
              · -- a symbol from before is a parameter or a global, and so its value is not kept
                have hclear : id ∈ f.params ∨ st.table.findIn? globalScope name.name = some id := by
                  rcases hown with (hparam | hnew) | hname
                  · exact .inl hparam
                  · exact absurd hnew (Nat.not_le.mpr hlt)
                  · exact .inr hname
                obtain ⟨s', hs', hname⟩ := h.valid.symbol_of_find? hid
                obtain rfl := Option.some.inj (hs'.symm.trans hs)
                have hunknowable : isUnknowable ctx st.table id s'.name = true := by
                  simp only [isUnknowable, hfn, isGlobal, hglobal, hname, Bool.or_eq_true,
                    beq_iff_eq, List.contains_iff_mem]
                  exact hclear.symm
                have hassigned : assigned (isUnknowable ctx st.table id s'.name)
                    (check ctx st.table value).value = (·.setCalculated false) := by
                  rw [hunknowable]
                  rfl
                change Aside base f.params t₀ (st.table.modify id _)
                rw [hassigned]
                exact h.clear (hclear.imp_right fun hname => ⟨_, hname⟩)
              · exact h.modify_own hnew (same_assigned _ _)

mutual

/-- **A statement of a body** leaves what was there before, but for the values that it forgets. -/
theorem aside_checkStmt (ctx : Context) (st : State) (h : Aside base f.params t₀ st.table)
    (hfn : ctx.fn = some f) (hglobal : ctx.global = globalScope) (hbase : base ≤ ctx.scope)
    (hsc : ctx.scope < st.table.scopes.length) :
    (s : Stmt) → Aside base f.params t₀ (checkStmt ctx st s).table
  | .letDecl _ name type value => by
    rw [checkStmt]
    exact aside_checkLet h name type value
  | .assign _ name value => by
    rw [checkStmt]
    exact aside_checkAssign h hfn hglobal hbase name value
  | .ret tok value => by
    rw [checkStmt, table_checkReturn]
    exact h
  | .expr _ e => by
    rw [checkStmt, (table_checkExprStmt ctx st e).1]
    exact h
  | .block _ body => by
    rw [checkStmt_block]
    -- the scope of a block lies within the body, too
    exact aside_checkStmts (blockContext ctx st) (scopeStart ctx "block" st.returns st)
      (h.addScope hsc (.inl hbase) "block") hfn hglobal (Nat.le_trans hbase (Nat.le_of_lt hsc))
      (scope_lt_blockStart ctx st) body
  | .fn head _ _ => by
    rw [checkStmt]
    exact h
  | .hole => by
    rw [checkStmt]
    exact h

/-- **Statements of a body leave what was there before.** -/
theorem aside_checkStmts (ctx : Context) (st : State) (h : Aside base f.params t₀ st.table)
    (hfn : ctx.fn = some f) (hglobal : ctx.global = globalScope) (hbase : base ≤ ctx.scope)
    (hsc : ctx.scope < st.table.scopes.length) :
    (ss : List Stmt) → Aside base f.params t₀ (checkStmts ctx st ss).table
  | [] => by
    rw [checkStmts]
    exact h
  | s :: ss => by
    rw [checkStmts]
    exact aside_checkStmts ctx _ (aside_checkStmt ctx st h hfn hglobal hbase hsc s) hfn hglobal
      hbase ((grows_checkStmt ctx st hsc s).scope_lt hsc) ss

end

/-- Parameters are put into the scope of their body. -/
theorem aside_bindParams {params : List SymbolId} (h : Aside base params t₀ st.table)
    (head : FnHead) (ps : List Param) (hps : ∀ p ∈ ps, p.id ∈ params) :
    Aside base params t₀ (bindParams ctx head st ps).table := by
  induction ps generalizing st with
  | nil => exact h
  | cons p ps ih =>
    rw [bindParams]
    refine ih ?_ fun q hq => hps q (List.mem_cons_of_mem p hq)
    -- a parameter whose symbol is missing, or whose name is taken, is not put there
    split
    · next s hs =>
      cases hx : (st.table.findIn? ctx.scope s.name).bind st.table.symbol? with
      | some prev =>
        rw [bindName_of_old hx]
        exact h
      | none =>
        rw [bindName_of_new hx (Table.bind_eq hs hx)]
        exact h.bound (b := (s.name, p.id)) hs rfl (.inl (hps p List.mem_cons_self))
    · exact h

/-- **A body leaves what was there before.** It marks at most its parameters and the globals as not
known, and its scopes keep to themselves. -/
theorem aside_checkBody (hv : st.table.Valid) (hglobal : ctx.global = globalScope)
    (hscope : ctx.scope = globalScope) (hsc : ctx.scope < st.table.scopes.length) (head : FnHead)
    (declared : Option Ty) (params : List Param) (body : List Stmt) :
    Aside st.table.scopes.length (params.map (·.id)) st.table
      (checkBody ctx head declared params body st).table := by
  have hbegin : Aside st.table.scopes.length (params.map (·.id)) st.table
      (bodyStart ctx head declared params st).table :=
    aside_bindParams ((Aside.refl hv _).addScope hsc (.inr ⟨hscope, rfl⟩) head.name.name) head
      params fun p hp => List.mem_map_of_mem hp
  rw [checkBody_eq]
  exact aside_checkStmts (f := ⟨head.name.name, declared, params.map (·.id)⟩)
    (bodyContext ctx head declared params st) (bodyStart ctx head declared params st) hbegin rfl
    hglobal (Nat.le_refl _) (scope_lt_bodyStart ctx head declared params st) body

end

end Analysis
end Slang
