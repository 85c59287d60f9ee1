import Slang.Proofs.Additions

/-!
# Between the statements of a program

The second pass reads the statements of a program one after the other. `Underway` is what holds
between two of them in any program without errors: the rest can be read without errors, and the
parameters of the functions that are still to be read are no globals. In a program without gaps these
are variables of which nothing is known, and that is `Ready`. `Enters` is what holds where the body
of a function begins: its scope has the parameters and nothing else, inside the global scope, and
nothing is known of them.

`Underway.next` and `Ready.next` take one statement, `Underway.drop` and `Ready.drop` any number of
them, and `underway_start` and `ready_start` are the beginning. What one statement does to the
symbols is said by `Ready.reads_fn` for functions and by `checkLet_proper_inv` and `checkAssign_inv`
for the others.
-/

namespace Slang

open Typing

namespace Analysis

/-- **Where the body of a function begins.** The names of its scope are those of the parameters. -/
structure Enters (ctx : Context) (st : State) (head : FnHead) (body : List Stmt)
    (names : List (Text × SymbolId)) : Prop where
  fn : ctx.fn.isSome
  global : ctx.global = globalScope
  valid : st.table.Valid
  scope_lt : ctx.scope < st.table.scopes.length
  inside : st.table.Inside ctx.scope [names]
  params : names.map Prod.fst = head.params.map fun p => p.name.name
  unknown : ∀ b ∈ names, st.table.known? b.2 = none
  proper : ∀ s ∈ body, s.Proper
  clean : (checkStmts ctx st body).Clean

/-- The parameters in a signature. -/
def paramIds (s : Stmt × Option Symbol) : List SymbolId :=
  match s.2 with
  | some sym => sym.params.map (·.id)
  | none => []

/-- **A symbol that waits to be used**: nothing is known of it, and it is no global. -/
structure Free (t : Table) (i : SymbolId) : Prop where
  lt : i < t.symbols.length
  unknown : t.known? i = none
  unbound : i ∉ (t.namesOf globalScope).map Prod.snd

/-- **What holds before the statements `l` are read**, of any program without errors: the parameters
of the functions that are still to be read are symbols of their own, and no globals. -/
structure Underway (ctx : Context) (st : State) (l : List (Stmt × Option Symbol)) : Prop where
  scope : ctx.scope = globalScope
  global : ctx.global = globalScope
  valid : st.table.Valid
  scope_lt : globalScope < st.table.scopes.length
  root : st.table.chain globalScope = [globalScope]
  signed : ∀ s ∈ l, Signed st.table s
  pending : ∀ i ∈ l.flatMap paramIds, i < st.table.symbols.length ∧
    i ∉ (st.table.namesOf globalScope).map Prod.snd
  distinct : (l.flatMap paramIds).Nodup
  clean : (l.foldl (checkTop ctx) st).Clean

/-- **What holds before the statements `l` are read**, in a program without gaps and without
errors. -/
structure Ready (ctx : Context) (st : State) (l : List (Stmt × Option Symbol)) : Prop where
  scope : ctx.scope = globalScope
  global : ctx.global = globalScope
  fn : ctx.fn = none
  valid : st.table.Valid
  scope_lt : globalScope < st.table.scopes.length
  root : st.table.chain globalScope = [globalScope]
  proper : ∀ s ∈ l, s.1.ProperTop
  signed : ∀ s ∈ l, Signed st.table s
  pending : ∀ i ∈ l.flatMap paramIds, Free st.table i
  distinct : (l.flatMap paramIds).Nodup
  clean : (l.foldl (checkTop ctx) st).Clean

/-- New names of new symbols are no reason not to wait any longer. -/
theorem Free.mono {t t' : Table} {i : SymbolId} (h : Free t i)
    (hle : t.symbols.length ≤ t'.symbols.length) (hold : t'.symbol? i = t.symbol? i)
    (hnames : ∃ new, t'.namesOf globalScope = t.namesOf globalScope ++ new ∧
      ∀ i ∈ new.map Prod.snd, t.symbols.length ≤ i) : Free t' i where
  lt := Nat.lt_of_lt_of_le h.lt hle
  unknown := by rw [Table.known?, hold]; exact h.unknown
  unbound := by
    obtain ⟨new, hnames, hnew⟩ := hnames
    rw [hnames, List.map_append, List.mem_append, not_or]
    exact ⟨h.unbound, fun hmem => Nat.not_lt.mpr (hnew i hmem) h.lt⟩

/-! ### One statement after the other -/

section
variable {ctx : Context} {st : State} {s : Stmt × Option Symbol} {l : List (Stmt × Option Symbol)}

theorem Underway.scope_lt' (h : Underway ctx st l) : ctx.scope < st.table.scopes.length :=
  h.scope ▸ h.scope_lt

theorem Underway.clean_head (h : Underway ctx st (s :: l)) : (checkTop ctx st s).Clean :=
  (grows_checkTops ctx _ ((grows_checkTop ctx st h.scope_lt' s).scope_lt h.scope_lt') l).clean
    h.clean

theorem Underway.names_next (h : Underway ctx st (s :: l)) :
    AddsNames globalScope st.table (checkTop ctx st s).table :=
  h.scope ▸ addsNames_checkTop h.valid h.scope_lt' h.clean_head

/-- **One statement.** -/
theorem Underway.next (h : Underway ctx st (s :: l)) : Underway ctx (checkTop ctx st s) l := by
  have hgrown := grows_checkTop ctx st h.scope_lt' s
  obtain ⟨new, hnames, hnew⟩ := h.names_next
  refine ⟨h.scope, h.global, hgrown.table.valid h.valid, hgrown.scope_lt h.scope_lt, ?_,
    fun s' hs' => (h.signed s' (List.mem_cons_of_mem s hs')).mono hgrown.table, ?_, ?_, h.clean⟩
  · rw [hgrown.table.chain_eq h.scope_lt, h.root]
  · intro i hi
    obtain ⟨hlt, hunbound⟩ := h.pending i (List.mem_append_right _ hi)
    refine ⟨hgrown.table.symbol_lt hlt, ?_⟩
    -- the new names are those of new symbols
    rw [hnames, List.map_append, List.mem_append, not_or]
    exact ⟨hunbound, fun hmem => Nat.not_lt.mpr (hnew i hmem) hlt⟩
  · have hdistinct := h.distinct
    rw [List.flatMap_cons] at hdistinct
    exact (List.nodup_append.mp hdistinct).2.1

/-- Any number of statements. -/
theorem Underway.drop (h : Underway ctx st l) (n : Nat) :
    Underway ctx ((l.take n).foldl (checkTop ctx) st) (l.drop n) := by
  induction n generalizing st l with
  | zero => exact h
  | succ n ih =>
    cases l with
    | nil => exact h
    | cons s l => exact ih h.next

theorem Ready.underway (h : Ready ctx st l) : Underway ctx st l where
  scope := h.scope
  global := h.global
  valid := h.valid
  scope_lt := h.scope_lt
  root := h.root
  signed := h.signed
  pending := fun i hi => ⟨(h.pending i hi).lt, (h.pending i hi).unbound⟩
  distinct := h.distinct
  clean := h.clean

theorem Ready.scope_lt' (h : Ready ctx st l) : ctx.scope < st.table.scopes.length :=
  h.underway.scope_lt'

theorem Ready.clean_head (h : Ready ctx st (s :: l)) : (checkTop ctx st s).Clean :=
  h.underway.clean_head

/-- The names that a statement adds to the global scope are those of new symbols. -/
theorem Ready.names_next (h : Ready ctx st (s :: l)) :
    ∃ new, (checkTop ctx st s).table.namesOf globalScope = st.table.namesOf globalScope ++ new ∧
      ∀ i ∈ new.map Prod.snd, st.table.symbols.length ≤ i :=
  h.underway.names_next

end

/-! ### Entering a function -/

section
variable {ctx : Context} {st : State} {head : FnHead} {qs : List Param} {body : List Stmt}

theorem frames_of_root {t : Table} (h : t.chain globalScope = [globalScope]) :
    t.frames globalScope = [t.namesOf globalScope] := by
  rw [Table.frames, h]
  rfl

/-- **The scope of a body** has the parameters in it, if they are variables that no global name
stands for. -/
theorem inside_bodyStart (declared : Option Ty) (hscope : ctx.scope = globalScope)
    (hv : st.table.Valid) (hlt : globalScope < st.table.scopes.length)
    (hroot : st.table.chain globalScope = [globalScope]) (hparams : HasParams st.table head qs)
    (hdistinct : DistinctParams [] head.params) (hnodup : (qs.map (·.id)).Nodup)
    (hunbound : ∀ q ∈ qs, q.id ∉ (st.table.namesOf globalScope).map Prod.snd) :
    (bodyStart ctx head declared qs st).table.Inside (bodyContext ctx head declared qs st).scope
        [qs.map Param.binding] ∧
      (bodyStart ctx head declared qs st).table.symbols = st.table.symbols ∧
      (bodyStart ctx head declared qs st).table.namesOf globalScope =
        st.table.namesOf globalScope := by
  have hsc : ctx.scope < st.table.scopes.length := hscope ▸ hlt
  obtain ⟨-, -, hsymbols, hframes⟩ := bodyStart_spec head declared hv hsc
    (fun q hq => (hparams.symbols q hq).imp fun s hs => ⟨hs.1, hs.2.1⟩)
    (hparams.names ▸ hdistinct.distinct)
  have hbound := grows_bindParams (bodyContext ctx head declared qs st) head
    (scopeStart ctx head.name.name ⟨false, none⟩ st) qs
  -- the global scope is an old one, and the body has a scope of its own
  have hnames : (bodyStart ctx head declared qs st).table.namesOf globalScope =
      st.table.namesOf globalScope :=
    hbound.table.namesOf_of_inner hlt
  have hids : Table.idsOf [qs.map Param.binding] = qs.map (·.id) := by
    simp [Table.idsOf, Param.binding, Function.comp_def]
  refine ⟨⟨hlt, ?_, ?_, ?_⟩, hsymbols, hnames⟩
  · rw [hframes, hnames, hscope, frames_of_root hroot]
    rfl
  · rw [hids]
    exact hnodup
  · intro i hi
    rw [hids] at hi
    obtain ⟨q, hq, rfl⟩ := List.mem_map.mp hi
    rw [hnames]
    exact hunbound q hq

theorem HasParams.map_fst_binding (h : HasParams st.table head qs) :
    (qs.map Param.binding).map Prod.fst = head.params.map fun p => p.name.name := by
  rw [List.map_map, ← h.names]
  rfl

/-- A function whose parameters are new variables begins as it should. -/
theorem enters_body (declared : Option Ty) (hscope : ctx.scope = globalScope)
    (hglobal : ctx.global = globalScope) (hv : st.table.Valid)
    (hlt : globalScope < st.table.scopes.length)
    (hroot : st.table.chain globalScope = [globalScope]) (hparams : HasParams st.table head qs)
    (hdistinct : DistinctParams [] head.params) (hnodup : (qs.map (·.id)).Nodup)
    (hfree : ∀ q ∈ qs, Free st.table q.id)
    (hproper : ∀ s ∈ body, s.Proper) (h : (checkBody ctx head declared qs body st).Clean) :
    Enters (bodyContext ctx head declared qs st) (bodyStart ctx head declared qs st) head body
        (qs.map Param.binding) ∧
      (bodyStart ctx head declared qs st).table.symbols = st.table.symbols ∧
      (bodyStart ctx head declared qs st).table.namesOf globalScope =
        st.table.namesOf globalScope := by
  obtain ⟨hinside, hsymbols, hnames⟩ := inside_bodyStart declared hscope hv hlt hroot hparams
    hdistinct hnodup fun q hq => (hfree q hq).unbound
  refine ⟨⟨rfl, hglobal, valid_bodyStart hv (hscope ▸ hlt) head declared qs,
    scope_lt_bodyStart ctx head declared qs st, hinside, hparams.map_fst_binding, ?_, hproper, h⟩,
    hsymbols, hnames⟩
  intro b hb
  obtain ⟨q, hq, rfl⟩ := List.mem_map.mp hb
  rw [Table.known?, Table.symbol?, hsymbols]
  exact (hfree q hq).unknown

end

/-! ### Reading a function -/

/-- The number of a bound symbol is that of a symbol. -/
theorem lt_of_mem_namesOf {t : Table} (hv : t.Valid) {sc : ScopeId} {i : SymbolId}
    (hi : i ∈ (t.namesOf sc).map Prod.snd) : i < t.symbols.length := by
  obtain ⟨b, hb, rfl⟩ := List.mem_map.mp hi
  obtain ⟨sym, hsym, -⟩ := hv.bound_of_mem hb
  exact Table.symbol?_lt hsym

namespace MadeParams

variable {ps : List ParamDecl} {qs : List Param} {st st' : State}

theorem nodup (h : MadeParams ps qs st st') : (qs.map (·.id)).Nodup := by
  rw [h.ids]
  exact List.nodup_range'

theorem mem_range (h : MadeParams ps qs st st') {q : Param} (hq : q ∈ qs) :
    st.table.symbols.length ≤ q.id ∧ q.id < st'.table.symbols.length := by
  have hmem : q.id ∈ qs.map (·.id) := List.mem_map_of_mem hq
  rw [h.ids, List.mem_range'_1, ← h.length] at hmem
  exact hmem

theorem le_id (h : MadeParams ps qs st st') {q : Param} (hq : q ∈ qs) :
    st.table.symbols.length ≤ q.id :=
  (h.mem_range hq).1

/-- New parameters wait to be used. -/
theorem free (h : MadeParams ps qs st st') (hv : st.table.Valid) :
    ∀ q ∈ qs, Free st'.table q.id := by
  intro q hq
  obtain ⟨s, v, hs, -, hc, -⟩ := h.new q hq
  refine ⟨(h.mem_range hq).2, by simp [Table.known?, hs, Symbol.known?, hc], fun hmem => ?_⟩
  rw [h.namesOf_eq] at hmem
  exact Nat.not_lt.mpr (h.le_id hq) (lt_of_mem_namesOf hv hmem)

end MadeParams

/-- **What reading a function comes to**, from a table with symbols of its own for the parameters in
`own`: its body is entered, and the function may be declared after it. The table in between differs
from the one before only by new symbols and by the scope of the function. -/
structure ReadsFn (t t' : Table) (own : List SymbolId) (head : FnHead) (body : List Stmt)
    (ctx : Context) (st : State) (names : List (Text × SymbolId)) : Prop where
  enters : Enters ctx st head body names
  own : ∀ i ∈ names.map Prod.snd, i ∈ own ∨ t.symbols.length ≤ i
  length : t.symbols.length ≤ st.table.symbols.length
  old : ∀ i, i < t.symbols.length → st.table.symbol? i = t.symbol? i
  names_eq : st.table.namesOf globalScope = t.namesOf globalScope
  after : t' = (checkStmts ctx st body).table ∨
    ∃ s, s.known? = none ∧ (checkStmts ctx st body).table.Declared globalScope s t'

section
variable {ctx : Context} {st : State} {s : Stmt × Option Symbol} {l : List (Stmt × Option Symbol)}

/-- A global is no parameter of a function. -/
theorem Ready.not_mem_paramIds (h : Ready ctx st (s :: l)) {i : SymbolId}
    (hi : i ∈ (st.table.namesOf globalScope).map Prod.snd) : i ∉ paramIds s :=
  fun hmem => (h.pending i (List.mem_flatMap.mpr ⟨s, List.mem_cons_self, hmem⟩)).unbound hi

/-- A function without a written type makes its parameters, reads its body and is declared. -/
theorem Ready.reads_inferred {head : FnHead} {brace : Option Token} {body : List Stmt}
    {signature : Option Symbol} (h : Ready ctx st ((.fn head brace body, signature) :: l))
    (hresult : head.result = none) (hproper : ∀ s ∈ body, s.Proper) :
    ∃ ctx' st' names, bodyEntry ctx st head signature = some (ctx', st') ∧
      ReadsFn st.table (checkTop ctx st (.fn head brace body, signature)).table
        (paramIds (.fn head brace body, signature)) head body ctx' st' names := by
  have hclean := h.clean_head
  rw [checkTop_inferred ctx st signature hresult] at hclean ⊢
  obtain ⟨st₁, qs, st₂, hmake, hclean₁, hst₂, hclean₂, hret, hdeclare, htable⟩ :=
    checkInferred_inv h.scope_lt' hclean
  obtain ⟨hdistinct, hmade, hgrown⟩ := makeParams_inv ctx.scope hmake hclean₁
  have hv := hgrown.table.valid h.valid
  have hparams := hmade.hasParams
  have hroot : st₁.table.chain globalScope = [globalScope] := by
    rw [hgrown.table.chain_eq h.scope_lt, h.root]
  have hfree := hmade.free h.valid
  obtain ⟨henters, hsymbols, hglobals⟩ := enters_body none h.scope h.global hv
    (hgrown.scope_lt h.scope_lt) hroot hparams hdistinct hmade.nodup hfree hproper (hst₂ ▸ hclean₂)
  refine ⟨_, _, _, ?_, henters, ?_, ?_, ?_, hglobals.trans (hmade.namesOf_eq _), .inr ?_⟩
  · unfold bodyEntry
    rw [hresult, hmake]
  · intro i hi
    obtain ⟨b, hb, rfl⟩ := List.mem_map.mp hi
    obtain ⟨q, hq, rfl⟩ := List.mem_map.mp hb
    exact .inr (hmade.le_id hq)
  · rw [hsymbols, hmade.length]
    exact Nat.le_add_right _ _
  · intro i hi
    rw [Table.symbol?, hsymbols]
    exact hmade.old i hi
  · -- the function is declared after its body, as a symbol of which no value is known
    have hbody := grows_checkBody ctx st₁ (hgrown.scope_lt h.scope_lt') head none qs body
    have hsc := hbody.scope_lt (hgrown.scope_lt h.scope_lt')
    rw [← hst₂] at hbody hsc
    obtain ⟨-, hdeclared⟩ := declareFunction_inv (hbody.table.valid hv) hsc
      (values_of_hasParams hparams hdistinct) hret hdeclare
    rw [htable, ← checkBody_eq, ← hst₂, ← h.scope]
    exact ⟨_, rfl, hdeclared⟩

/-- A function with a written type has its parameters and is declared already. -/
theorem Ready.reads_declared {head : FnHead} {brace : Option Token} {body : List Stmt}
    {signature : Option Symbol} (h : Ready ctx st ((.fn head brace body, signature) :: l))
    {type : TypeNode} (hresult : head.result = some type) (hproper : ∀ s ∈ body, s.Proper) :
    ∃ ctx' st' names, bodyEntry ctx st head signature = some (ctx', st') ∧
      ReadsFn st.table (checkTop ctx st (.fn head brace body, signature)).table
        (paramIds (.fn head brace body, signature)) head body ctx' st' names := by
  obtain ⟨hdistinct, -, sym, rfl, hparams⟩ :=
    h.signed _ List.mem_cons_self head brace body type rfl hresult
  have hclean := h.clean_head
  rw [checkTop_declared ctx st hresult] at hclean ⊢
  obtain ⟨hbody, -, heq⟩ := checkDeclared_inv hclean
  -- the parameters in the signature are among those that still wait
  have hmem : ∀ q ∈ sym.params,
      q.id ∈ ((Stmt.fn head brace body, some sym) :: l).flatMap paramIds := fun q hq =>
    List.mem_flatMap.mpr ⟨_, List.mem_cons_self, List.mem_map_of_mem hq⟩
  have hnodup := h.distinct
  rw [List.flatMap_cons] at hnodup
  obtain ⟨henters, hsymbols, hglobals⟩ := enters_body (some type.ty) h.scope h.global h.valid
    h.scope_lt h.root hparams hdistinct (List.nodup_append.mp hnodup).1
    (fun q hq => h.pending q.id (hmem q hq)) hproper hbody
  refine ⟨_, _, _, ?_, henters, ?_, ?_, ?_, hglobals, .inl ?_⟩
  · unfold bodyEntry
    rw [hresult]
  · intro i hi
    obtain ⟨b, hb, rfl⟩ := List.mem_map.mp hi
    obtain ⟨q, hq, rfl⟩ := List.mem_map.mp hb
    exact .inl (List.mem_map_of_mem hq)
  · exact Nat.le_of_eq (congrArg List.length hsymbols).symm
  · intro i hi
    rw [Table.symbol?, hsymbols]
    rfl
  · rw [heq, checkBody_eq]

/-- **Reading a function.** -/
theorem Ready.reads_fn {head : FnHead} {brace : Option Token} {body : List Stmt}
    {signature : Option Symbol} (h : Ready ctx st ((.fn head brace body, signature) :: l)) :
    ∃ ctx' st' names, bodyEntry ctx st head signature = some (ctx', st') ∧
      ReadsFn st.table (checkTop ctx st (.fn head brace body, signature)).table
        (paramIds (.fn head brace body, signature)) head body ctx' st' names := by
  have hproper : ∀ s ∈ body, s.Proper := by
    have hfn : (Stmt.fn head brace body).ProperTop := h.proper _ List.mem_cons_self
    cases hfn with
    | fn hbody => exact hbody
  cases hresult : head.result with
  | none => exact h.reads_inferred hresult hproper
  | some type => exact h.reads_declared hresult hproper

end

/-- What a function does to a symbol that is none of its parameters. -/
theorem ReadsFn.leaves {t t' : Table} {own : List SymbolId} {head : FnHead} {body : List Stmt}
    {ctx : Context} {st : State} {names : List (Text × SymbolId)}
    (h : ReadsFn t t' own head body ctx st names) {i : SymbolId} (hlt : i < t.symbols.length)
    (hown : i ∉ own) : Leaves (WritesIn ctx st body i) i t t' := by
  have henters := h.enters
  -- an old symbol that is no parameter is not local
  have hids : i ∉ Table.idsOf [names] := by
    intro hmem
    have hmem : i ∈ names.map Prod.snd := by simpa [Table.idsOf] using hmem
    rcases h.own i hmem with hi | hi
    · exact hown hi
    · exact Nat.not_lt.mpr hi hlt
  have hlt' := Nat.lt_of_lt_of_le hlt h.length
  have hbody := leaves_checkStmts ctx st henters.fn henters.global henters.valid henters.scope_lt
    names [] henters.inside i hlt' hids body henters.proper henters.clean
  have hgrown := grows_checkStmts ctx st henters.scope_lt body
  -- a declaration after the body changes no symbol that was there before
  have hafter : t'.symbol? i = (checkStmts ctx st body).table.symbol? i := by
    rcases h.after with rfl | ⟨s, -, hdeclared⟩
    · rfl
    · exact hdeclared.old i (hgrown.table.symbol_lt hlt')
  constructor
  · intro hW
    rw [hafter, hbody.unwritten hW, h.old i hlt]
  · intro hW
    obtain ⟨hmem, hnone⟩ := hbody.written hW
    rw [h.names_eq] at hmem
    refine ⟨hmem, ?_⟩
    rw [Table.known?, hafter]
    exact hnone

/-- A body adds no name to the global scope. -/
theorem ReadsFn.namesOf_body {t t' : Table} {own : List SymbolId} {head : FnHead}
    {body : List Stmt} {ctx : Context} {st : State} {names : List (Text × SymbolId)}
    (h : ReadsFn t t' own head body ctx st names) :
    (checkStmts ctx st body).table.namesOf globalScope = t.namesOf globalScope := by
  have hgrown := grows_checkStmts ctx st h.enters.scope_lt body
  rw [hgrown.table.namesOf_eq (h.enters.inside.lt_scopes h.enters.scope_lt)
    (Nat.ne_of_lt h.enters.inside.inner), h.names_eq]

/-- The names that a function adds to the global scope are those of new symbols. -/
theorem ReadsFn.names_next {t t' : Table} {own : List SymbolId} {head : FnHead} {body : List Stmt}
    {ctx : Context} {st : State} {names : List (Text × SymbolId)}
    (h : ReadsFn t t' own head body ctx st names) :
    ∃ new, t'.namesOf globalScope = t.namesOf globalScope ++ new ∧
      ∀ i ∈ new.map Prod.snd, (checkStmts ctx st body).table.symbols.length ≤ i := by
  have hbody := h.namesOf_body
  rcases h.after with rfl | ⟨s, -, hdeclared⟩
  · exact ⟨[], by rw [hbody, List.append_nil], by simp⟩
  · exact ⟨_, by rw [hdeclared.namesOf_eq, hbody], by simp⟩

/-! ### One statement -/

/-- From the global scope a name stands for what the scope itself has. -/
theorem find?_of_root {t : Table} (h : t.chain globalScope = [globalScope]) (x : Text) :
    t.find? globalScope x = t.findIn? globalScope x := by
  rw [Table.find?, h]
  simp

section
variable {ctx : Context} {st : State} {s : Stmt × Option Symbol} {l : List (Stmt × Option Symbol)}

/-- **Untouched symbols.** A statement changes no symbol but the globals and its own parameters. -/
theorem Ready.untouched (h : Ready ctx st (s :: l)) {i : SymbolId}
    (hlt : i < st.table.symbols.length)
    (hglobal : i ∉ (st.table.namesOf globalScope).map Prod.snd) (hown : i ∉ paramIds s) :
    (checkTop ctx st s).table.symbol? i = st.table.symbol? i := by
  obtain ⟨s, signature⟩ := s
  have hclean := h.clean_head
  have hs : s.ProperTop := h.proper _ List.mem_cons_self
  cases hs with
  | letDecl hone hvalue =>
    rw [checkTop_letDecl] at hclean ⊢
    obtain ⟨-, ty, v, sym, -, -, -, -, hdeclared, -⟩ :=
      checkLet_proper_inv h.valid h.scope_lt' hone hvalue hclean
    exact hdeclared.old i hlt
  | assign he =>
    rw [checkTop_assign] at hclean ⊢
    obtain ⟨-, -, j, sym, v, c, hj, -, -, -, htable⟩ := checkAssign_inv hclean
    -- the assigned variable is a global
    rw [h.scope, find?_of_root h.root] at hj
    have hne : j ≠ i := by
      rintro rfl
      exact hglobal (Table.mem_ids_of_findIn? hj)
    rcases htable with ⟨-, htable⟩ | ⟨-, htable⟩ <;>
      rw [htable, Table.symbol?_modify, if_neg hne]
  | fn hbody =>
    -- a body writes to nothing outside of it but to globals
    obtain ⟨ctx', st', names, -, hreads⟩ := h.reads_fn
    have hleaves := hreads.leaves hlt hown
    exact hleaves.unwritten fun hW => hglobal (hleaves.written hW).1

/-- **One statement.** -/
theorem Ready.next (h : Ready ctx st (s :: l)) : Ready ctx (checkTop ctx st s) l := by
  have hnext := h.underway.next
  have hgrown := grows_checkTop ctx st h.scope_lt' s
  have hdistinct := h.distinct
  rw [List.flatMap_cons] at hdistinct
  refine ⟨h.scope, h.global, h.fn, hnext.valid, hnext.scope_lt, hnext.root,
    fun s' hs' => h.proper s' (List.mem_cons_of_mem s hs'), hnext.signed, fun i hi => ?_,
    hnext.distinct, h.clean⟩
  have hfree := h.pending i (List.mem_append_right _ hi)
  -- the parameters of one function are not those of another
  have hown : i ∉ paramIds s := fun hmem => (List.nodup_append.mp hdistinct).2.2 i hmem i hi rfl
  exact hfree.mono hgrown.table.symbols_le (h.untouched hfree.lt hfree.unbound hown) h.names_next

/-- Any number of statements. -/
theorem Ready.drop (h : Ready ctx st l) (n : Nat) :
    Ready ctx ((l.take n).foldl (checkTop ctx) st) (l.drop n) := by
  induction n generalizing st l with
  | zero => exact h
  | succ n ih =>
    cases l with
    | nil => exact h
    | cons s l => exact ih h.next

end

/-! ### The beginning -/

/-- **What the first pass does to a table**: it adds symbols, and names for them. -/
structure Adds (t t' : Table) : Prop where
  symbols_le : t.symbols.length ≤ t'.symbols.length
  old : ∀ i, i < t.symbols.length → t'.symbol? i = t.symbol? i
  names : ∃ new, t'.namesOf globalScope = t.namesOf globalScope ++ new ∧
    ∀ i ∈ new.map Prod.snd, t.symbols.length ≤ i

theorem Adds.refl (t : Table) : Adds t t :=
  ⟨Nat.le_refl _, fun _ _ => rfl, [], (List.append_nil _).symm, by simp⟩

theorem Adds.trans {t t' t'' : Table} (h : Adds t t') (h' : Adds t' t'') : Adds t t'' where
  symbols_le := Nat.le_trans h.symbols_le h'.symbols_le
  old := fun i hi => (h'.old i (Nat.lt_of_lt_of_le hi h.symbols_le)).trans (h.old i hi)
  names := by
    obtain ⟨new, hnames, hnew⟩ := h.names
    obtain ⟨new', hnames', hnew'⟩ := h'.names
    refine ⟨new ++ new', by rw [hnames', hnames, List.append_assoc], fun i hi => ?_⟩
    rw [List.map_append, List.mem_append] at hi
    rcases hi with hi | hi
    · exact hnew i hi
    · exact Nat.le_trans h.symbols_le (hnew' i hi)

theorem Adds.free {t t' : Table} (h : Adds t t') {i : SymbolId} (hi : Free t i) : Free t' i :=
  hi.mono h.symbols_le (h.old i hi.lt) h.names

theorem adds_of_declared {t t' : Table} {s : Symbol} (h : t.Declared globalScope s t') :
    Adds t t' :=
  ⟨h.grown.symbols_le, h.old, _, h.namesOf_eq, by simp⟩

theorem MadeParams.adds {ps : List ParamDecl} {qs : List Param} {st st' : State}
    (h : MadeParams ps qs st st') : Adds st.table st'.table :=
  ⟨h.length ▸ Nat.le_add_right _ _, h.old, [],
    (h.namesOf_eq globalScope).trans (List.append_nil _).symm, by simp⟩

/-- The parameters of functions that the first pass has declared from a table `t` on wait in the
table `t'`. -/
structure Hoisted (t t' : Table) (ids : List SymbolId) : Prop where
  adds : Adds t t'
  new : ∀ i ∈ ids, t.symbols.length ≤ i
  free : ∀ i ∈ ids, Free t' i
  distinct : ids.Nodup

theorem hoisted_nil (t : Table) : Hoisted t t [] :=
  ⟨.refl t, fun _ h => absurd h List.not_mem_nil, fun _ h => absurd h List.not_mem_nil,
    List.nodup_nil⟩

theorem Hoisted.append {t t' t'' : Table} {ids ids' : List SymbolId} (h : Hoisted t t' ids)
    (h' : Hoisted t' t'' ids') : Hoisted t t'' (ids ++ ids') where
  adds := h.adds.trans h'.adds
  new := fun i hi => by
    rcases List.mem_append.mp hi with hi | hi
    · exact h.new i hi
    · exact Nat.le_trans h.adds.symbols_le (h'.new i hi)
  free := fun i hi => by
    rcases List.mem_append.mp hi with hi | hi
    · exact h'.adds.free (h.free i hi)
    · exact h'.free i hi
  distinct := by
    -- those of the second table are new, those of the first were there before
    refine List.nodup_append.mpr ⟨h.distinct, h'.distinct, fun i hi j hj hij => ?_⟩
    exact Nat.not_lt.mpr (h'.new j hj) (hij ▸ (h.free i hi).lt)

/-- The first pass on one statement. -/
theorem hoisted_hoist {ctx : Context} {st : State} {s : Stmt} (hscope : ctx.scope = globalScope)
    (hv : st.table.Valid) (hlt : globalScope < st.table.scopes.length)
    (h : (hoist ctx st s).1.Clean) :
    Hoisted st.table (hoist ctx st s).1.table (paramIds (s, (hoist ctx st s).2)) := by
  cases hname : hoistedName s with
  | none =>
    rw [(hoist_of_hoistedName_eq_none ctx st hname).1]
    exact hoisted_nil st.table
  | some b =>
    cases s with
    | fn head brace body =>
      obtain ⟨type, htype⟩ : ∃ type, head.result = some type := by
        cases htype : head.result with
        | none => simp [hoistedName, htype] at hname
        | some type => exact ⟨type, rfl⟩
      obtain ⟨st₁, qs, hmake, hclean₁, hresult, hdeclare, htable, sym, hsym, hqs⟩ :=
        hoist_inv htype h
      obtain ⟨hdistinct, hmade, hgrown⟩ := makeParams_inv ctx.scope hmake hclean₁
      obtain ⟨-, hdeclared⟩ := declareFunction_inv (hgrown.table.valid hv)
        (hgrown.scope_lt (hscope ▸ hlt)) (values_of_hasParams hmade.hasParams hdistinct) hresult
        hdeclare
      rw [hscope, ← htable] at hdeclared
      have hadds := adds_of_declared hdeclared
      have hids : paramIds (Stmt.fn head brace body, (hoist ctx st (.fn head brace body)).2) =
          qs.map (·.id) := by
        rw [hsym, ← hqs]
        rfl
      -- the parameters were free before the function was declared
      rw [hids]
      refine ⟨hmade.adds.trans hadds, ?_, ?_, hmade.nodup⟩
      · intro i hi
        obtain ⟨q, hq, rfl⟩ := List.mem_map.mp hi
        exact hmade.le_id hq
      · intro i hi
        obtain ⟨q, hq, rfl⟩ := List.mem_map.mp hi
        exact hadds.free (hmade.free hv q hq)
    | _ => cases hname

/-- The first pass. -/
theorem hoisted_hoistAll {ctx : Context} {st : State} {p : Program}
    (hscope : ctx.scope = globalScope) (hv : st.table.Valid)
    (hlt : globalScope < st.table.scopes.length) (h : (hoistAll ctx st p).1.Clean) :
    Hoisted st.table (hoistAll ctx st p).1.table ((hoistAll ctx st p).2.flatMap paramIds) := by
  induction p generalizing st with
  | nil => exact hoisted_nil st.table
  | cons s p ih =>
    have hgrown := grows_hoist ctx st s
    have hrest := grows_hoistAll ctx (hoist ctx st s).1 p
    have hhead := hoisted_hoist hscope hv hlt (hrest.clean h)
    exact hhead.append (ih (hgrown.table.valid hv) (hgrown.scope_lt hlt) h)

section
variable {options : Options} {mutated : List Text} {p : Program}

/-- **After the first pass** all statements are there, with their signatures. -/
theorem hoisted_start (h : (checkProgram options mutated p).Clean) :
    (hoistAll (topContext options mutated) startState p).2.map Prod.fst = p ∧
      (∀ s ∈ (hoistAll (topContext options mutated) startState p).2,
        Signed (hoistAll (topContext options mutated) startState p).1.table s) ∧
      Hoisted freshTable (hoistAll (topContext options mutated) startState p).1.table
        ((hoistAll (topContext options mutated) startState p).2.flatMap paramIds) := by
  have hsc := scope_lt_startState options mutated
  have hgrown := grows_hoistAll (topContext options mutated) startState p
  rw [checkProgram_eq] at h
  have hclean := (grows_checkTops _ _ (hgrown.scope_lt hsc) _).clean h
  obtain ⟨-, -, hfst, hsigned⟩ :=
    hoistAll_sound valid_freshTable hsc (show startState.table.view _ = [[]] from rfl)
      List.nodup_nil hclean
  exact ⟨hfst, hsigned, hoisted_hoistAll rfl valid_freshTable hsc hclean⟩

/-- **The beginning of the second pass.** -/
theorem underway_start (h : (checkProgram options mutated p).Clean) :
    Underway (topContext options mutated) (hoistAll (topContext options mutated) startState p).1
      (hoistAll (topContext options mutated) startState p).2 := by
  have hsc := scope_lt_startState options mutated
  have hgrown := grows_hoistAll (topContext options mutated) startState p
  obtain ⟨-, hsigned, hhoisted⟩ := hoisted_start h
  exact ⟨rfl, rfl, hgrown.table.valid valid_freshTable, hgrown.scope_lt hsc,
    hgrown.table.chain_eq hsc, hsigned,
    fun i hi => ⟨(hhoisted.free i hi).lt, (hhoisted.free i hi).unbound⟩, hhoisted.distinct, h⟩

/-- **The beginning of the second pass**, in a program without gaps and without errors. -/
theorem ready_start (hproper : ∀ s ∈ p, s.ProperTop)
    (h : (checkProgram options mutated p).Clean) :
    Ready (topContext options mutated) (hoistAll (topContext options mutated) startState p).1
        (hoistAll (topContext options mutated) startState p).2 ∧
      (hoistAll (topContext options mutated) startState p).2.map Prod.fst = p := by
  have hstart := underway_start h
  obtain ⟨hfst, -, hhoisted⟩ := hoisted_start h
  exact ⟨⟨rfl, rfl, rfl, hstart.valid, hstart.scope_lt, hstart.root,
    fun s hs => hproper s.1 (hfst ▸ List.mem_map_of_mem hs), hstart.signed, hhoisted.free,
    hstart.distinct, h⟩, hfst⟩

end

end Analysis
end Slang
