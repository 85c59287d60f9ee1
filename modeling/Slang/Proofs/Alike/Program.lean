import Slang.Analysis.Program
import Slang.Proofs.Alike

/-!
# Two runs on whole programs

The two runs go through the statements of a program in step. Names are found by scope and text,
which are the same in both runs, so both declare the same symbols under the same numbers, open the
same scopes and take the same branches; what only one of them knows of a value decides nothing. This
is one lemma for each function of the analysis, and `alike_checkProgram` for all of it.
-/

namespace Slang.Analysis

variable {m : Runs}

namespace Runs

variable (m)

/-- The returns that both runs have read. -/
structure ReturnsAlike (r r' : Returns) : Prop where
  seen : r'.seen = r.seen
  first : Option.Rel (fun a b => b.1 = a.1 ∧ LinesAlike m.place a.2 b.2) r.first r'.first

/-- **The states of both runs.** -/
structure States (st st' : State) : Prop where
  table : m.Tables st.table st'.table
  returns : m.ReturnsAlike st.returns st'.returns
  findings : m.Findings (st.trace.filterMap Event.finding?) (st'.trace.filterMap Event.finding?)

variable {m}

/-- Tokens at corresponding places stand on corresponding lines. -/
theorem line_of_token {t t' : Token} (h : t.Alike m.place t') : LinesAlike m.place t.line t'.line :=
  ⟨t.pos, t'.pos, h.pos, rfl, rfl⟩

end Runs

/-! ### States -/

namespace Runs.States

variable {st st' : State}

/-- New findings are compared by themselves. -/
theorem report (h : m.States st st') {fs fs' : List Finding} (hfs : m.Findings fs fs') :
    m.States (st.report fs) (st'.report fs') := by
  refine ⟨h.table, h.returns, ?_⟩
  -- of a trace only the findings are compared
  have hmap : ∀ gs : List Finding, (gs.map Event.finding).filterMap Event.finding? = gs := by
    intro gs
    rw [List.filterMap_map]
    exact List.filterMap_some
  simp only [State.report, List.filterMap_append, hmap]
  exact h.findings.append hfs

/-- A problem that the second run reports as well. -/
theorem problem (h : m.States st st') {t t' : Token} (ht : m.place t.pos t'.pos)
    {p p' : SemanticProblem} (hp : p.Alike m.place p') (hkeep : m.keeps (t.finding p) = true) :
    m.States (st.problem t p) (st'.problem t' p') :=
  h.report (.single ht hp hkeep)

/-- Notes in the trace may differ: they are for the log. -/
theorem note (h : m.States st st') {e e' : Event} (he : e.finding? = none)
    (he' : e'.finding? = none) : m.States (st.note e) (st'.note e') := by
  refine ⟨h.table, h.returns, ?_⟩
  simp only [State.note, List.filterMap_append, List.filterMap_cons, he, he', List.filterMap_nil,
    List.append_nil]
  exact h.findings

/-- The tables may change in step. -/
theorem withTable (h : m.States st st') {t t' : Table} (ht : m.Tables t t') :
    m.States { st with table := t } { st' with table := t' } :=
  ⟨ht, h.returns, h.findings⟩

theorem markReturned (h : m.States st st') : m.States st.markReturned st'.markReturned :=
  ⟨h.table, ⟨rfl, h.returns.first⟩, h.findings⟩

end Runs.States

/-- Both runs go into the same scope. -/
theorem Runs.Contexts.withScope {ctx ctx' : Context} (h : m.Contexts ctx ctx') (sc : ScopeId) :
    m.Contexts { ctx with scope := sc } { ctx' with scope := sc } :=
  ⟨h.left, by rw [h.right]⟩

/-- Both runs go into the same function. -/
theorem Runs.Contexts.withFrame {ctx ctx' : Context} (h : m.Contexts ctx ctx') (sc : ScopeId)
    (f : Option Frame) :
    m.Contexts { ctx with scope := sc, fn := f } { ctx' with scope := sc, fn := f } :=
  ⟨h.left, by rw [h.right]⟩

/-! ### Tables -/

namespace Runs.Tables

variable {t t' : Table}

/-- A new symbol has the same number in both runs. -/
theorem addSymbol (h : m.Tables t t') {s s' : Symbol} (hs : m.Symbols s s') :
    m.Tables (t.addSymbol s).1 (t'.addSymbol s').1 :=
  ⟨h.scopes, List.rel_append h.symbols (.cons hs .nil)⟩

/-- A symbol changes in both runs. -/
theorem modify (h : m.Tables t t') (id : SymbolId) {f f' : Symbol → Symbol}
    (hf : ∀ s s', m.Symbols s s' → m.Symbols (f s) (f' s')) :
    m.Tables (t.modify id f) (t'.modify id f') := by
  refine ⟨h.scopes, List.forall₂_iff_get.mpr ⟨?_, fun i hi hi' => ?_⟩⟩
  · simp only [Table.modify, List.length_modify, h.length]
  · simp only [Table.modify, List.length_modify] at hi hi'
    have hs := h.symbols.get hi hi'
    simp only [Table.modify, List.get_eq_getElem, List.getElem_modify] at hs ⊢
    split
    · exact hf _ _ hs
    · exact hs

/-- A new scope has the same number in both runs, in its table and in its tree. -/
theorem addScope (h : m.Tables t t') (outer : Option ScopeId) (name : Text) :
    m.Tables (t.addScope outer name).1 (t'.addScope outer name).1 ∧
      (t'.addScope outer name).2 = (t.addScope outer name).2 := by
  -- numbers within a tree are counted, and the counts see only scopes
  have hroot : ∀ i, t'.root i = t.root i := fun i => by
    rw [Table.root, Table.root, h.chain]
  have hsize : ∀ i, t'.treeSize i = t.treeSize i := fun i => by
    simp only [Table.treeSize, h.scopes, hroot]
  refine ⟨⟨?_, h.symbols⟩, by simp only [Table.addScope, h.scopes]⟩
  cases outer with
  | none => simp only [Table.addScope, h.scopes]
  | some o => simp only [Table.addScope, h.scopes, hsize, hroot, h.chain]

end Runs.Tables

/-! ### Binding names -/

/-- A way to bind that does the same in both runs. A name that is taken is all that can go wrong. -/
def Runs.Binds (m : Runs) (binder : Binder) : Prop :=
  ∀ {t t' : Table}, m.Tables t t' → ∀ (sc : ScopeId) (id : SymbolId),
    (∃ u u', binder t sc id = .ok u ∧ binder t' sc id = .ok u' ∧ m.Tables u u') ∨
      ∃ name l l', binder t sc id = .error (.alreadyDeclared name l) ∧
        binder t' sc id = .error (.alreadyDeclared name l')

/-- Binding a name looks at names and numbers. -/
theorem binds_bind : m.Binds Table.bind := by
  intro t t' h sc id
  unfold Table.bind
  rcases h.symbol? id with ⟨hs, hs'⟩ | ⟨s, s', hs, hs', hsymbols⟩
  · rw [hs, hs']
    exact .inl ⟨t, t', rfl, rfl, h⟩
  · rw [hs, hs']
    dsimp only
    rw [h.findIn?, hsymbols.name]
    rcases h.bind_symbol? (t.findIn? sc s.name) with ⟨hp, hp'⟩ | ⟨p, p', hp, hp', -⟩
    · rw [hp, hp']
      exact .inl ⟨_, _, rfl, rfl, by rw [h.scopes], h.symbols⟩
    · rw [hp, hp']
      exact .inr ⟨s.name, p.line, p'.line, rfl, rfl⟩

/-- Defining a name also sets the augmented name, which is made from the name and the scope. -/
theorem binds_define : m.Binds Table.define := by
  intro t t' h sc id
  unfold Table.define
  rcases binds_bind h sc id with ⟨u, u', hu, hu', htables⟩ | ⟨name, l, l', hu, hu'⟩
  · rw [hu, hu', h.scope?]
    cases t.scope? sc with
    | none => exact .inl ⟨u, u', rfl, rfl, htables⟩
    | some x =>
      refine .inl ⟨_, _, rfl, rfl, htables.modify id fun s s' hs => ?_⟩
      exact ⟨hs.name, hs.line, hs.inferred, by rw [hs.name], hs.content⟩
  · rw [hu, hu']
    exact .inr ⟨name, l, l', rfl, rfl⟩

section
variable {ctx ctx' : Context} {st st' : State}

/-- What a declaration hides is the same in both runs; the second may not say so. -/
theorem alike_shadowing (hctx : m.Contexts ctx ctx') {t t' : Table} (ht : m.Tables t t')
    (name : Text) {tok tok' : Token} (htok : m.place tok.pos tok'.pos) :
    m.Findings ((shadowing ctx t name).map tok.finding)
      ((shadowing ctx' t' name).map tok'.finding) := by
  have hright : ctx'.options = m.right := by rw [hctx.right]
  unfold shadowing
  rw [hctx.scope, ht.findOutside?, hctx.left, hright]
  rcases ht.bind_symbol? (t.findOutside? ctx.scope name) with ⟨hs, hs'⟩ | ⟨s, s', hs, hs', hsymbols⟩
  · rw [hs, hs']
    dsimp only
    -- nothing is hidden, whether the options ask for it or not
    rw [ite_self, ite_self]
    exact .nil
  · rw [hs, hs']
    dsimp only
    have hwarn := m.warn
    cases hr : m.right.warnShadowing with
    | true =>
      rw [hwarn hr, if_pos rfl, if_pos rfl, hsymbols.describe]
      refine .single htok (.shadows name _ hsymbols.line) ?_
      simp [Runs.keeps, Runs.mutes, Token.finding, hr]
    | false =>
      -- a warning of the first run, if there is one, is suppressed
      rw [if_neg Bool.false_ne_true]
      split
      · next hl =>
        refine .dropped ?_
        simp [Runs.keeps, Runs.mutes, Token.finding, hr, hl]
      · exact .nil

/-- Binding a name in both runs. -/
theorem alike_bindName (hctx : m.Contexts ctx ctx') (h : m.States st st') {binder : Binder}
    (hb : m.Binds binder) {s s' : Symbol} (hs : m.Symbols s s') (id : SymbolId)
    {tok tok' : Token} (htok : m.place tok.pos tok'.pos) :
    m.States (bindName ctx binder s id tok st) (bindName ctx' binder s' id tok' st') := by
  unfold bindName
  rw [hctx.scope, hs.name, h.table.findIn?]
  rcases h.table.bind_symbol? (st.table.findIn? ctx.scope s.name) with
    ⟨hp, hp'⟩ | ⟨p, p', hp, hp', hsymbols⟩
  · rw [hp, hp']
    dsimp only
    have hreport := h.report (alike_shadowing hctx h.table s.name htok)
    rcases hb hreport.table ctx.scope id with ⟨u, u', hu, hu', htables⟩ | ⟨name, l, l', hu, hu'⟩
    · rw [hu, hu']
      exact hreport.withTable htables
    · -- the name was free, and warnings do not bind it; both runs would say the same
      rw [hu, hu']
      exact hreport.problem htok (.same _ rfl) rfl
  · rw [hp, hp']
    exact h.problem htok (.redeclared s.name hsymbols.line) rfl

/-- Declaring a symbol in both runs. -/
theorem alike_declare (hctx : m.Contexts ctx ctx') (h : m.States st st') {s s' : Symbol}
    (hs : m.Symbols s s') {tok tok' : Token} (htok : m.place tok.pos tok'.pos) :
    m.States (declare ctx s tok st) (declare ctx' s' tok' st') := by
  unfold declare State.addSymbol
  dsimp only [Table.addSymbol]
  -- the number of the new symbol is the number of symbols before it
  rw [h.table.length]
  exact alike_bindName hctx (h.withTable (h.table.addSymbol hs)) binds_define hs _ htok

/-! ### Declarations and assignments -/

/-- A variable that both runs make. -/
theorem Runs.Symbols.ofValue {name : Text} {l l' : Int} (hl : LinesAlike m.place l l')
    {v v' : Value} {c c' : Bool} (hty : v'.ty = v.ty) (hlost : m.loses = true → c' = false)
    (hsame : m.loses = false → v' = v ∧ c' = c) :
    m.Symbols (.ofValue name l v c) (.ofValue name l' v' c') :=
  ⟨rfl, hl, rfl, rfl, .variable hty hlost hsame⟩

/-- A variable of a type can be made in both runs, or in neither. -/
theorem alike_ofTy (ty : Ty) (name : Text) {l l' : Int} (hl : LinesAlike m.place l l') :
    (∃ s s', Symbol.ofTy ty name l = .ok s ∧ Symbol.ofTy ty name l' = .ok s' ∧ m.Symbols s s') ∨
      (Symbol.ofTy ty name l = .error (.noDefault name ty) ∧
        Symbol.ofTy ty name l' = .error (.noDefault name ty)) := by
  unfold Symbol.ofTy
  cases Value.default? ty with
  | none => exact .inr ⟨rfl, rfl⟩
  | some v => exact .inl ⟨_, _, rfl, rfl, .ofValue hl rfl (fun _ => rfl) fun _ => ⟨rfl, rfl⟩⟩

/-- The variable of a declaration can be made in both runs, or in neither. A second run that knows no
value makes it with the default of the same type. -/
theorem alike_letSymbol {x x' : Ident} (hx : x.Alike m.place x') (ty : Ty) {v : Option Value}
    (hv : ∀ w, v = some w → w.ty = ty) :
    (∃ s s', letSymbol x ty v = .ok s ∧ letSymbol x' ty (m.known v) = .ok s' ∧ m.Symbols s s') ∨
      (letSymbol x ty v = .error (.noDefault x.name ty) ∧
        letSymbol x' ty (m.known v) = .error (.noDefault x.name ty)) := by
  have hline := Runs.line_of_token hx.token
  cases v with
  | none =>
    rw [Runs.known_none]
    unfold letSymbol
    dsimp only
    rw [hx.name]
    exact alike_ofTy ty x.name hline
  | some w =>
    have hw := hv w rfl
    -- a value of the type is stored as it is
    have hleft : letSymbol x ty (some w) = .ok (.ofValue x.name x.token.line w true) := by
      unfold letSymbol Symbol.ofOperand
      dsimp only
      rw [if_pos hw]
    cases hloses : m.loses with
    | false =>
      have hright : letSymbol x' ty (some w) = .ok (.ofValue x.name x'.token.line w true) := by
        unfold letSymbol Symbol.ofOperand
        dsimp only
        rw [if_pos hw, hx.name]
      rw [Runs.known_of_not_loses hloses]
      refine .inl ⟨_, _, hleft, hright, .ofValue hline rfl (fun h => ?_) fun _ => ⟨rfl, rfl⟩⟩
      rw [hloses] at h
      cases h
    | true =>
      -- the second run makes a variable of the type of the value
      rw [Runs.known_of_loses hloses]
      obtain ⟨d, hd⟩ : ∃ d, Value.default? ty = some d := by
        rw [← hw]
        cases w <;> exact ⟨_, rfl⟩
      have hright : letSymbol x' ty none = .ok (.ofValue x.name x'.token.line d false) := by
        unfold letSymbol Symbol.ofTy
        dsimp only
        rw [hd, hx.name]
      refine .inl ⟨_, _, hleft, hright, .ofValue hline ?_ (fun _ => rfl) fun h => ?_⟩
      · rw [Value.ty_of_default? hd, hw]
      · rw [hloses] at h
        cases h

/-- The type of a declared variable is the same in both runs. -/
theorem alike_letTy {x x' : Ident} (hx : x.Alike m.place x') {type type' : Option TypeNode}
    (htype : Option.Rel (TypeNode.Alike m.place) type type') {value value' : Option Expr}
    (hvalue : Option.Rel (Expr.Alike m.place) value value') {c c' : Checked}
    (hc : m.Checks c c') :
    (letTy x' type' value' c').1 =
        (letTy x type value c).1.map (fun b => (b.1, m.known b.2)) ∧
      m.Findings (letTy x type value c).2 (letTy x' type' value' c').2 ∧
      ∀ ty v, (letTy x type value c).1 = some (ty, some v) → v.ty = ty := by
  cases htype with
  | none =>
    cases hvalue with
    | none => exact ⟨rfl, .nil, fun _ _ h => by cases h⟩
    | some he =>
      unfold letTy
      dsimp only
      rw [hc.ty, hx.name]
      split
      · exact ⟨rfl, .nil, fun _ _ h => by cases h⟩
      · split
        · exact ⟨rfl, .single he.token (.same _ rfl) rfl, fun _ _ h => by cases h⟩
        · refine ⟨by rw [hc.value]; rfl, .nil, fun ty v h => ?_⟩
          -- the value is that of the expression, which has the declared type
          obtain ⟨rfl, hv⟩ := Prod.mk.inj (Option.some.inj h)
          exact hc.typed v hv
  | some hn =>
    cases hvalue with
    | none =>
      unfold letTy
      dsimp only
      rw [hn.ty]
      exact ⟨by rw [Option.map_some, Runs.known_none], .nil, fun _ _ h => by cases h⟩
    | some he =>
      unfold letTy
      dsimp only
      rw [hc.ty, hx.name, hn.ty]
      split
      · exact ⟨by rw [Option.map_some, Runs.known_none], .nil, fun _ _ h => by cases h⟩
      · split
        · next hty =>
          refine ⟨by rw [hc.value]; rfl, .nil, fun ty v h => ?_⟩
          obtain ⟨rfl, hv⟩ := Prod.mk.inj (Option.some.inj h)
          exact (hc.typed v hv).trans hty
        · split
          · exact ⟨by rw [Option.map_some, Runs.known_none], .single he.token (.same _ rfl) rfl,
              fun _ _ h => by cases h⟩
          · exact ⟨by rw [Option.map_some, Runs.known_none], .single he.token (.same _ rfl) rfl,
              fun _ _ h => by cases h⟩

/-- Declarations in both runs. -/
theorem alike_checkLet (hctx : m.Contexts ctx ctx') (h : m.States st st') {x x' : Ident}
    (hx : x.Alike m.place x') {type type' : Option TypeNode}
    (htype : Option.Rel (TypeNode.Alike m.place) type type') {value value' : Option Expr}
    (hvalue : Option.Rel (Expr.Alike m.place) value value') :
    m.States (checkLet ctx x type value st) (checkLet ctx' x' type' value' st') := by
  have hinit : m.Checks ((value.map (check ctx st.table)).getD (.untyped []))
      ((value'.map (check ctx' st'.table)).getD (.untyped [])) := by
    cases hvalue with
    | none => exact .untyped .nil
    | some he => exact alike_check hctx h.table he
  obtain ⟨hresult, hfindings, htyped⟩ := alike_letTy hx htype hvalue hinit
  have hreport := h.report (hinit.findings.append hfindings)
  unfold checkLet
  dsimp only
  rw [hresult]
  cases hleft : (letTy x type value ((value.map (check ctx st.table)).getD (.untyped []))).1 with
  | none => exact hreport
  | some b =>
    obtain ⟨ty, v⟩ := b
    -- whether a type is written is the same in both trees
    have hnone : type'.isNone = type.isNone := by cases htype <;> rfl
    dsimp only [Option.map_some]
    rcases alike_letSymbol hx ty (fun w hw => htyped ty w (hw ▸ hleft)) with
      ⟨s, s', hs, hs', hsymbols⟩ | ⟨hs, hs'⟩
    · rw [hs, hs']
      dsimp only
      rw [hnone]
      have hdeclared : m.Symbols { s with inferred := type.isNone }
          { s' with inferred := type.isNone } :=
        ⟨hsymbols.name, hsymbols.line, rfl, hsymbols.augmented, hsymbols.content⟩
      exact alike_declare hctx hreport hdeclared hx.token.pos
    · rw [hs, hs']
      dsimp only
      rw [hx.name]
      -- the problem stands at the written type, or else at the name
      refine hreport.problem ?_ (.same _ rfl) rfl
      cases htype with
      | none => exact hx.token.pos
      | some hn => exact hn.token.pos

/-- A variable of which nothing is known any more. -/
theorem Runs.Symbols.setCalculated {s s' : Symbol} (h : m.Symbols s s') :
    m.Symbols (s.setCalculated false) (s'.setCalculated false) := by
  unfold Symbol.setCalculated
  rcases h.cases with ⟨v, c, v', c', hc, hc', hty, -, hsame⟩ | ⟨ps, result, hc, hc'⟩
  · rw [hc, hc']
    exact ⟨h.name, h.line, h.inferred, h.augmented,
      .variable hty (fun _ => rfl) fun hl => ⟨(hsame hl).1, rfl⟩⟩
  · rw [hc, hc']
    exact h

/-- An assignment without a known value makes that of the variable unknown. -/
theorem assigned_none (unknowable : Bool) (s : Symbol) :
    assigned unknowable none s = s.setCalculated false := by
  cases unknowable <;> rfl

/-- A known value is stored in a variable of its type. -/
theorem assigned_some {s : Symbol} {u : Value} {c : Bool} (hc : s.content = .variable u c)
    (w : Value) :
    assigned false (some w) s =
      if w.ty = u.ty then { s with content := .variable w true } else s.setCalculated false := by
  unfold assigned
  rw [if_neg Bool.false_ne_true, Option.bind_some]
  unfold Symbol.store?
  rw [hc]
  dsimp only
  by_cases hw : w.ty = u.ty
  · rw [if_pos hw, if_pos hw]
  · rw [if_neg hw, if_neg hw]

/-- A variable after an assignment in both runs. Where only the first knows the value, the second
forgets the old one. -/
theorem alike_assigned (unknowable : Bool) (v : Option Value) {s s' : Symbol}
    (h : m.Symbols s s') :
    m.Symbols (assigned unknowable v s) (assigned unknowable (m.known v) s') := by
  rcases h.cases with ⟨u, c, u', c', hc, hc', hty, -, hsame⟩ | ⟨ps, result, hc, hc'⟩
  · cases unknowable with
    | true => exact h.setCalculated
    | false =>
      cases v with
      | none =>
        rw [Runs.known_none, assigned_none, assigned_none]
        exact h.setCalculated
      | some w =>
        rw [assigned_some hc]
        cases hloses : m.loses with
        | false =>
          obtain ⟨rfl, rfl⟩ := hsame hloses
          rw [Runs.known_of_not_loses hloses, assigned_some hc']
          split
          · refine ⟨h.name, h.line, h.inferred, h.augmented,
              .variable rfl (fun hl => ?_) fun _ => ⟨rfl, rfl⟩⟩
            rw [hloses] at hl
            cases hl
          · exact h.setCalculated
        | true =>
          rw [Runs.known_of_loses hloses, assigned_none]
          split
          · -- the first run stores the value, the second forgets it: the type is the same
            next hw =>
            have hforgotten :
                s'.setCalculated false = { s' with content := .variable u' false } := by
              unfold Symbol.setCalculated
              rw [hc']
            rw [hforgotten]
            refine ⟨h.name, h.line, h.inferred, h.augmented,
              .variable (hty.trans hw.symm) (fun _ => rfl) fun hl => ?_⟩
            rw [hloses] at hl
            cases hl
          · exact h.setCalculated
  · -- a function stays as it is
    have hleft : ∀ v, assigned unknowable v s = s := by
      intro v
      cases unknowable <;> cases v <;> simp [assigned, Symbol.store?, Symbol.setCalculated, hc]
    have hright : ∀ v, assigned unknowable v s' = s' := by
      intro v
      cases unknowable <;> cases v <;> simp [assigned, Symbol.store?, Symbol.setCalculated, hc']
    rw [hleft, hright]
    exact h

/-- Assignments in both runs. -/
theorem alike_checkAssign (hctx : m.Contexts ctx ctx') (h : m.States st st') {x x' : Ident}
    (hx : x.Alike m.place x') {e e' : Expr} (he : e.Alike m.place e') :
    m.States (checkAssign ctx x e st) (checkAssign ctx' x' e' st') := by
  have hc := alike_check hctx h.table he
  have hreport := h.report hc.findings
  unfold checkAssign
  dsimp only
  rw [hreport.table.find?, hctx.scope, hx.name]
  cases hfind : Table.find? (st.report (check ctx st.table e).findings).table ctx.scope x.name with
  | none => exact hreport.problem hx.token.pos (.same _ rfl) rfl
  | some id =>
    dsimp only
    rcases hreport.table.symbol? id with ⟨hs, hs'⟩ | ⟨s, s', hs, hs', hsymbols⟩
    · rw [hs, hs']
      exact hreport.problem hx.token.pos (.same _ rfl) rfl
    · -- which values cannot be known depends on scopes and numbers
      have hunknowable :
          isUnknowable ctx' (st'.report (check ctx' st'.table e').findings).table id s'.name =
            isUnknowable ctx (st.report (check ctx st.table e).findings).table id s.name := by
        unfold isUnknowable
        rw [hctx.fn, hsymbols.name]
        simp only [hctx.isGlobal hreport.table]
      rw [hs, hs']
      dsimp only
      rw [hunknowable, hsymbols.ty, hc.ty, hc.value]
      rcases hsymbols.cases with ⟨v, c, v', c', hcontent, hcontent', hty, -, -⟩ |
        ⟨ps, result, hcontent, hcontent'⟩
      · rw [hcontent, hcontent']
        dsimp only
        rw [hty]
        split
        · exact hreport.withTable (hreport.table.modify id fun s s' hs => hs.setCalculated)
        · split
          · exact hreport.problem he.token (.same _ rfl) rfl
          · split
            · exact hreport.problem he.token (.same _ rfl) rfl
            · exact hreport.withTable (hreport.table.modify id fun s s' hs => alike_assigned _ _ hs)
      · rw [hcontent, hcontent']
        exact hreport.problem hx.token.pos (.same _ rfl) rfl

/-! ### Returns -/

/-- A return of one type in both runs. -/
theorem alike_returnTy (h : m.States st st') (f : Frame) (got : Ty) (hasValue : Bool)
    {tok tok' : Token} (htok : m.place tok.pos tok'.pos) :
    m.States (returnTy f got hasValue tok st) (returnTy f got hasValue tok' st') := by
  have hmarked := h.markReturned
  unfold returnTy
  cases f.declared with
  | none =>
    dsimp only
    unfold inferReturn
    -- the first return sets the type, and later ones quote its line
    have hfirst := hmarked.returns.first
    generalize hl : st.markReturned.returns.first = a at hfirst
    generalize hr : st'.markReturned.returns.first = b at hfirst
    cases hfirst with
    | none =>
      exact ⟨hmarked.table, ⟨hmarked.returns.seen, .some ⟨rfl, tok.pos, tok'.pos, htok, rfl, rfl⟩⟩,
        hmarked.findings⟩
    | @some a b hab =>
      obtain ⟨first, line⟩ := a
      obtain ⟨first', line'⟩ := b
      obtain ⟨rfl, hline⟩ := hab
      dsimp only
      split
      · exact hmarked
      · exact hmarked.problem htok (.inconsistentReturn f.name got _ hline) rfl
  | some declared =>
    dsimp only
    unfold declaredReturn
    split
    · exact hmarked.problem htok (.same _ rfl) rfl
    · split
      · exact hmarked.problem htok (.same _ rfl) rfl
      · split
        · exact hmarked.problem htok (.same _ rfl) rfl
        · exact hmarked

/-- Returns in both runs. -/
theorem alike_checkReturn (hctx : m.Contexts ctx ctx') (h : m.States st st') {tok tok' : Token}
    (htok : tok.Alike m.place tok') {value value' : Option Expr}
    (hvalue : Option.Rel (Expr.Alike m.place) value value') :
    m.States (checkReturn ctx tok value st) (checkReturn ctx' tok' value' st') := by
  unfold checkReturn
  rw [hctx.fn]
  cases ctx.fn with
  | none => exact h
  | some f =>
    cases hvalue with
    | none => exact alike_returnTy h f .void false htok.pos
    | some he =>
      have hc := alike_check hctx h.table he
      have hreport := h.report hc.findings
      dsimp only
      rw [hc.ty]
      split
      · exact hreport.markReturned
      · split
        · exact (hreport.problem he.token (.same _ rfl) rfl).markReturned
        · exact alike_returnTy hreport f _ true he.token

/-- Expressions as statements in both runs; what is printed in the warning is the same. -/
theorem alike_checkExprStmt (hctx : m.Contexts ctx ctx') (h : m.States st st') {e e' : Expr}
    (he : e.Alike m.place e') : m.States (checkExprStmt ctx e st) (checkExprStmt ctx' e' st') := by
  have hreport := h.report (alike_check hctx h.table he).findings
  unfold checkExprStmt
  dsimp only
  rw [he.ungroup.isCall, he.print]
  split
  · exact hreport
  · exact hreport.problem he.token (.same _ rfl) rfl

end

/-! ### All statements -/

/-- A list of statements, each of which both runs read in step. -/
theorem alike_checkStmts_of {ss ss' : List Stmt}
    (h : List.Forall₂ (fun s s' => ∀ {ctx ctx' : Context} {st st' : State}, m.Contexts ctx ctx' →
      m.States st st' → m.States (checkStmt ctx st s) (checkStmt ctx' st' s')) ss ss')
    {ctx ctx' : Context} (hctx : m.Contexts ctx ctx') {st st' : State} (hst : m.States st st') :
    m.States (checkStmts ctx st ss) (checkStmts ctx' st' ss') := by
  induction h generalizing st st' with
  | nil =>
    rw [checkStmts, checkStmts]
    exact hst
  | cons hs _ ih =>
    rw [checkStmts, checkStmts]
    exact ih (hs hctx hst)

/-- **Statements in both runs.** -/
theorem alike_checkStmt {s s' : Stmt} (h : s.Alike m.place s') {ctx ctx' : Context} {st st' : State}
    (hctx : m.Contexts ctx ctx') (hst : m.States st st') :
    m.States (checkStmt ctx st s) (checkStmt ctx' st' s') := by
  induction h generalizing ctx ctx' st st' with
  | letDecl ht hx htype hvalue =>
    rw [checkStmt, checkStmt]
    exact alike_checkLet hctx hst hx htype hvalue
  | assign ht hx he =>
    rw [checkStmt, checkStmt]
    exact alike_checkAssign hctx hst hx he
  | ret ht hvalue =>
    rw [checkStmt, checkStmt]
    exact alike_checkReturn hctx hst ht hvalue
  | expr ht he =>
    rw [checkStmt, checkStmt]
    exact alike_checkExprStmt hctx hst he
  | block ht hlen hbody ih =>
    rw [checkStmt, checkStmt]
    obtain ⟨htable, hinner⟩ := hst.table.addScope (some ctx.scope) "block"
    dsimp only
    rw [hctx.scope, hinner]
    exact alike_checkStmts_of (forall₂_of_zip hlen fun a ha => ih a ha) (hctx.withScope _)
      (hst.withTable htable)
  | fn hh hbrace hlen hbody ih =>
    rw [checkStmt, checkStmt]
    exact hst.problem hh.token.pos (.same _ rfl) rfl
  | hole =>
    rw [checkStmt, checkStmt]
    exact hst

/-- Lists of statements in both runs. -/
theorem alike_checkStmts {ss ss' : List Stmt} (h : List.Forall₂ (Stmt.Alike m.place) ss ss')
    {ctx ctx' : Context} {st st' : State} (hctx : m.Contexts ctx ctx') (hst : m.States st st') :
    m.States (checkStmts ctx st ss) (checkStmts ctx' st' ss') := by
  refine alike_checkStmts_of (h.imp fun s s' hs => ?_) hctx hst
  intro ctx ctx' st st' hctx hst
  exact alike_checkStmt hs hctx hst

/-! ### Functions -/

section
variable {ctx ctx' : Context} {st st' : State}

/-- Both runs make the same parameters. -/
theorem alike_makeParams (seen : List Text) {ps ps' : List ParamDecl}
    (hps : List.Forall₂ (ParamDecl.Alike m.place) ps ps') (h : m.States st st') :
    m.States (makeParams seen st ps).1 (makeParams seen st' ps').1 ∧
      (makeParams seen st' ps').2 = (makeParams seen st ps).2 := by
  induction hps generalizing seen st st' with
  | nil => exact ⟨h, rfl⟩
  | @cons p p' ps ps' hp _ ih =>
    rw [makeParams, makeParams]
    dsimp only
    rw [hp.name.name, hp.type.ty]
    -- a second parameter of a name is reported and left out in both
    split
    · exact ih seen (h.problem hp.name.token.pos (.same _ rfl) rfl)
    · rcases alike_ofTy p.type.ty p.name.name (Runs.line_of_token hp.name.token) with
        ⟨s, s', hs, hs', hsymbols⟩ | ⟨hs, hs'⟩
      · rw [hs, hs']
        dsimp only [State.addSymbol]
        have hadd := h.withTable (h.table.addSymbol hsymbols)
        obtain ⟨hrest, hparams⟩ := ih (p.name.name :: seen) hadd
        refine ⟨hrest, ?_⟩
        -- both tables have as many symbols, so the new one has the same number
        rw [hparams, hsymbols.ty]
        simp only [Table.addSymbol, h.table.length]
      · rw [hs, hs']
        exact ih (p.name.name :: seen) (h.problem hp.type.token.pos (.same _ rfl) rfl)

/-- The signature of a function can be made in both runs, or in neither. -/
theorem alike_makeFunction {head head' : FnHead} (hh : head.Alike m.place head')
    (params : List Param) (result : Ty) (inferred : Bool) (h : m.States st st') :
    m.States (makeFunction head params result inferred st).1
        (makeFunction head' params result inferred st').1 ∧
      Option.Rel m.Symbols (makeFunction head params result inferred st).2
        (makeFunction head' params result inferred st').2 := by
  -- problems stand at the written result type, or else at the name
  have htoken : m.place ((head.result.map (·.token)).getD head.name.token).pos
      ((head'.result.map (·.token)).getD head'.name.token).pos := by
    have hresult := hh.result
    generalize head.result = a at hresult
    generalize head'.result = b at hresult
    cases hresult with
    | none => exact hh.name.token.pos
    | some hn => exact hn.token.pos
  unfold makeFunction Symbol.ofSignature
  rw [hh.name.name]
  by_cases hreturnable : result.isReturnable = true
  · rw [if_pos hreturnable, if_pos hreturnable]
    cases Symbol.checkParams head.name.name 0 (params.map some) with
    | ok ps =>
      exact ⟨h, .some ⟨rfl, Runs.line_of_token hh.name.token, rfl, rfl, .function ps result⟩⟩
    | error e =>
      dsimp only [Except.map]
      split
      · exact ⟨h.problem htoken (.same _ rfl) rfl, .none⟩
      · exact ⟨h.problem htoken (.same _ rfl) rfl, .none⟩
  · rw [if_neg hreturnable, if_neg hreturnable]
    exact ⟨h.problem htoken (.same _ rfl) rfl, .none⟩

/-- The tokens at which a parameter is declared. -/
theorem alike_paramToken {head head' : FnHead} (hh : head.Alike m.place head') (name : Text) :
    m.place (paramToken head name).pos (paramToken head' name).pos := by
  unfold paramToken
  have hparams := hh.params
  generalize head.params = ps at hparams
  generalize head'.params = ps' at hparams
  induction hparams with
  | nil => exact hh.name.token.pos
  | @cons p p' ps ps' hp _ ih =>
    rw [List.find?_cons, List.find?_cons, hp.name.name]
    cases p.name.name == name with
    | true => exact hp.name.token.pos
    | false => exact ih

/-- Parameters are bound in both runs, at the same numbers. -/
theorem alike_bindParams (hctx : m.Contexts ctx ctx') {head head' : FnHead}
    (hh : head.Alike m.place head') (params : List Param) (h : m.States st st') :
    m.States (bindParams ctx head st params) (bindParams ctx' head' st' params) := by
  induction params generalizing st st' with
  | nil => exact h
  | cons p ps ih =>
    rw [bindParams, bindParams]
    refine ih ?_
    rcases h.table.symbol? p.id with ⟨hs, hs'⟩ | ⟨s, s', hs, hs', hsymbols⟩
    · rw [hs, hs']
      exact h
    · rw [hs, hs']
      exact alike_bindName hctx h binds_bind hsymbols p.id (alike_paramToken hh p.name)

/-- Bodies of functions in both runs. -/
theorem alike_checkBody (hctx : m.Contexts ctx ctx') {head head' : FnHead}
    (hh : head.Alike m.place head') (declared : Option Ty) (params : List Param)
    {body body' : List Stmt} (hbody : List.Forall₂ (Stmt.Alike m.place) body body')
    (h : m.States st st') :
    m.States (checkBody ctx head declared params body st)
      (checkBody ctx' head' declared params body' st') := by
  obtain ⟨htable, hinner⟩ := h.table.addScope (some ctx.scope) head.name.name
  have hstart : m.States
      { st with
        table := (st.table.addScope (some ctx.scope) head.name.name).1
        returns := ⟨false, none⟩ }
      { st' with
        table := (st'.table.addScope (some ctx.scope) head.name.name).1
        returns := ⟨false, none⟩ } :=
    ⟨htable, ⟨rfl, .none⟩, h.findings⟩
  unfold checkBody
  dsimp only
  rw [hctx.scope, hh.name.name, hinner]
  -- the scope of the body has the same number, so both frames are equal
  have hframe := hctx.withFrame (st.table.addScope (some ctx.scope) head.name.name).2
    (some ⟨head.name.name, declared, params.map (·.id)⟩)
  exact alike_checkStmts hbody hframe (alike_bindParams hframe hh params hstart)

/-- Functions with a written result type in both runs. -/
theorem alike_checkDeclared (hctx : m.Contexts ctx ctx') {head head' : FnHead}
    (hh : head.Alike m.place head') (params : List Param) (result : Ty)
    {body body' : List Stmt} (hbody : List.Forall₂ (Stmt.Alike m.place) body body')
    (h : m.States st st') :
    m.States (checkDeclared ctx head params result body st)
      (checkDeclared ctx' head' params result body' st') := by
  have hst := alike_checkBody hctx hh (some result) params hbody h
  unfold checkDeclared
  dsimp only
  rw [hst.returns.seen, hh.name.name]
  split
  · exact hst.problem hh.name.token.pos (.same _ rfl) rfl
  · exact hst

/-- Both runs infer the same result type. -/
theorem ty_of_returnsAlike {r r' : Returns} (h : m.ReturnsAlike r r') : r'.ty = r.ty := by
  unfold Returns.ty
  have hfirst := h.first
  generalize r.first = a at hfirst
  generalize r'.first = b at hfirst
  cases hfirst with
  | none => rfl
  | some hab => exact hab.1

/-- Functions without a written result type in both runs. -/
theorem alike_checkInferred (hctx : m.Contexts ctx ctx') {head head' : FnHead}
    (hh : head.Alike m.place head') {body body' : List Stmt}
    (hbody : List.Forall₂ (Stmt.Alike m.place) body body') (h : m.States st st') :
    m.States (checkInferred ctx head body st) (checkInferred ctx' head' body' st') := by
  obtain ⟨hmade, hparams⟩ := alike_makeParams [] hh.params h
  unfold checkInferred
  dsimp only
  rw [hparams]
  have hst := alike_checkBody hctx hh none (makeParams [] st head.params).2 hbody hmade
  -- the signatures agree because the inferred types do
  rw [ty_of_returnsAlike hst.returns]
  obtain ⟨hnext, hsymbol⟩ := alike_makeFunction hh (makeParams [] st head.params).2
    (checkBody ctx head none (makeParams [] st head.params).2 body
      (makeParams [] st head.params).1).returns.ty true hst
  generalize makeFunction head _ _ _ _ = a at hnext hsymbol ⊢
  generalize makeFunction head' _ _ _ _ = b at hnext hsymbol ⊢
  obtain ⟨st₁, s⟩ := a
  obtain ⟨st₂, s'⟩ := b
  cases hsymbol with
  | none => exact hnext
  | some hs => exact (alike_declare hctx hnext hs hh.name.token.pos).note rfl rfl

/-! ### Programs -/

/-- The first pass on one statement in both runs: both keep a signature, or neither does. -/
theorem alike_hoist (hctx : m.Contexts ctx ctx') {s s' : Stmt} (hs : s.Alike m.place s')
    (h : m.States st st') :
    m.States (hoist ctx st s).1 (hoist ctx' st' s').1 ∧
      Option.Rel m.Symbols (hoist ctx st s).2 (hoist ctx' st' s').2 := by
  cases hs with
  | @fn head head' brace brace' body body' hh hbrace hlen hbody =>
    unfold hoist
    dsimp only
    have hresult := hh.result
    generalize head.result = a at hresult ⊢
    generalize head'.result = b at hresult ⊢
    cases hresult with
    | none => exact ⟨h, .none⟩
    | @some n n' hn =>
      obtain ⟨hmade, hparams⟩ := alike_makeParams [] hh.params h
      dsimp only
      rw [hparams, hn.ty]
      obtain ⟨hnext, hsymbol⟩ := alike_makeFunction hh (makeParams [] st head.params).2 n.ty false
        hmade
      generalize makeFunction head _ _ _ _ = a at hnext hsymbol ⊢
      generalize makeFunction head' _ _ _ _ = b at hnext hsymbol ⊢
      obtain ⟨st₁, s⟩ := a
      obtain ⟨st₂, s'⟩ := b
      cases hsymbol with
      | none => exact ⟨hnext, .none⟩
      | some hs => exact ⟨(alike_declare hctx hnext hs hh.name.token.pos).note rfl rfl, .some hs⟩
  | _ => exact ⟨h, .none⟩

/-- The first pass in both runs. -/
theorem alike_hoistAll (hctx : m.Contexts ctx ctx') {p p' : Program} (hp : p.Alike m.place p')
    (h : m.States st st') :
    m.States (hoistAll ctx st p).1 (hoistAll ctx' st' p').1 ∧
      List.Forall₂ (fun a b => a.1.Alike m.place b.1 ∧ Option.Rel m.Symbols a.2 b.2)
        (hoistAll ctx st p).2 (hoistAll ctx' st' p').2 := by
  induction hp generalizing st st' with
  | nil => exact ⟨h, .nil⟩
  | cons hs _ ih =>
    obtain ⟨hfirst, hsignature⟩ := alike_hoist hctx hs h
    obtain ⟨hrest, hall⟩ := ih hfirst
    exact ⟨hrest, .cons ⟨hs, hsignature⟩ hall⟩

/-- The second pass on one statement in both runs. -/
theorem alike_checkTop (hctx : m.Contexts ctx ctx') {s s' : Stmt} (hs : s.Alike m.place s')
    {sig sig' : Option Symbol} (hsig : Option.Rel m.Symbols sig sig') (h : m.States st st') :
    m.States (checkTop ctx st (s, sig)) (checkTop ctx' st' (s', sig')) := by
  cases hs with
  | @fn head head' brace brace' body body' hh hbrace hlen hbody =>
    have hbody := forall₂_of_zip hlen hbody
    have hresult := hh.result
    unfold checkTop
    dsimp only
    generalize head.result = a at hresult ⊢
    generalize head'.result = b at hresult ⊢
    cases hresult with
    | none => exact alike_checkInferred hctx hh hbody h
    | some hn =>
      cases hsig with
      | none => exact h
      | some hsymbols =>
        dsimp only
        rw [hsymbols.params, hn.ty]
        exact alike_checkDeclared hctx hh _ _ hbody h
  | letDecl ht hx htype hvalue =>
    exact alike_checkStmt (.letDecl ht hx htype hvalue) hctx h
  | assign ht hx he => exact alike_checkStmt (.assign ht hx he) hctx h
  | block ht hlen hbody => exact alike_checkStmt (.block ht hlen hbody) hctx h
  | ret ht hvalue => exact alike_checkStmt (.ret ht hvalue) hctx h
  | expr ht he => exact alike_checkStmt (.expr ht he) hctx h
  | hole => exact alike_checkStmt .hole hctx h

/-- The second pass in both runs. -/
theorem alike_checkTops (hctx : m.Contexts ctx ctx') {l l' : List (Stmt × Option Symbol)}
    (hl : List.Forall₂ (fun a b => a.1.Alike m.place b.1 ∧ Option.Rel m.Symbols a.2 b.2) l l')
    (h : m.States st st') :
    m.States (l.foldl (checkTop ctx) st) (l'.foldl (checkTop ctx') st') := by
  induction hl generalizing st st' with
  | nil => exact h
  | cons hs _ ih => exact ih (alike_checkTop hctx hs.1 hs.2 h)

end

/-- **Programs in both runs.** -/
theorem alike_checkProgram (mutated : List Text) {p p' : Program} (hp : p.Alike m.place p') :
    m.States (checkProgram m.left mutated p) (checkProgram m.right mutated p') := by
  have hctx : m.Contexts ⟨m.left, mutated, globalScope, globalScope, none⟩
      ⟨m.right, mutated, globalScope, globalScope, none⟩ := ⟨rfl, rfl⟩
  have hstart : m.States ⟨freshTable, ⟨false, none⟩, []⟩ ⟨freshTable, ⟨false, none⟩, []⟩ :=
    ⟨⟨rfl, .nil⟩, ⟨rfl, .none⟩, .nil⟩
  obtain ⟨hhoisted, hall⟩ := alike_hoistAll hctx hp hstart
  exact alike_checkTops hctx hall hhoisted

/-! ### Writes to globals -/

section
variable {ρ : Position → Position → Prop} {s s' : Stmt}

/-- A statement declares the same name in both trees. -/
theorem declares_of_alike (h : s.Alike ρ s') : s'.declares = s.declares := by
  cases h with
  | letDecl ht hx htype hvalue => rw [Stmt.declares, Stmt.declares, hx.name]
  | _ => rfl

/-- Lists of statements write to the same names if their statements do. -/
theorem freeWritesAll_of_alike {ss ss' : List Stmt}
    (h : List.Forall₂ (fun s s' => s.Alike ρ s' ∧
      ∀ locals, s'.freeWrites locals = s.freeWrites locals) ss ss') (locals : List Text) :
    Stmt.freeWritesAll locals ss' = Stmt.freeWritesAll locals ss := by
  induction h generalizing locals with
  | nil => rfl
  | cons hs _ ih =>
    rw [Stmt.freeWritesAll, Stmt.freeWritesAll, hs.2, declares_of_alike hs.1, ih]

/-- A statement writes to the same names in both trees. -/
theorem freeWrites_of_alike (h : s.Alike ρ s') (locals : List Text) :
    s'.freeWrites locals = s.freeWrites locals := by
  induction h generalizing locals with
  | assign ht hx he => rw [Stmt.freeWrites, Stmt.freeWrites, hx.name]
  | block ht hlen hbody ih =>
    rw [Stmt.freeWrites, Stmt.freeWrites]
    exact freeWritesAll_of_alike (forall₂_of_zip hlen fun a ha => ⟨hbody a ha, ih a ha⟩) locals
  | _ => simp only [Stmt.freeWrites]

/-- The names that functions write to are the same in both trees. -/
theorem globalWrites_of_alike {p p' : Program} (hp : p.Alike ρ p') :
    p'.globalWrites = p.globalWrites := by
  unfold Program.globalWrites
  induction hp with
  | nil => rfl
  | cons hs _ ih =>
    rw [List.flatMap_cons, List.flatMap_cons, ih]
    refine congrArg (· ++ _) ?_
    cases hs with
    | @fn head head' brace brace' body body' hh hbrace hlen hbody =>
      have hnames : head'.params.map (·.name.name) = head.params.map (·.name.name) := by
        have hparams := hh.params
        generalize head.params = ps at hparams
        generalize head'.params = ps' at hparams
        induction hparams with
        | nil => rfl
        | cons hp _ ih => rw [List.map_cons, List.map_cons, hp.name.name, ih]
      rw [Stmt.globalWrites, Stmt.globalWrites, hnames]
      exact freeWritesAll_of_alike (forall₂_of_zip hlen fun a ha =>
        ⟨hbody a ha, freeWrites_of_alike (hbody a ha)⟩) _
    | _ => rfl

end

/-- What an analyzer finds in one program. -/
theorem alike_analyze {p p' : Program} (hp : p.Alike m.place p') :
    m.Tables ((Analyzer.new m.left).analyze (some p)).2.table
        ((Analyzer.new m.right).analyze (some p')).2.table ∧
      m.Findings ((Analyzer.new m.left).analyze (some p)).1.findings
        ((Analyzer.new m.right).analyze (some p')).1.findings := by
  have hstates := alike_checkProgram p.globalWrites hp
  unfold Analyzer.analyze Analyzer.new
  dsimp only [List.nil_append]
  rw [globalWrites_of_alike hp]
  exact ⟨hstates.table, hstates.findings⟩

end Slang.Analysis
