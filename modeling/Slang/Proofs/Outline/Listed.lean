import Slang.Proofs.Outline.Sections
import Slang.Proofs.Outline.Types
import Slang.Proofs.Walk

/-!
# What analysis lists

The table of an accepted program is the outline of its tree: nothing is lost, nothing is listed
twice and nothing stands in another scope than the one it is written in. Each statement that is
checked without errors declares what the outline says, in the scope that is being read
(`lists_checkStmts`); so does a function in the global scope, whose parameters were made before
there was a scope for them (`ShownParams`).

The scopes of an outline are numbered as they are made, so walking the table comes to them in the
order of the outline (`rows_eq_outline`).
-/

namespace Slang

open Typing Report

namespace Analysis

/-! ### Rows of declared symbols -/

/-- The row of a variable is that of its declaration. -/
theorem symbolRow_variable (x : Section) (name : Ident) (v : Value) (calculated : Bool)
    (type : Option TypeNode) :
    x.symbolRow { Symbol.ofValue name.name name.token.line v calculated with
      inferred := type.isNone, augmented := x.augment name.name } =
      x.row (.variable name v.ty type.isSome) := by
  cases type <;> rfl

/-- The row of a parameter is that of its declaration. -/
theorem symbolRow_parameter (x : Section) {p : ParamDecl} {v : Value} (calculated : Bool)
    (hv : v.ty = p.type.ty) :
    x.symbolRow (Symbol.ofValue p.name.name p.name.token.line v calculated) =
      x.row (.parameter p) := by
  rw [Section.row, ← hv]
  rfl

/-- **The row of a function** is that of its head and its result. -/
theorem symbolRow_function {x : Section} (hx : x.outer = []) {head : FnHead} {params : List Param}
    (result : Ty) (hparams : params.map (fun q => (q.name, q.ty)) =
      head.params.map fun p => (p.name.name, p.type.ty)) :
    x.symbolRow { functionSymbol head params result head.result.isNone with
      augmented := x.augment head.name.name } = x.row (.function head result) := by
  -- parameters are shown by their names and types, and those are the declared ones
  have hprint : params.map (fun q => Symbol.typed q.name q.ty) =
      head.params.map ParamDecl.print := by
    have := congrArg (List.map fun b => Symbol.typed b.1 b.2) hparams
    rw [List.map_map, List.map_map] at this
    exact this
  have htypes : params.flatMap (·.ty.descriptor) =
      head.params.flatMap (·.type.ty.descriptor) := by
    have := congrArg (List.flatMap fun b => b.2.descriptor) hparams
    simpa only [List.flatMap_map] using this
  simp only [Section.symbolRow, Section.row, Section.functionRow, Row.ofSymbol, Row.static,
    functionSymbol, Section.augment, hx, Symbol.describe, Symbol.descriptor,
    Symbol.signatureDescriptor, hprint, htypes]
  rfl

/-! ### Statements -/

/-- **A declaration without errors adds its item.** -/
theorem lists_declare {ctx : Context} {s : Symbol} {tok : Token} {st : State}
    {item : Outline.Item} (hv : st.table.Valid) (hsc : ctx.scope < st.table.scopes.length)
    (hs : s.Typed) (h : (declare ctx s tok st).Clean)
    (hrow : ∀ x, st.table.sections[ctx.scope]? = some x →
      x.symbolRow { s with augmented := x.augment s.name } = x.row item) :
    st.table.Lists ctx.scope { items := [item] } (declare ctx s tok st).table := by
  have hnew := ((clean_declare hv hs).mp h).2
  have hdeclared := (declared_declare tok hv hsc hs hnew).1
  have hv' := (Table.extends_addSymbol ctx.scope st.table hs).valid hv
  have hnone := (hv'.bind_findIn?_eq_none_iff ctx.scope s.name).mpr hnew
  obtain ⟨x, hx⟩ := Table.exists_scope? hsc
  -- the name is new, so the symbol is added, bound and given its augmented name
  have hdefine := Table.define_of_scope (Table.symbol?_addSymbol_self st.table s) hnone hx
  have htable := congrArg State.table
    (@bindName_of_new ctx s st.table.symbols.length tok (st.addSymbol s).1 _ _ hnone hdefine)
  refine ⟨?_, fun i hi => hdeclared.grown.chain_eq hi, fun i y hy => ?_, fun hd => ?_⟩
  · rw [Outline.sectionsAll, List.append_nil]
    refine (congrArg Table.sections htable).trans ?_
    refine (Table.sections_declared hv hx s).trans (List.ext_getElem? fun i => ?_)
    rw [List.getElem?_modify, List.getElem?_modify]
    -- one more row in this scope, and none in the others
    by_cases hi : ctx.scope = i
    · subst hi
      cases hget : st.table.sections[ctx.scope]? with
      | none => rfl
      | some y =>
        simp only [if_true, Option.map_eq_map, Option.map_some, Section.add, List.map_cons,
          List.map_nil, hrow y hget]
    · simp only [hi, if_false]
  · exact ⟨y, (hdeclared.old i (Table.symbol?_lt hy)).trans hy, .refl y⟩
  · -- neither adding a symbol nor changing one touches the names of scopes
    have hd' : (st.table.addSymbol s).1.Distinct := hd
    exact (congrArg Table.Distinct htable).mpr (hd'.bound (b := (s.name, _)) hsc hnew)

/-- A statement that leaves the table alone declares nothing. -/
theorem lists_of_table_eq {st st' : State} (htable : st'.table = st.table) (hv : st.table.Valid)
    (sc : ScopeId) (returns : List Ty) : st.table.Lists sc { returns } st'.table := by
  rw [htable]
  exact Table.Keeps.lists ⟨rfl, fun _ s hs => ⟨s, hs, .refl s⟩⟩ hv sc returns

section
variable {ctx : Context} {st : State}

/-- A let statement lists what it declares. -/
theorem lists_checkLet {name : Ident} {type : Option TypeNode} {value : Option Expr}
    (hv : st.table.Valid) (hsc : ctx.scope < st.table.scopes.length)
    (h : (checkLet ctx name type value st).Clean) :
    st.table.Lists ctx.scope
      { items := (declaredTy? (st.table.view ctx.scope) type value).toList.map fun ty =>
          .variable name ty type.isSome }
      (checkLet ctx name type value st).table := by
  obtain ⟨-, hinit, hty | ⟨ty, v, s, hty, hs, -⟩⟩ := checkLet_inv hv hsc h
  · rw [checkLet_of_none hty, declaredTy?_eq hv hinit (by rw [hty]), hty]
    exact lists_of_table_eq rfl hv ctx.scope []
  · rw [checkLet_of_ok hty hs] at h ⊢
    rw [declaredTy?_eq hv hinit (by rw [hty]), hty]
    obtain ⟨w, rfl, -, rfl⟩ := letSymbol_ok hs
    exact @lists_declare _ _ _ (st.report _) _ hv hsc trivial h fun x _ =>
      symbolRow_variable x name w v.isSome type

/-- An assignment lists nothing. -/
theorem lists_checkAssign {name : Ident} {e : Expr} (hv : st.table.Valid)
    (h : (checkAssign ctx name e st).Clean) :
    st.table.Lists ctx.scope {} (checkAssign ctx name e st).table := by
  obtain ⟨-, -, id, s, v, c, -, -, -, -, htable⟩ := checkAssign_inv h
  refine Table.Keeps.lists ?_ hv ctx.scope []
  rcases htable with ⟨-, htable⟩ | ⟨-, htable⟩ <;> rw [htable]
  · exact Table.keeps_modify _ _ fun s => Symbol.shows_setCalculated s false
  · exact Table.keeps_modify _ _ (shows_assigned _ _)

end

mutual

/-- **A statement lists what it declares.** If it is checked without errors, it declares in its
scope what the outline says. -/
theorem lists_checkStmt (ctx : Context) (st : State) (hv : st.table.Valid)
    (hsc : ctx.scope < st.table.scopes.length) (htree : st.table.OneTree) :
    (s : Stmt) → (checkStmt ctx st s).Clean →
      st.table.Lists ctx.scope (Outline.ofStmt (st.table.view ctx.scope) s)
        (checkStmt ctx st s).table
  | .letDecl _ name type value => by
    intro h
    rw [checkStmt] at h ⊢
    rw [Outline.ofStmt]
    exact lists_checkLet hv hsc h
  | .assign _ name e => by
    intro h
    rw [checkStmt] at h ⊢
    rw [Outline.ofStmt]
    exact lists_checkAssign hv h
  | .ret tok value => by
    intro h
    rw [checkStmt, Outline.ofStmt]
    exact lists_of_table_eq (table_checkReturn ctx st tok value) hv ctx.scope _
  | .expr _ e => by
    intro h
    rw [checkStmt, Outline.ofStmt]
    exact lists_of_table_eq (table_checkExprStmt ctx st e).1 hv ctx.scope []
  | .block _ body => by
    intro h
    rw [checkStmt_block] at h ⊢
    -- the statements of a block are listed in a new scope, of which nothing is in view yet
    have hlists := lists_checkStmts (blockContext ctx st) (scopeStart ctx "block" st.returns st)
      (valid_scopeStart hv hsc "block" st.returns) (scope_lt_blockStart ctx st)
      (htree.addScope hsc "block") body h
    have hview : (scopeStart ctx "block" st.returns st).table.view (blockContext ctx st).scope =
      [] :: st.table.view ctx.scope := Table.view_addScope hv hsc "block"
    rw [hview] at hlists
    rw [Outline.ofStmt]
    exact htree.lists_of_inner hsc _ hlists
  | .fn head brace body => by
    intro h
    rw [checkStmt] at h
    simp [SemanticProblem.severity] at h
  | .hole => by
    intro h
    rw [checkStmt, Outline.ofStmt]
    exact lists_of_table_eq rfl hv ctx.scope []

/-- **Bodies list what they declare.** -/
theorem lists_checkStmts (ctx : Context) (st : State) (hv : st.table.Valid)
    (hsc : ctx.scope < st.table.scopes.length) (htree : st.table.OneTree) :
    (ss : List Stmt) → (checkStmts ctx st ss).Clean →
      st.table.Lists ctx.scope (Outline.ofStmts (st.table.view ctx.scope) ss)
        (checkStmts ctx st ss).table
  | [] => by
    intro h
    rw [checkStmts, Outline.ofStmts]
    exact lists_of_table_eq rfl hv ctx.scope []
  | s :: ss => by
    intro h
    rw [checkStmts] at h ⊢
    have hgrows := grows_checkStmt ctx st hsc s
    have hs := (grows_checkStmts ctx _ (hgrows.scope_lt hsc) ss).clean h
    have hfirst := lists_checkStmt ctx st hv hsc htree s hs
    have hrest := lists_checkStmts ctx (checkStmt ctx st s) (hgrows.table.valid hv)
      (hgrows.scope_lt hsc) (htree.next hsc hfirst) ss h
    rw [view_checkStmt hv hsc hs] at hrest
    rw [Outline.ofStmts]
    exact hfirst.append hrest hsc

end

/-! ### Functions -/

/-- **The parameters of a function, as they are shown**: each is a variable whose row is that of the
parameter. -/
def ShownParams (t : Table) : List ParamDecl → List Param → Prop :=
  List.Forall₂ fun p q => ∃ s, t.symbol? q.id = some s ∧ s.name = q.name ∧ q.name = p.name.name ∧
    ∀ x : Section, x.symbolRow s = x.row (.parameter p)

/-- Parameters stay shown while symbols keep what is shown of them. -/
theorem ShownParams.mono {t t' : Table} {ps : List ParamDecl} {qs : List Param}
    (h : ShownParams t ps qs)
    (hshown : ∀ i s, t.symbol? i = some s → ∃ s', t'.symbol? i = some s' ∧ s.Shows s') :
    ShownParams t' ps qs := by
  refine h.imp fun p q hpq => ?_
  obtain ⟨s, hs, hname, hp, hrow⟩ := hpq
  obtain ⟨s', hs', hshows⟩ := hshown q.id s hs
  exact ⟨s', hs', hshows.name.trans hname, hp, fun x => (hshows x).trans (hrow x)⟩

/-- Parameters are shown under their names. -/
theorem ShownParams.names {t : Table} {ps : List ParamDecl} {qs : List Param}
    (h : ShownParams t ps qs) : qs.map (·.name) = ps.map fun p => p.name.name := by
  induction h with
  | nil => rfl
  | cons hpq _ ih =>
    obtain ⟨-, -, -, hp, -⟩ := hpq
    rw [List.map_cons, List.map_cons, ih, hp]

/-- Parameters are shown as they were declared. -/
theorem shownParams_makeParams {seen : List Text} (st : State) {ps : List ParamDecl}
    (h : DistinctParams seen ps) :
    ShownParams (makeParams seen st ps).1.table ps (makeParams seen st ps).2 := by
  induction ps generalizing seen st with
  | nil => exact .nil
  | cons p ps ih =>
    obtain ⟨⟨hseen, hvalue⟩, hrest⟩ := distinctParams_cons.mp h
    obtain ⟨s, hs⟩ := (ofTy_isOk_iff p.name.name p.name.token.line).mpr hvalue
    rw [makeParams_cons hseen hs]
    obtain ⟨v, hv, rfl⟩ := ofTy_ok hs
    refine .cons ⟨_, ?_, rfl, rfl, fun x => symbolRow_parameter x false hv⟩ (ih _ hrest)
    -- the parameters after this one leave its variable alone
    have hmade := makeParams_made
      (st.addSymbol (.ofValue p.name.name p.name.token.line v false)).1 hrest
    have hlen : st.table.symbols.length <
        (st.addSymbol (.ofValue p.name.name p.name.token.line v false)).1.table.symbols.length := by
      simp [State.addSymbol, Table.addSymbol]
    exact (hmade.old _ hlen).trans (Table.symbol?_addSymbol_self st.table _)

/-- Making parameters lists nothing. -/
theorem MadeParams.keeps {ps : List ParamDecl} {qs : List Param} {st st' : State}
    (h : MadeParams ps qs st st') : Table.Keeps st.table st'.table :=
  ⟨h.scopes, fun i s hs => ⟨s, (h.old i (Table.symbol?_lt hs)).trans hs, .refl s⟩⟩

/-- **Parameters are the first items of the scope of their function.** -/
theorem lists_bindParams (ctx : Context) (head : FnHead) (st : State) {ps : List ParamDecl}
    {qs : List Param} (hv : st.table.Valid) (hsc : ctx.scope < st.table.scopes.length)
    (hshown : ShownParams st.table ps qs) (hdistinct : (qs.map (·.name)).Nodup)
    (hnew : ∀ q ∈ qs, q.name ∉ (st.table.namesOf ctx.scope).map Prod.fst) :
    st.table.Lists ctx.scope { items := ps.map .parameter } (bindParams ctx head st qs).table := by
  induction qs generalizing st ps with
  | nil =>
    cases hshown
    exact lists_of_table_eq rfl hv ctx.scope []
  | cons q qs ih =>
    cases hshown with
    | @cons p _ ps _ hpq hshown =>
      obtain ⟨s, hs, hname, -, hrow⟩ := hpq
      rw [List.map_cons, List.nodup_cons] at hdistinct
      obtain ⟨fs, -, heq⟩ := bindName_bind_eq (paramToken head q.name) hv hs
        (hname ▸ hnew q List.mem_cons_self)
      rw [hname] at heq
      rw [bindParams, hs]
      dsimp only
      rw [heq]
      have hgrown := Table.extends_bound ctx.scope (b := (q.name, q.id)) hs hname
      have hfirst : st.table.Lists ctx.scope { items := [.parameter p] }
          (st.table.bound ctx.scope (q.name, q.id)) := by
        refine ⟨?_, fun i hi => hgrown.chain_eq hi, fun i x hx => ⟨x, hx, .refl x⟩,
          fun hd => hd.bound hsc (hnew q List.mem_cons_self)⟩
        rw [Table.sections_bound ctx.scope hs, Outline.sectionsAll, List.append_nil]
        simp only [hrow]
        rfl
      -- the other parameters are still new
      have hrest := ih { st.report fs with table := st.table.bound ctx.scope (q.name, q.id) }
        (hgrown.valid hv) (Nat.lt_of_lt_of_le hsc hgrown.scopes_le)
        (ShownParams.mono hshown hfirst.shown) hdistinct.2 (by
          intro r hr hmem
          change r.name ∈ ((st.table.bound ctx.scope (q.name, q.id)).namesOf ctx.scope).map
            Prod.fst at hmem
          rw [Table.namesOf_bound hsc, List.map_append, List.mem_append] at hmem
          rcases hmem with hmem | hmem
          · exact hnew r (List.mem_cons_of_mem q hr) hmem
          · have hrq : r.name = q.name := List.mem_singleton.mp hmem
            exact hdistinct.1 (hrq ▸ List.mem_map_of_mem hr))
      exact hfirst.append hrest hsc

section
variable {ctx : Context} {st : State} {head : FnHead} {qs : List Param}

/-- **A function lists its parameters and what its body declares**, in a scope of its own. -/
theorem lists_checkBody (declared : Option Ty) {body : List Stmt} (hv : st.table.Valid)
    (hsc : ctx.scope < st.table.scopes.length) (htree : st.table.OneTree)
    (hparams : HasParams st.table head qs) (hshown : ShownParams st.table head.params qs)
    (hdistinct : DistinctParams [] head.params) {global : Names}
    (hview : st.table.view ctx.scope = [global])
    (h : (checkBody ctx head declared qs body st).Clean) :
    st.table.Lists ctx.scope { inner := [Outline.ofFunction global head body] }
      (checkBody ctx head declared qs body st).table := by
  have hstart := @valid_scopeStart ctx st hv hsc head.name.name ⟨false, none⟩
  have hlt := lt_scopes_addScope st.table (some ctx.scope) head.name.name
  have htree' := htree.addScope hsc head.name.name
  -- the new scope begins without names, so that the parameters are the first ones listed
  have hempty : (st.table.addScope (some ctx.scope) head.name.name).1.namesOf
      st.table.scopes.length = [] := by
    obtain ⟨n, hself⟩ := Table.scope?_addScope_self st.table ctx.scope head.name.name
    unfold Table.namesOf
    rw [hself]
  have hbind := lists_bindParams (bodyContext ctx head declared qs st) head
    (scopeStart ctx head.name.name ⟨false, none⟩ st) hstart hlt hshown
    (hshown.names ▸ hdistinct.distinct) (fun q _ hmem => by
      change q.name ∈ ((st.table.addScope (some ctx.scope) head.name.name).1.namesOf
        st.table.scopes.length).map Prod.fst at hmem
      rw [hempty] at hmem
      cases hmem)
  have hvalid : (bodyStart ctx head declared qs st).table.Valid :=
    (grows_bindParams _ head _ qs).table.valid hstart
  rw [checkBody_eq] at h ⊢
  -- then the statements of the body, seen from this scope
  have hstmts := lists_checkStmts _ _ hvalid (scope_lt_bodyStart ctx head declared qs st)
    (htree'.next hlt hbind) body h
  rw [view_bodyStart declared hv hsc hparams hdistinct, hview] at hstmts
  exact htree.lists_of_inner hsc [] (hbind.append hstmts hlt)

/-- A function is listed under its name. -/
theorem lists_declareFunction {result : Ty} (hv : st.table.Valid)
    (hsc : ctx.scope < st.table.scopes.length) (hroot : st.table.chain ctx.scope = [ctx.scope])
    (hparams : HasParams st.table head qs) (hvalues : ∀ q ∈ qs, IsValue q.ty)
    (hresult : IsValue result ∨ result = .void)
    (h : (st.declareFunction ctx head qs result head.result.isNone).Clean) :
    st.table.Lists ctx.scope { items := [.function head result] }
      (st.declareFunction ctx head qs result head.result.isNone).table := by
  refine lists_declare hv hsc (typed_functionSymbol hvalues hresult) h fun x hx => ?_
  refine symbolRow_function ?_ result hparams.declared
  -- functions stand in the root, where names are not augmented
  obtain ⟨s, hs⟩ := Table.exists_scope? hsc
  rw [Table.getElem?_sections, hs] at hx
  rw [← Option.some.inj hx]
  rw [Table.chain_of_scope? hs] at hroot
  exact (List.cons.inj hroot).2

end

/-! ### Programs -/

/-- The parameters of a signature are shown. -/
def ShownSignature (t : Table) (s : Stmt × Option Symbol) : Prop :=
  ∀ head brace body, s.1 = .fn head brace body →
    ∀ sym ∈ s.2, ShownParams t head.params sym.params

/-- A signature stays shown while symbols keep what is shown of them. -/
theorem ShownSignature.mono {t t' : Table} {s : Stmt × Option Symbol} (h : ShownSignature t s)
    (hshown : ∀ i s, t.symbol? i = some s → ∃ s', t'.symbol? i = some s' ∧ s.Shows s') :
    ShownSignature t' s :=
  fun head brace body hs sym hsym => (h head brace body hs sym hsym).mono hshown

/-- The first pass declares a function with a written result type, and nothing else. -/
theorem lists_hoist {ctx : Context} {st : State} {s : Stmt} (hv : st.table.Valid)
    (hsc : ctx.scope < st.table.scopes.length) (hroot : st.table.chain ctx.scope = [ctx.scope])
    (h : (hoist ctx st s).1.Clean) :
    st.table.Lists ctx.scope { items := (Outline.hoistedItem s).toList }
        (hoist ctx st s).1.table ∧
      ShownSignature (hoist ctx st s).1.table (s, (hoist ctx st s).2) := by
  cases hname : hoistedName s with
  | none =>
    have hitem : Outline.hoistedItem s = none := by
      cases s with
      | fn head brace body => simpa [hoistedName, Outline.hoistedItem] using hname
      | _ => rfl
    rw [(hoist_of_hoistedName_eq_none ctx st hname).1, hitem]
    exact ⟨lists_of_table_eq rfl hv ctx.scope [], fun _ _ _ _ _ hsym => by cases hsym⟩
  | some b =>
    cases s with
    | fn head brace body =>
      obtain ⟨type, htype, -⟩ : ∃ type, head.result = some type ∧
          (head.name.name, signature head type.ty) = b := by
        simpa [hoistedName] using hname
      obtain ⟨st₁, qs, hmake, hclean₁, hresult, hdeclare, htable, sym, hsym, hqs⟩ :=
        hoist_inv htype h
      obtain ⟨hdistinct, hmade, hgrown⟩ := makeParams_inv ctx.scope hmake hclean₁
      have hparams := hmade.hasParams
      have hmadeLists := hmade.keeps.lists hv ctx.scope []
      have hshown := shownParams_makeParams st hdistinct
      rw [hmake] at hshown
      -- the result type is written, so it is not inferred
      have hwritten : false = head.result.isNone := by rw [htype]; rfl
      rw [hwritten] at hdeclare htable
      have hlists := lists_declareFunction (hgrown.table.valid hv) (hgrown.scope_lt hsc)
        ((hmadeLists.chain ctx.scope hsc).trans hroot) hparams
        (values_of_hasParams hparams hdistinct) hresult hdeclare
      have hitem : Outline.hoistedItem (.fn head brace body) = some (.function head type.ty) := by
        rw [Outline.hoistedItem, htype, Option.map_some]
      rw [htable, hitem]
      refine ⟨hmadeLists.append hlists hsc, fun head' brace' body' hs sym' hsym' => ?_⟩
      obtain ⟨rfl, -, -⟩ := Stmt.fn.inj hs
      obtain rfl := Option.some.inj (hsym.symm.trans hsym')
      rw [hqs]
      exact ShownParams.mono hshown hlists.shown
    | _ => cases hname

/-- **The first pass lists the functions with a written result type.** -/
theorem lists_hoistAll {ctx : Context} {st : State} {p : Program} (hv : st.table.Valid)
    (hsc : ctx.scope < st.table.scopes.length) (hroot : st.table.chain ctx.scope = [ctx.scope])
    (h : (hoistAll ctx st p).1.Clean) :
    st.table.Lists ctx.scope { items := Outline.hoistedItems p } (hoistAll ctx st p).1.table ∧
      ∀ s ∈ (hoistAll ctx st p).2, ShownSignature (hoistAll ctx st p).1.table s := by
  -- on the statements; a later one does not change what is shown of an earlier one
  induction p generalizing st with
  | nil => exact ⟨lists_of_table_eq rfl hv ctx.scope [], fun s hs => absurd hs List.not_mem_nil⟩
  | cons s p ih =>
    have hgrown := grows_hoist ctx st s
    have hclean := (grows_hoistAll ctx (hoist ctx st s).1 p).clean h
    obtain ⟨hfirst, hshown⟩ := lists_hoist hv hsc hroot hclean
    obtain ⟨hrest, hall⟩ := ih (hgrown.table.valid hv) (hgrown.scope_lt hsc)
      ((hfirst.chain ctx.scope hsc).trans hroot) h
    have hitems : Outline.hoistedItems (s :: p) =
        (Outline.hoistedItem s).toList ++ Outline.hoistedItems p := by
      rw [Outline.hoistedItems, List.filterMap_cons]
      cases Outline.hoistedItem s <;> rfl
    rw [hitems]
    refine ⟨hfirst.append hrest hsc, ?_⟩
    rintro s' (_ | ⟨_, hs'⟩)
    · exact hshown.mono hrest.shown
    · exact hall s' hs'

/-- A function without a written result type has its scope, and is listed after its body was
read. -/
theorem lists_checkInferred {ctx : Context} {st : State} {head : FnHead} {body : List Stmt}
    {global : Names} (hv : st.table.Valid) (hsc : ctx.scope < st.table.scopes.length)
    (htree : st.table.OneTree) (hroot : st.table.chain ctx.scope = [ctx.scope])
    (hview : st.table.view ctx.scope = [global]) (hnone : head.result = none)
    (h : (checkInferred ctx head body st).Clean) :
    st.table.Lists ctx.scope
        { items := [.function head (Outline.inferredTy global head body)]
          inner := [Outline.ofFunction global head body] }
        (checkInferred ctx head body st).table ∧
      (checkInferred ctx head body st).table.view ctx.scope =
        [global ++ [(head.name.name,
          signature head (Outline.inferredTy global head body))]] := by
  obtain ⟨st₁, qs, st₂, hmake, hclean₁, hst₂, hclean₂, hresult, hdeclare, htable⟩ :=
    checkInferred_inv hsc h
  obtain ⟨hdistinct, hmade, hgrown₁⟩ := makeParams_inv ctx.scope hmake hclean₁
  have hv₁ := hgrown₁.table.valid hv
  have hsc₁ := hgrown₁.scope_lt hsc
  have hparams := hmade.hasParams
  have hvalues := values_of_hasParams hparams hdistinct
  have hmadeLists := hmade.keeps.lists hv ctx.scope []
  have hshown := shownParams_makeParams st hdistinct
  rw [hmake] at hshown
  have hview₁ : st₁.table.view ctx.scope = [global] := by
    rw [hgrown₁.table.view_eq hv (Table.frames_of_scopes hmade.scopes), hview]
  -- the body does not see the function, whose type is that of its returns
  have hinner := lists_checkBody none hv₁ hsc₁ (htree.next hsc hmadeLists) hparams hshown
    hdistinct hview₁ (hst₂ ▸ hclean₂)
  have hty := ty_checkBody hv₁ hsc₁ hparams hdistinct hview₁ (hst₂ ▸ hclean₂)
  have hgrown₂ := grows_checkBody ctx st₁ hsc₁ head none qs body
  have hview₂ := (view_of_inner hv₁ hsc₁ (extends_checkBody ctx st₁ head none qs body)).trans hview₁
  rw [← hst₂] at hinner hty hgrown₂ hview₂
  rw [hty] at hresult hdeclare htable
  have hv₂ := hgrown₂.table.valid hv₁
  have hsc₂ := hgrown₂.scope_lt hsc₁
  have hparams₂ := hparams.mono hgrown₂.table
  have hview₃ := (view_declareFunction hv₂ hsc₂ hparams₂ hvalues hresult hview₂ hdeclare).2
  have hinferred : true = head.result.isNone := by rw [hnone]; rfl
  rw [htable]
  refine ⟨?_, hview₃⟩
  rw [hinferred] at hdeclare ⊢
  have hlast := lists_declareFunction hv₂ hsc₂ (by
      rw [hinner.chain _ hsc₁, hmadeLists.chain _ hsc, hroot]) hparams₂ hvalues hresult hdeclare
  exact (hmadeLists.append hinner hsc).append hlast hsc

/-- **Top-level statements list what they declare**, in the global scope. -/
theorem lists_checkTops {ctx : Context} {st : State} {l : List (Stmt × Option Symbol)}
    {global : Names} (hv : st.table.Valid) (hsc : ctx.scope < st.table.scopes.length)
    (htree : st.table.OneTree) (hroot : st.table.chain ctx.scope = [ctx.scope])
    (hview : st.table.view ctx.scope = [global])
    (hsigned : ∀ s ∈ l, Signed st.table s) (hshown : ∀ s ∈ l, ShownSignature st.table s)
    (h : (l.foldl (checkTop ctx) st).Clean) :
    st.table.Lists ctx.scope (Outline.ofTops global (l.map Prod.fst))
      (l.foldl (checkTop ctx) st).table := by
  induction l generalizing st global with
  | nil => exact lists_of_table_eq rfl hv ctx.scope []
  | cons s l ih =>
    obtain ⟨s, sig⟩ := s
    have hgrown := grows_checkTop ctx st hsc (s, sig)
    have hclean := (grows_checkTops ctx _ (hgrown.scope_lt hsc) l).clean h
    suffices hfirst : st.table.Lists ctx.scope (Outline.ofTop global s)
        (checkTop ctx st (s, sig)).table ∧
        (checkTop ctx st (s, sig)).table.view ctx.scope = [Outline.afterTop global s] by
      refine hfirst.1.append (ih (hgrown.table.valid hv) (hgrown.scope_lt hsc)
        (htree.next hsc hfirst.1) ((hfirst.1.chain ctx.scope hsc).trans hroot) hfirst.2
        (fun s' hs' => (hsigned s' (List.mem_cons_of_mem _ hs')).mono hgrown.table)
        (fun s' hs' => (hshown s' (List.mem_cons_of_mem _ hs')).mono hfirst.1.shown) h) hsc
    cases s with
    | fn head brace body =>
      cases hresult : head.result with
      | none =>
        rw [checkTop_inferred _ _ _ hresult] at hclean ⊢
        have hlists := lists_checkInferred hv hsc htree hroot hview hresult hclean
        simpa only [Outline.ofTop, Outline.afterTop, hresult, Option.isSome_none,
          Bool.false_eq_true, if_false] using hlists
      | some type =>
        obtain ⟨hdistinct, -, sym, rfl, hparams⟩ :=
          hsigned _ List.mem_cons_self head brace body type rfl hresult
        have hshownParams := hshown _ List.mem_cons_self head brace body rfl sym rfl
        rw [checkTop_declared _ _ hresult] at hclean ⊢
        obtain ⟨hbodyClean, -, heq⟩ := checkDeclared_inv hclean
        rw [heq]
        have hlists := lists_checkBody (some type.ty) hv hsc htree hparams hshownParams hdistinct
          hview hbodyClean
        have hafter := (view_of_inner hv hsc
          (extends_checkBody ctx st head (some type.ty) sym.params body)).trans hview
        simpa only [Outline.ofTop, Outline.afterTop, hresult, Option.isSome_some, if_true]
          using ⟨hlists, hafter⟩
    | _ =>
      -- every other statement is read like one of a body
      have hlists := lists_checkStmt ctx st hv hsc htree _ hclean
      have hafter := view_checkStmt hv hsc hclean
      rw [hview] at hlists hafter
      exact ⟨hlists, hafter⟩

/-- **A program lists what it declares**, in a table that was empty. -/
theorem lists_checkProgram {options : Options} {mutated : List Text} {p : Program}
    (h : (checkProgram options mutated p).Clean) :
    freshTable.Lists globalScope
      (.append { items := Outline.hoistedItems p } (Outline.ofTops (hoisted p) p))
      (checkProgram options mutated p).table := by
  have hsc := scope_lt_startState options mutated
  have hgrown := grows_hoistAll (topContext options mutated) startState p
  -- from the table of the start: the signatures, then the statements
  have htree : startState.table.OneTree := Table.oneTree_freshTable
  rw [checkProgram_eq] at h ⊢
  have hclean := (grows_checkTops _ _ (hgrown.scope_lt hsc) _).clean h
  obtain ⟨hview, -, hfst, hsigned⟩ := hoistAll_sound valid_freshTable hsc
    (show startState.table.view (topContext options mutated).scope = [[]] from rfl)
    List.nodup_nil hclean
  obtain ⟨hhoisted, hshown⟩ := lists_hoistAll valid_freshTable hsc rfl hclean
  have htops := lists_checkTops (hgrown.table.valid valid_freshTable) (hgrown.scope_lt hsc)
    (htree.next hsc hhoisted) (hhoisted.chain _ hsc) hview hsigned hshown h
  rw [hfst] at htops
  exact hhoisted.append htops hsc

/-- **The table of an accepted program is its outline**, scope by scope. -/
theorem sections_checkProgram {options : Options} {mutated : List Text} {p : Program}
    (h : (checkProgram options mutated p).Clean) :
    (checkProgram options mutated p).table.sections = (Outline.ofProgram p).sections [] 0 :=
  (lists_checkProgram h).sections

/-! ### Walking the table -/

/-- The scopes of an outline are in the order in which they are read. -/
theorem inOrder_of_sections {t : Table} {o : Outline} (h : t.sections = o.sections [] 0) :
    t.InOrder := by
  -- sections are numbered like scopes, so that what holds of the listing holds of the table
  have hsection : ∀ i s, t.scope? i = some s → (o.sections [] 0)[i]? = some (t.sectionOf s) := by
    intro i s hs
    rw [← h, Table.getElem?_sections, hs, Option.map_some]
  refine ⟨fun s hs => ?_, fun j s s' hs hs' => ?_, fun j s hs => ?_⟩
  · have hfirst := hsection 0 s hs
    cases o with
    | scope name items inner =>
      rw [Outline.sections, List.getElem?_cons_zero] at hfirst
      exact (congrArg Section.outer (Option.some.inj hfirst)).symm
  · have hfollows := List.isChain_iff_getElem.mp (Outline.isChain_sections [] 0 o) j
      (List.getElem?_eq_some_iff.mp (hsection (j + 1) s' hs')).1
    have hj := hsection j s hs
    rw [(List.getElem?_eq_some_iff.mp hj).2, (List.getElem?_eq_some_iff.mp (hsection _ s' hs')).2,
      Outline.Follows, Outline.number_of_getElem? hj, Nat.zero_add] at hfollows
    exact hfollows
  · have hinner := hsection (j + 1) s hs
    cases o with
    | scope name items inner =>
      rw [Outline.sections, List.getElem?_cons_succ] at hinner
      -- a scope that is not the first lies within another one
      have hsuffix := Outline.outer_suffixAll [0] 1 inner _ (List.mem_of_getElem? hinner)
      exact List.ne_nil_of_mem (hsuffix.subset List.mem_cons_self)

/-- The rows of a scope are those of its section. -/
theorem map_static_scopeRows {t : Table} {i : ScopeId} {s : Scope} (hs : t.scope? i = some s) :
    (scopeRows t i).map Row.static = (t.sectionOf s).rows := by
  unfold scopeRows Table.symbolsOf Table.sectionOf
  rw [hs]
  simp only [List.map_filterMap, Option.map_map]
  rfl

/-- The sections that a walk comes to. -/
def walked (t : Table) (i : ScopeId) : List Section :=
  (t.subtree i).filterMap fun j => (t.scope? j).map t.sectionOf

/-- **The rows of a table** are those of the sections that its walk comes to. -/
theorem map_static_rows (t : Table) (i : ScopeId) :
    (rows t i).map Row.static = (walked t i).flatMap (·.rows) := by
  rw [rows, walked, List.map_flatMap]
  induction t.subtree i with
  | nil => rfl
  | cons j js ih =>
    rw [List.flatMap_cons, ih, List.filterMap_cons]
    cases hj : t.scope? j with
    | none => simp [scopeRows, hj]
    | some s => rw [map_static_scopeRows hj, Option.map_some, List.flatMap_cons]

/-- Reading all sections by their numbers gives all sections. -/
theorem filterMap_sectionOf (t : Table) :
    (List.range t.scopes.length).filterMap (fun j => (t.scope? j).map t.sectionOf) =
      t.sections := by
  have hall : (List.range t.scopes.length).map (fun j => (t.scope? j).map t.sectionOf) =
      t.sections.map some := by
    refine List.ext_getElem (by simp) fun i hi _ => ?_
    have hlt : i < t.scopes.length := by simpa using hi
    simp [Table.sections, Table.scope?, hlt]
  have hid := congrArg (List.filterMap id) hall
  rw [List.filterMap_map, List.filterMap_map] at hid
  exact hid.trans List.filterMap_some

/-- Where scopes are in order, a walk comes to all sections one after the other. -/
theorem walked_root {t : Table} (h : t.InOrder) (h0 : 0 < t.scopes.length) :
    walked t globalScope = t.sections := by
  rw [walked, globalScope, h.subtree_root h0, filterMap_sectionOf]

/-- **The symbol table lists every declaration once, in its place.** For every program
that is accepted, whatever the options: walking its table comes to the scopes of the outline of the
program one after the other, with their names, the scopes around them and their rows; they are
numbered from zero along the walk; and the rows of the report are those of the outline. Only what is
known of values is left out.

A declaration that has neither a type nor a value, as it is kept after a syntax error, declares nothing. It
has no row, and it is not in the outline either. -/
theorem rows_eq_outline {options : Options} {p : Program} (haccepted : Accepted options p) :
    walked (analysed options p) globalScope = (Outline.ofProgram p).sections [] 0 ∧
      (walked (analysed options p) globalScope).map (·.number) =
        List.range (analysed options p).scopes.length ∧
      (rows (analysed options p) globalScope).map Row.static = (Outline.ofProgram p).rows := by
  have hsections : (analysed options p).sections = (Outline.ofProgram p).sections [] 0 :=
    sections_checkProgram (accepted_iff.mp haccepted)
  have hlength : ((Outline.ofProgram p).sections [] 0).length =
      (analysed options p).scopes.length := by
    rw [← hsections, Table.length_sections]
  have h0 : 0 < (analysed options p).scopes.length := by
    rw [← hlength, Outline.ofProgram, Outline.sections]
    exact Nat.succ_pos _
  -- the walk visits the scopes in the order they were made
  have hwalked := (walked_root (inOrder_of_sections hsections) h0).trans hsections
  refine ⟨hwalked, ?_, ?_⟩
  · rw [hwalked, Outline.map_number_sections, hlength, List.range_eq_range']
  · rw [map_static_rows, hwalked]
    rfl

/-- A source with declarations of every kind, in several scopes. -/
def nestedSource : Text :=
  "let g = 1;
fn twice(n: int) { let m = n + n; { let k: bool = m == g; } return m; }
fn main(): int { { { let s = true; } let t = twice(g); } return g; }
"

/-- The rows of such a source, in the order of its outline. -/
theorem rows_nestedSource :
    Accepted {} (Parser.parse nestedSource).program ∧
      (rows (analysed {} (Parser.parse nestedSource).program) globalScope).map
        (fun r => (r.scopeId, r.augmented)) =
      ([(0, "main"), (0, "g"), (0, "twice"), (1, "n"), (1, "m_1"), (2, "k_2"), (4, "t_4"),
        (5, "s_5")] : List (Int × String)).map fun b => (b.1, Text.ofString b.2) := by
  have haccepted : Accepted {} (Parser.parse nestedSource).program := by decide +kernel
  have hrows := (rows_eq_outline haccepted).2.2
  have houtline : (Outline.ofProgram (Parser.parse nestedSource).program).rows.map
      (fun r => (r.scopeId, r.augmented)) =
      ([(0, "main"), (0, "g"), (0, "twice"), (1, "n"), (1, "m_1"), (2, "k_2"), (4, "t_4"),
        (5, "s_5")] : List (Int × String)).map fun b => (b.1, Text.ofString b.2) := by
    decide +kernel
  refine ⟨haccepted, ?_⟩
  rw [← houtline, ← hrows, List.map_map]
  rfl

end Analysis
end Slang
