import Slang.Proofs.Exchange.Bodies

/-!
# Two signatures in either order

The first pass makes the parameters of a function with a written type and its symbol, and adds its
name to the names of the whole program. What it makes does not depend on what was made before, but
for the numbers of the parameters and for a name that is taken (`Header`). So for two functions of
different names, the tables of both orders correspond: the symbols of the two have changed places,
and so have their names (`hoist_exchange`).
-/

namespace Slang

open Analysis

/-! ### More symbols and names -/

namespace Table

/-- A table with more symbols, and with more names of the whole program. -/
def more (t : Table) (symbols : List Symbol) (names : List (Text × SymbolId)) : Table :=
  ⟨t.symbols ++ symbols,
    t.scopes.modify globalScope fun s => { s with names := s.names ++ names }⟩

section
variable (t : Table) (ss : List Symbol) (ns : List (Text × SymbolId))

/-- Only the scope of the whole program changes. -/
theorem scope?_more (i : ScopeId) :
    (t.more ss ns).scope? i =
      if globalScope = i then
        (t.scope? i).map fun s => { s with names := s.names ++ ns }
      else t.scope? i := by
  unfold more scope?
  rw [List.getElem?_modify]
  split <;> simp

/-- No scope is added. -/
theorem length_scopes_more : (t.more ss ns).scopes.length = t.scopes.length :=
  List.length_modify ..

/-- The symbols are added at the end. -/
theorem length_symbols_more :
    (t.more ss ns).symbols.length = t.symbols.length + ss.length :=
  List.length_append

/-- The symbols from before stay. -/
theorem symbol?_more_of_lt {k : SymbolId} (h : k < t.symbols.length) :
    (t.more ss ns).symbol? k = t.symbol? k :=
  List.getElem?_append_left h

/-- The new symbols follow. -/
theorem symbol?_more_add (j : Nat) : (t.more ss ns).symbol? (t.symbols.length + j) = ss[j]? := by
  refine (List.getElem?_append_right (Nat.le_add_right _ _)).trans ?_
  rw [Nat.add_sub_cancel_left]

/-- First some, then others. -/
theorem more_more (ss' : List Symbol) (ns' : List (Text × SymbolId)) :
    (t.more ss ns).more ss' ns' = t.more (ss ++ ss') (ns ++ ns') := by
  unfold more
  rw [List.append_assoc, List.modify_modify_eq]
  simp only [Function.comp_def, List.append_assoc]

/-- Nothing is added. -/
theorem more_nil : t.more [] [] = t := by
  unfold more
  simp only [List.append_nil]
  rw [show (fun s : Scope => s) = id from rfl, List.modify_id]

/-- The scopes around a scope stay. -/
theorem chain_more (i : ScopeId) : (t.more ss ns).chain i = t.chain i := by
  unfold chain
  rw [scope?_more]
  by_cases hi : globalScope = i
  · rw [if_pos hi]
    cases t.scope? i <;> rfl
  · rw [if_neg hi]

/-- The new names follow those of the whole program. -/
theorem namesOf_more (h0 : globalScope < t.scopes.length) :
    (t.more ss ns).namesOf globalScope = t.namesOf globalScope ++ ns := by
  obtain ⟨s, hs⟩ := exists_scope? h0
  unfold namesOf
  rw [scope?_more, if_pos rfl, hs]
  rfl

/-- Other names are found as before. -/
theorem findIn?_more {x : Text} (hx : x ∉ ns.map Prod.fst) :
    (t.more ss ns).findIn? globalScope x = t.findIn? globalScope x := by
  have hnone : ns.lookup x = none := by
    rw [List.lookup_eq_none_iff]
    intro b hb
    exact bne_iff_ne.mpr fun heq => hx (heq ▸ List.mem_map_of_mem hb)
  -- without a scope for the whole program nothing is found before or after
  by_cases h0 : globalScope < t.scopes.length
  · rw [findIn?_eq_lookup, findIn?_eq_lookup, namesOf_more t ss ns h0, List.lookup_append, hnone,
      Option.or_none]
  · have hmissing : t.scope? globalScope = none :=
      List.getElem?_eq_none (Nat.not_lt.mp h0)
    unfold findIn?
    rw [scope?_more, if_pos rfl, hmissing]
    rfl

end

/-- The line of a name of the whole program. -/
def lineOf (t : Table) (x : Text) : Option Int :=
  ((t.findIn? globalScope x).bind t.symbol?).map (·.line)

/-- A name is declared on the same line as before. -/
theorem lineOf_more {t : Table} (hv : t.Valid) (ss : List Symbol) {ns : List (Text × SymbolId)}
    {x : Text} (hx : x ∉ ns.map Prod.fst) : (t.more ss ns).lineOf x = t.lineOf x := by
  unfold lineOf
  rw [findIn?_more t ss ns hx]
  cases hk : t.findIn? globalScope x with
  | none => rfl
  | some k =>
    obtain ⟨s, hs, -⟩ := hv.symbol_of_findIn? hk
    rw [Option.bind_some, Option.bind_some, symbol?_more_of_lt t ss ns (symbol?_lt hs)]

/-- What is added keeps a table regular. -/
theorem Regular.more {t : Table} (h : t.Regular) {ss : List Symbol} {ns : List (Text × SymbolId)}
    (hss : ∀ s ∈ ss, s.Admitted (t.symbols.length + ss.length))
    (hns : ∀ b ∈ ns, ∃ s, (t.more ss ns).symbol? b.2 = some s ∧ s.name = b.1) :
    (t.more ss ns).Regular := by
  -- a symbol is an old one or a new one, and a scope is an old one with more names
  have hsymbol : ∀ k s, (t.more ss ns).symbol? k = some s → t.symbol? k = some s ∨ s ∈ ss := by
    intro k s hs
    rcases Nat.lt_or_ge k t.symbols.length with hlt | hle
    · exact .inl ((symbol?_more_of_lt t ss ns hlt).symm.trans hs)
    · obtain ⟨j, rfl⟩ := Nat.exists_eq_add_of_le hle
      rw [symbol?_more_add] at hs
      exact .inr (List.mem_of_getElem? hs)
  have hscope : ∀ i s, (t.more ss ns).scope? i = some s → ∃ x, t.scope? i = some x ∧
      s.number = x.number ∧ s.outer = x.outer ∧ ∀ b ∈ s.names, b ∈ x.names ∨ b ∈ ns := by
    intro i s hs
    rw [scope?_more] at hs
    split at hs
    · obtain ⟨x, hx, rfl⟩ := Option.map_eq_some_iff.mp hs
      exact ⟨x, hx, rfl, rfl, fun b hb => List.mem_append.mp hb⟩
    · exact ⟨s, hs, rfl, rfl, fun b hb => .inl hb⟩
  -- valid, closed, one tree, scopes that know their numbers and lie within others
  refine ⟨⟨?_, ?_, ?_⟩, ⟨?_, ?_⟩, ?_, ?_, ?_⟩
  · intro i s hs
    obtain ⟨x, hx, -, houter, -⟩ := hscope i s hs
    rw [houter]
    exact h.valid.outer_lt i x hx
  · intro i s hs b hb
    obtain ⟨x, hx, -, -, hnames⟩ := hscope i s hs
    rcases hnames b hb with hb | hb
    · obtain ⟨y, hy, hname⟩ := h.valid.bound i x hx b hb
      exact ⟨y, (symbol?_more_of_lt t ss ns (symbol?_lt hy)).trans hy, hname⟩
    · exact hns b hb
  · intro k s hs
    rcases hsymbol k s hs with hs | hs
    · exact h.valid.typed k s hs
    · exact (hss s hs).typed
  · intro k s hs
    rw [length_scopes_more]
    rcases hsymbol k s hs with hs | hs
    · exact h.closed.augmented k s hs
    · exact .inl (hss s hs).augmented
  · intro k s hs p hp
    rw [length_symbols_more]
    rcases hsymbol k s hs with hs | hs
    · exact Nat.lt_of_lt_of_le (h.closed.params k s hs p hp) (Nat.le_add_right _ _)
    · exact (hss s hs).params p hp
  · intro i hi
    rw [length_scopes_more] at hi
    unfold root
    rw [chain_more]
    exact h.tree i hi
  · intro i s hs
    obtain ⟨x, hx, hnumber, -⟩ := hscope i s hs
    rw [hnumber]
    exact h.number i x hx
  · intro i s hi hs
    obtain ⟨x, hx, -, houter, -⟩ := hscope i s hs
    rw [houter]
    exact h.inner i x hi hx

end Table

/-- A parameter whose number is counted from `n`. -/
def Param.from (n : SymbolId) (p : Param) : Param := { p with id := n + p.id }

/-- The numbers of parameters are moved twice. -/
theorem Param.from_from (n k : SymbolId) (p : Param) : (p.from k).from n = p.from (n + k) := by
  unfold Param.from
  rw [Nat.add_assoc]

namespace Analysis

open Typing

namespace State

/-- A state with more symbols and names, in which more was found. -/
def more (st : State) (ss : List Symbol) (ns : List (Text × SymbolId)) (fs : List Finding) :
    State :=
  { st with table := st.table.more ss ns, trace := st.trace ++ fs.map .finding }

section
variable (st : State)

/-- A report adds findings alone. -/
theorem report_eq_more (fs : List Finding) : st.report fs = st.more [] [] fs := by
  unfold more report
  rw [Table.more_nil]

/-- A new symbol is an addition. -/
theorem addSymbol_eq_more (s : Symbol) : (st.addSymbol s).1 = st.more [s] [] [] := by
  obtain ⟨⟨symbols, scopes⟩, returns, trace⟩ := st
  unfold more addSymbol Table.addSymbol Table.more
  simp only [List.append_nil, List.map_nil]
  rw [show (fun s : Scope => s) = id from rfl, List.modify_id]

/-- One addition after another. -/
theorem more_more (ss ss' : List Symbol) (ns ns' : List (Text × SymbolId))
    (fs fs' : List Finding) :
    (st.more ss ns fs).more ss' ns' fs' = st.more (ss ++ ss') (ns ++ ns') (fs ++ fs') := by
  unfold more
  simp only [Table.more_more, List.map_append, List.append_assoc]

/-- The findings that are added come last. -/
theorem found_more (ss : List Symbol) (ns : List (Text × SymbolId)) (fs : List Finding) :
    (st.more ss ns fs).found = st.found ++ fs :=
  State.found_report st fs

end
end State

/-! ### What the first pass adds -/

/-- **What parameters come to**, whatever was made before: their variables, the parameters with
numbers counted from the first of these variables, and what is found. -/
structure MakesParams (seen : List Text) (ps : List ParamDecl) (made : List Symbol)
    (params : List Param) (found : List Finding) : Prop where
  ofValue : ∀ s ∈ made, ∃ x l v, s = .ofValue x l v false
  sound : ∀ q ∈ params, IsValue q.ty ∧ q.id < made.length
  eq : ∀ st, makeParams seen st ps =
    (st.more made [] found, params.map (.from st.table.symbols.length))

/-- A parameter that is left out. -/
theorem MakesParams.leftOut {seen seen' : List Text} {p : ParamDecl} {ps : List ParamDecl}
    {made : List Symbol} {params : List Param} {found : List Finding} {tok : Token}
    {problem : SemanticProblem}
    (heq : ∀ st, makeParams seen st (p :: ps) = makeParams seen' (st.problem tok problem) ps)
    (h : MakesParams seen' ps made params found) :
    MakesParams seen (p :: ps) made params (tok.finding problem :: found) := by
  refine ⟨h.ofValue, h.sound, fun st => ?_⟩
  have hproblem : st.problem tok problem = st.more [] [] [tok.finding problem] :=
    State.report_eq_more st _
  rw [heq, h.eq, hproblem, State.more_more]
  simp [State.more, Table.more]

/-- Whatever the parameters are, making them adds some symbols and findings. -/
theorem exists_makesParams (seen : List Text) (ps : List ParamDecl) :
    ∃ made params found, MakesParams seen ps made params found := by
  induction ps generalizing seen with
  | nil =>
    refine ⟨[], [], [], fun s hs => (nomatch hs), fun q hq => (nomatch hq), fun st => ?_⟩
    rw [← State.report_eq_more]
    simp [makeParams, State.report]
  | cons p ps ih =>
    by_cases hseen : p.name.name ∈ seen
    · obtain ⟨made, params, found, h⟩ := ih seen
      exact ⟨_, _, _, h.leftOut fun st => by
        rw [makeParams, if_pos (List.contains_iff_mem.mpr hseen)]⟩
    · obtain ⟨made, params, found, h⟩ := ih (p.name.name :: seen)
      have hfree : ¬seen.contains p.name.name = true :=
        fun h => hseen (List.contains_iff_mem.mp h)
      cases hs : Symbol.ofTy p.type.ty p.name.name p.name.token.line with
      | ok s =>
        obtain ⟨v, -, rfl⟩ := ofTy_ok hs
        refine ⟨.ofValue p.name.name p.name.token.line v false :: made,
          ⟨0, p.name.name, v.ty⟩ :: params.map (.from 1), found, ?_, ?_, fun st => ?_⟩
        · exact List.forall_mem_cons.mpr ⟨⟨_, _, v, rfl⟩, h.ofValue⟩
        · refine List.forall_mem_cons.mpr ⟨⟨isValue_ty v, Nat.succ_pos _⟩, ?_⟩
          intro q hq
          obtain ⟨r, hr, rfl⟩ := List.mem_map.mp hq
          obtain ⟨hty, hlt⟩ := h.sound r hr
          exact ⟨hty, (Nat.add_comm 1 r.id).trans_lt (Nat.succ_lt_succ hlt)⟩
        · rw [makeParams_cons hseen hs, h.eq, State.addSymbol_eq_more, State.more_more,
            List.map_cons, List.map_map]
          refine Prod.ext rfl (congrArg₂ List.cons rfl (List.map_congr_left fun q _ => ?_))
          rw [Function.comp_apply, Param.from_from]
          simp only [State.more, Table.length_symbols_more, List.length_singleton]
      | error e =>
        -- a parameter without a variable is left out as well
        cases e with
        | noDefault x ty =>
          exact ⟨_, _, _, h.leftOut fun st => by rw [makeParams, if_neg hfree, hs]⟩
        | _ => exact ⟨_, _, _, h.leftOut fun st => by rw [makeParams, if_neg hfree, hs]⟩

/-- The name that a declaration binds, unless it was declared on a line before. -/
def newName (b : Text × SymbolId) : Option Int → List (Text × SymbolId)
  | none => [b]
  | some _ => []

/-- What is found about a declared name, if it was declared on a line before. -/
def oldName (x : Ident) : Option Int → List Finding
  | none => []
  | some l => [x.token.finding (.redeclared x.name (some l))]

/-- A declaration in the scope of the whole program. -/
theorem declare_eq_more {ctx : Context} {st : State} (hscope : ctx.scope = globalScope)
    (hv : st.table.Valid) (hroot : st.table.chain globalScope = [globalScope]) {s : Symbol}
    (haugmented : s.augmented = s.name) {x : Ident} (hname : s.name = x.name) :
    declare ctx s x.token st =
      st.more [s] (newName (x.name, st.table.symbols.length) (st.table.lineOf x.name))
        (oldName x (st.table.lineOf x.name)) := by
  obtain ⟨y, hy⟩ := Table.exists_scope? (Table.lt_of_mem_chain
    (hroot ▸ List.mem_singleton_self globalScope : globalScope ∈ st.table.chain globalScope))
  have houter : y.outer = [] := by
    rw [Table.chain_of_scope? hy] at hroot
    exact (List.cons.inj hroot).2
  -- the name is looked up after the symbol was added
  have hline : st.table.lineOf s.name =
      ((st.table.findIn? ctx.scope s.name).bind (st.addSymbol s).1.table.symbol?).map (·.line) := by
    rw [hscope]
    have hadded : (st.addSymbol s).1.table.lineOf s.name = st.table.lineOf s.name := by
      rw [State.addSymbol_eq_more]
      exact Table.lineOf_more hv [s] List.not_mem_nil
    exact hadded.symm
  cases hold : (st.table.findIn? ctx.scope s.name).bind (st.addSymbol s).1.table.symbol? with
  | some prev =>
    rw [← hname, hline, hold, declare_of_old hold]
    change (st.addSymbol s).1.report _ = _
    rw [State.report_eq_more, State.addSymbol_eq_more, State.more_more, hname]
    rfl
  | none =>
    have hdefine := Table.define_of_scope (Table.symbol?_addSymbol_self st.table s) hold
      (show (st.table.addSymbol s).1.scope? ctx.scope = some y by rw [hscope]; exact hy)
    have hshadowing : shadowing ctx (st.addSymbol s).1.table s.name = [] := by
      -- there is nothing outside the scope of the whole program
      have hchain : (st.addSymbol s).1.table.chain globalScope = [globalScope] := hroot
      unfold shadowing Table.findOutside?
      rw [hscope, hchain]
      exact ite_self []
    have haugment : { s with augmented := y.augment s.name } = s := by
      have haugment : y.augment s.name = s.augmented := by
        rw [haugmented, Scope.augment, Scope.isRoot, houter]
        rfl
      rw [haugment]
    have hdeclare : declare ctx s x.token st =
        { (st.addSymbol s).1.report
            ((shadowing ctx (st.addSymbol s).1.table s.name).map x.token.finding) with
          table := ((st.table.addSymbol s).1.bound ctx.scope
            (s.name, st.table.symbols.length)).modify st.table.symbols.length fun z =>
              { z with augmented := y.augment z.name } } := bindName_of_new hold hdefine
    rw [← hname, hline, hold, hdeclare, hshadowing, hscope, Table.modify_bound_addSymbol, haugment]
    rfl

/-- **What the first pass makes of a function with a written type**, whatever was made before. -/
structure Header where
  head : FnHead
  /-- The variables that are its parameters. -/
  made : List Symbol
  /-- The parameters, with numbers counted from the first of these variables. -/
  params : List Param
  /-- The type of the result, if a function may have it. -/
  result : Option Ty
  /-- What is found, whether or not the name is free. -/
  found : List Finding

namespace Header

variable (h : Header)

/-- The symbol of the function, if there are `n` symbols before its parameters. -/
def signature (n : SymbolId) : Option Symbol :=
  h.result.map fun ty => functionSymbol h.head (h.params.map (.from n)) ty false

/-- The symbols that are made. -/
def symbols (n : SymbolId) : List Symbol := h.made ++ (h.signature n).toList

/-- How many symbols are made. -/
def size : Nat := h.made.length + h.result.toList.length

/-- The name that is bound, unless it was declared on a line before. -/
def names (n : SymbolId) (line : Option Int) : List (Text × SymbolId) :=
  h.result.toList.flatMap fun _ => newName (h.head.name.name, n + h.made.length) line

/-- All that is found, if the name was declared on a line before or was not. -/
def findings (line : Option Int) : List Finding :=
  h.found ++ h.result.toList.flatMap fun _ => oldName h.head.name line

/-- What holds of what is made. -/
structure Sound : Prop where
  ofValue : ∀ s ∈ h.made, ∃ x l v, s = .ofValue x l v false
  params : ∀ q ∈ h.params, IsValue q.ty ∧ q.id < h.made.length
  result : ∀ ty, h.result = some ty → IsValue ty ∨ ty = .void

/-- A header makes as many symbols as its size says. -/
theorem length_symbols (n : SymbolId) : (h.symbols n).length = h.size := by
  unfold symbols signature size
  cases h.result <;> simp

end Header

/-- A type that no function returns. -/
theorem makeFunction_of_not_returnable {head : FnHead} {params : List Param} {type : TypeNode}
    (htype : head.result = some type) (hresult : ¬(IsValue type.ty ∨ type.ty = .void))
    (st : State) :
    makeFunction head params type.ty false st =
      (st.problem type.token (.returnTy head.name.name type.ty), none) := by
  have hreturnable : ¬type.ty.isReturnable = true :=
    fun h => hresult (isValue_or_void_of_isReturnable h)
  unfold makeFunction Symbol.ofSignature
  rw [if_neg hreturnable, htype]
  rfl

section
variable {head : FnHead} {type : TypeNode} {made : List Symbol} {params : List Param}
  {found : List Finding}

/-- The first pass on a function that may have its type. -/
theorem MakesParams.hoist (h : MakesParams [] head.params made params found)
    (htype : head.result = some type) (hresult : IsValue type.ty ∨ type.ty = .void) (ctx : Context)
    (st : State) (brace : Option Token) (body : List Stmt) :
    ∃ e : Event, e.finding? = none ∧ Analysis.hoist ctx st (.fn head brace body) =
      ((declare ctx (functionSymbol head (params.map (.from st.table.symbols.length)) type.ty false)
        head.name.token (st.more made [] found)).note e,
        some (functionSymbol head (params.map (.from st.table.symbols.length)) type.ty false)) := by
  have hvalues : ∀ q ∈ params.map (Param.from st.table.symbols.length), IsValue q.ty := by
    intro q hq
    obtain ⟨r, hr, rfl⟩ := List.mem_map.mp hq
    exact (h.sound r hr).1
  unfold Analysis.hoist
  dsimp only
  rw [htype]
  dsimp only
  rw [h.eq, makeFunction_eq hvalues hresult]
  exact ⟨_, rfl, rfl⟩

/-- The first pass on a function that cannot have its type. -/
theorem MakesParams.hoist_of_not_returnable (h : MakesParams [] head.params made params found)
    (htype : head.result = some type) (hresult : ¬(IsValue type.ty ∨ type.ty = .void))
    (ctx : Context) (st : State) (brace : Option Token) (body : List Stmt) :
    Analysis.hoist ctx st (.fn head brace body) = (st.more made []
      (found ++ [type.token.finding (.returnTy head.name.name type.ty)]), none) := by
  have hproblem : (st.more made [] found).problem type.token (.returnTy head.name.name type.ty) =
      st.more made [] (found ++ [type.token.finding (.returnTy head.name.name type.ty)]) := by
    refine (State.report_eq_more _ _).trans ?_
    simp only [State.more_more, List.append_nil]
  unfold Analysis.hoist
  dsimp only
  rw [htype]
  dsimp only
  rw [h.eq, makeFunction_of_not_returnable htype hresult, hproblem]

end

/-- **The first pass on a function with a written type**, in every state. -/
structure Header.Of (h : Header) (head : FnHead) : Prop where
  sound : h.Sound
  head_eq : h.head = head
  hoist : ∀ (brace : Option Token) (body : List Stmt) (ctx : Context) (st : State),
    ctx.scope = globalScope → st.table.Valid → st.table.chain globalScope = [globalScope] →
      (hoist ctx st (.fn head brace body)).1.table =
          st.table.more (h.symbols st.table.symbols.length)
            (h.names st.table.symbols.length (st.table.lineOf head.name.name)) ∧
        (hoist ctx st (.fn head brace body)).1.found =
          st.found ++ h.findings (st.table.lineOf head.name.name) ∧
        (hoist ctx st (.fn head brace body)).2 = h.signature st.table.symbols.length

/-- Every function with a written type has a header. -/
theorem exists_header {head : FnHead} {type : TypeNode} (htype : head.result = some type) :
    ∃ h : Header, h.Of head := by
  obtain ⟨made, params, found, hparams⟩ := exists_makesParams [] head.params
  by_cases hresult : IsValue type.ty ∨ type.ty = .void
  · refine ⟨⟨head, made, params, some type.ty, found⟩,
      ⟨hparams.ofValue, hparams.sound, fun ty hty => Option.some.inj hty ▸ hresult⟩, rfl,
      fun brace body ctx st hscope hv hroot => ?_⟩
    obtain ⟨e, he, hhoist⟩ := hparams.hoist htype hresult ctx st brace body
    have hgrows := grows_makeParams globalScope [] st head.params
    rw [hparams.eq] at hgrows
    have hdeclare := declare_eq_more hscope (hgrows.table.valid hv)
      ((Table.chain_more _ _ _ _).trans hroot)
      (s := functionSymbol head (params.map (.from st.table.symbols.length)) type.ty false) rfl
      (x := head.name) rfl
    -- the parameters have no names in the scope of the whole program
    have hline : (st.more made [] found).table.lineOf head.name.name =
        st.table.lineOf head.name.name := Table.lineOf_more hv made List.not_mem_nil
    have hlength : (st.more made [] found).table.symbols.length =
        st.table.symbols.length + made.length := Table.length_symbols_more _ _ _
    rw [hline, hlength, State.more_more] at hdeclare
    rw [hhoist, hdeclare, State.found_note _ he, State.found_more]
    simp [State.more, State.note, Header.symbols, Header.signature, Header.names, Header.findings]
  · refine ⟨⟨head, made, params, none,
        found ++ [type.token.finding (.returnTy head.name.name type.ty)]⟩,
      ⟨hparams.ofValue, hparams.sound, fun ty hty => absurd hty.symm (Option.some_ne_none ty)⟩, rfl,
      fun brace body ctx st hscope hv hroot => ?_⟩
    rw [hparams.hoist_of_not_returnable htype hresult, State.found_more]
    simp [State.more, Header.symbols, Header.signature, Header.names, Header.findings]

/-! ### Two signatures -/

namespace Header.Sound

variable {h : Header}

/-- The symbols of a header may be added to a table, together. -/
theorem admitted (hs : h.Sound) {n : Nat} {s : Symbol} (hmem : s ∈ h.symbols n) :
    s.Admitted (n + h.size) := by
  unfold symbols at hmem
  rcases List.mem_append.mp hmem with hmade | hsignature
  · obtain ⟨x, l, v, rfl⟩ := hs.ofValue s hmade
    exact ⟨trivial, rfl, fun p hp => (nomatch hp)⟩
  · unfold signature at hsignature
    obtain ⟨ty, hty, rfl⟩ := Option.map_eq_some_iff.mp (Option.mem_toList.mp hsignature)
    refine ⟨⟨fun p hp => ?_, hs.result ty hty⟩, rfl, fun p hp => ?_⟩
    · obtain ⟨q, hq, rfl⟩ := List.mem_map.mp hp
      exact (hs.params q hq).1
    · obtain ⟨q, hq, rfl⟩ := List.mem_map.mp hp
      exact Nat.add_lt_add_left (Nat.lt_of_lt_of_le (hs.params q hq).2 (Nat.le_add_right _ _)) n

/-- What the first pass makes of a function keeps a table regular. -/
theorem regular (hs : h.Sound) {t : Table} (ht : t.Regular) (line : Option Int) :
    (t.more (h.symbols t.symbols.length) (h.names t.symbols.length line)).Regular := by
  refine ht.more (fun s hmem => ?_) fun b hb => ?_
  · rw [h.length_symbols]
    exact hs.admitted hmem
  · unfold names at hb
    obtain ⟨ty, hty, hb⟩ := List.mem_flatMap.mp hb
    -- a name that is taken is not added; otherwise it is the name of the symbol made last
    cases line with
    | some l => cases hb
    | none =>
      obtain rfl := List.mem_singleton.mp hb
      refine ⟨functionSymbol h.head (h.params.map (.from t.symbols.length)) ty false, ?_, rfl⟩
      rw [Table.symbol?_more_add, symbols, List.getElem?_append_right (Nat.le_refl _), Nat.sub_self,
        signature, Option.mem_toList.mp hty]
      rfl

/-- The parameters of a signature are the variables that were made with it. -/
theorem le_of_mem_signature (hs : h.Sound) {n : Nat} {k : SymbolId}
    (hk : k ∈ signatureParams (h.signature n)) : n ≤ k ∧ k < n + h.size := by
  unfold signatureParams signature at hk
  cases hresult : h.result with
  | none =>
    rw [hresult] at hk
    cases hk
  | some ty =>
    rw [hresult] at hk
    obtain ⟨p, hp, rfl⟩ := List.mem_map.mp hk
    obtain ⟨q, hq, rfl⟩ := List.mem_map.mp hp
    -- parameters are counted from the first symbol that the header makes
    have hlt := (hs.params q hq).2
    refine ⟨Nat.le_add_right _ _, Nat.add_lt_add_left ?_ n⟩
    exact Nat.lt_of_lt_of_le hlt (Nat.le_add_right _ _)

section
variable {m : Renaming} {n n' : Nat}

/-- The signature that is made after other symbols. -/
theorem signature_rel (hs : h.Sound) (hm : ∀ i, i < h.size → m.symbol (n + i) = n' + i) :
    Option.Rel (fun s s' => ∀ k, m.Symbols k s s') (h.signature n) (h.signature n') := by
  -- the parameters are the same but for the place they start at
  have hparams : (h.params.map (.from n)).map m.param = h.params.map (.from n') := by
    rw [List.map_map]
    refine List.map_congr_left fun q hq => ?_
    have hid := hm q.id (Nat.lt_of_lt_of_le (hs.params q hq).2 (Nat.le_add_right _ _))
    simp only [Function.comp_apply, Renaming.param, Param.from, hid]
  unfold signature
  cases h.result with
  | none => exact .none
  | some ty =>
    refine .some fun k => ⟨rfl, rfl, rfl, .inl ⟨rfl, rfl⟩, ?_⟩
    unfold functionSymbol
    rw [← hparams]
    exact .function _ ty

/-- The symbols that are made after others. -/
theorem symbols_rel (hs : h.Sound) (hexact : m.Exact)
    (hm : ∀ i, i < h.size → m.symbol (n + i) = n' + i) {j : Nat} {s : Symbol}
    (hj : (h.symbols n)[j]? = some s) :
    ∃ s', (h.symbols n')[j]? = some s' ∧ ∀ k, m.Symbols k s s' := by
  unfold symbols at hj ⊢
  -- the parameters first, then the function
  rcases Nat.lt_or_ge j h.made.length with hlt | hle
  · rw [List.getElem?_append_left hlt] at hj ⊢
    obtain ⟨x, l, v, rfl⟩ := hs.ofValue s (List.mem_of_getElem? hj)
    exact ⟨_, hj, fun k => .self (hexact.shown k) (.inl rfl) fun p hp => (nomatch hp)⟩
  · rw [List.getElem?_append_right hle] at hj ⊢
    have hrel := hs.signature_rel hm
    generalize h.signature n = o at hj hrel
    generalize h.signature n' = o' at hrel ⊢
    cases hrel with
    | none => cases hj
    | @some a b hab =>
      rw [Option.toList_some, List.getElem?_singleton] at hj ⊢
      split at hj
      · next hzero =>
        obtain rfl := Option.some.inj hj
        exact ⟨b, if_pos hzero, hab⟩
      · cases hj

end
end Header.Sound

namespace Header

variable (h : Header)

/-- At most one name, so that the order does not matter. -/
theorem reverse_names (n : SymbolId) (line : Option Int) :
    (h.names n line).reverse = h.names n line := by
  unfold names
  cases h.result <;> cases line <;> rfl

/-- The name of the function, if any. -/
theorem sublist_names (n : SymbolId) (line : Option Int) :
    ((h.names n line).map Prod.fst).Sublist [h.head.name.name] := by
  unfold names
  cases h.result <;> cases line <;> simp [newName]

/-- The names that are bound after others. -/
theorem map_names {m : Renaming} {n n' : Nat} (hm : ∀ i, i < h.size → m.symbol (n + i) = n' + i)
    (line : Option Int) : (h.names n line).map m.binding = h.names n' line := by
  unfold names
  cases hresult : h.result with
  | none => rfl
  | some ty =>
    have hlast : m.symbol (n + h.made.length) = n' + h.made.length := by
      refine hm _ ?_
      rw [size, hresult]
      exact Nat.lt_succ_self _
    cases line with
    | none => simp [newName, Renaming.binding, hlast]
    | some l => rfl

end Header

/-- **The tables of both orders**: the symbols of two functions have changed places, and so have
their names. -/
def renumbered (t : Table) (f g : Header) (hne : f.head.name.name ≠ g.head.name.name)
    (found found' : List Finding) : Renaming where
  scope := id
  symbol := exchange t.symbols.length f.size g.size
  swapped := [f.head.name.name, g.head.name.name]
  lossy := false
  shown := fun _ => true
  base := globalScope
  before := found
  before' := found'
  scope_injective := Function.injective_id
  symbol_injective := exchange_injective _ _ _
  scope_global := id_eq globalScope
  nodup_swapped := by simp [hne]

section
variable {t : Table} {f g : Header} {hne : f.head.name.name ≠ g.head.name.name}
  {found found' : List Finding}

/-- Nothing is lost when two functions change places. -/
theorem exact_renumbered : (renumbered t f g hne found found').Exact := ⟨rfl, fun _ => rfl, rfl⟩

/-- The symbols of the first function come after those of the second. -/
theorem renumbered_first {i : Nat} (hi : i < f.size) :
    (renumbered t f g hne found found').symbol (t.symbols.length + i) =
      t.symbols.length + g.size + i := by
  refine (exchange_of_first (Nat.le_add_right _ _) (Nat.add_lt_add_left hi _)).trans ?_
  omega

/-- The symbols of the second function come first. -/
theorem renumbered_second {i : Nat} (hi : i < g.size) :
    (renumbered t f g hne found found').symbol (t.symbols.length + f.size + i) =
      t.symbols.length + i := by
  refine (exchange_of_second (Nat.le_add_right _ _) (Nat.add_lt_add_left hi _)).trans ?_
  omega

/-- Two signatures after a table. -/
def withSignatures (t : Table) (f g : Header) (lf lg : Option Int) : Table :=
  t.more (f.symbols t.symbols.length ++ g.symbols (t.symbols.length + f.size))
    (f.names t.symbols.length lf ++ g.names (t.symbols.length + f.size) lg)

/-- The table with both signatures is regular. -/
theorem regular_signatures (ht : t.Regular) (hf : f.Sound) (hg : g.Sound) (lf lg : Option Int) :
    (withSignatures t f g lf lg).Regular := by
  have hregular := hg.regular (hf.regular ht lf) lg
  rw [Table.length_symbols_more, f.length_symbols, Table.more_more] at hregular
  exact hregular

/-- The symbols that were there stay where they are. -/
theorem renumbered_of_lt {k : Nat} (hk : k < t.symbols.length) :
    (renumbered t f g hne found found').symbol k = k :=
  exchange_of_lt hk

/-- The scopes of both orders: the names of the two functions have changed places. -/
theorem scopes_renumbered (ht : t.Regular) (lf lg : Option Int) {i : ScopeId} {s : Scope}
    (hs : (withSignatures t f g lf lg).scope? i = some s) :
    ∃ s', (withSignatures t g f lg lf).scope? i = some s' ∧
      (renumbered t f g hne found found').Scopes i s s' := by
  -- the names from before belong to symbols that stay
  have hkept : ∀ {i : ScopeId} {x : Scope}, t.scope? i = some x → ∀ b ∈ x.names,
      (renumbered t f g hne found found').symbol b.2 = b.2 := by
    intro i x hx b hb
    obtain ⟨y, hy, -⟩ := ht.valid.bound i x hx b hb
    exact renumbered_of_lt (Table.symbol?_lt hy)
  unfold withSignatures at hs ⊢
  rw [Table.scope?_more] at hs ⊢
  by_cases hi : globalScope = i
  · rw [if_pos hi] at hs ⊢
    obtain ⟨x, hx, rfl⟩ := Option.map_eq_some_iff.mp hs
    rw [hx]
    refine ⟨_, rfl, ht.number i x hx, ht.number i x hx, rfl, (List.map_id _).symm, x.names,
      f.names t.symbols.length lf ++ g.names (t.symbols.length + f.size) lg, [], ?_, ?_, ?_⟩
    · rw [List.append_nil]
    · have hold : x.names.map (renumbered t f g hne found found').binding = x.names := by
        refine (List.map_congr_left fun b hb => ?_).trans (List.map_id _)
        unfold Renaming.binding
        rw [hkept hx b hb]
        rfl
      rw [List.append_nil, List.reverse_append, f.reverse_names, g.reverse_names, List.map_append,
        List.map_append, hold, f.map_names (fun _ => renumbered_first),
        g.map_names fun _ => renumbered_second]
    · rw [if_pos hi.symm, List.map_append]
      exact (f.sublist_names _ lf).append (g.sublist_names _ lg)
  · rw [if_neg hi] at hs ⊢
    exact ⟨s, hs, ht.number i s hs, ht.number i s hs, rfl, (List.map_id _).symm,
      .self (hkept hs)⟩

/-- The symbols of both orders. -/
theorem symbols_renumbered (ht : t.Regular) (hf : f.Sound) (hg : g.Sound) (lf lg : Option Int)
    {k : SymbolId} {s : Symbol} (hs : (withSignatures t f g lf lg).symbol? k = some s) :
    ∃ s', (withSignatures t g f lg lf).symbol? ((renumbered t f g hne found found').symbol k) =
        some s' ∧ (renumbered t f g hne found found').Symbols k s s' := by
  unfold withSignatures at hs ⊢
  rcases Nat.lt_or_ge k t.symbols.length with hlt | hle
  · -- an old symbol
    rw [Table.symbol?_more_of_lt _ _ _ hlt] at hs
    rw [renumbered_of_lt hlt, Table.symbol?_more_of_lt _ _ _ hlt]
    refine ⟨s, hs, .self rfl ?_ fun p hp => renumbered_of_lt (ht.closed.params k s hs p hp)⟩
    exact (ht.closed.augmented k s hs).imp_right fun ⟨i, _, heq⟩ => ⟨i, rfl, heq⟩
  · obtain ⟨j, rfl⟩ := Nat.exists_eq_add_of_le hle
    rw [Table.symbol?_more_add] at hs
    rcases Nat.lt_or_ge j f.size with hfirst | hsecond
    · -- a symbol of the first function
      rw [List.getElem?_append_left (by rwa [f.length_symbols])] at hs
      obtain ⟨s', hs', hsymbols⟩ := hf.symbols_rel exact_renumbered (fun _ => renumbered_first) hs
      refine ⟨s', ?_, hsymbols _⟩
      rw [renumbered_first hfirst, Nat.add_assoc, Table.symbol?_more_add,
        List.getElem?_append_right (by rw [g.length_symbols]; exact Nat.le_add_right _ _),
        g.length_symbols, Nat.add_sub_cancel_left]
      exact hs'
    · -- a symbol of the second function
      obtain ⟨i, rfl⟩ := Nat.exists_eq_add_of_le hsecond
      rw [List.getElem?_append_right (by rw [f.length_symbols]; exact hsecond),
        f.length_symbols, Nat.add_sub_cancel_left] at hs
      obtain ⟨s', hs', hsymbols⟩ :=
        hg.symbols_rel exact_renumbered (fun _ => renumbered_second) hs
      have hi : i < g.size := by
        rw [← g.length_symbols (t.symbols.length + f.size)]
        exact (List.getElem?_eq_some_iff.mp hs).1
      refine ⟨s', ?_, hsymbols _⟩
      rw [← Nat.add_assoc, renumbered_second hi, Table.symbol?_more_add,
        List.getElem?_append_left (by rwa [g.length_symbols])]
      exact hs'

/-- **Two signatures in either order** make corresponding tables. -/
theorem tables_renumbered (ht : t.Regular) (hf : f.Sound) (hg : g.Sound) (lf lg : Option Int) :
    (renumbered t f g hne found found').Tables (withSignatures t f g lf lg)
      (withSignatures t g f lg lf) where
  scopes := fun _ _ hs => scopes_renumbered ht lf lg hs
  symbols := fun _ _ hs => symbols_renumbered ht hf hg lf lg hs
  nextScope := by
    intro n
    unfold withSignatures
    rw [Table.length_scopes_more, Table.length_scopes_more]
    rfl
  nextSymbol := by
    intro n
    unfold withSignatures
    rw [Table.length_symbols_more, Table.length_symbols_more, List.length_append,
      List.length_append, f.length_symbols, f.length_symbols, g.length_symbols, g.length_symbols]
    -- beyond the symbols of both functions, nothing is moved
    refine (exchange_of_le (by omega)).trans ?_
    omega
  tree := (regular_signatures ht hf hg lf lg).tree
  tree' := (regular_signatures ht hg hf lg lf).tree
  valid := (regular_signatures ht hf hg lf lg).valid
  closed := (regular_signatures ht hf hg lf lg).closed
  confined := (regular_signatures ht hf hg lf lg).confined fun _ => rfl

end

section
variable {ctx : Context} {st : State} {f g : FnHead}

/-- The first pass on two functions of different names. -/
theorem Header.Of.hoist_two {h h' : Header} (hf : h.Of f) (hg : h'.Of g)
    (hne : f.name.name ≠ g.name.name) (hscope : ctx.scope = globalScope) (hst : st.table.Regular)
    (hroot : st.table.chain globalScope = [globalScope]) (bf bg : Option Token)
    (ssf ssg : List Stmt) :
    let first := Analysis.hoist ctx st (.fn f bf ssf)
    let second := Analysis.hoist ctx first.1 (.fn g bg ssg)
    second.1.table = withSignatures st.table h h' (st.table.lineOf f.name.name)
        (st.table.lineOf g.name.name) ∧
      second.1.found = st.found ++ (h.findings (st.table.lineOf f.name.name) ++
        h'.findings (st.table.lineOf g.name.name)) ∧
      first.2 = h.signature st.table.symbols.length ∧
      second.2 = h'.signature (st.table.symbols.length + h.size) := by
  intro first second
  obtain ⟨htable, hfound, hsignature⟩ := hf.hoist bf ssf ctx st hscope hst.valid hroot
  have hvalid : first.1.table.Valid := htable ▸ (hf.sound.regular hst _).valid
  have hchain : first.1.table.chain globalScope = [globalScope] :=
    (htable ▸ Table.chain_more _ _ _ _).trans hroot
  have hlength : first.1.table.symbols.length = st.table.symbols.length + h.size := by
    rw [htable, Table.length_symbols_more, h.length_symbols]
  -- the name of the second function was not declared with the first one
  have hline : first.1.table.lineOf g.name.name = st.table.lineOf g.name.name := by
    rw [htable]
    refine Table.lineOf_more hst.valid _ fun hmem => hne ?_
    rw [← hf.head_eq]
    exact (List.mem_singleton.mp ((h.sublist_names _ _).subset hmem)).symm
  obtain ⟨htable', hfound', hsignature'⟩ := hg.hoist bg ssg ctx first.1 hscope hvalid hchain
  rw [hline, hlength, htable, Table.more_more] at htable'
  rw [hline, hfound, List.append_assoc] at hfound'
  rw [hlength] at hsignature'
  exact ⟨htable', hfound', hsignature, hsignature'⟩

/-- **Two functions with written types, declared in either order.** -/
theorem hoist_exchange (hscope : ctx.scope = globalScope) (hst : st.table.Regular)
    (hroot : st.table.chain globalScope = [globalScope]) {tf tg : TypeNode}
    (hf : f.result = some tf) (hg : g.result = some tg) (hne : f.name.name ≠ g.name.name)
    (bf bg : Option Token) (ssf ssg : List Stmt) :
    let left := hoist ctx st (.fn f bf ssf)
    let right := hoist ctx st (.fn g bg ssg)
    let left' := hoist ctx left.1 (.fn g bg ssg)
    let right' := hoist ctx right.1 (.fn f bf ssf)
    left'.1.found.Perm right'.1.found ∧
      (∀ k ∈ signatureParams left.2, k ∉ signatureParams left'.2) ∧
        ∃ m : Renaming, m.Exact ∧ m.scope = id ∧
          (∃ a b, m.symbol = exchange st.table.symbols.length a b) ∧
          m.swapped = [f.name.name, g.name.name] ∧ m.before = left'.1.found ∧
          m.before' = right'.1.found ∧ m.Tables left'.1.table right'.1.table ∧
          m.Hoisted (.fn f bf ssf, left.2) (.fn f bf ssf, right'.2) ∧
          m.Hoisted (.fn g bg ssg, left'.2) (.fn g bg ssg, right.2) := by
  intro left right left' right'
  -- each of the two is determined by its header, in whatever order it comes
  obtain ⟨h, hh⟩ := exists_header hf
  obtain ⟨h', hh'⟩ := exists_header hg
  obtain ⟨htable, hfound, hfirst, hsecond⟩ :=
    hh.hoist_two hh' hne hscope hst hroot bf bg ssf ssg
  obtain ⟨htable', hfound', hfirst', hsecond'⟩ :=
    hh'.hoist_two hh (Ne.symm hne) hscope hst hroot bg bf ssg ssf
  have hnames : h.head.name.name ≠ h'.head.name.name := by rwa [hh.head_eq, hh'.head_eq]
  refine ⟨?_, fun k hk hk' => ?_, renumbered st.table h h' hnames left'.1.found right'.1.found,
    exact_renumbered, rfl, ⟨_, _, rfl⟩, ?_, rfl, rfl, ?_, ⟨rfl, ?_⟩, ⟨rfl, ?_⟩⟩
  · rw [hfound, hfound']
    exact List.perm_append_comm.append_left _
  · -- the parameters of the first function have lower numbers than those of the second
    rw [hfirst] at hk
    rw [hsecond] at hk'
    exact absurd (hh.sound.le_of_mem_signature hk).2
      (Nat.not_lt.mpr (hh'.sound.le_of_mem_signature hk').1)
  · exact congrArg₂ (fun x y => [x.name.name, y.name.name]) hh.head_eq hh'.head_eq
  · rw [htable, htable']
    exact tables_renumbered hst hh.sound hh'.sound _ _
  · rw [hfirst, hsecond']
    exact hh.sound.signature_rel fun _ => renumbered_first
  · rw [hsecond, hfirst']
    exact hh'.sound.signature_rel fun _ => renumbered_second

end

end Analysis
end Slang
