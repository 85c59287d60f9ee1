import Slang.Proofs.Folding.Body
import Slang.Proofs.Ready

/-!
# Constants are what programs compute

Every evaluation of an occurrence for which analysis finds a constant gives this constant, in every
run of an accepted program (`eval_eq_constant`).

* Calls are right by induction on their depth (`ensures_invoke`): each activation begins in the
  state in which analysis enters the function, whatever has happened before;
* at top level, what is known of a global is what it holds, unless some function writes to a global
  of that name (`Holds`). Calls change no other globals, so this lasts through all statements
  (`ensures_execTops`).
-/

namespace Slang.Execution

open Analysis

/-! ### Calls -/

/-- Nothing is known of the parameters of an activation that begins. -/
theorem held_of_unknown {t : Table} {names : List (Text × SymbolId)} {args : List Value}
    (hlen : args.length = names.length) (h : ∀ b ∈ names, t.known? b.2 = none) :
    List.Forall₂ (Held t) names ((names.map Prod.fst).zip args) := by
  induction names generalizing args with
  | nil => exact .nil
  | cons b names ih =>
    cases args with
    | nil => cases hlen
    | cons v args =>
      refine .cons ⟨rfl, fun c hc => ?_⟩
        (ih (Nat.succ.inj hlen) fun b' hb' => h b' (List.mem_cons_of_mem b hb'))
      rw [h b List.mem_cons_self] at hc
      cases hc

theorem function?_eq_some {p : Program} {f : Text} {k : Nat} {head : FnHead} {body : List Stmt}
    (h : function? p f = some (k, head, body)) : ∃ brace, p[k]? = some (.fn head brace body) := by
  obtain ⟨⟨s, i⟩, hmem, hs⟩ := List.exists_of_findSome?_eq_some h
  have hget := List.mem_zipIdx_iff_getElem?.mp hmem
  cases s with
  | fn head' brace body' =>
    dsimp only at hs
    split at hs
    · obtain ⟨rfl, rfl, rfl⟩ := by simpa using hs
      exact ⟨brace, hget⟩
    · cases hs
  | _ => cases hs

/-- **Functions whose occurrences are known as analysis finds them**, and that write to no globals
but those in `mutated`. -/
def FunctionsMarked (known : Occurrence → Option Value) (mutated : List Text) (p : Program) :
    Prop :=
  ∀ k head brace body, p[k]? = some (.fn head brace body) →
    (∃ ctx st names, Enters ctx st head body names ∧ MarkedIn known [k] 0 ctx st body) ∧
      ∀ x ∈ Stmt.freeWritesAll (head.params.map fun q => q.name.name) body, x ∈ mutated

/-- **Calls are right**, and they keep up what survives the writes of functions. -/
theorem ensures_invoke {known : Occurrence → Option Value} {m : Machine} {p : Program}
    {mutated : List Text} {P : Globals → Prop} (hfns : FunctionsMarked known mutated p)
    (hP : Survives mutated P) (depth : Nat) (f : Text) (args : List Value) :
    Ensures known P (invoke m p depth f args) fun _ => P := by
  induction depth generalizing f args with
  | zero => exact ensures_failure
  | succ depth ih =>
    rw [invoke]
    cases hf : function? p f with
    | none => exact ensures_failure
    | some fn =>
      obtain ⟨k, head, body⟩ := fn
      obtain ⟨brace, hget⟩ := function?_eq_some hf
      obtain ⟨⟨ctx, st, names, henters, hmark⟩, hwrites⟩ := hfns k head brace body hget
      dsimp only
      split
      · next hlen =>
        -- the activation begins where analysis enters the function, whoever the caller is
        have hnames : args.length = names.length := by
          rw [hlen, ← List.length_map (f := fun q : ParamDecl => q.name.name), ← henters.params,
            List.length_map]
        have hmirrors : Mirrors ctx st [names]
            [(head.params.map fun q => q.name.name).zip args] := by
          refine ⟨henters.valid, henters.scope_lt, henters.inside, .cons ?_ .nil⟩
          rw [← henters.params]
          exact held_of_unknown hnames henters.unknown
        have hvars : ∀ x ∈ head.params.map (fun q => q.name.name), x ∈ namesIn [names] := by
          intro x hx
          rw [← henters.params] at hx
          simpa [namesIn] using hx
        have hbody := ensures_execStmts (m := m) ctx
          ⟨henters.fn, henters.global, fun f args => ih f args, hP⟩ st names [] _ hmirrors _ hvars
          [k] 0 body henters.proper henters.clean hwrites hmark
        refine hbody.bind fun out => ?_
        cases out with
        | next env => exact ensures_pure fun g h => h.1
        | returned v => exact ensures_pure fun g h => h.1
      · exact ensures_failure

/-! ### Globals -/

/-- **What is known of a global is what it holds**, unless some function writes to a global of its
name. -/
def Holds (mutated : List Text) (t : Table) (g : Globals) : Prop :=
  ∀ x i c, t.findIn? globalScope x = some i → x ∉ mutated → t.known? i = some c → g x = some c

theorem survives_holds (mutated : List Text) (t : Table) : Survives mutated (Holds mutated t) := by
  intro g x v hx h y i c hi hy hc
  have hne : y ≠ x := by
    rintro rfl
    exact hy hx
  rw [Globals.set, if_neg hne]
  exact h y i c hi hy hc

/-- What a declaration adds to the global scope. -/
theorem findIn?_of_declared {s : Symbol} {t t' : Table} (h : t.Declared globalScope s t') {x : Text}
    {i : SymbolId} (hx : t'.findIn? globalScope x = some i) :
    t.findIn? globalScope x = some i ∨ (x = s.name ∧ i = t.symbols.length) := by
  rw [Table.findIn?_eq_lookup, h.namesOf_eq, List.lookup_append] at hx
  rw [Table.findIn?_eq_lookup]
  cases hold : (t.namesOf globalScope).lookup x with
  | some j =>
    rw [hold, Option.some_or] at hx
    exact .inl hx
  | none =>
    rw [hold, Option.none_or] at hx
    have hmem := Table.mem_of_lookup hx
    obtain ⟨rfl, rfl⟩ := Prod.mk.inj (List.mem_singleton.mp hmem)
    exact .inr ⟨rfl, rfl⟩

/-- A function makes nothing known of a global. -/
theorem holds_of_readsFn {t t' : Table} {own : List SymbolId} {head : FnHead} {body : List Stmt}
    {ctx : Context} {st : State} {names : List (Text × SymbolId)}
    (h : ReadsFn t t' own head body ctx st names) (hv : t.Valid)
    (hown : ∀ i ∈ own, i ∉ (t.namesOf globalScope).map Prod.snd) {mutated : List Text}
    {g : Globals} (hg : Holds mutated t g) : Holds mutated t' g := by
  intro x i c hx hmutated hc
  -- a name of which something is known was there before the function
  have hold : t.findIn? globalScope x = some i := by
    rw [Table.findIn?_eq_lookup, ← h.namesOf_body, ← Table.findIn?_eq_lookup]
    rcases h.after with rfl | ⟨s, hs, hdeclared⟩
    · exact hx
    · refine (findIn?_of_declared hdeclared hx).resolve_right ?_
      rintro ⟨-, rfl⟩
      rw [(known?_of_declared hdeclared).1, hs] at hc
      cases hc
  have hmem := Table.mem_ids_of_findIn? hold
  have hleaves := h.leaves (lt_of_mem_namesOf hv hmem) fun hi => hown i hi hmem
  refine hg x i c hold hmutated ?_
  by_cases hW : WritesIn ctx st body i
  · rw [(hleaves.written hW).2] at hc
    cases hc
  · rw [Table.known?, hleaves.unwritten hW] at hc
    exact hc

section
variable {known : Occurrence → Option Value} {ctx : Context} {st : State} {m : Machine}
  {call : Text → List Value → Run (Option Value)} {s : Stmt × Option Symbol}
  {l : List (Stmt × Option Symbol)}

/-- At top level a known name is that of a global, which holds what is known. -/
theorem reading_top (h : Ready ctx st l)
    (hcall : ∀ P, Survives ctx.mutated P → ∀ f args, Ensures known P (call f args) fun _ => P) :
    Reading known ctx st.table [] call (Holds ctx.mutated st.table) where
  name := by
    intro id c hc g hg
    obtain ⟨i, s, hfind, hs, hknown, hcertain, -⟩ := checkName_value hc
    rw [h.scope, find?_of_root h.root] at hfind
    obtain ⟨s', hs', hname⟩ := h.valid.symbol_of_findIn? hfind
    obtain rfl := Option.some.inj (hs.symm.trans hs')
    -- a name that functions write to is never folded
    have hmutated : id.name ∉ ctx.mutated := by
      simpa [isGlobal, h.global, hname, hfind, isUncertain, h.fn] using hcertain
    refine hg id.name i c hfind hmutated ?_
    rw [Table.known?, hs]
    exact hknown
  call := hcall _ (survives_holds ctx.mutated st.table)

/-- A top-level declaration. -/
theorem ensures_top_let (h : Ready ctx st (s :: l))
    (hcall : ∀ P, Survives ctx.mutated P → ∀ f args, Ensures known P (call f args) fun _ => P)
    {tok : Token} {name : Ident} {type : Option TypeNode} {value : Option Expr}
    (hs : s.1 = .letDecl tok name type value) (hone : type.isSome ∨ value.isSome)
    (hvalue : ∀ e ∈ value, e.Whole) {i : Nat}
    (hmark : ∀ e, value = some e → Marked known ctx st.table ⟨[i], []⟩ e) :
    Ensures known (Holds ctx.mutated st.table) (execTop m call i s.1) fun _ =>
      Holds ctx.mutated (checkTop ctx st s).table := by
  obtain ⟨s, signature⟩ := s
  obtain rfl : s = .letDecl tok name type value := hs
  have hclean := h.clean_head
  rw [checkTop_letDecl] at hclean ⊢
  obtain ⟨-, ty, v, sym, hty, hsym, -, hnew, hdeclared, -⟩ :=
    checkLet_proper_inv h.valid h.scope_lt' hone hvalue hclean
  obtain ⟨hknown, hname⟩ := known?_of_letSymbol hsym type.isNone
  rw [h.scope] at hdeclared hnew
  obtain ⟨hknownNew, hknownOld⟩ := known?_of_declared hdeclared
  rw [hknown] at hknownNew
  -- what is left to show of the globals afterwards: the others are as before, the new one is known
  have hholds : ∀ g g' : Globals, (∀ x, x ≠ name.name → g' x = g x) →
      (∀ c, v = some c → g' name.name = some c) → Holds ctx.mutated st.table g →
      Holds ctx.mutated (checkLet ctx name type value st).table g' := by
    intro g g' hothers hg' hg x j c hx hmutated hc
    rcases findIn?_of_declared hdeclared hx with hx | ⟨hsame, rfl⟩
    · have hlt := lt_of_mem_namesOf h.valid (Table.mem_ids_of_findIn? hx)
      have hne : x ≠ name.name := by
        rintro rfl
        rw [Table.findIn?_eq_none_iff.mpr hnew] at hx
        cases hx
      rw [hothers x hne]
      exact hg x j c hx hmutated ((hknownOld j hlt).symm.trans hc)
    · obtain rfl : x = name.name := hsame.trans hname
      exact hg' c (hknownNew.symm.trans hc)
  cases value with
  | none =>
    refine ensures_pure fun g hg => hholds g g (fun _ _ => rfl) (fun c hc => ?_) hg
    exact absurd (value_of_letTy hty hc).1 Bool.false_ne_true
  | some e =>
    refine (ensures_eval (reading_top h hcall) (hvalue e rfl) (hmark e rfl)).bind_of fun w hw => ?_
    refine ensures_demand.bind_of fun u hu => ensures_store fun g hg => ?_
    refine hholds g _ (fun x hx => if_neg hx) (fun c hc => ?_) hg
    rw [Globals.set, if_pos rfl, ← hu]
    exact hw c (value_of_letTy hty hc).2

/-- A top-level assignment. -/
theorem ensures_top_assign (h : Ready ctx st (s :: l))
    (hcall : ∀ P, Survives ctx.mutated P → ∀ f args, Ensures known P (call f args) fun _ => P)
    {tok : Token} {name : Ident} {e : Expr} (hs : s.1 = .assign tok name e) (he : e.Whole) {i : Nat}
    (hmark : Marked known ctx st.table ⟨[i], []⟩ e) :
    Ensures known (Holds ctx.mutated st.table) (execTop m call i s.1) fun _ =>
      Holds ctx.mutated (checkTop ctx st s).table := by
  obtain ⟨s, signature⟩ := s
  obtain rfl : s = .assign tok name e := hs
  have hclean := h.clean_head
  rw [checkTop_assign] at hclean ⊢
  obtain ⟨j, hfind, hscopes, hothers, hnew⟩ := known?_checkAssign he hclean
  rw [h.scope, find?_of_root h.root] at hfind
  have hnames : ∀ x, (checkAssign ctx name e st).table.findIn? globalScope x =
      st.table.findIn? globalScope x := by
    intro x
    rw [Table.findIn?, Table.findIn?, Table.scope?, hscopes]
    rfl
  refine (ensures_eval (reading_top h hcall) he hmark).bind_of fun w hw => ?_
  refine ensures_demand.bind_of fun u hu => ensures_store fun g hg => ?_
  intro x k c hx hmutated hc
  rw [hnames] at hx
  by_cases hxn : x = name.name
  · subst hxn
    obtain rfl : j = k := Option.some.inj (hfind.symm.trans hx)
    rw [Globals.set, if_pos rfl, ← hu]
    exact hw c (hnew c hc)
  · -- a symbol has one name only
    have hne : k ≠ j := by
      rintro rfl
      obtain ⟨s, hs, hname⟩ := h.valid.symbol_of_findIn? hx
      obtain ⟨s', hs', hname'⟩ := h.valid.symbol_of_findIn? hfind
      obtain rfl := Option.some.inj (hs.symm.trans hs')
      exact hxn (hname.symm.trans hname')
    rw [Globals.set, if_neg hxn]
    exact hg x k c hx hmutated ((hothers k hne).symm.trans hc)

/-- **Top-level statements are right.** -/
theorem ensures_execTops (h : Ready ctx st l)
    (hcall : ∀ P, Survives ctx.mutated P → ∀ f args, Ensures known P (call f args) fun _ => P)
    (i : Nat)
    (hmark : ∀ j s e, siteAmong ctx st l [j] = some s → s.stmt.value? = some e →
      Marked known s.ctx s.st.table ⟨[i + j], []⟩ e) :
    Ensures known (Holds ctx.mutated st.table) (execTops m call i (l.map Prod.fst))
      fun _ _ => True := by
  induction l generalizing st i with
  | nil => exact ensures_pure fun _ _ => trivial
  | cons s l ih =>
    have htail := ih h.next (i + 1) fun j site e hsite he => by
      have := hmark (j + 1) site e ((siteAmong_next ctx st l j [] s).trans hsite) he
      rwa [Nat.add_comm j 1, ← Nat.add_assoc] at this
    have hhere : ∀ e, s.1.value? = some e → Marked known ctx st.table ⟨[i], []⟩ e := fun e he =>
      hmark 0 _ e (siteAmong_here ctx st l s) he
    have hhead : Ensures known (Holds ctx.mutated st.table) (execTop m call i s.1) fun _ =>
        Holds ctx.mutated (checkTop ctx st s).table := by
      obtain ⟨s, signature⟩ := s
      have hs : s.ProperTop := h.proper _ List.mem_cons_self
      cases hs with
      | letDecl hone hvalue => exact ensures_top_let h hcall rfl hone hvalue hhere
      | assign he => exact ensures_top_assign h hcall rfl he (hhere _ rfl)
      | @fn head brace body hbody =>
        obtain ⟨ctx', st', names, -, hreads⟩ := h.reads_fn
        -- reading a function runs nothing, it only makes globals less known
        refine ensures_pure fun g hg => holds_of_readsFn hreads h.valid (fun k hk => ?_) hg
        exact fun hmem => h.not_mem_paramIds hmem hk
    exact hhead.bind fun _ => htail

end

/-! ### Programs -/

/-- The constants of a program are what analysis finds at the sites of its statements. -/
theorem marked_of_site {options : Options} {p : Program} {place : StmtPlace} {s : Site}
    (hsite : site options p place = some s) {e : Expr} (he : s.stmt.value? = some e) :
    Marked (constantAt options p) s.ctx s.st.table ⟨place, []⟩ e := by
  intro path e' hpath
  rw [constantAt, hsite, Option.bind_some, he, Option.bind_some, List.nil_append, hpath]
  rfl

/-- The names that a function may write to are among those of its program. -/
theorem globalWrites_of_getElem? {p : Program} {k : Nat} {head : FnHead} {brace : Option Token}
    {body : List Stmt} (h : p[k]? = some (.fn head brace body)) :
    ∀ x ∈ Stmt.freeWritesAll (head.params.map fun q => q.name.name) body, x ∈ p.globalWrites :=
  fun _ hx => List.mem_flatMap.mpr ⟨_, List.mem_of_getElem? h, hx⟩

/-- Every function of an accepted program is entered by analysis. -/
theorem functionsMarked {options : Options} {p : Program} (hproper : ∀ s ∈ p, s.ProperTop)
    (h : (checkProgram options p.globalWrites p).Clean) :
    FunctionsMarked (constantAt options p) p.globalWrites p := by
  intro k head brace body hget
  refine ⟨?_, globalWrites_of_getElem? hget⟩
  obtain ⟨hready, hfst⟩ := ready_start hproper h
  -- the function is the statement with number `k` of the second pass
  have hstmt : ((hoistAll (topContext options p.globalWrites) startState p).2.map Prod.fst)[k]? =
      some (.fn head brace body) := by rw [hfst, hget]
  rw [List.getElem?_map, Option.map_eq_some_iff] at hstmt
  obtain ⟨⟨s, signature⟩, hk, hs⟩ := hstmt
  obtain rfl : s = .fn head brace body := hs
  obtain ⟨hlt, hk'⟩ := List.getElem?_eq_some_iff.mp hk
  have hready' := hready.drop k
  rw [List.drop_eq_getElem_cons hlt, hk'] at hready'
  obtain ⟨ctx, st, names, hentry, hreads⟩ := hready'.reads_fn
  refine ⟨ctx, st, names, hreads.enters, fun j rest site hsite e he => ?_⟩
  refine marked_of_site ?_ he
  rw [Nat.zero_add]
  exact (siteAmong_of_getElem? _ _ _ hk hentry j rest).trans hsite

/-- Before the first statement nothing is known of any global: all of them are functions. -/
theorem holds_start {options : Options} {mutated : List Text} {p : Program}
    (h : (checkProgram options mutated p).Clean) (names : List Text) (g : Globals) :
    Holds names (hoistAll (topContext options mutated) startState p).1.table g := by
  have hsc := scope_lt_startState options mutated
  have hgrown := grows_hoistAll (topContext options mutated) startState p
  rw [checkProgram_eq] at h
  have hclean := (grows_checkTops _ _ (hgrown.scope_lt hsc) _).clean h
  have hv := hgrown.table.valid valid_freshTable
  obtain ⟨hview, -⟩ := hoistAll_sound valid_freshTable hsc
    (show startState.table.view _ = [[]] from rfl) List.nodup_nil hclean
  have hroot := hgrown.table.chain_eq hsc
  intro x i c hx _ hc
  obtain ⟨s, hs, -⟩ := hv.symbol_of_findIn? hx
  have hfind := hv.find?_view_eq_some ((find?_of_root hroot x).trans hx) hs
  rw [show globalScope = (topContext options mutated).scope from rfl, hview] at hfind
  -- what the global scope has under a name is a signature
  have hmem : (x, s.entry) ∈ Typing.hoisted p := by
    have hlookup : (Typing.hoisted p).lookup x = some s.entry := by
      simpa [Typing.Env.find?] using hfind
    exact Table.mem_of_lookup hlookup
  obtain ⟨stmt, -, hstmt⟩ := List.mem_filterMap.mp hmem
  cases stmt with
  | fn head brace body =>
    obtain ⟨type, -, hentry⟩ := Option.map_eq_some_iff.mp hstmt
    obtain ⟨qs, hcontent, -⟩ := Symbol.entry_eq_function (Prod.mk.inj hentry).2.symm
    rw [Table.known?, hs, Option.bind_some, Symbol.known?, hcontent] at hc
    cases hc
  | _ => cases hstmt

/-- Every run of a program without gaps and without errors is right, whatever the globals hold
first. -/
theorem right_run {options : Options} {p : Program} (hproper : ∀ s ∈ p, s.ProperTop)
    (h : (checkProgram options p.globalWrites p).Clean) (m : Machine) (depth : Nat) (g : Globals) :
    (run m depth p ⟨g, []⟩).Right (constantAt options p) := by
  obtain ⟨hready, hfst⟩ := ready_start hproper h
  have hfns := functionsMarked hproper h
  have hmark : ∀ j s e,
      siteAmong (topContext options p.globalWrites)
        (hoistAll (topContext options p.globalWrites) startState p).1
        (hoistAll (topContext options p.globalWrites) startState p).2 [j] = some s →
      s.stmt.value? = some e →
      Marked (constantAt options p) s.ctx s.st.table ⟨[0 + j], []⟩ e := by
    intro j s e hsite he
    have hsite : site options p [j] = some s := hsite
    rw [Nat.zero_add]
    exact marked_of_site hsite he
  have hrun := ensures_execTops (m := m) hready
    (fun P hP f args => ensures_invoke (m := m) hfns hP depth f args) 0 hmark
  rw [hfst] at hrun
  -- the log is empty at first, and nothing is known of the globals
  have hright : (World.mk g []).Right (constantAt options p) :=
    fun o v c hmem _ => absurd hmem List.not_mem_nil
  exact (hrun _ hright (holds_start h _ _)).1

/-- **Constant folding is sound.** For every source that is read without faults and accepted, on
every machine and with calls of any depth: whenever the evaluation of an occurrence completes for
which analysis found a constant, in whatever activation and after whatever calls, it gives this
constant. -/
theorem eval_eq_constant {src : Text} {options : Options} (hparse : (Parser.parse src).faults = [])
    (haccepted : Accepted options (Parser.parse src).program) (m : Machine) (depth : Nat)
    {o : Occurrence} {v : Option Value} {c : Value}
    (hlog : (o, v) ∈ (run m depth (Parser.parse src).program
      (.start (analysed options (Parser.parse src).program))).log)
    (hc : constantAt options (Parser.parse src).program o = some c) : v = some c :=
  right_run (Parser.proper_of_parse hparse) (accepted_iff.mp haccepted) m depth _ o v c hlog hc

/-- A function with a hidden local, an assigned parameter and a global of its own, called twice. -/
def twiceSource : Text :=
  "let a = 2;
   let g = 7;
   fn f(n: int): int { let k = 3; { let k = a; g = k; } k = k * 2; n = k; return k + n; }
   let b = f(1) + f(a + 1);"

/-- A machine that stops wherever it may. -/
def Machine.stopping : Machine := ⟨fun _ _ _ => none, none, fun _ => none, false⟩

theorem eval_twiceSource :
    (Parser.parse twiceSource).faults = [] ∧ Accepted {} (Parser.parse twiceSource).program ∧
      constantAt {} (Parser.parse twiceSource).program ⟨[2, 4], [0]⟩ = some (.int 6) ∧
      ∃ v, (⟨[2, 4], [0]⟩, v) ∈ (run .stopping 1 (Parser.parse twiceSource).program
          (.start (analysed {} (Parser.parse twiceSource).program))).log ∧ v = some (.int 6) := by
  have hparse : (Parser.parse twiceSource).faults = [] := by decide +kernel
  have haccepted : Accepted {} (Parser.parse twiceSource).program := by decide +kernel
  have hc : constantAt {} (Parser.parse twiceSource).program ⟨[2, 4], [0]⟩ = some (.int 6) := by
    decide +kernel
  have hlog : (⟨[2, 4], [0]⟩, some (.int 6)) ∈ (run .stopping 1 (Parser.parse twiceSource).program
      (.start (analysed {} (Parser.parse twiceSource).program))).log := by
    decide +kernel
  exact ⟨hparse, haccepted, hc, _, hlog, eval_eq_constant hparse haccepted .stopping 1 hlog hc⟩

end Slang.Execution
