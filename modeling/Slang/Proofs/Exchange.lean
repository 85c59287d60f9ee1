import Slang.Proofs.Exchange.Signatures

/-!
# Neighbouring functions in either order

Two functions with written types and different names stand next to each other in a program. If they
change places, the first pass makes the same symbols under other numbers (`hoist_exchange`), and the
second pass reads each body as it did before (`checkTop_exchange`). All other statements are
analysed in corresponding tables, so they come to the same. What is found is found in another order,
and the two functions have changed places among the names of the program and among its scopes.
-/

namespace Slang

/-! ### What can be seen -/

/-- A symbol without what is only for telling it from others: its augmented name and the numbers of
its parameters. -/
def Symbol.plain (s : Symbol) : Symbol :=
  { s with
    augmented := s.name
    content :=
      match s.content with
      | .variable v c => .variable v c
      | .function ps result => .function (ps.map fun p => { p with id := 0 }) result }

/-- What a name of the whole program stands for. -/
def Table.global? (t : Table) (x : Text) : Option Symbol :=
  ((t.findIn? Analysis.globalScope x).bind t.symbol?).map Symbol.plain

/-- **The scopes of a function**: the scope of its body and those inside it have the numbers from
`n` on. There are none if the body is not read. -/
def Table.FunctionScopes (t : Table) (name : Text) (n count : Nat) : Prop :=
  count = 0 ∨
    (∃ s, t.scope? n = some s ∧ s.name = name ∧ s.outer = [Analysis.globalScope]) ∧
      ∀ i, n ∈ t.chain i ↔ n ≤ i ∧ i < n + count

namespace Analysis

theorem Renaming.Symbols.plain {m : Renaming} (hm : m.Exact) {k : SymbolId} {s s' : Symbol}
    (h : m.Symbols k s s') : s'.plain = s.plain := by
  obtain ⟨name, line, inferred, augmented, content⟩ := s
  obtain ⟨name', line', inferred', augmented', content'⟩ := s'
  have hcontent := h.content_eq hm.lossy (hm.shown k)
  obtain ⟨hname, hline, hinferred, -, -⟩ := h
  dsimp only at hname hline hinferred hcontent
  subst hname hline hinferred
  rcases hcontent with ⟨v, c, rfl, rfl⟩ | ⟨ps, result, rfl, rfl⟩
  · rfl
  · simp [Symbol.plain, Renaming.param]

/-- Corresponding tables show the same under every name of the whole program. -/
theorem Renaming.Tables.global? {m : Renaming} (hm : m.Exact) {t t' : Table} (h : m.Tables t t')
    (x : Text) : t'.global? x = t.global? x := by
  have hfind := h.findIn? globalScope x
  rw [m.scope_global] at hfind
  unfold Table.global?
  rw [hfind]
  rcases h.bind_symbol? (t.findIn? globalScope x) with ⟨hs, hs'⟩ | ⟨k, s, s', hs, hs', hsymbols⟩
  · rw [hs, hs']
  · rw [hs, hs', Option.map_some, Option.map_some, hsymbols.plain hm]

/-! ### Scopes of functions -/

/-- A body makes the scopes of its function. -/
theorem Body.functionScopes {name : Text} {params : List SymbolId} {t u : Table}
    (h : Body name params t u) :
    u.FunctionScopes name t.scopes.length (u.scopes.length - t.scopes.length) := by
  have hle := h.scopes_le
  -- a body that was not read makes no scopes; otherwise its first scope has all others within
  rcases Nat.eq_or_lt_of_le hle with heq | hlt
  · exact .inl (by rw [heq, Nat.sub_self])
  · obtain ⟨s, hs⟩ := Table.exists_scope? hlt
    have hsum : t.scopes.length + (u.scopes.length - t.scopes.length) = u.scopes.length :=
      Nat.add_sub_cancel' hle
    refine .inr ⟨⟨s, hs, h.first s hs⟩, fun i => ?_⟩
    rw [hsum]
    refine ⟨fun hi => ⟨h.aside.valid.chain_le hi, Table.lt_of_mem_chain hi⟩, fun ⟨hge, hi⟩ => ?_⟩
    · obtain ⟨x, hx⟩ := Table.exists_scope? hi
      rw [Table.chain_of_scope? hx]
      rcases Nat.eq_or_lt_of_le hge with rfl | hgt
      · exact List.mem_cons_self
      · exact List.mem_cons_of_mem _ (h.aside.confined.inside i x hgt hx)

/-- The scopes of a function stay as they are when more is made. -/
theorem functionScopes_extends {name : Text} {n count : Nat} {t t' : Table}
    (h : t.FunctionScopes name n count) (hn : globalScope < n) (hle : n + count ≤ t.scopes.length)
    (hroot : t.chain globalScope = [globalScope]) (hextends : t.Extends globalScope t') :
    t'.FunctionScopes name n count := by
  rcases h with h | ⟨⟨s, hs, hname, houter⟩, hmem⟩
  · exact .inl h
  · have hlt : n < t.scopes.length := Table.scope?_lt hs
    refine .inr ⟨⟨s, ?_, hname, houter⟩, fun i => ?_⟩
    · rw [hextends.scope_eq n hlt (Nat.ne_of_gt hn)]
      exact hs
    · rcases Nat.lt_or_ge i t.scopes.length with hold | hnew
      · rw [hextends.chain_eq hold]
        exact hmem i
      · -- what is made later lies in the scope of the whole program
        refine ⟨fun hi => ?_, fun ⟨_, hi⟩ =>
          absurd (Nat.lt_of_lt_of_le hi hle) (Nat.not_lt.mpr hnew)⟩
        obtain ⟨x, hx⟩ := Table.exists_scope? (Table.lt_of_mem_chain hi)
        rw [Table.chain_of_scope? hx] at hi
        exfalso
        rcases List.mem_cons.mp hi with rfl | hi
        · exact absurd hlt (Nat.not_lt.mpr hnew)
        · rcases hextends.inner i x hnew hx n hi with hglobal | hge
          · rw [hroot] at hglobal
            exact absurd (List.mem_singleton.mp hglobal) (Nat.ne_of_gt hn)
          · exact absurd hlt (Nat.not_lt.mpr hge)

/-! ### The first pass -/

section
variable {ctx ctx' : Context} {st : State}

theorem hoistAll_append (ctx : Context) (st : State) (p q : Program) :
    hoistAll ctx st (p ++ q) =
      ((hoistAll ctx (hoistAll ctx st p).1 q).1,
        (hoistAll ctx st p).2 ++ (hoistAll ctx (hoistAll ctx st p).1 q).2) := by
  induction p generalizing st with
  | nil => rfl
  | cons s p ih =>
    rw [List.cons_append, hoistAll]
    dsimp only
    rw [ih]
    rfl

/-- The first pass does not look at what functions write to. -/
theorem hoistAll_congr (hoptions : ctx'.options = ctx.options) (hscope : ctx'.scope = ctx.scope)
    (p : Program) : hoistAll ctx' st p = hoistAll ctx st p := by
  have hhoist : ∀ (st : State) (s : Stmt), hoist ctx' st s = hoist ctx st s := by
    intro st s
    unfold hoist declare bindName shadowing
    rw [hoptions, hscope]
  induction p generalizing st with
  | nil => rfl
  | cons s p ih =>
    rw [hoistAll, hoistAll, hhoist]
    dsimp only
    rw [ih]

/-- The parameters of a signature are symbols of the table after it. -/
theorem admittedIn_hoist (ctx : Context) (st : State) (s : Stmt) :
    AdmittedIn (hoist ctx st s).1.table.symbols.length (s, (hoist ctx st s).2) := by
  intro x hx
  cases s with
  | fn head brace body =>
    unfold hoist at hx ⊢
    dsimp only at hx ⊢
    cases htype : head.result with
    | none =>
      rw [htype] at hx
      cases hx
    | some result =>
      rw [htype] at hx
      dsimp only at hx ⊢
      -- only a function whose symbol could be made has a signature
      rcases hmake : makeFunction head (makeParams [] st head.params).2 result.ty false
        (makeParams [] st head.params).1 with ⟨st₁, _ | y⟩
      · rw [hmake] at hx
        cases hx
      · rw [hmake] at hx
        obtain rfl := Option.some.inj hx
        obtain ⟨rfl, -⟩ := makeFunction_some hmake
        have hadmitted := admitted_of_makeFunction
          (fun p hp => ⟨isValue_of_mem_makeParams hp, lt_of_mem_makeParams hp⟩) hmake
        have hgrows : (makeParams [] st head.params).1.Grows ctx.scope
            (declare ctx y head.name.token (makeParams [] st head.params).1) :=
          grows_declare hadmitted.typed
        exact hadmitted.mono hgrows.table.symbols_le
  | _ => cases hx

/-- Signatures refer to what the first pass made. -/
theorem admittedIn_hoistAll (ctx : Context) (st : State) (p : Program) :
    ∀ a ∈ (hoistAll ctx st p).2, AdmittedIn (hoistAll ctx st p).1.table.symbols.length a := by
  induction p generalizing st with
  | nil => exact fun a ha => (nomatch ha)
  | cons s p ih =>
    refine List.forall_mem_cons.mpr ⟨?_, ih _⟩
    exact (admittedIn_hoist ctx st s).mono
      (grows_hoistAll ctx (hoist ctx st s).1 p).table.symbols_le

end

/-! ### The second pass -/

/-- **Two bodies, read in either order**, where the tables before them correspond. -/
theorem checkTop_exchange {m : Renaming} (hm : m.Exact) {ctx ctx' : Context}
    (hctx : m.Contexts ctx ctx') (hscope : ctx.scope = globalScope) (hfn : ctx.fn = none)
    {st st' : State} (hst : m.States false st st')
    (hroot : st.table.chain globalScope = [globalScope]) {f g : FnHead} {tf tg : TypeNode}
    (hf : f.result = some tf) (hg : g.result = some tg) {bf bg : Option Token}
    {ssf ssg : List Stmt} {sf sg sf' sg' : Option Symbol}
    (hsf : AdmittedIn st.table.symbols.length (.fn f bf ssf, sf))
    (hsg : AdmittedIn st.table.symbols.length (.fn g bg ssg, sg))
    (hapart : ∀ k ∈ signatureParams sf, k ∉ signatureParams sg)
    (hf' : m.Hoisted (.fn f bf ssf, sf) (.fn f bf ssf, sf'))
    (hg' : m.Hoisted (.fn g bg ssg, sg) (.fn g bg ssg, sg')) :
    let done := checkTop ctx (checkTop ctx st (.fn f bf ssf, sf)) (.fn g bg ssg, sg)
    let done' := checkTop ctx' (checkTop ctx' st' (.fn g bg ssg, sg')) (.fn f bf ssf, sf')
    ∃ (a b c d : Nat) (e : Renaming), e.Exact ∧ e.swapped = [] ∧
      e.scope = exchange st.table.scopes.length a b ∧
      e.symbol = exchange st.table.symbols.length c d ∧
      (e.trans m done.found done'.found).States false done done' ∧
      (m.before.Perm m.before' → done.found.Perm done'.found) ∧
      st.table.scopes.length + a + b ≤ done.table.scopes.length ∧
      done.table.FunctionScopes f.name.name st.table.scopes.length a ∧
      done.table.FunctionScopes g.name.name (st.table.scopes.length + a) b := by
  intro done done'
  have h0 : globalScope < st.table.scopes.length :=
    Table.lt_of_mem_chain (hroot ▸ List.mem_singleton_self _)
  have hsc : ctx.scope < st.table.scopes.length := hscope ▸ h0
  have hregular := hst.table.regular hm
  -- the other order, in the same table
  obtain ⟨hboth, hperm⟩ := bothOrders_checkTop hctx.global hscope hfn hregular hroot hf hg bf bg
    ssf ssg hsf hsg hapart h0
  have hright := renamed_checkTop hctx (hm.placed ctx) hm.shown hfn hsc hst hg'
  have hright' := renamed_checkTop hctx (hm.placed ctx) hm.shown hfn
    (Nat.lt_of_lt_of_le hsc hboth.scopes_le.2) hright hf'
  have hexact := exact_exchanged st.table (checkTop ctx st (.fn f bf ssf, sf)).table
    (checkTop ctx st (.fn g bg ssg, sg)).table h0 done.found done.found
  have hfirst := body_checkTop hregular.valid hctx.global hscope hroot hf bf ssf sf
  have hroot' := (hfirst.chain_eq h0).trans hroot
  have hsecond := body_checkTop hboth.regular_left.valid hctx.global hscope hroot' hg bg ssg sg
  have hgrows := grows_checkTop ctx _ (Nat.lt_of_lt_of_le hsc hfirst.scopes_le) (.fn g bg ssg, sg)
  have hlength : done.table.scopes.length + st.table.scopes.length =
      (checkTop ctx st (.fn f bf ssf, sf)).table.scopes.length +
        (checkTop ctx st (.fn g bg ssg, sg)).table.scopes.length := hboth.length_scopes
  have hsum := Nat.add_sub_cancel' hfirst.scopes_le
  -- the second body makes as many scopes as it makes without the first one
  have hcount : done.table.scopes.length -
        (checkTop ctx st (.fn f bf ssf, sf)).table.scopes.length =
      (checkTop ctx st (.fn g bg ssg, sg)).table.scopes.length - st.table.scopes.length := by
    have hle := hboth.scopes_le
    omega
  refine ⟨_, _, _, _, _, hexact, rfl, rfl, rfl,
    ((hboth.tables _ _).trans hexact hm rfl hright'.table).states rfl rfl, fun hbefore => ?_, ?_,
    ?_, ?_⟩
  · obtain ⟨fs, hfs, hfs'⟩ := hright'.found_eq hm.lossy
    rw [hfs] at hperm
    rw [hfs']
    exact hperm.trans (hbefore.append_right fs)
  · rw [hsum, ← hcount]
    exact Nat.le_of_eq (Nat.add_sub_cancel' hsecond.scopes_le)
  · refine functionScopes_extends hfirst.functionScopes h0 (Nat.le_of_eq hsum) hroot' ?_
    rw [← hscope]
    exact hgrows.table
  · rw [hsum, ← hcount]
    exact hsecond.functionScopes

/-- A renaming that moves finitely many symbols. -/
def Renaming.Settles (m : Renaming) : Prop := ∃ n, ∀ k, n ≤ k → m.symbol k = k

theorem settles_exchange {m : Renaming} {n a b : Nat} (h : m.symbol = exchange n a b) :
    m.Settles :=
  ⟨n + a + b, fun k hk => by rw [h]; exact exchange_of_le hk⟩

theorem Renaming.Settles.trans {m m' : Renaming} (h : m.Settles) (h' : m'.Settles)
    (before before' : List Finding) : (m.trans m' before before').Settles := by
  obtain ⟨n, hn⟩ := h
  obtain ⟨n', hn'⟩ := h'
  refine ⟨n + n', fun k hk => ?_⟩
  change m'.symbol (m.symbol k) = k
  rw [hn k (Nat.le_trans (Nat.le_add_right n n') hk)]
  exact hn' k (Nat.le_trans (Nat.le_add_left n' n) hk)

/-- Rows of numbers that are only put in another order are as many as before. -/
theorem length_eq_of_settled {σ : Nat → Nat} (hσ : ∃ n, ∀ k, n ≤ k → σ k = k) {l l' : Nat}
    (h : ∀ n, σ (l + n) = l' + n) : l' = l := by
  obtain ⟨n, hn⟩ := hσ
  exact Nat.add_right_cancel ((h n).symm.trans (hn (l + n) (Nat.le_add_left _ _)))

/-- The statements of two programs with their signatures: two neighbours have changed places. -/
inductive Swapped (m : Renaming) (f g : Stmt) :
    List (Stmt × Option Symbol) → List (Stmt × Option Symbol) → Prop
  | mk {before after after' : List (Stmt × Option Symbol)} {sf sg sf' sg' : Option Symbol}
      (hbefore : List.Forall₂ m.Hoisted before before) (hf : m.Hoisted (f, sf) (f, sf'))
      (hg : m.Hoisted (g, sg) (g, sg')) (hafter : List.Forall₂ m.Hoisted after after')
      (hapart : ∀ k ∈ signatureParams sf, k ∉ signatureParams sg) :
      Swapped m f g (before ++ (f, sf) :: (g, sg) :: after)
        (before ++ (g, sg') :: (f, sf') :: after')

/-- Both programs are read in the scope of the whole program. -/
theorem contexts_top (m : Renaming) (options : Options) {mutated mutated' : List Text}
    (hmutated : ∀ x, x ∈ mutated ↔ x ∈ mutated') :
    m.Contexts (topContext options mutated) (topContext options mutated') :=
  ⟨rfl, rfl, rfl, m.scope_global.symm, rfl, fun x => (hmutated x).mp, fun _ x => (hmutated x).mpr⟩

section
variable (options : Options) {mutated mutated' : List Text} {f g : FnHead} {tf tg : TypeNode}
  {bf bg : Option Token} {ssf ssg : List Stmt}

/-- **The first pass over both programs.** -/
theorem hoistAll_exchange (mutated : List Text) (hf : f.result = some tf)
    (hg : g.result = some tg) (hne : f.name.name ≠ g.name.name) (bf bg : Option Token)
    (ssf ssg : List Stmt) (before after : Program) :
    let first := hoistAll (topContext options mutated) startState
      (before ++ .fn f bf ssf :: .fn g bg ssg :: after)
    let first' := hoistAll (topContext options mutated) startState
      (before ++ .fn g bg ssg :: .fn f bf ssf :: after)
    ∃ m : Renaming, m.Exact ∧ m.scope = id ∧ m.Settles ∧
      m.swapped = [f.name.name, g.name.name] ∧ m.before.Perm m.before' ∧
      m.States false first.1 first'.1 ∧
      Swapped m (.fn f bf ssf) (.fn g bg ssg) first.2 first'.2 := by
  intro first first'
  let ctx := topContext options mutated
  have hsc : ctx.scope < startState.table.scopes.length := scope_lt_startState options mutated
  -- the statements in front of the two functions
  let start := hoistAll ctx startState before
  have hstart : startState.Grows globalScope start.1 := grows_hoistAll ctx startState before
  have hregular : start.1.table.Regular := regular_hoistAll rfl rfl hsc regular_startState before
  have hroot : start.1.table.chain globalScope = [globalScope] :=
    (hstart.table.chain_eq hsc).trans rfl
  -- the two functions
  obtain ⟨hperm, hapart, m, hm, hid, ⟨c, d, hsymbol⟩, hswapped, hbefore, hbefore', htables, hhf,
    hhg⟩ := @hoist_exchange ctx start.1 f g rfl hregular hroot tf tg hf hg hne bf bg ssf ssg
  have hold : List.Forall₂ m.Hoisted start.2 start.2 := by
    refine List.forall₂_same.mpr fun a ha => ?_
    refine (admittedIn_hoistAll ctx startState before a ha).hoisted hm fun k hk => ?_
    rw [hsymbol]
    exact exchange_of_lt hk
  -- the statements behind them
  have hleft := grows_hoist ctx start.1 (.fn f bf ssf)
  have hscleft := (hleft.trans (grows_hoist ctx _ (.fn g bg ssg))).scope_lt (hstart.scope_lt hsc)
  obtain ⟨hstates, hall⟩ := renamed_hoistAll (contexts_top m options fun _ => Iff.rfl) hscleft
    (htables.states hbefore hbefore') after
  have hfirst : first = _ := hoistAll_append ctx startState before _
  have hfirst' : first' = _ := hoistAll_append ctx startState before _
  refine ⟨m, hm, hid, settles_exchange hsymbol, hswapped, hbefore ▸ hbefore' ▸ hperm, ?_, ?_⟩
  · rw [hfirst, hfirst']
    exact hstates
  · rw [hfirst, hfirst']
    exact .mk hold hhf hhg hall hapart

/-- **The second pass over both programs.** -/
theorem checkTops_exchange {m : Renaming} (hm : m.Exact) (hid : m.scope = id) (hsettles : m.Settles)
    (hbefore : m.before.Perm m.before') (hmutated : ∀ x, x ∈ mutated ↔ x ∈ mutated')
    (hf : f.result = some tf) (hg : g.result = some tg) {st st' : State}
    (hst : m.States false st st') (hroot : st.table.chain globalScope = [globalScope])
    {l l' : List (Stmt × Option Symbol)} (hl : Swapped m (.fn f bf ssf) (.fn g bg ssg) l l')
    (hadmitted : ∀ a ∈ l, AdmittedIn st.table.symbols.length a) :
    let done := l.foldl (checkTop (topContext options mutated)) st
    let done' := l'.foldl (checkTop (topContext options mutated')) st'
    done.found.Perm done'.found ∧ ∃ (n a b : Nat) (e : Renaming), e.Exact ∧
      e.scope = exchange n a b ∧ e.Settles ∧ e.swapped = m.swapped ∧
      e.Tables done.table done'.table ∧ done.table.FunctionScopes f.name.name n a ∧
      done.table.FunctionScopes g.name.name (n + a) b := by
  obtain @⟨before, after, after', sf, sg, sf', sg', hbefores, hhf, hhg, hafter, hapart⟩ := hl
  intro done done'
  let ctx := topContext options mutated
  let ctx' := topContext options mutated'
  have hctx : m.Contexts ctx ctx' := contexts_top m options hmutated
  have hsc : ctx.scope < st.table.scopes.length :=
    Table.lt_of_mem_chain (hroot ▸ List.mem_singleton_self _)
  -- the statements in front of the two functions
  let read := before.foldl (checkTop ctx) st
  let read' := before.foldl (checkTop ctx') st'
  have hread : m.States false read read' :=
    renamed_checkTops hctx (hm.placed ctx) hm.shown rfl hsc hst hbefores
  have hgrows : st.Grows globalScope read := grows_checkTops ctx st hsc before
  have hsymbols := hgrows.table.symbols_le
  -- the two functions
  have hsf := hadmitted (.fn f bf ssf, sf) (by simp)
  have hsg := hadmitted (.fn g bg ssg, sg) (by simp)
  obtain ⟨a, b, c, d, e, he, -, hscope, hsymbol, hboth, hfound, hle, hscopesf, hscopesg⟩ :=
    checkTop_exchange hm hctx rfl rfl hread ((hgrows.table.chain_eq hsc).trans hroot) hf hg
      (hsf.mono hsymbols) (hsg.mono hsymbols) hapart hhf hhg
  have hfirst := grows_checkTop ctx read (hgrows.scope_lt hsc) (.fn f bf ssf, sf)
  have htwo := hfirst.trans (grows_checkTop ctx _ (hfirst.scope_lt (hgrows.scope_lt hsc))
    (.fn g bg ssg, sg))
  -- the statements behind them, whose signatures come before what the bodies made
  have hsctwo := htwo.scope_lt (hgrows.scope_lt hsc)
  have hexact := Renaming.exact_trans e m
    (checkTop ctx (checkTop ctx read (.fn f bf ssf, sf)) (.fn g bg ssg, sg)).found
    (checkTop ctx' (checkTop ctx' read' (.fn g bg ssg, sg')) (.fn f bf ssf, sf')).found
  have hrest : ∀ x ∈ after, AdmittedIn st.table.symbols.length x :=
    fun x hx => hadmitted x (by simp [hx])
  have hlast := renamed_checkTops (contexts_top _ options hmutated) (hexact.placed ctx) hexact.shown
    rfl hsctwo hboth (((List.forall₂_and_left _ _).mpr ⟨hrest, hafter⟩).imp
      fun x y ⟨hx, hxy⟩ => ((hx.mono hsymbols).hoisted he fun k hk => by
        rw [hsymbol]
        exact exchange_of_lt hk).trans he hm hxy)
  have hlastgrows := grows_checkTops ctx _ hsctwo after
  have hrootread := (hgrows.table.chain_eq hsc).trans hroot
  have hroottwo := (htwo.table.chain_eq (hgrows.scope_lt hsc)).trans hrootread
  have h0 : globalScope < read.table.scopes.length := hgrows.scope_lt hsc
  have hdone : done = after.foldl (checkTop ctx)
      (checkTop ctx (checkTop ctx read (.fn f bf ssf, sf)) (.fn g bg ssg, sg)) :=
    List.foldl_append
  have hdone' : done' = after'.foldl (checkTop ctx')
      (checkTop ctx' (checkTop ctx' read' (.fn g bg ssg, sg')) (.fn f bf ssf, sf')) :=
    List.foldl_append
  rw [hdone, hdone']
  refine ⟨?_, read.table.scopes.length, a, b, _, hexact, ?_,
    (settles_exchange hsymbol).trans hsettles _ _, rfl, hlast.table, ?_, ?_⟩
  · obtain ⟨fs, hfs, hfs'⟩ := hlast.found_eq hexact.lossy
    rw [hfs, hfs']
    exact (hfound hbefore).append_right fs
  · change m.scope ∘ e.scope = _
    rw [hid, hscope, Function.id_comp]
  · exact functionScopes_extends hscopesf h0 (Nat.le_trans (Nat.le_add_right _ _) hle) hroottwo
      hlastgrows.table
  · exact functionScopes_extends hscopesg (Nat.lt_of_lt_of_le h0 (Nat.le_add_right _ _)) hle
      hroottwo hlastgrows.table

end

end Analysis

open Analysis

/-! ### Programs -/

/-- **What the tables of two programs have in common** that differ in the order of two functions:
the names of the whole program stand for the same, and all scopes and symbols correspond, but the
two functions have changed places among the names and among the scopes. -/
structure Table.Exchanged (f g : Text) (t t' : Table) : Prop where
  global : ∀ x, t'.global? x = t.global? x
  scopes : t'.scopes.length = t.scopes.length
  symbols : t'.symbols.length = t.symbols.length
  corresponds : ∃ (n a b : Nat) (m : Renaming), m.Exact ∧ m.scope = exchange n a b ∧
    m.swapped = [f, g] ∧ m.Tables t t' ∧ t.FunctionScopes f n a ∧ t.FunctionScopes g (n + a) b

namespace Analyzer

/-- **The order of neighbouring functions with written types does not matter.** -/
theorem analyze_exchanged (options : Options) (before after : Program) {f g : FnHead}
    (hf : f.result.isSome) (hg : g.result.isSome) (hne : f.name.name ≠ g.name.name)
    (bf bg : Option Token) (ssf ssg : List Stmt) :
    let r := (new options).analyze (some (before ++ .fn f bf ssf :: .fn g bg ssg :: after))
    let r' := (new options).analyze (some (before ++ .fn g bg ssg :: .fn f bf ssf :: after))
    r.1.diagnostics.Perm r'.1.diagnostics ∧
      r.2.table.Exchanged f.name.name g.name.name r'.2.table := by
  intro r r'
  obtain ⟨tf, htf⟩ := Option.isSome_iff_exists.mp hf
  obtain ⟨tg, htg⟩ := Option.isSome_iff_exists.mp hg
  let p : Program := before ++ .fn f bf ssf :: .fn g bg ssg :: after
  let p' : Program := before ++ .fn g bg ssg :: .fn f bf ssf :: after
  -- what the bodies assign does not depend on their order
  have hmutated : ∀ x, x ∈ [] ++ p.globalWrites ↔ x ∈ [] ++ p'.globalWrites := by
    intro x
    have hswap : p.Perm p' := (List.Perm.swap _ _ _).append_left before
    exact (hswap.flatMap_right Stmt.globalWrites).mem_iff
  have hfresh : hoistAll (topContext options ([] ++ p'.globalWrites)) startState p' =
      hoistAll (topContext options ([] ++ p.globalWrites)) startState p' :=
    hoistAll_congr (by rfl) (by rfl) p'
  -- the first pass exchanges the signatures, and the second one the bodies
  obtain ⟨m, hm, hid, hsettles, hswapped, hbefore, hfirst, hstmts⟩ :=
    hoistAll_exchange options ([] ++ p.globalWrites) htf htg hne bf bg ssf ssg before after
  have hroot := (grows_hoistAll (topContext options ([] ++ p.globalWrites)) startState
    p).table.chain_eq (scope_lt_startState options ([] ++ p.globalWrites))
  obtain ⟨hfound, n, a, b, e, he, hscope, hsettled, hnames, htables, hscopesf, hscopesg⟩ :=
    checkTops_exchange options hm hid hsettles hbefore hmutated htf htg hfirst (hroot.trans rfl)
      hstmts (admittedIn_hoistAll _ _ p)
  rw [← hfresh] at hfound htables
  refine ⟨?_, fun x => htables.global? he x, ?_, ?_, n, a, b, e, he, hscope, hnames.trans hswapped,
    htables, hscopesf, hscopesg⟩
  · exact (List.mergeSort_perm _ _).trans
      ((hfound.map Finding.diagnostic).trans (List.mergeSort_perm _ _).symm)
  · -- beyond some number nothing is renumbered, so that there are as many scopes
    refine length_eq_of_settled ⟨n + a + b, fun k hk => ?_⟩ htables.nextScope
    rw [hscope]
    exact exchange_of_le hk
  · exact length_eq_of_settled hsettled htables.nextSymbol

/-- The declaration of a global, on the first line. -/
def writtenGlobal : Stmt :=
  .letDecl ⟨.kwLet, "let", ⟨1, 1⟩⟩ ⟨⟨.ident, "x", ⟨1, 5⟩⟩, "x"⟩ none (some (.int ⟨.int, "0", ⟨1, 9⟩⟩ 0))

/-- A function without parameters that returns a number, on a line. -/
def writerHead (name : Text) (line : Int) : FnHead :=
  ⟨⟨.kwFn, "fn", ⟨line, 1⟩⟩, ⟨⟨.ident, name, ⟨line, 4⟩⟩, name⟩, [],
    some ⟨⟨.typeLiteral, "int", ⟨line, 9⟩⟩, .int⟩⟩

/-- A body that writes a number to the global and returns it. -/
def writerBody (n : Int) (written : Text) (line : Int) : List Stmt :=
  let x : Ident := ⟨⟨.ident, "x", ⟨line, 15⟩⟩, "x"⟩
  [.assign ⟨.assign, "=", ⟨line, 17⟩⟩ x (.int ⟨.int, written, ⟨line, 19⟩⟩ n),
    .ret ⟨.kwReturn, "return", ⟨line, 22⟩⟩ (some (.ident x))]

/-- Two functions that write to the same global, which is there in both orders without a known value. -/
theorem analyze_exchanged_writers :
    let f := Stmt.fn (writerHead "f" 2) none (writerBody 1 "1" 2)
    let g := Stmt.fn (writerHead "g" 3) none (writerBody 2 "2" 3)
    let r := (new ⟨true, true⟩).analyze (some ([writtenGlobal] ++ f :: g :: []))
    let r' := (new ⟨true, true⟩).analyze (some ([writtenGlobal] ++ g :: f :: []))
    (writerHead "f" 2).name.name ≠ (writerHead "g" 3).name.name ∧
      r.1.diagnostics = [] ∧
      (r.2.table.symbols.map fun s => (s.name, s.known?)) =
        ([("f", none), ("g", none), ("x", none)] : List (Text × Option Value)) ∧
      r.1.diagnostics.Perm r'.1.diagnostics ∧ r.2.table.Exchanged "f" "g" r'.2.table := by
  have hne : (writerHead "f" 2).name.name ≠ (writerHead "g" 3).name.name := by decide
  have hfound : ((new ⟨true, true⟩).analyze (some ([writtenGlobal] ++
      .fn (writerHead "f" 2) none (writerBody 1 "1" 2) ::
      .fn (writerHead "g" 3) none (writerBody 2 "2" 3) :: []))).1.diagnostics = [] := by decide +kernel
  exact ⟨hne, hfound, by decide +kernel, analyze_exchanged ⟨true, true⟩ [writtenGlobal] [] rfl rfl hne none
    none (writerBody 1 "1" 2) (writerBody 2 "2" 3)⟩

end Analyzer
end Slang
