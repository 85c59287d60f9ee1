import Slang.Proofs.Renamed.Composed

/-!
# Two bodies in either order

The bodies of two functions with written types are read one after the other. Reading a body leaves
the symbols that were there as they are, but it may mark globals and its own parameters as not known
(`Body`). In the other body all that can be seen of this are globals, whose values are not used in
functions. So each body is read in the same way after the other one, and what is made there only has
other numbers (`renamed_beside`). Whatever the order is, the two tables correspond, and the numbers
of the two bodies have changed places (`BothOrders.tables`).
-/

namespace Slang

/-! ### Numbers -/

/-- The numbers from `n` on, after `c` more were given. -/
def shift (n c k : Nat) : Nat := if k < n then k else k + c

/-- **Two neighbouring rows of numbers change places**: `a` numbers from `n` on, and `b` after
them. -/
def exchange (n a b k : Nat) : Nat :=
  if k < n then k else if k < n + a then k + b else if k < n + a + b then k - a else k

section
variable {n a b k : Nat}

/-- What was there before stays. -/
theorem shift_of_lt {c : Nat} (h : k < n) : shift n c k = k := if_pos h

/-- What is made later is moved up. -/
theorem shift_of_le {c : Nat} (h : n ≤ k) : shift n c k = k + c := if_neg (Nat.not_lt.mpr h)

/-- Nothing is moved onto something else. -/
theorem shift_injective (n c : Nat) : Function.Injective (shift n c) := by
  intro j k h
  unfold shift at h
  split at h <;> split at h <;> omega

/-- What was there before stays. -/
theorem exchange_of_lt (h : k < n) : exchange n a b k = k := if_pos h

/-- The first block comes after the second. -/
theorem exchange_of_first (h : n ≤ k) (h' : k < n + a) : exchange n a b k = k + b := by
  rw [exchange, if_neg (Nat.not_lt.mpr h), if_pos h']

/-- The second block comes first. -/
theorem exchange_of_second (h : n + a ≤ k) (h' : k < n + a + b) : exchange n a b k = k - a := by
  rw [exchange, if_neg (by omega), if_neg (Nat.not_lt.mpr h), if_pos h']

/-- What is made later stays. -/
theorem exchange_of_le (h : n + a + b ≤ k) : exchange n a b k = k := by
  rw [exchange, if_neg (by omega), if_neg (by omega), if_neg (Nat.not_lt.mpr h)]

/-- The first row comes after the second one. -/
theorem exchange_eq_shift (h : k < n + a) : exchange n a b k = shift n b k := by
  rcases Nat.lt_or_ge k n with hlt | hle
  · rw [exchange_of_lt hlt, shift_of_lt hlt]
  · rw [exchange_of_first hle h, shift_of_le hle]

/-- The second row comes where the first one was. -/
theorem exchange_shift (h : k < n + b) : exchange n a b (shift n a k) = k := by
  rcases Nat.lt_or_ge k n with hlt | hle
  · rw [shift_of_lt hlt, exchange_of_lt hlt]
  · rw [shift_of_le hle, exchange_of_second (by omega) (by omega), Nat.add_sub_cancel]

/-- Two blocks that change places twice stay. -/
theorem exchange_exchange (n a b k : Nat) : exchange n b a (exchange n a b k) = k := by
  rcases Nat.lt_or_ge k (n + a) with hfirst | hrest
  · rw [exchange_eq_shift hfirst, exchange_shift hfirst]
  · rcases Nat.lt_or_ge k (n + a + b) with hsecond | hle
    · rw [exchange_of_second hrest hsecond, exchange_of_first (by omega) (by omega)]
      omega
    · rw [exchange_of_le hle, exchange_of_le (by omega)]

/-- Nothing is moved onto something else. -/
theorem exchange_injective (n a b : Nat) : Function.Injective (exchange n a b) :=
  Function.LeftInverse.injective (exchange_exchange n a b)

end

namespace Analysis

/-! ### Bodies -/

/-- **What reading a function with a written type does to a table**: there are some scopes more, the
first of which is that of the function. -/
structure Body (name : Text) (params : List SymbolId) (t t' : Table) : Prop where
  aside : Aside t.scopes.length params t t'
  scope_eq : ∀ i, i < t.scopes.length → t'.scope? i = t.scope? i
  scopes_le : t.scopes.length ≤ t'.scopes.length
  first : ∀ s, t'.scope? t.scopes.length = some s → s.name = name ∧ s.outer = [globalScope]

/-- The parameters of a signature. -/
def signatureParams (signature : Option Symbol) : List SymbolId :=
  ((signature.map Symbol.params).getD []).map (·.id)

/-- The parameters of a signature are symbols of the table. -/
theorem AdmittedIn.lt_of_mem {n : Nat} {s : Stmt} {signature : Option Symbol}
    (h : AdmittedIn n (s, signature)) {k : SymbolId} (hk : k ∈ signatureParams signature) :
    k < n := by
  unfold signatureParams at hk
  cases signature with
  | none => cases hk
  | some x =>
    obtain ⟨p, hp, rfl⟩ := List.mem_map.mp hk
    exact (h x rfl).params p hp

/-- A body that is not read leaves everything. -/
theorem Body.refl (name : Text) (params : List SymbolId) {t : Table} (h : t.Valid) :
    Body name params t t where
  aside := .refl h params
  scope_eq := fun _ _ => rfl
  scopes_le := Nat.le_refl _
  first := fun _ hs => absurd (Table.scope?_lt hs) (Nat.lt_irrefl _)

/-- The scopes around an old scope stay. -/
theorem Body.chain_eq {name : Text} {params : List SymbolId} {t t' : Table}
    (h : Body name params t t') {i : ScopeId} (hi : i < t.scopes.length) :
    t'.chain i = t.chain i := by
  unfold Table.chain
  rw [h.scope_eq i hi]

/-- The names of the whole program are left alone. -/
theorem Body.findIn?_eq {name : Text} {params : List SymbolId} {t t' : Table}
    (h : Body name params t t') (h0 : globalScope < t.scopes.length) (x : Text) :
    t'.findIn? globalScope x = t.findIn? globalScope x := by
  unfold Table.findIn?
  rw [h.scope_eq globalScope h0]

section
variable {ctx : Context} {st : State} {head : FnHead} {type : TypeNode}

/-- **Functions with a written type are read aside.** -/
theorem body_checkTop (hv : st.table.Valid) (hglobal : ctx.global = globalScope)
    (hscope : ctx.scope = globalScope) (hroot : st.table.chain globalScope = [globalScope])
    (htype : head.result = some type) (brace : Option Token) (body : List Stmt)
    (signature : Option Symbol) :
    Body head.name.name (signatureParams signature) st.table
      (checkTop ctx st (.fn head brace body, signature)).table := by
  have h0 : globalScope < st.table.scopes.length :=
    Table.lt_of_mem_chain (hroot ▸ List.mem_singleton_self _)
  have hsc : ctx.scope < st.table.scopes.length := hscope ▸ h0
  cases signature with
  | none =>
    rw [checkTop_unsigned ctx st htype]
    exact .refl _ _ hv
  | some s =>
    -- what follows the body is a report at most
    have htable : (checkTop ctx st (.fn head brace body, some s)).table =
        (checkBody ctx head (some type.ty) s.params body st).table := by
      rw [checkTop_declared ctx st htype]
      unfold checkDeclared
      dsimp only
      split <;> rfl
    have hextends := extends_checkBody ctx st head (some type.ty) s.params body
    have hlen := Table.length_addScope st.table (some ctx.scope) head.name.name
    obtain ⟨n, hself⟩ := Table.scope?_addScope_self st.table ctx.scope head.name.name
    obtain ⟨x, hx, houter, hname⟩ := hextends.outer_eq _ hself
    rw [htable]
    refine ⟨aside_checkBody hv hglobal hscope hsc head (some type.ty) s.params body,
      fun i hi => ?_, ?_, fun y hy => ?_⟩
    · rw [hextends.scope_eq i (hlen ▸ Nat.lt_succ_of_lt hi) (Nat.ne_of_lt hi),
        Table.scope?_addScope_of_lt _ _ hi]
    · have hle := hextends.scopes_le
      rw [hlen] at hle
      exact Nat.le_of_succ_le hle
    · obtain rfl := Option.some.inj (hx.symm.trans hy)
      rw [hname, houter, hscope]
      exact ⟨rfl, hroot⟩

end

/-! ### One body after another -/

/-- What is known of the value of a symbol. -/
def knownIn (t : Table) (k : SymbolId) : Option Value := (t.symbol? k).bind Symbol.known?

/-- **A run from `t`, and the same run from `u`**, which is `t` after a body was read: of what that
body made nothing is seen, and what it marked as not known is hidden. -/
def beside (t u : Table) (h0 : globalScope < t.scopes.length) (found found' : List Finding) :
    Renaming where
  scope := shift t.scopes.length (u.scopes.length - t.scopes.length)
  symbol := shift t.symbols.length (u.symbols.length - t.symbols.length)
  swapped := []
  lossy := false
  shown := fun k => (knownIn t k).isNone || (knownIn u k).isSome
  base := t.scopes.length
  before := found
  before' := found'
  scope_injective := shift_injective _ _
  symbol_injective := shift_injective _ _
  scope_global := shift_of_lt h0
  nodup_swapped := List.nodup_nil

/-- What a table knows of a symbol it has. -/
theorem knownIn_of_symbol? {t : Table} {k : SymbolId} {s : Symbol} (h : t.symbol? k = some s) :
    knownIn t k = s.known? := by
  rw [knownIn, h, Option.bind_some]

/-- A table knows nothing of a symbol it does not have. -/
theorem knownIn_of_le {t : Table} {k : SymbolId} (h : t.symbols.length ≤ k) :
    knownIn t k = none := by
  have hnone : t.symbol? k = none := List.getElem?_eq_none h
  rw [knownIn, hnone, Option.bind_none]

/-- A value that was forgotten is not known. -/
theorem known?_setCalculated (s : Symbol) : (s.setCalculated false).known? = none := by
  unfold Symbol.setCalculated Symbol.known?
  cases hc : s.content with
  | «variable» v c => rfl
  | function ps result => simp [hc]

/-- Where nothing is known, nothing changes. -/
theorem setCalculated_of_unknown {s : Symbol} (h : s.known? = none) :
    s.setCalculated false = s := by
  obtain ⟨name, line, inferred, augmented, content⟩ := s
  cases content with
  | «variable» v c =>
    cases c with
    | true => cases h
    | false => rfl
  | function ps result => rfl

/-- The two symbols that a body may leave are told apart by what is known of them. -/
theorem eq_of_known? {x s s' : Symbol} (hs : s = x ∨ s = x.setCalculated false)
    (hs' : s' = x ∨ s' = x.setCalculated false) (h : s.known?.isSome = s'.known?.isSome) :
    s' = s := by
  rcases hs with rfl | rfl <;> rcases hs' with rfl | rfl
  · rfl
  · rw [known?_setCalculated, Option.isSome_none, Option.isSome_eq_false_iff,
      Option.isNone_iff_eq_none] at h
    exact setCalculated_of_unknown h
  · rw [known?_setCalculated, Option.isSome_none, eq_comm, Option.isSome_eq_false_iff,
      Option.isNone_iff_eq_none] at h
    exact (setCalculated_of_unknown h).symm
  · rfl

section
variable {name : Text} {params : List SymbolId} {t u : Table} {h0 : globalScope < t.scopes.length}
  {found found' : List Finding}

/-- Of what was there, a renaming with more numbers leaves all but what is hidden. -/
theorem symbols_beside (ht : t.Regular) (hbody : Body name params t u) {k : SymbolId} {s : Symbol}
    (hs : t.symbol? k = some s) :
    ∃ s', u.symbol? k = some s' ∧ (beside t u h0 found found').Symbols k s s' := by
  have hparams : ∀ p ∈ s.params, (beside t u h0 found found').symbol p.id = p.id :=
    fun p hp => shift_of_lt (ht.closed.params k s hs p hp)
  have haugmented : s.augmented = s.name ∨ ∃ i, (beside t u h0 found found').scope i = i ∧
      s.augmented = s.name ++ "_" ++ Text.ofNat i :=
    (ht.closed.augmented k s hs).imp_right fun ⟨i, hi, heq⟩ => ⟨i, shift_of_lt hi, heq⟩
  -- the body leaves the symbol, or forgets its value; only the second hides something
  rcases hbody.aside.kept k s hs with hsame | ⟨-, hcleared⟩
  · refine ⟨s, hsame, .self ?_ haugmented hparams⟩
    change ((knownIn t k).isNone || (knownIn u k).isSome) = true
    rw [knownIn_of_symbol? hs, knownIn_of_symbol? hsame]
    cases s.known? <;> rfl
  · refine ⟨_, hcleared, ?_⟩
    cases hknown : s.known? with
    | none =>
      rw [setCalculated_of_unknown hknown]
      refine .self ?_ haugmented hparams
      change ((knownIn t k).isNone || (knownIn u k).isSome) = true
      rw [knownIn_of_symbol? hs, hknown]
      rfl
    | some v =>
      have hhidden : (beside t u h0 found found').shown k = false := by
        change ((knownIn t k).isNone || (knownIn u k).isSome) = false
        rw [knownIn_of_symbol? hs, hknown, knownIn_of_symbol? hcleared, known?_setCalculated]
        rfl
      have hnumbered : (beside t u h0 found found').Augmented s s := by
        rcases haugmented with h | ⟨i, hi, h⟩
        · exact .inl ⟨h, h⟩
        · exact .inr ⟨i, h, by rw [hi]; exact h⟩
      unfold Symbol.known? at hknown
      unfold Symbol.setCalculated
      split at hknown
      · next w hc =>
        rw [hc]
        refine ⟨rfl, rfl, rfl, hnumbered, ?_⟩
        rw [hc]
        exact .variable rfl (fun h => nomatch h) fun _ => ⟨rfl, by rw [hhidden]; rfl⟩
      · cases hknown

/-- **A table before and after a body of another function**: nothing has changed places, and the values
that the body has forgotten are hidden. -/
theorem tables_beside (ht : t.Regular) (hu : u.Regular) (hbody : Body name params t u) :
    (beside t u h0 found found').Tables t u where
  scopes := by
    intro i s hs
    have hi := Table.scope?_lt hs
    have hscope : (beside t u h0 found found').scope i = i := shift_of_lt hi
    have hnumber := ht.number i s hs
    refine ⟨s, ?_, hnumber, hnumber.trans hscope.symm, rfl, ?_, .self fun b hb => ?_⟩
    · rw [hscope, hbody.scope_eq i hi]
      exact hs
    · refine ((List.map_congr_left fun o ho => ?_).trans (List.map_id _)).symm
      exact shift_of_lt (Nat.lt_trans (ht.valid.outer_lt i s hs o ho) hi)
    · obtain ⟨x, hx, -⟩ := ht.valid.bound i s hs b hb
      exact shift_of_lt (Table.symbol?_lt hx)
  symbols := by
    intro k s hs
    have hsymbol : (beside t u h0 found found').symbol k = k := shift_of_lt (Table.symbol?_lt hs)
    rw [hsymbol]
    exact symbols_beside ht hbody hs
  nextScope := by
    intro n
    -- what is made next is moved up by the scopes of the body
    have hle := hbody.scopes_le
    refine (shift_of_le (Nat.le_add_right _ _)).trans ?_
    omega
  nextSymbol := by
    intro n
    have hle := hbody.aside.length
    refine (shift_of_le (Nat.le_add_right _ _)).trans ?_
    omega
  tree := ht.tree
  tree' := hu.tree
  valid := ht.valid
  closed := ht.closed
  confined := .start t fun k hk => by
    change ((knownIn t k).isNone || (knownIn u k).isSome) = true
    rw [knownIn_of_le hk]
    rfl

end

/-- **A body is read in the same way after another one.** -/
theorem renamed_beside {ctx : Context} {st u : State} (hglobal : ctx.global = globalScope)
    (hscope : ctx.scope = globalScope) (hfn : ctx.fn = none)
    (h0 : globalScope < st.table.scopes.length) (hst : st.table.Regular) (hu : u.table.Regular)
    {name : Text} {params : List SymbolId} (hbody : Body name params st.table u.table)
    {head : FnHead} {type : TypeNode} (htype : head.result = some type) (brace : Option Token)
    (body : List Stmt) {signature : Option Symbol}
    (hadmitted : AdmittedIn st.table.symbols.length (.fn head brace body, signature))
    (hapart : ∀ k ∈ signatureParams signature, k ∉ params) :
    (beside st.table u.table h0 st.found u.found).States false
      (checkTop ctx st (.fn head brace body, signature))
      (checkTop ctx u (.fn head brace body, signature)) := by
  have hstates : (beside st.table u.table h0 st.found u.found).States false st u :=
    (tables_beside hst hu hbody).states rfl rfl
  cases signature with
  | none =>
    rw [checkTop_unsigned ctx st htype, checkTop_unsigned ctx u htype]
    exact hstates
  | some s =>
    have hs : s.Admitted st.table.symbols.length := hadmitted s rfl
    -- the top level is the same on both sides
    have hctx : (beside st.table u.table h0 st.found u.found).Contexts ctx ctx := by
      refine ⟨rfl, hglobal, hglobal, ?_, by rw [hfn]; rfl, fun _ hx => hx, fun _ _ hx => hx⟩
      rw [hscope]
      exact (shift_of_lt h0).symm
    have hmap : s.params.map (beside st.table u.table h0 st.found u.found).param = s.params :=
      Renaming.map_param_self fun p hp => shift_of_lt (hs.params p hp)
    -- a parameter keeps its value, as the body before assigns only globals and its own parameters
    have hparams : ∀ p ∈ s.params,
        (beside st.table u.table h0 st.found u.found).shown p.id = true ∨
          ∃ x, st.table.findIn? globalScope x = some p.id := by
      intro p hp
      obtain ⟨y, hy⟩ : ∃ y, st.table.symbol? p.id = some y :=
        ⟨_, List.getElem?_eq_getElem (hs.params p hp)⟩
      rcases hbody.aside.kept p.id y hy with hsame | ⟨hparam | ⟨x, hx⟩, -⟩
      · refine .inl ?_
        change ((knownIn st.table p.id).isNone || (knownIn u.table p.id).isSome) = true
        rw [knownIn_of_symbol? hy, knownIn_of_symbol? hsame]
        cases y.known? <;> rfl
      · exact absurd hparam (hapart p.id (List.mem_map_of_mem hp))
      · exact .inr ⟨x, (hbody.findIn?_eq h0 x).symm.trans hx⟩
    have hchecked := renamed_checkDeclared hctx (hscope ▸ h0) (.inr ⟨hscope, rfl⟩) head s.params
      type.ty hparams body hstates
    rw [hmap] at hchecked
    rw [checkTop_declared ctx st htype, checkTop_declared ctx u htype]
    exact hchecked.leave

/-! ### Both orders -/

/-- **The tables of two orders**: the numbers of the two bodies have changed places. -/
def exchanged (t u w : Table) (h0 : globalScope < t.scopes.length) (found found' : List Finding) :
    Renaming where
  scope := exchange t.scopes.length (u.scopes.length - t.scopes.length)
    (w.scopes.length - t.scopes.length)
  symbol := exchange t.symbols.length (u.symbols.length - t.symbols.length)
    (w.symbols.length - t.symbols.length)
  swapped := []
  lossy := false
  shown := fun _ => true
  base := globalScope
  before := found
  before' := found'
  scope_injective := exchange_injective _ _ _
  symbol_injective := exchange_injective _ _ _
  scope_global := exchange_of_lt h0
  nodup_swapped := List.nodup_nil

/-- Nothing is lost when two bodies change places. -/
theorem exact_exchanged (t u w : Table) (h0 : globalScope < t.scopes.length)
    (found found' : List Finding) : (exchanged t u w h0 found found').Exact :=
  ⟨rfl, fun _ => rfl, rfl⟩

/-- A body does the same to a symbol of which nothing can be seen in it. -/
theorem Body.symbol?_eq {name : Text} {params : List SymbolId} {t u v : Table} {k : SymbolId}
    {s : Symbol} (h : Body name params u v) (ht : t.Valid) (h0 : globalScope < u.scopes.length)
    (hnames : ∀ x, u.findIn? globalScope x = t.findIn? globalScope x)
    (hparams : ∀ j ∈ params, j < t.symbols.length) (hk : t.symbols.length ≤ k)
    (hs : u.symbol? k = some s) : v.symbol? k = some s := by
  rcases h.aside.kept k s hs with hsame | ⟨hparam | ⟨x, hx⟩, -⟩
  · exact hsame
  · exact absurd (hparams k hparam) (Nat.not_lt.mpr hk)
  · rw [h.findIn?_eq h0, hnames] at hx
    obtain ⟨y, hy, -⟩ := ht.symbol_of_findIn? hx
    exact absurd (Table.symbol?_lt hy) (Nat.not_lt.mpr hk)

/-- A body makes nothing known of an old symbol. -/
theorem Body.known_before {name : Text} {params : List SymbolId} {t u : Table}
    (h : Body name params t u) {k : SymbolId} {x : Symbol} (hx : t.symbol? k = some x)
    (hknown : (knownIn u k).isSome = true) : (knownIn t k).isSome = true := by
  rcases h.aside.kept k x hx with hsame | ⟨-, hcleared⟩
  · rwa [knownIn_of_symbol? hx, ← knownIn_of_symbol? hsame]
  · rw [knownIn_of_symbol? hcleared, known?_setCalculated] at hknown
    cases hknown

/-- **Two bodies, read in either order.** Reading the first one takes `t` to `u`, and `w` to `wu`;
reading the second one takes `t` to `w`, and `u` to `uw`. -/
structure BothOrders (t u w uw wu : Table) (h0 : globalScope < t.scopes.length) : Prop where
  regular : t.Regular
  regular_left : u.Regular
  regular_right : w.Regular
  regular_left' : uw.Regular
  regular_right' : wu.Regular
  first : ∃ name ps, Body name ps t u ∧ Body name ps w wu ∧ ∀ k ∈ ps, k < t.symbols.length
  second : ∃ name qs, Body name qs t w ∧ Body name qs u uw ∧ ∀ k ∈ qs, k < t.symbols.length
  /-- Each of them is read in the same way after the other one. -/
  right : ∃ found found', (beside t u h0 found found').Tables w uw
  left : ∃ found found', (beside t w h0 found found').Tables u wu

namespace BothOrders

variable {t u w uw wu : Table} {h0 : globalScope < t.scopes.length}

/-- The other order first. -/
theorem symm (h : BothOrders t u w uw wu h0) : BothOrders t w u wu uw h0 where
  regular := h.regular
  regular_left := h.regular_right
  regular_right := h.regular_left
  regular_left' := h.regular_right'
  regular_right' := h.regular_left'
  first := h.second
  second := h.first
  right := h.left
  left := h.right

/-- No scope is dropped. -/
theorem scopes_le (h : BothOrders t u w uw wu h0) :
    t.scopes.length ≤ u.scopes.length ∧ t.scopes.length ≤ w.scopes.length := by
  obtain ⟨_, _, hfirst, -⟩ := h.first
  obtain ⟨_, _, hsecond, -⟩ := h.second
  exact ⟨hfirst.scopes_le, hsecond.scopes_le⟩

/-- No symbol is dropped. -/
theorem symbols_le (h : BothOrders t u w uw wu h0) :
    t.symbols.length ≤ u.symbols.length ∧ t.symbols.length ≤ w.symbols.length := by
  obtain ⟨_, _, hfirst, -⟩ := h.first
  obtain ⟨_, _, hsecond, -⟩ := h.second
  exact ⟨hfirst.aside.length, hsecond.aside.length⟩

/-- Both bodies together make as many scopes as each makes alone. -/
theorem length_scopes (h : BothOrders t u w uw wu h0) :
    uw.scopes.length + t.scopes.length = u.scopes.length + w.scopes.length := by
  obtain ⟨hu, hw⟩ := h.scopes_le
  obtain ⟨_, _, hright⟩ := h.right
  have hnext := hright.nextScope 0
  change shift _ _ _ = _ at hnext
  rw [shift_of_le (by omega)] at hnext
  omega

/-- Both bodies together make as many symbols as each makes alone. -/
theorem length_symbols (h : BothOrders t u w uw wu h0) :
    uw.symbols.length + t.symbols.length = u.symbols.length + w.symbols.length := by
  obtain ⟨hu, hw⟩ := h.symbols_le
  obtain ⟨_, _, hright⟩ := h.right
  have hnext := hright.nextSymbol 0
  change shift _ _ _ = _ at hnext
  rw [shift_of_le (by omega)] at hnext
  omega

/-- The old scopes are the same in both tables. -/
theorem scope?_old (h : BothOrders t u w uw wu h0) {i : ScopeId} (hi : i < t.scopes.length) :
    uw.scope? i = t.scope? i := by
  obtain ⟨hu, -⟩ := h.scopes_le
  obtain ⟨_, _, hfirst, -⟩ := h.first
  obtain ⟨_, _, -, hsecond, -⟩ := h.second
  rw [hsecond.scope_eq i (Nat.lt_of_lt_of_le hi hu), hfirst.scope_eq i hi]

/-- The scopes of the first body are left alone by the second one. -/
theorem scope?_first (h : BothOrders t u w uw wu h0) {i : ScopeId} (hi : i < u.scopes.length) :
    uw.scope? i = u.scope? i := by
  obtain ⟨_, _, -, hsecond, -⟩ := h.second
  exact hsecond.scope_eq i hi

/-- The names of the whole program are left alone. -/
theorem findIn?_eq (h : BothOrders t u w uw wu h0) (x : Text) :
    u.findIn? globalScope x = t.findIn? globalScope x := by
  obtain ⟨_, _, hfirst, -⟩ := h.first
  exact hfirst.findIn?_eq h0 x

/-- What was made by the first body is left alone by the second one. -/
theorem symbol?_first (h : BothOrders t u w uw wu h0) {k : SymbolId} (hk : t.symbols.length ≤ k)
    {s : Symbol} (hs : u.symbol? k = some s) : uw.symbol? k = some s := by
  obtain ⟨hu, -⟩ := h.scopes_le
  obtain ⟨_, qs, -, hsecond, hqs⟩ := h.second
  exact hsecond.symbol?_eq h.regular.valid (Nat.lt_of_lt_of_le h0 hu) h.findIn?_eq hqs hk hs

/-- An old symbol may be marked as not known. -/
theorem symbol?_old (h : BothOrders t u w uw wu h0) {k : SymbolId} {x : Symbol}
    (hx : t.symbol? k = some x) :
    ∃ s, uw.symbol? k = some s ∧ (s = x ∨ s = x.setCalculated false) ∧
      s.known?.isSome = ((knownIn w k).isSome &&
        ((knownIn t k).isNone || (knownIn u k).isSome)) := by
  have hk := Table.symbol?_lt hx
  obtain ⟨_, _, hfirst, -⟩ := h.first
  obtain ⟨_, _, hsecond, hsecond', -⟩ := h.second
  obtain ⟨found, found', hright⟩ := h.right
  obtain ⟨y, hy⟩ : ∃ y, w.symbol? k = some y :=
    ⟨_, List.getElem?_eq_getElem (Nat.lt_of_lt_of_le hk h.symbols_le.2)⟩
  obtain ⟨s, hs, hsymbol⟩ := hright.symbols k y hy
  have hsame : (beside t u h0 found found').symbol k = k := shift_of_lt hk
  rw [hsame] at hs
  refine ⟨s, hs, ?_, ?_⟩
  · -- each of the bodies leaves the symbol or forgets its value
    rcases hfirst.aside.kept k x hx with hz | ⟨-, hz⟩ <;>
      rcases hsecond'.aside.kept k _ hz with hs' | ⟨-, hs'⟩ <;>
        obtain rfl := Option.some.inj (hs.symm.trans hs')
    · exact .inl rfl
    · exact .inr rfl
    · exact .inr rfl
    · exact .inr (Symbol.setCalculated_setCalculated x false false)
  · rw [knownIn_of_symbol? hy, hsymbol.known?_isSome rfl]
    rfl

/-- **An old symbol is the same in both tables.** -/
theorem symbol?_both (h : BothOrders t u w uw wu h0) {k : SymbolId} {x : Symbol}
    (hx : t.symbol? k = some x) :
    ∃ s, uw.symbol? k = some s ∧ wu.symbol? k = some s ∧ (s = x ∨ s = x.setCalculated false) := by
  obtain ⟨s, hs, hcases, hknown⟩ := h.symbol?_old hx
  obtain ⟨s', hs', hcases', hknown'⟩ := h.symm.symbol?_old hx
  refine ⟨s, hs, ?_, hcases⟩
  suffices heq : s' = s by rwa [heq] at hs'
  refine eq_of_known? hcases hcases' ?_
  -- a body makes nothing known
  have hfirst : (knownIn u k).isSome = true → (knownIn t k).isSome = true := by
    obtain ⟨_, _, hbody, -⟩ := h.first
    exact hbody.known_before hx
  have hsecond : (knownIn w k).isSome = true → (knownIn t k).isSome = true := by
    obtain ⟨_, _, hbody, -⟩ := h.second
    exact hbody.known_before hx
  rw [hknown, hknown']
  cases hu : knownIn u k <;> cases hw : knownIn w k <;> cases ht : knownIn t k <;> simp_all

/-- What is new is never hidden. -/
theorem shown_beside {t u : Table} (h0 : globalScope < t.scopes.length) (g g' : List Finding)
    {k : SymbolId} (hk : t.symbols.length ≤ k) : (beside t u h0 g g').shown k = true := by
  change ((knownIn t k).isNone || (knownIn u k).isSome) = true
  rw [knownIn_of_le hk]
  rfl

/-- The first body is read in the same way after the second one, in terms of both orders. -/
theorem exchanged_of_lt (h : BothOrders t u w uw wu h0) (found found' g g' : List Finding) :
    (∀ i, i < u.scopes.length →
      (exchanged t u w h0 found found').scope i = (beside t w h0 g g').scope i) ∧
      ∀ k, k < u.symbols.length →
        (exchanged t u w h0 found found').symbol k = (beside t w h0 g g').symbol k := by
  obtain ⟨hu, -⟩ := h.scopes_le
  obtain ⟨hu', -⟩ := h.symbols_le
  exact ⟨fun i hi => exchange_eq_shift (by omega), fun k hk => exchange_eq_shift (by omega)⟩

/-- What the second body made after the first one, it makes without it as well. -/
theorem exchanged_beside (h : BothOrders t u w uw wu h0) (found found' g g' : List Finding) :
    (∀ i, i < w.scopes.length →
      (exchanged t u w h0 found found').scope ((beside t u h0 g g').scope i) = i) ∧
      ∀ k, k < w.symbols.length →
        (exchanged t u w h0 found found').symbol ((beside t u h0 g g').symbol k) = k := by
  obtain ⟨-, hw⟩ := h.scopes_le
  obtain ⟨-, hw'⟩ := h.symbols_le
  exact ⟨fun i hi => exchange_shift (by omega), fun k hk => exchange_shift (by omega)⟩

section
variable (found found' : List Finding)

/-- The scopes of one order, with their numbers in the other one. -/
theorem scopes (h : BothOrders t u w uw wu h0) {i : Nat} {s : Scope}
    (hs : uw.scope? i = some s) :
    ∃ s', wu.scope? ((exchanged t u w h0 found found').scope i) = some s' ∧
      (exchanged t u w h0 found found').Scopes i s s' := by
  have hi : i < uw.scopes.length := Table.scope?_lt hs
  obtain ⟨hu, hw⟩ := h.scopes_le
  have hlen := h.length_scopes
  -- names belong to symbols of the same table
  have hnames : ∀ {v : Table} {j : ScopeId} {x : Scope}, v.Regular → v.scope? j = some x →
      ∀ b ∈ x.names, b.2 < v.symbols.length := by
    intro v j x hv hx b hb
    obtain ⟨y, hy, -⟩ := hv.valid.bound j x hx b hb
    exact Table.symbol?_lt hy
  rcases Nat.lt_or_ge i t.scopes.length with hold | hnew
  · -- an old scope
    have hscope : (exchanged t u w h0 found found').scope i = i := exchange_of_lt hold
    have ht : t.scope? i = some s := (h.scope?_old hold).symm.trans hs
    have hnumber := h.regular.number i s ht
    refine ⟨s, ?_, hnumber, hnumber.trans hscope.symm, rfl, ?_, .self fun b hb => ?_⟩
    · rw [hscope, h.symm.scope?_old hold]
      exact ht
    · refine ((List.map_congr_left fun o ho => ?_).trans (List.map_id _)).symm
      exact exchange_of_lt (Nat.lt_trans (h.regular.valid.outer_lt i s ht o ho) hold)
    · exact exchange_of_lt (hnames h.regular ht b hb)
  · rcases Nat.lt_or_ge i u.scopes.length with hfirst | hsecond
    · -- a scope of the first body
      have hne : i ≠ globalScope := Nat.ne_of_gt (Nat.lt_of_lt_of_le h0 hnew)
      obtain ⟨g, g', hleft⟩ := h.left
      obtain ⟨hscope, hsymbol⟩ := h.exchanged_of_lt found found' g g'
      have hx : u.scope? i = some s := (h.scope?_first hfirst).symm.trans hs
      have houter := h.regular_left.valid.outer_lt i s hx
      obtain ⟨s', hs', hscopes⟩ := hleft.scopes i s hx
      rw [hscope i hfirst]
      exact ⟨s', hs', hscopes.congr hne (hscope i hfirst)
        (fun o ho => hscope o (Nat.lt_trans (houter o ho) hfirst))
        fun b hb => hsymbol _ (hnames h.regular_left hx b hb)⟩
    · -- a scope of the second body, which has another number where it is read alone
      obtain ⟨j, hj, hlt, hle⟩ : ∃ j : Nat, i = j + (u.scopes.length - t.scopes.length) ∧
          j < w.scopes.length ∧ t.scopes.length ≤ j := by
        obtain ⟨d, rfl⟩ := Nat.exists_eq_add_of_le hsecond
        exact ⟨t.scopes.length + d, by omega, by omega, Nat.le_add_right _ _⟩
      have hne : j ≠ globalScope := Nat.ne_of_gt (Nat.lt_of_lt_of_le h0 hle)
      obtain ⟨g, g', hright⟩ := h.right
      obtain ⟨hscope, hsymbol⟩ := h.exchanged_beside found found' g g'
      have hij : i = (beside t u h0 g g').scope j := hj.trans (shift_of_le hle).symm
      obtain ⟨x, hx⟩ := Table.exists_scope? hlt
      have houter := h.regular_right.valid.outer_lt j x hx
      obtain ⟨s₁, hs₁, hscopes⟩ := hright.scopes j x hx
      rw [hij] at hs ⊢
      obtain rfl := Option.some.inj (hs₁.symm.trans hs)
      rw [hscope j hlt]
      exact ⟨x, (h.symm.scope?_first hlt).trans hx, hscopes.inverse hne (hscope j hlt)
        (fun o ho => hscope o (Nat.lt_trans (houter o ho) hlt))
        fun b hb => hsymbol _ (hnames h.regular_right hx b hb)⟩

/-- The symbols of one order, with their numbers in the other one. -/
theorem symbols (h : BothOrders t u w uw wu h0) {k : Nat} {s : Symbol}
    (hs : uw.symbol? k = some s) :
    ∃ s', wu.symbol? ((exchanged t u w h0 found found').symbol k) = some s' ∧
      (exchanged t u w h0 found found').Symbols k s s' := by
  have hk : k < uw.symbols.length := Table.symbol?_lt hs
  obtain ⟨hu, hw⟩ := h.symbols_le
  have hlen := h.length_symbols
  rcases Nat.lt_or_ge k t.symbols.length with hold | hnew
  · -- an old symbol
    have hsymbol : (exchanged t u w h0 found found').symbol k = k := exchange_of_lt hold
    obtain ⟨x, hx⟩ : ∃ x, t.symbol? k = some x := ⟨_, List.getElem?_eq_getElem hold⟩
    obtain ⟨y, hy, hy', hcases⟩ := h.symbol?_both hx
    obtain rfl := Option.some.inj (hy.symm.trans hs)
    have hsame : y.params = x.params ∧ y.name = x.name ∧ y.augmented = x.augmented := by
      rcases hcases with rfl | rfl
      · exact ⟨rfl, rfl, rfl⟩
      · exact params_setCalculated x false
    rw [hsymbol]
    refine ⟨y, hy', .self rfl ?_ fun p hp => ?_⟩
    · rw [hsame.2.1, hsame.2.2]
      exact (h.regular.closed.augmented k x hx).imp_right fun ⟨i, hi, heq⟩ =>
        ⟨i, exchange_of_lt hi, heq⟩
    · rw [hsame.1] at hp
      exact exchange_of_lt (h.regular.closed.params k x hx p hp)
  · rcases Nat.lt_or_ge k u.symbols.length with hfirst | hsecond
    · -- a symbol of the first body
      obtain ⟨g, g', hleft⟩ := h.left
      obtain ⟨hscope, hsymbol⟩ := h.exchanged_of_lt found found' g g'
      obtain ⟨x, hx⟩ : ∃ x, u.symbol? k = some x := ⟨_, List.getElem?_eq_getElem hfirst⟩
      obtain rfl := Option.some.inj ((h.symbol?_first hnew hx).symm.trans hs)
      obtain ⟨s', hs', hsymbols⟩ := hleft.symbols k x hx
      rw [hsymbol k hfirst]
      exact ⟨s', hs', hsymbols.congr rfl (shown_beside h0 g g' hnew) rfl
        (fun i hi => hscope i (h.regular_left.closed.lt_of_augmented hx hi))
        fun p hp => hsymbol p.id (h.regular_left.closed.params k x hx p hp)⟩
    · -- a symbol of the second body, which has another number where it is read alone
      obtain ⟨j, hj, hlt, hle⟩ : ∃ j : Nat, k = j + (u.symbols.length - t.symbols.length) ∧
          j < w.symbols.length ∧ t.symbols.length ≤ j := by
        obtain ⟨d, rfl⟩ := Nat.exists_eq_add_of_le hsecond
        exact ⟨t.symbols.length + d, by omega, by omega, Nat.le_add_right _ _⟩
      obtain ⟨g, g', hright⟩ := h.right
      obtain ⟨hscope, hsymbol⟩ := h.exchanged_beside found found' g g'
      have hkj : k = (beside t u h0 g g').symbol j := hj.trans (shift_of_le hle).symm
      obtain ⟨x, hx⟩ : ∃ x, w.symbol? j = some x := ⟨_, List.getElem?_eq_getElem hlt⟩
      obtain ⟨s₁, hs₁, hsymbols⟩ := hright.symbols j x hx
      rw [hkj] at hs ⊢
      obtain rfl := Option.some.inj (hs₁.symm.trans hs)
      rw [hsymbol j hlt]
      exact ⟨x, h.symm.symbol?_first hle hx, hsymbols.inverse rfl (shown_beside h0 g g' hle) rfl
        (fun i hi => hscope i (h.regular_right.closed.lt_of_augmented hx hi))
        fun p hp => hsymbol p.id (h.regular_right.closed.params j x hx p hp)⟩

/-- **Two bodies, read in either order**, make corresponding tables. -/
theorem tables (h : BothOrders t u w uw wu h0) :
    (exchanged t u w h0 found found').Tables uw wu where
  scopes := fun _ _ hs => h.scopes found found' hs
  symbols := fun _ _ hs => h.symbols found found' hs
  nextScope := by
    intro n
    obtain ⟨hu, hw⟩ := h.scopes_le
    have hlen := h.length_scopes
    have hlen' := h.symm.length_scopes
    -- beyond what both bodies make, nothing is moved
    refine (exchange_of_le (by omega)).trans ?_
    omega
  nextSymbol := by
    intro n
    obtain ⟨hu, hw⟩ := h.symbols_le
    have hlen := h.length_symbols
    have hlen' := h.symm.length_symbols
    refine (exchange_of_le (by omega)).trans ?_
    omega
  tree := h.regular_left'.tree
  tree' := h.regular_right'.tree
  valid := h.regular_left'.valid
  closed := h.regular_left'.closed
  confined := h.regular_left'.confined fun _ => rfl

end

end BothOrders

/-- **Two functions with written types, read in either order.** -/
theorem bothOrders_checkTop {ctx : Context} {st : State} (hglobal : ctx.global = globalScope)
    (hscope : ctx.scope = globalScope) (hfn : ctx.fn = none) (hst : st.table.Regular)
    (hroot : st.table.chain globalScope = [globalScope]) {f g : FnHead} {tf tg : TypeNode}
    (hf : f.result = some tf) (hg : g.result = some tg) (bf bg : Option Token)
    (ssf ssg : List Stmt) {sf sg : Option Symbol}
    (hsf : AdmittedIn st.table.symbols.length (.fn f bf ssf, sf))
    (hsg : AdmittedIn st.table.symbols.length (.fn g bg ssg, sg))
    (hapart : ∀ k ∈ signatureParams sf, k ∉ signatureParams sg)
    (h0 : globalScope < st.table.scopes.length) :
    let left := checkTop ctx st (.fn f bf ssf, sf)
    let right := checkTop ctx st (.fn g bg ssg, sg)
    let left' := checkTop ctx left (.fn g bg ssg, sg)
    let right' := checkTop ctx right (.fn f bf ssf, sf)
    BothOrders st.table left.table right.table left'.table right'.table h0 ∧
      left'.found.Perm right'.found := by
  intro left right left' right'
  have hsc : ctx.scope < st.table.scopes.length := hscope ▸ h0
  have hleft : left.table.Regular := regular_checkTop hglobal hfn hsc hsf hst
  have hright : right.table.Regular := regular_checkTop hglobal hfn hsc hsg hst
  have hfirst := body_checkTop hst.valid hglobal hscope hroot hf bf ssf sf
  have hsecond := body_checkTop hst.valid hglobal hscope hroot hg bg ssg sg
  have hsg' := hsg.mono hfirst.aside.length
  have hsf' := hsf.mono hsecond.aside.length
  -- each body is read once alone and once after the other
  have hstates := renamed_beside hglobal hscope hfn h0 hst hleft hfirst hg bg ssg hsg
    fun k hk hk' => hapart k hk' hk
  have hstates' := renamed_beside hglobal hscope hfn h0 hst hright hsecond hf bf ssf hsf hapart
  refine ⟨?_, ?_⟩
  · exact
      { regular := hst
        regular_left := hleft
        regular_right := hright
        regular_left' := regular_checkTop hglobal hfn (Nat.lt_of_lt_of_le hsc hfirst.scopes_le) hsg'
          hleft
        regular_right' := regular_checkTop hglobal hfn (Nat.lt_of_lt_of_le hsc hsecond.scopes_le)
          hsf' hright
        first := ⟨_, _, hfirst, body_checkTop hright.valid hglobal hscope
          ((hsecond.chain_eq h0).trans hroot) hf bf ssf sf, fun k hk => hsf.lt_of_mem hk⟩
        second := ⟨_, _, hsecond, body_checkTop hleft.valid hglobal hscope
          ((hfirst.chain_eq h0).trans hroot) hg bg ssg sg, fun k hk => hsg.lt_of_mem hk⟩
        right := ⟨_, _, hstates.table⟩
        left := ⟨_, _, hstates'.table⟩ }
  · -- both orders find the same in each body, and only the order of the two parts differs
    obtain ⟨gs, hgs, hgs'⟩ := hstates.found_eq rfl
    obtain ⟨fs, hfs, hfs'⟩ := hstates'.found_eq rfl
    have hgs : right.found = st.found ++ gs := hgs
    have hgs' : left'.found = left.found ++ gs := hgs'
    have hfs : left.found = st.found ++ fs := hfs
    have hfs' : right'.found = right.found ++ fs := hfs'
    rw [hgs', hfs', hfs, hgs, List.append_assoc, List.append_assoc]
    exact List.perm_append_comm.append_left st.found

end Analysis
end Slang
