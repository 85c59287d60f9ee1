import Slang.Proofs.Numerals
import Slang.Proofs.Renamed.Program

/-!
# One renaming after another

Where nothing is hidden and nothing is lost, the second of two runs may be the first of two others,
and the first and the last of the three correspond as well (`Renaming.Tables.trans`). A table also
corresponds to itself (`Table.Regular.tables`). So what holds of the first of two tables that
correspond holds of every table that analysis makes, and `Table.Regular` is what this comes to.
-/

namespace Slang

open Analysis

/-! ### Regular tables -/

/-- **What holds of every table that analysis makes.** -/
structure Table.Regular (t : Table) : Prop where
  valid : t.Valid
  closed : t.Closed
  tree : t.OneTree
  number : ∀ i s, t.scope? i = some s → s.number = i
  inner : ∀ i s, globalScope < i → t.scope? i = some s → globalScope ∈ s.outer

/-- The number at the end of an augmented name is that of a scope. -/
theorem Table.Closed.lt_of_augmented {t : Table} (h : t.Closed) {k : SymbolId} {s : Symbol}
    (hs : t.symbol? k = some s) {i : Nat}
    (hi : s.augmented = s.name ++ "_" ++ Text.ofNat i) : i < t.scopes.length := by
  rcases h.augmented k s hs with hplain | ⟨j, hj, hnumber⟩
  · exact absurd (hplain.symm.trans hi) (Text.ne_numbered _ _)
  · obtain ⟨-, rfl⟩ := Text.numbered_inj (hi.symm.trans hnumber)
    exact hj

/-- From the scope of the whole program on, everything is seen. -/
theorem Table.Regular.confined {t : Table} (h : t.Regular) {own : SymbolId → Prop}
    (hown : ∀ k, own k) : t.Confined globalScope own where
  outer := fun _ _ _ _ o _ => .inr (Nat.zero_le o)
  inside := h.inner
  names := fun _ _ b _ => .inl (hown b.2)
  fresh := fun k _ => hown k

namespace Analysis

/-- Nothing is hidden, and nothing is lost. -/
structure Renaming.Exact (m : Renaming) : Prop where
  lossy : m.lossy = false
  shown : ∀ k, m.shown k = true
  base : m.base = globalScope

namespace Renaming

variable {m m' : Renaming}

/-- An exact renaming hides nothing, wherever it is used. -/
theorem Exact.placed (h : m.Exact) (ctx : Context) : m.Placed ctx :=
  ⟨h.base ▸ Nat.zero_le _, fun k hk => absurd (h.shown k) (by simp [hk])⟩

/-- Where nothing is lost, both runs find the same. -/
theorem States.found_eq (hlossy : m.lossy = false) {inside : Bool} {st st' : State}
    (h : m.States inside st st') :
    ∃ fs, st.found = m.before ++ fs ∧ st'.found = m.before' ++ fs := by
  obtain ⟨fs, fs', hfs, hfs', hfound⟩ := h.found
  obtain rfl := hfound.eq fun f hf => absurd hf.1 (by simp [hlossy])
  exact ⟨_, hfs, hfs'⟩

/-- The table of a first run is regular. -/
theorem Tables.regular {t t' : Table} (h : m.Tables t t') (hm : m.Exact) : t.Regular where
  valid := h.valid
  closed := h.closed
  tree := h.tree
  number := fun i s hs => by
    obtain ⟨s', -, hscope⟩ := h.scopes i s hs
    exact hscope.number
  inner := fun i s hi hs => by
    have hinside := h.confined.inside i s
    rw [hm.base] at hinside
    exact hinside hi hs

/-! ### What a renaming leaves as it is -/

/-- Names that stay where they are. -/
theorem Names.self {i : ScopeId} {l : List (Text × SymbolId)}
    (h : ∀ b ∈ l, m.symbol b.2 = b.2) : m.Names i l l := by
  refine ⟨l, [], [], by simp, ?_, List.nil_sublist _⟩
  rw [List.reverse_nil, List.append_nil, List.append_nil]
  refine (List.map_id l).symm.trans (List.map_congr_left fun b hb => ?_)
  unfold Renaming.binding
  rw [h b hb]
  rfl

/-- Names of an inner scope only change their symbols. -/
theorem Names.eq {i : ScopeId} {l l' : List (Text × SymbolId)} (h : m.Names i l l')
    (hi : i ≠ globalScope ∨ m.swapped = []) : l' = l.map m.binding := by
  obtain ⟨before, mid, after, rfl, rfl, hmid⟩ := h
  have hnil : mid = [] := by
    refine List.map_eq_nil_iff.mp (List.sublist_nil.mp (hmid.trans ?_))
    split
    · next hglobal => rw [hi.resolve_left (not_not_intro hglobal)]
    · exact List.Sublist.refl []
  rw [hnil, List.reverse_nil]

/-- Parameters whose symbols stay are the same parameters. -/
theorem map_param_self {ps : List Param} (h : ∀ p ∈ ps, m.symbol p.id = p.id) :
    ps.map m.param = ps := by
  refine (List.map_congr_left fun p hp => ?_).trans (List.map_id ps)
  unfold Renaming.param
  rw [h p hp]
  rfl

/-- A symbol that stays as it is. -/
theorem Symbols.self {k : SymbolId} {s : Symbol} (hk : m.shown k = true)
    (haugmented : s.augmented = s.name ∨
      ∃ i, m.scope i = i ∧ s.augmented = s.name ++ "_" ++ Text.ofNat i)
    (hparams : ∀ p ∈ s.params, m.symbol p.id = p.id) : m.Symbols k s s := by
  refine ⟨rfl, rfl, rfl, ?_, ?_⟩
  · rcases haugmented with h | ⟨i, hi, h⟩
    · exact .inl ⟨h, h⟩
    · exact .inr ⟨i, h, by rw [hi]; exact h⟩
  · unfold Symbol.params at hparams
    cases hc : s.content with
    | «variable» v c => exact .variable rfl (fun h => ⟨h, rfl⟩) fun _ => ⟨rfl, by simp [hk]⟩
    | function ps result =>
      rw [hc] at hparams
      have hfunction : m.Content k (.function ps result) (.function (ps.map m.param) result) :=
        .function ps result
      rwa [map_param_self hparams] at hfunction

/-! ### Two renamings -/

/-- Renamings that do the same to a scope. -/
theorem Scopes.congr {i : ScopeId} {s s' : Scope} (h : m.Scopes i s s') (hi : i ≠ globalScope)
    (hscope : m'.scope i = m.scope i) (houter : ∀ o ∈ s.outer, m'.scope o = m.scope o)
    (hnames : ∀ b ∈ s.names, m'.symbol b.2 = m.symbol b.2) : m'.Scopes i s s' := by
  refine ⟨h.number, hscope ▸ h.number', h.name, ?_, ?_⟩
  · rw [h.outer]
    exact (List.map_congr_left houter).symm
  · refine ⟨s.names, [], [], by simp, ?_, List.nil_sublist _⟩
    rw [List.reverse_nil, List.append_nil, List.append_nil, h.names.eq (.inl hi)]
    refine List.map_congr_left fun b hb => ?_
    unfold Renaming.binding
    rw [hnames b hb]

/-- A renaming that takes back what was done to a scope. -/
theorem Scopes.inverse {i : ScopeId} {s s' : Scope} (h : m.Scopes i s s') (hi : i ≠ globalScope)
    (hscope : m'.scope (m.scope i) = i) (houter : ∀ o ∈ s.outer, m'.scope (m.scope o) = o)
    (hnames : ∀ b ∈ s.names, m'.symbol (m.symbol b.2) = b.2) : m'.Scopes (m.scope i) s' s := by
  refine ⟨h.number', h.number.trans hscope.symm, h.name.symm, ?_, ?_⟩
  · rw [h.outer, List.map_map]
    exact ((List.map_congr_left houter).trans (List.map_id _)).symm
  · refine ⟨s'.names, [], [], by simp, ?_, List.nil_sublist _⟩
    rw [List.reverse_nil, List.append_nil, List.append_nil, h.names.eq (.inl hi), List.map_map]
    refine ((List.map_congr_left fun b hb => ?_).trans (List.map_id _)).symm
    simp only [Function.comp_apply, Renaming.binding, hnames b hb]
    rfl

/-- What an exact renaming does to a symbol that is shown. -/
theorem Symbols.content_eq {k : SymbolId} {s s' : Symbol} (h : m.Symbols k s s')
    (hlossy : m.lossy = false) (hk : m.shown k = true) :
    (∃ v c, s.content = .variable v c ∧ s'.content = .variable v c) ∨
      ∃ ps result, s.content = .function ps result ∧
        s'.content = .function (ps.map m.param) result := by
  rcases h.cases with ⟨v, c, v', c', hc, hc', -, -, hsame⟩ | hfunction
  · obtain ⟨rfl, rfl⟩ := hsame hlossy
    rw [hk, Bool.and_true] at hc'
    exact .inl ⟨v', c, hc, hc'⟩
  · exact .inr hfunction

/-- What is known of a symbol in the second run is known in the first one, and it is shown. -/
theorem Symbols.known?_isSome {k : SymbolId} {s s' : Symbol} (h : m.Symbols k s s')
    (hlossy : m.lossy = false) : s'.known?.isSome = (s.known?.isSome && m.shown k) := by
  have hknown : ∀ (s : Symbol) (v : Value) (c : Bool), s.content = .variable v c →
      s.known?.isSome = c := by
    intro s v c hc
    unfold Symbol.known?
    rw [hc]
    cases c <;> rfl
  rcases h.cases with ⟨v, c, v', c', hc, hc', -, -, hsame⟩ | ⟨ps, result, hc, hc'⟩
  · rw [hknown s v c hc, hknown s' v' c' hc', (hsame hlossy).2]
  · unfold Symbol.known?
    rw [hc, hc']
    rfl

/-- Renamings that do the same to a symbol. -/
theorem Symbols.congr {k : SymbolId} {s s' : Symbol} (h : m.Symbols k s s')
    (hlossy : m.lossy = false) (hk : m.shown k = true) (hk' : m'.shown k = true)
    (hnumber : ∀ i, s.augmented = s.name ++ "_" ++ Text.ofNat i → m'.scope i = m.scope i)
    (hparams : ∀ p ∈ s.params, m'.symbol p.id = m.symbol p.id) : m'.Symbols k s s' := by
  refine ⟨h.name, h.line, h.inferred, h.augmented.imp_right ?_, ?_⟩
  · rintro ⟨i, hi, hi'⟩
    exact ⟨i, hi, by rw [hnumber i hi]; exact hi'⟩
  · -- a variable keeps its value; a function keeps its parameters if they go to the same symbols
    unfold Symbol.params at hparams
    rcases h.content_eq hlossy hk with ⟨v, c, hc, hc'⟩ | ⟨ps, result, hc, hc'⟩
    · rw [hc, hc']
      exact .variable rfl (fun h => ⟨h, rfl⟩) fun _ => ⟨rfl, by rw [hk', Bool.and_true]⟩
    · rw [hc] at hparams ⊢
      have hmap : ps.map m.param = ps.map m'.param := by
        refine List.map_congr_left fun p hp => ?_
        unfold Renaming.param
        rw [hparams p hp]
      rw [hc', hmap]
      exact .function ps result

/-- A renaming that takes back what was done to a symbol. -/
theorem Symbols.inverse {k : SymbolId} {s s' : Symbol} (h : m.Symbols k s s')
    (hlossy : m.lossy = false) (hk : m.shown k = true) (hk' : m'.shown (m.symbol k) = true)
    (hnumber : ∀ i, s.augmented = s.name ++ "_" ++ Text.ofNat i → m'.scope (m.scope i) = i)
    (hparams : ∀ p ∈ s.params, m'.symbol (m.symbol p.id) = p.id) :
    m'.Symbols (m.symbol k) s' s := by
  refine ⟨h.name.symm, h.line.symm, h.inferred.symm, ?_, ?_⟩
  · -- the number at the end of the augmented name goes back to where it came from
    rcases h.augmented with ⟨hs, hs'⟩ | ⟨i, hi, hi'⟩
    · exact .inl ⟨hs'.trans h.name.symm, hs.trans h.name.symm⟩
    · refine .inr ⟨m.scope i, ?_, ?_⟩
      · rw [h.name]
        exact hi'
      · rw [hnumber i hi, h.name]
        exact hi
  · unfold Symbol.params at hparams
    rcases h.content_eq hlossy hk with ⟨v, c, hc, hc'⟩ | ⟨ps, result, hc, hc'⟩
    · rw [hc, hc']
      exact .variable rfl (fun h => ⟨h, rfl⟩) fun _ => ⟨rfl, by rw [hk', Bool.and_true]⟩
    · rw [hc] at hparams
      -- and so do the parameters
      have hback : (ps.map m.param).map m'.param = ps := by
        rw [List.map_map]
        refine (List.map_congr_left fun p hp => ?_).trans (List.map_id ps)
        simp only [Function.comp_apply, Renaming.param, hparams p hp]
        rfl
      have hfunction : m'.Content (m.symbol k) (.function (ps.map m.param) result)
          (.function ((ps.map m.param).map m'.param) result) := .function _ result
      rw [hc, hc']
      rwa [hback] at hfunction

/-! ### Three runs -/

/-- One renaming after another. -/
def trans (m m' : Renaming) (before before' : List Finding) : Renaming where
  scope := m'.scope ∘ m.scope
  symbol := m'.symbol ∘ m.symbol
  swapped := m'.swapped
  lossy := false
  shown := fun _ => true
  base := globalScope
  before := before
  before' := before'
  scope_injective := m'.scope_injective.comp m.scope_injective
  symbol_injective := m'.symbol_injective.comp m.symbol_injective
  scope_global := by
    rw [Function.comp_apply, m.scope_global, m'.scope_global]
  nodup_swapped := m'.nodup_swapped

/-- One exact renaming after another is exact. -/
theorem exact_trans (m m' : Renaming) (before before' : List Finding) :
    (m.trans m' before before').Exact :=
  ⟨rfl, fun _ => rfl, rfl⟩

section
variable {before before' : List Finding}

/-- The names of a scope in three runs. -/
theorem Names.trans {i : ScopeId} {l l' l'' : List (Text × SymbolId)} (hswapped : m.swapped = [])
    (h : m.Names i l l') (h' : m'.Names (m.scope i) l' l'') :
    (m.trans m' before before').Names i l l'' := by
  obtain rfl := h.eq (.inr hswapped)
  obtain ⟨front, mid, back, heq, rfl, hmid⟩ := h'
  obtain ⟨l₁, back₀, rfl, hl₁, rfl⟩ := List.map_eq_append_iff.mp heq
  obtain ⟨front₀, mid₀, rfl, rfl, rfl⟩ := List.map_eq_append_iff.mp hl₁
  refine ⟨front₀, mid₀, back₀, rfl, ?_, ?_⟩
  · simp only [List.map_append, List.map_reverse, List.map_map]
    rfl
  · have hglobal : m.scope i = globalScope ↔ i = globalScope :=
      ⟨fun h => m.scope_injective (h.trans m.scope_global.symm), fun h => h ▸ m.scope_global⟩
    rw [List.map_map] at hmid
    simp only [hglobal] at hmid
    exact hmid

/-- What three runs store of a symbol. -/
theorem Content.trans {k : SymbolId} {c c' c'' : Symbol.Content} (hm : m.Exact) (hm' : m'.Exact)
    (h : m.Content k c c') (h' : m'.Content (m.symbol k) c' c'') :
    (m.trans m' before before').Content k c c'' := by
  cases h with
  | @«variable» v v' b b' hty hknown hsame =>
    cases h' with
    | @«variable» _ v'' _ b'' hty' hknown' hsame' =>
      obtain ⟨rfl, rfl⟩ := hsame hm.lossy
      obtain ⟨rfl, rfl⟩ := hsame' hm'.lossy
      rw [hm.shown, hm'.shown, Bool.and_true, Bool.and_true]
      exact .variable rfl (fun h => ⟨h, rfl⟩) fun _ => ⟨rfl, (Bool.and_true b).symm⟩
  | function ps result =>
    cases h' with
    | function =>
      rw [List.map_map]
      exact .function ps result

/-- The augmented names of a symbol in three runs. -/
theorem Augmented.trans {s s' s'' : Symbol} (hname : s'.name = s.name)
    (h : m.Augmented s s') (h' : m'.Augmented s' s'') :
    (m.trans m' before before').Augmented s s'' := by
  rcases h with ⟨hs, hs'⟩ | ⟨i, hs, hs'⟩
  · rcases h' with ⟨-, hs''⟩ | ⟨j, hj, -⟩
    · exact .inl ⟨hs, hs''.trans hname⟩
    · exact absurd ((hs'.trans hname.symm).symm.trans hj) (Text.ne_numbered _ _)
  · rcases h' with ⟨hplain, -⟩ | ⟨j, hj, hs''⟩
    · exact absurd ((hplain.symm.trans hs').trans (by rw [hname])) (Text.ne_numbered _ _)
    · -- the number that the second run gives is the one that the third run changes
      obtain ⟨-, rfl⟩ := Text.numbered_inj (hs'.symm.trans hj)
      exact .inr ⟨i, hs, hs''.trans (by rw [hname]; rfl)⟩

/-- A symbol of three runs. -/
theorem Symbols.trans {k : SymbolId} {s s' s'' : Symbol} (hm : m.Exact) (hm' : m'.Exact)
    (h : m.Symbols k s s') (h' : m'.Symbols (m.symbol k) s' s'') :
    (m.trans m' before before').Symbols k s s'' where
  name := h'.name.trans h.name
  line := h'.line.trans h.line
  inferred := h'.inferred.trans h.inferred
  augmented := h.augmented.trans h.name h'.augmented
  content := h.content.trans hm hm' h'.content

/-- A statement with its signature in three runs. -/
theorem Hoisted.trans {a b c : Stmt × Option Symbol} (hm : m.Exact) (hm' : m'.Exact)
    (h : m.Hoisted a b) (h' : m'.Hoisted b c) : (m.trans m' before before').Hoisted a c := by
  refine ⟨h'.1.trans h.1, ?_⟩
  obtain ⟨-, h⟩ := h
  obtain ⟨-, h'⟩ := h'
  generalize a.2 = o at h ⊢
  generalize b.2 = o' at h h'
  generalize c.2 = o'' at h' ⊢
  cases h with
  | none =>
    cases h'
    exact .none
  | some h =>
    cases h' with
    | some h' => exact .some fun k => (h k).trans hm hm' (h' _)

/-- **Three tables**: if two runs correspond to the same one, they correspond to each other. -/
theorem Tables.trans {t t' t'' : Table} (hm : m.Exact) (hm' : m'.Exact) (hswapped : m.swapped = [])
    (h : m.Tables t t') (h' : m'.Tables t' t'') : (m.trans m' before before').Tables t t'' where
  scopes := by
    intro i s hs
    obtain ⟨s', hs', hscope⟩ := h.scopes i s hs
    obtain ⟨s'', hs'', hscope'⟩ := h'.scopes _ s' hs'
    refine ⟨s'', hs'', hscope.number, hscope'.number', hscope'.name.trans hscope.name, ?_,
      hscope.names.trans hswapped hscope'.names⟩
    rw [hscope'.outer, hscope.outer, List.map_map]
    rfl
  symbols := by
    intro k s hs
    obtain ⟨s', hs', hsymbol⟩ := h.symbols k s hs
    obtain ⟨s'', hs'', hsymbol'⟩ := h'.symbols _ s' hs'
    exact ⟨s'', hs'', hsymbol.trans hm hm' hsymbol'⟩
  nextScope := by
    intro n
    -- what is made next has corresponding numbers in the middle table, too
    change m'.scope (m.scope (t.scopes.length + n)) = t''.scopes.length + n
    rw [h.nextScope, h'.nextScope]
  nextSymbol := by
    intro n
    change m'.symbol (m.symbol (t.symbols.length + n)) = t''.symbols.length + n
    rw [h.nextSymbol, h'.nextSymbol]
  tree := h.tree
  tree' := h'.tree'
  valid := h.valid
  closed := h.closed
  confined := (h.regular hm).confined fun _ => rfl

end
end Renaming

/-! ### One run -/

/-- A run that is compared with itself, from some findings on. -/
def same (found : List Finding) : Renaming where
  scope := id
  symbol := id
  swapped := []
  lossy := false
  shown := fun _ => true
  base := globalScope
  before := found
  before' := found
  scope_injective := Function.injective_id
  symbol_injective := Function.injective_id
  scope_global := id_eq globalScope
  nodup_swapped := List.nodup_nil

/-- Comparing a run with itself is exact. -/
theorem exact_same (found : List Finding) : (same found).Exact := ⟨rfl, fun _ => rfl, rfl⟩

/-- States in which the two runs have found nothing but what they had found before. -/
theorem Renaming.Tables.states {m : Renaming} {st st' : State} (h : m.Tables st.table st'.table)
    (hbefore : m.before = st.found) (hbefore' : m.before' = st'.found) : m.States false st st' :=
  ⟨h, fun hfalse => absurd hfalse Bool.false_ne_true, [], [], by simp [hbefore], by simp [hbefore'],
    .nil⟩

end Analysis

/-- **A regular table corresponds to itself.** -/
theorem Table.Regular.tables {t : Table} (h : t.Regular) (found : List Finding) :
    (same found).Tables t t where
  scopes := by
    intro i s hs
    exact ⟨s, hs, h.number i s hs, h.number i s hs, rfl, (List.map_id _).symm, .self fun _ _ => rfl⟩
  symbols := by
    intro k s hs
    exact ⟨s, hs, .self rfl ((h.closed.augmented k s hs).imp_right fun ⟨i, _, hi⟩ => ⟨i, rfl, hi⟩)
      fun _ _ => rfl⟩
  nextScope := fun _ => rfl
  nextSymbol := fun _ => rfl
  tree := h.tree
  tree' := h.tree
  valid := h.valid
  closed := h.closed
  confined := h.confined fun _ => rfl

namespace Analysis

end Analysis

/-- A table that has grown admits what it admitted. -/
theorem Symbol.Admitted.mono {n n' : Nat} {s : Symbol} (h : s.Admitted n) (hle : n ≤ n') :
    s.Admitted n' :=
  ⟨h.typed, h.augmented, fun p hp => Nat.lt_of_lt_of_le (h.params p hp) hle⟩

namespace Analysis

/-- The signature of a statement fits a table with some symbols. -/
def AdmittedIn (n : Nat) (a : Stmt × Option Symbol) : Prop := ∀ s, a.2 = some s → s.Admitted n

/-- A table that has grown has the parameters of a signature. -/
theorem AdmittedIn.mono {n n' : Nat} {a : Stmt × Option Symbol} (h : AdmittedIn n a)
    (hle : n ≤ n') : AdmittedIn n' a := fun s hs => (h s hs).mono hle

/-- A signature that a renaming leaves as it is. -/
theorem AdmittedIn.hoisted {m : Renaming} (hm : m.Exact) {n : Nat}
    (hsymbol : ∀ k, k < n → m.symbol k = k) {a : Stmt × Option Symbol} (ha : AdmittedIn n a) :
    m.Hoisted a a := by
  obtain ⟨s, signature⟩ := a
  refine ⟨rfl, ?_⟩
  cases signature with
  | none => exact .none
  | some s =>
    have hs : s.Admitted n := ha s rfl
    exact .some fun k => .self (hm.shown k) (.inl hs.augmented) fun p hp =>
      hsymbol p.id (hs.params p hp)

section
variable {ctx : Context} {st : State}

/-- A context corresponds to itself outside functions. -/
theorem contexts_same (hglobal : ctx.global = globalScope) (hfn : ctx.fn = none)
    (found : List Finding) : (same found).Contexts ctx ctx :=
  ⟨rfl, hglobal, hglobal, rfl, by rw [hfn]; rfl, fun _ hx => hx, fun _ _ hx => hx⟩

/-- **Analysis keeps tables regular.** -/
theorem regular_checkTop (hglobal : ctx.global = globalScope) (hfn : ctx.fn = none)
    (hsc : ctx.scope < st.table.scopes.length) {n : Nat} {a : Stmt × Option Symbol}
    (ha : AdmittedIn n a) (h : st.table.Regular) : (checkTop ctx st a).table.Regular := by
  have hexact := exact_same st.found
  have hstates := renamed_checkTop (contexts_same hglobal hfn st.found) (hexact.placed ctx)
    hexact.shown hfn hsc ((h.tables st.found).states rfl rfl) (ha.hoisted hexact fun _ _ => rfl)
  exact hstates.table.regular hexact

/-- Collecting the signatures keeps tables regular. -/
theorem regular_hoistAll (hglobal : ctx.global = globalScope) (hfn : ctx.fn = none)
    (hsc : ctx.scope < st.table.scopes.length) (h : st.table.Regular) (p : Program) :
    (hoistAll ctx st p).1.table.Regular := by
  have hstates := renamed_hoistAll (contexts_same hglobal hfn st.found) hsc
    ((h.tables st.found).states rfl rfl) p
  exact hstates.1.table.regular (exact_same st.found)

/-- Analysis starts with a regular table. -/
theorem regular_startState : startState.table.Regular :=
  (renamed_startState (m := same []) (fun _ => rfl) (fun _ => rfl) (fun _ => rfl) rfl
    rfl).table.regular (exact_same [])

end

end Analysis
end Slang
