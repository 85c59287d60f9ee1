import Mathlib.Data.List.Nodup
import Slang.Scope
import Slang.Proofs.Typing

/-!
# What a table says

A table is read through two views. `Table.frames` lists the names that are visible from a scope,
innermost scope first, with the numbers of their symbols; symbols may change without a frame
noticing. `Table.view` replaces each number by what its symbol is, and is an environment of the
static rules.

* `Table.Valid` is the invariant of every table that analysis builds: scopes refer to earlier ones,
  each name is bound to a symbol of that name, and signatures hold types that a signature may have;
* `Table.Extends` says what may happen to a table while the statements of one scope are read: other
  scopes stay as they are, and no symbol changes its name or its type.

Each operation on tables has one lemma for each of the two.
-/

namespace Slang

open Typing

/-! ### What symbols are -/

namespace Symbol

/-- What a symbol is, which never changes: neither its value nor its augmented name counts. -/
def entry (s : Symbol) : Entry :=
  match s.content with
  | .variable v _ => .variable v.ty
  | .function ps result => .function (ps.map (·.ty)) result

/-- A symbol whose signature, if it has one, holds types that a signature may have. -/
def Typed (s : Symbol) : Prop :=
  match s.content with
  | .variable .. => True
  | .function ps result => (∀ p ∈ ps, IsValue p.ty) ∧ (IsValue result ∨ result = .void)

/-- **Two states of one symbol**: the name, what it is and its signature are the same. -/
structure Same (s s' : Symbol) : Prop where
  name : s'.name = s.name
  entry : s'.entry = s.entry
  typed : s.Typed → s'.Typed

theorem Same.refl (s : Symbol) : Same s s := ⟨rfl, rfl, id⟩

theorem Same.trans {s s' s'' : Symbol} (h : Same s s') (h' : Same s' s'') : Same s s'' :=
  ⟨h'.name.trans h.name, h'.entry.trans h.entry, h'.typed ∘ h.typed⟩

/-- The augmented name does not count. -/
theorem same_of_augmented {f : Symbol → Symbol} (hf : ∀ s, ∃ a, f s = { s with augmented := a })
    (s : Symbol) : Same s (f s) := by
  obtain ⟨a, ha⟩ := hf s
  rw [ha]
  exact ⟨rfl, rfl, id⟩

/-- Whether a value is known does not count. -/
theorem same_setCalculated (s : Symbol) (b : Bool) : Same s (s.setCalculated b) := by
  unfold setCalculated
  split
  · next v c hc => exact ⟨rfl, by simp [Symbol.entry, hc], fun _ => trivial⟩
  · exact Same.refl s

/-- Storing a value keeps the type: a value of another type is not stored. -/
theorem same_of_store? {s s' : Symbol} {v : Value} (h : s.store? v = some s') : Same s s' := by
  unfold store? at h
  split at h
  · next old c hc =>
    split at h
    · next hty =>
      obtain rfl := Option.some.inj h
      exact ⟨rfl, by simp [Symbol.entry, hc, hty], fun _ => trivial⟩
    · cases h
  · cases h

end Symbol

/-- The types of values are those of variables. -/
theorem isValue_ty (v : Value) : IsValue v.ty := by
  cases v with
  | int => exact .int
  | bool => exact .bool
  | str => exact .string

namespace Table

/-! ### Frames -/

/-- The names of one scope. -/
def namesOf (t : Table) (id : ScopeId) : List (Text × SymbolId) :=
  match t.scope? id with
  | some s => s.names
  | none => []

/-- No scope has a name twice. -/
def Distinct (t : Table) : Prop := ∀ i, ((t.namesOf i).map Prod.fst).Nodup

/-- **The names that are visible from a scope**, innermost scope first. -/
def frames (t : Table) (id : ScopeId) : List (List (Text × SymbolId)) := (t.chain id).map t.namesOf

/-- Finding a name in one scope is looking it up in the list of its names. -/
theorem findIn?_eq_lookup (t : Table) (id : ScopeId) (x : Text) :
    t.findIn? id x = (t.namesOf id).lookup x := by
  -- the two searches compare the names from opposite sides
  have hfind : ∀ l : List (Text × SymbolId), (l.find? (·.1 == x)).map (·.2) = l.lookup x := by
    intro l
    induction l with
    | nil => rfl
    | cons b l ih =>
      obtain ⟨y, i⟩ := b
      by_cases hy : y = x
      · subst hy
        simp
      · have hy' : (x == y) = false := beq_eq_false_iff_ne.mpr (Ne.symm hy)
        simp [List.lookup_cons, hy, hy', ih]
  unfold findIn? namesOf
  cases t.scope? id with
  | none => rfl
  | some s => exact hfind s.names

/-- Finding a name is looking it up in one frame after the other. -/
theorem find?_eq_frames (t : Table) (id : ScopeId) (x : Text) :
    t.find? id x = (t.frames id).findSome? fun names => names.lookup x := by
  unfold find? frames
  rw [List.findSome?_map]
  exact congrArg (fun f => (t.chain id).findSome? f) (funext fun s => findIn?_eq_lookup t s x)

/-! ### Views -/

/-- Names with what their symbols are. -/
def reveal (t : Table) (names : List (Text × SymbolId)) : Names :=
  names.filterMap fun b => (t.symbol? b.2).map fun s => (b.1, s.entry)

/-- **What the names mean that are visible from a scope.** -/
def view (t : Table) (id : ScopeId) : Env := (t.frames id).map t.reveal

/-- **The invariant of tables.** -/
structure Valid (t : Table) : Prop where
  /-- Scopes are inside earlier ones. -/
  outer_lt : ∀ i s, t.scope? i = some s → ∀ o ∈ s.outer, o < i
  /-- A name is bound to a symbol of that name. -/
  bound : ∀ i s, t.scope? i = some s → ∀ b ∈ s.names,
    ∃ sym, t.symbol? b.2 = some sym ∧ sym.name = b.1
  /-- Signatures hold types that a signature may have. -/
  typed : ∀ i s, t.symbol? i = some s → s.Typed

/-- What a scope lists is bound to a symbol of that name. -/
theorem Valid.bound_of_mem {t : Table} (h : t.Valid) {id : ScopeId} {b : Text × SymbolId}
    (hb : b ∈ t.namesOf id) : ∃ sym, t.symbol? b.2 = some sym ∧ sym.name = b.1 := by
  unfold namesOf at hb
  split at hb
  · next s hs => exact h.bound id s hs b hb
  · cases hb

/-- What is found is listed. -/
theorem mem_of_lookup {α : Type} {l : List (Text × α)} {x : Text} {i : α}
    (h : l.lookup x = some i) : (x, i) ∈ l := by
  induction l with
  | nil => cases h
  | cons b l ih =>
    rw [List.lookup_cons] at h
    split at h
    · next hx =>
      obtain rfl := Option.some.inj h
      rw [eq_of_beq hx]
      exact List.mem_cons_self
    · exact List.mem_cons_of_mem b (ih h)

/-- Where no name is listed twice, what is listed is found. -/
theorem lookup_of_mem {l : List (Text × SymbolId)} {x : Text} {k : SymbolId}
    (hl : (l.map Prod.fst).Nodup) (h : (x, k) ∈ l) : l.lookup x = some k := by
  obtain ⟨before, after, rfl⟩ := List.append_of_mem h
  refine List.lookup_eq_some_iff.mpr ⟨before, after, rfl, fun b hb => bne_iff_ne.mpr ?_⟩
  rintro rfl
  -- the name would be listed twice
  rw [List.map_append, List.map_cons] at hl
  exact (List.nodup_append.mp hl).2.2 _ (List.mem_map_of_mem hb) _ List.mem_cons_self rfl

/-- A name that is found is bound to a symbol of that name. -/
theorem Valid.symbol_of_find? {t : Table} (h : t.Valid) {id : ScopeId} {x : Text} {i : SymbolId}
    (hx : t.find? id x = some i) : ∃ sym, t.symbol? i = some sym ∧ sym.name = x := by
  obtain ⟨s, -, hs⟩ := List.exists_of_findSome?_eq_some hx
  rw [findIn?_eq_lookup] at hs
  exact h.bound_of_mem (mem_of_lookup hs)

/-- A name that one scope has is bound to a symbol of that name. -/
theorem Valid.symbol_of_findIn? {t : Table} (h : t.Valid) {id : ScopeId} {x : Text} {i : SymbolId}
    (hx : t.findIn? id x = some i) : ∃ sym, t.symbol? i = some sym ∧ sym.name = x := by
  rw [findIn?_eq_lookup] at hx
  exact h.bound_of_mem (mem_of_lookup hx)

/-- Names keep their places when their symbols are replaced by what they are. -/
theorem lookup_reveal {t : Table} {names : List (Text × SymbolId)} (x : Text)
    (h : ∀ b ∈ names, ∃ sym, t.symbol? b.2 = some sym ∧ sym.name = b.1) :
    (t.reveal names).lookup x =
      (names.lookup x).bind fun i => (t.symbol? i).map Symbol.entry := by
  induction names with
  | nil => rfl
  | cons b names ih =>
    obtain ⟨sym, hsym, -⟩ := h b List.mem_cons_self
    have ih := ih fun c hc => h c (List.mem_cons_of_mem b hc)
    -- no name is dropped, since each is bound to a symbol that is there
    have hcons : t.reveal (b :: names) = (b.1, sym.entry) :: t.reveal names := by
      simp [reveal, hsym]
    rw [hcons, List.lookup_cons, List.lookup_cons]
    split
    · simp [hsym]
    · exact ih

/-- **A name means what the symbol is that it stands for.** -/
theorem Valid.find?_view {t : Table} (h : t.Valid) (id : ScopeId) (x : Text) :
    (t.view id).find? x = (t.find? id x).bind fun i => (t.symbol? i).map Symbol.entry := by
  unfold view Env.find? find? frames
  induction t.chain id with
  | nil => rfl
  | cons s chain ih =>
    have hs := lookup_reveal x fun b (hb : b ∈ t.namesOf s) => h.bound_of_mem hb
    simp only [List.map_cons, List.findSome?_cons, hs, findIn?_eq_lookup] at ih ⊢
    cases hx : (t.namesOf s).lookup x with
    | none => simpa using ih
    | some i =>
      -- both searches end here, since the name is bound to a symbol that exists
      obtain ⟨sym, hsym, -⟩ := h.bound_of_mem (mem_of_lookup hx)
      simp [hsym]

/-- Revealing what names mean keeps the names. -/
theorem map_fst_reveal {t : Table} {names : List (Text × SymbolId)}
    (h : ∀ b ∈ names, ∃ sym, t.symbol? b.2 = some sym ∧ sym.name = b.1) :
    (t.reveal names).map Prod.fst = names.map Prod.fst := by
  induction names with
  | nil => rfl
  | cons b names ih =>
    obtain ⟨sym, hsym, -⟩ := h b List.mem_cons_self
    have ih := ih fun c hc => h c (List.mem_cons_of_mem b hc)
    simp only [reveal, List.filterMap_cons, hsym, Option.map_some, List.map_cons] at ih ⊢
    rw [ih]

/-- The innermost scope of a view has the names of the scope itself. -/
theorem Valid.map_fst_of_view {t : Table} (h : t.Valid) {id : ScopeId} {names : Names} {Γ : Env}
    (hview : t.view id = names :: Γ) : names.map Prod.fst = (t.namesOf id).map Prod.fst := by
  unfold view frames chain at hview
  split at hview
  · rw [List.map_cons, List.map_cons] at hview
    rw [← (List.cons.inj hview).1]
    exact map_fst_reveal fun b hb => h.bound_of_mem hb
  · cases hview

/-! ### Growing tables -/

theorem scope?_lt {t : Table} {i : ScopeId} {s : Scope} (h : t.scope? i = some s) :
    i < t.scopes.length :=
  (List.getElem?_eq_some_iff.mp h).1

/-- Numbers below the number of scopes stand for scopes. -/
theorem exists_scope? {t : Table} {i : ScopeId} (h : i < t.scopes.length) :
    ∃ s, t.scope? i = some s :=
  ⟨_, List.getElem?_eq_getElem h⟩

/-- A chain is the scope itself and the scopes around it. -/
theorem chain_of_scope? {t : Table} {id : ScopeId} {s : Scope} (h : t.scope? id = some s) :
    t.chain id = id :: s.outer := by
  unfold chain
  rw [h]

/-- **What reading the statements of scope `sc` may do to a table.** -/
structure Extends (sc : ScopeId) (t t' : Table) : Prop where
  scopes_le : t.scopes.length ≤ t'.scopes.length
  scope_eq : ∀ i, i < t.scopes.length → i ≠ sc → t'.scope? i = t.scope? i
  outer_eq : ∀ s, t.scope? sc = some s →
    ∃ s', t'.scope? sc = some s' ∧ s'.outer = s.outer ∧ s'.name = s.name
  /-- New scopes are made inside `sc`, or inside each other. -/
  inner : ∀ i s, t.scopes.length ≤ i → t'.scope? i = some s →
    ∀ o ∈ s.outer, o ∈ t.chain sc ∨ t.scopes.length ≤ o
  symbol_same : ∀ i s, t.symbol? i = some s → ∃ s', t'.symbol? i = some s' ∧ s.Same s'
  valid : t.Valid → t'.Valid

namespace Extends

theorem refl (sc : ScopeId) (t : Table) : Extends sc t t where
  scopes_le := Nat.le_refl _
  scope_eq := fun _ _ _ => rfl
  outer_eq := fun s hs => ⟨s, hs, rfl, rfl⟩
  inner := fun _ _ hi hs => absurd (scope?_lt hs) (Nat.not_lt.mpr hi)
  symbol_same := fun _ s hs => ⟨s, hs, .refl s⟩
  valid := id

theorem trans {sc : ScopeId} {t t' t'' : Table} (h : Extends sc t t') (h' : Extends sc t' t'') :
    Extends sc t t'' where
  scopes_le := Nat.le_trans h.scopes_le h'.scopes_le
  scope_eq := fun i hi hne =>
    (h'.scope_eq i (Nat.lt_of_lt_of_le hi h.scopes_le) hne).trans (h.scope_eq i hi hne)
  outer_eq := fun s hs => by
    obtain ⟨s', hs', ho, hname⟩ := h.outer_eq s hs
    obtain ⟨s'', hs'', ho', hname'⟩ := h'.outer_eq s' hs'
    exact ⟨s'', hs'', ho'.trans ho, hname'.trans hname⟩
  inner := fun i s hi hs o ho => by
    have hchain : ∀ o ∈ t'.chain sc, o ∈ t.chain sc ∨ t.scopes.length ≤ o := by
      intro o ho
      by_cases hsc : sc < t.scopes.length
      · obtain ⟨x, hx⟩ := exists_scope? hsc
        obtain ⟨x', hx', houter, -⟩ := h.outer_eq x hx
        rw [chain_of_scope? hx', houter, ← chain_of_scope? hx] at ho
        exact .inl ho
      · unfold chain at ho
        split at ho
        · next x hx =>
          rcases List.mem_cons.mp ho with rfl | ho
          · exact .inr (Nat.not_lt.mp hsc)
          · exact h.inner sc x (Nat.not_lt.mp hsc) hx o ho
        · cases ho
    by_cases hi' : i < t'.scopes.length
    · -- made in the first part, so the second one leaves what it lies in
      by_cases hsc : i = sc
      · subst hsc
        obtain ⟨x, hx⟩ := exists_scope? hi'
        obtain ⟨x', hx', houter, -⟩ := h'.outer_eq x hx
        obtain rfl := Option.some.inj (hx'.symm.trans hs)
        exact h.inner i x hi hx o (houter ▸ ho)
      · rw [h'.scope_eq i hi' hsc] at hs
        exact h.inner i s hi hs o ho
    · rcases h'.inner i s (Nat.not_lt.mp hi') hs o ho with ho | ho
      · exact hchain o ho
      · exact .inr (Nat.le_trans h.scopes_le ho)
  symbol_same := fun i s hs => by
    obtain ⟨s', hs', hsame⟩ := h.symbol_same i s hs
    obtain ⟨s'', hs'', hsame'⟩ := h'.symbol_same i s' hs'
    exact ⟨s'', hs'', hsame.trans hsame'⟩
  valid := h'.valid ∘ h.valid

end Extends

/-! ### Operations -/

theorem symbol?_lt {t : Table} {i : SymbolId} {s : Symbol} (h : t.symbol? i = some s) :
    i < t.symbols.length :=
  (List.getElem?_eq_some_iff.mp h).1

/-- A symbol that is there stays there. -/
theorem Extends.symbol_lt {sc : ScopeId} {t t' : Table} (h : Extends sc t t') {i : SymbolId}
    (hi : i < t.symbols.length) : i < t'.symbols.length := by
  have hsome : t.symbol? i = some t.symbols[i] := List.getElem?_eq_getElem hi
  obtain ⟨s', hs', -⟩ := h.symbol_same i _ hsome
  exact symbol?_lt hs'

theorem Extends.symbols_le {sc : ScopeId} {t t' : Table} (h : Extends sc t t') :
    t.symbols.length ≤ t'.symbols.length :=
  Nat.not_lt.mp fun hlt => Nat.lt_irrefl _ (h.symbol_lt hlt)

/-- A new symbol leaves the old ones. -/
theorem symbol?_addSymbol_of_lt {t : Table} {i : SymbolId} (s : Symbol)
    (h : i < t.symbols.length) : (t.addSymbol s).1.symbol? i = t.symbol? i :=
  List.getElem?_append_left h

theorem symbol?_addSymbol_self (t : Table) (s : Symbol) :
    (t.addSymbol s).1.symbol? t.symbols.length = some s :=
  List.getElem?_concat_length

/-- After a symbol was added, a number stands for what it stood for, or for the new symbol. -/
theorem symbol?_addSymbol {t : Table} {i : SymbolId} {s s' : Symbol}
    (h : (t.addSymbol s).1.symbol? i = some s') : t.symbol? i = some s' ∨ s' = s := by
  by_cases hi : i < t.symbols.length
  · rw [symbol?_addSymbol_of_lt s hi] at h
    exact .inl h
  · have hlt : i < (t.symbols ++ [s]).length := symbol?_lt h
    rw [List.length_append, List.length_singleton] at hlt
    have hi' : i = t.symbols.length := Nat.le_antisymm (Nat.le_of_lt_succ hlt) (Nat.not_lt.mp hi)
    rw [hi', symbol?_addSymbol_self] at h
    exact .inr (Option.some.inj h).symm

/-- Adding a sound symbol extends a table. -/
theorem extends_addSymbol (sc : ScopeId) (t : Table) {s : Symbol} (hs : s.Typed) :
    Extends sc t (t.addSymbol s).1 where
  scopes_le := Nat.le_refl _
  scope_eq := fun _ _ _ => rfl
  outer_eq := fun x hx => ⟨x, hx, rfl, rfl⟩
  inner := fun _ _ hi hs => absurd (scope?_lt hs) (Nat.not_lt.mpr hi)
  symbol_same := fun i x hx =>
    ⟨x, (symbol?_addSymbol_of_lt s (symbol?_lt hx)).trans hx, .refl x⟩
  valid := fun h =>
    { outer_lt := h.outer_lt
      bound := fun i x hx b hb => by
        obtain ⟨sym, hsym, hname⟩ := h.bound i x hx b hb
        exact ⟨sym, (symbol?_addSymbol_of_lt s (symbol?_lt hsym)).trans hsym, hname⟩
      typed := fun i x hx => by
        rcases symbol?_addSymbol hx with hx | rfl
        · exact h.typed i x hx
        · exact hs }

/-- One symbol changes, and the others stay. -/
theorem symbol?_modify (t : Table) (id : SymbolId) (f : Symbol → Symbol) (i : SymbolId) :
    (t.modify id f).symbol? i = if id = i then (t.symbol? i).map f else t.symbol? i := by
  unfold modify symbol?
  rw [List.getElem?_modify]
  split <;> simp

/-- Changing what is known of a symbol extends a table. -/
theorem extends_modify (sc : ScopeId) (t : Table) (id : SymbolId) {f : Symbol → Symbol}
    (hf : ∀ s, Symbol.Same s (f s)) : Extends sc t (t.modify id f) := by
  have hsame : ∀ i s, t.symbol? i = some s →
      ∃ s', (t.modify id f).symbol? i = some s' ∧ s.Same s' := by
    intro i s hs
    rw [symbol?_modify, hs]
    split
    · exact ⟨f s, rfl, hf s⟩
    · exact ⟨s, rfl, .refl s⟩
  refine ⟨Nat.le_refl _, fun _ _ _ => rfl, fun x hx => ⟨x, hx, rfl, rfl⟩,
    fun _ _ hi hs => absurd (scope?_lt hs) (Nat.not_lt.mpr hi), hsame, fun h => ?_⟩
  -- scopes are untouched, so of validity the names of symbols and their signatures are left
  refine ⟨h.outer_lt, fun i x hx b hb => ?_, fun i x hx => ?_⟩
  · obtain ⟨sym, hsym, hname⟩ := h.bound i x hx b hb
    obtain ⟨sym', hsym', hs⟩ := hsame _ sym hsym
    exact ⟨sym', hsym', hs.name.trans hname⟩
  · rw [symbol?_modify] at hx
    split at hx
    · obtain ⟨y, hy, rfl⟩ := Option.map_eq_some_iff.mp hx
      exact (hf y).typed (h.typed i y hy)
    · exact h.typed i x hx

/-- A table with one more name in a scope. -/
def bound (t : Table) (sc : ScopeId) (b : Text × SymbolId) : Table :=
  { t with scopes := t.scopes.modify sc fun s => { s with names := s.names ++ [b] } }

/-- One scope gets a name, and the others stay. -/
theorem scope?_bound (t : Table) (sc : ScopeId) (b : Text × SymbolId) (i : ScopeId) :
    (t.bound sc b).scope? i =
      if sc = i then (t.scope? i).map fun s => { s with names := s.names ++ [b] }
      else t.scope? i := by
  unfold bound scope?
  rw [List.getElem?_modify]
  split <;> simp

/-- Binding a symbol to its name extends a table. -/
theorem extends_bound (sc : ScopeId) {t : Table} {b : Text × SymbolId} {sym : Symbol}
    (hb : t.symbol? b.2 = some sym) (hname : sym.name = b.1) : Extends sc t (t.bound sc b) := by
  refine ⟨by simp [bound], fun i _ hne => ?_, fun s hs => ?_, fun i s hi hs => ?_,
    fun i s hs => ⟨s, hs, .refl s⟩, fun h => ⟨fun i s hs => ?_, fun i s hs => ?_, h.typed⟩⟩
  · rw [scope?_bound, if_neg (Ne.symm hne)]
  · rw [scope?_bound, if_pos rfl, hs]
    exact ⟨_, rfl, rfl, rfl⟩
  · have hlt := scope?_lt hs
    simp only [bound, List.length_modify] at hlt
    exact absurd hlt (Nat.not_lt.mpr hi)
  · rw [scope?_bound] at hs
    split at hs
    · obtain ⟨x, hx, rfl⟩ := Option.map_eq_some_iff.mp hs
      exact h.outer_lt i x hx
    · exact h.outer_lt i s hs
  · rw [scope?_bound] at hs
    split at hs
    · obtain ⟨x, hx, rfl⟩ := Option.map_eq_some_iff.mp hs
      intro c hc
      -- the new name is bound to its symbol, and the old ones are as they were
      rcases List.mem_append.mp hc with hc | hc
      · exact h.bound i x hx c hc
      · obtain rfl := List.mem_singleton.mp hc
        exact ⟨sym, hb, hname⟩
    · exact h.bound i s hs

/-- What binding a symbol comes to. -/
theorem bind_eq {t : Table} {sc : ScopeId} {i : SymbolId} {sym : Symbol}
    (hsym : t.symbol? i = some sym) (hnew : (t.findIn? sc sym.name).bind t.symbol? = none) :
    t.bind sc i = .ok (t.bound sc (sym.name, i)) := by
  unfold bind
  rw [hsym]
  dsimp only
  rw [hnew]
  rfl

/-- What defining a symbol comes to: it is bound, and its augmented name may change. -/
theorem define_eq {t : Table} {sc : ScopeId} {i : SymbolId} {sym : Symbol}
    (hsym : t.symbol? i = some sym) (hnew : (t.findIn? sc sym.name).bind t.symbol? = none) :
    ∃ f : Symbol → Symbol, (∀ s, ∃ a, f s = { s with augmented := a }) ∧
      t.define sc i = .ok ((t.bound sc (sym.name, i)).modify i f) := by
  unfold define
  rw [bind_eq hsym hnew]
  dsimp only [Except.map]
  split
  · next x hx => exact ⟨_, fun s => ⟨_, rfl⟩, rfl⟩
  · -- without a scope to name it after, the symbol stays as it is
    refine ⟨id, fun s => ⟨s.augmented, rfl⟩, ?_⟩
    simp [modify, List.modify_id]

/-- What defining a symbol comes to, in a scope that is there. -/
theorem define_of_scope {t : Table} {sc : ScopeId} {i : SymbolId} {sym : Symbol} {s : Scope}
    (hsym : t.symbol? i = some sym) (hnew : (t.findIn? sc sym.name).bind t.symbol? = none)
    (hs : t.scope? sc = some s) :
    t.define sc i = .ok ((t.bound sc (sym.name, i)).modify i fun x =>
      { x with augmented := s.augment x.name }) := by
  unfold define
  rw [bind_eq hsym hnew, hs]
  rfl

/-! ### Inner scopes -/

theorem scope?_addScope_of_lt {t : Table} {i : ScopeId} (outer : Option ScopeId) (name : Text)
    (h : i < t.scopes.length) : (t.addScope outer name).1.scope? i = t.scope? i :=
  List.getElem?_append_left h

theorem scope?_addScope_self (t : Table) (o : ScopeId) (name : Text) :
    ∃ n, (t.addScope (some o) name).1.scope? t.scopes.length = some ⟨n, name, t.chain o, []⟩ :=
  ⟨_, List.getElem?_concat_length⟩

/-- Scopes around a scope were made before it. -/
theorem Valid.chain_le {t : Table} (h : t.Valid) {id o : ScopeId} (ho : o ∈ t.chain id) :
    o ≤ id := by
  unfold chain at ho
  split at ho
  · next s hs =>
    rcases List.mem_cons.mp ho with rfl | ho
    · exact Nat.le_refl _
    · exact Nat.le_of_lt (h.outer_lt id s hs o ho)
  · cases ho

/-- A new scope inside another one keeps the invariant: it has no names yet. -/
theorem Valid.addScope {t : Table} (h : t.Valid) {o : ScopeId} (ho : o < t.scopes.length)
    (name : Text) : (t.addScope (some o) name).1.Valid := by
  obtain ⟨n, hself⟩ := scope?_addScope_self t o name
  -- a scope is an old one or the new one
  have hcases : ∀ i s, (t.addScope (some o) name).1.scope? i = some s →
      t.scope? i = some s ∨ (i = t.scopes.length ∧ s = ⟨n, name, t.chain o, []⟩) := by
    intro i s hs
    by_cases hi : i < t.scopes.length
    · rw [scope?_addScope_of_lt _ _ hi] at hs
      exact .inl hs
    · have hlt : i < (t.addScope (some o) name).1.scopes.length := scope?_lt hs
      simp only [Table.addScope, List.length_append, List.length_singleton] at hlt
      have hi' : i = t.scopes.length := Nat.le_antisymm (Nat.le_of_lt_succ hlt) (Nat.not_lt.mp hi)
      subst hi'
      exact .inr ⟨rfl, Option.some.inj (hs.symm.trans hself)⟩
  refine ⟨fun i s hs => ?_, fun i s hs => ?_, h.typed⟩
  · rcases hcases i s hs with hs | ⟨rfl, rfl⟩
    · exact h.outer_lt i s hs
    · exact fun o' ho' => Nat.lt_of_le_of_lt (h.chain_le ho') ho
  · rcases hcases i s hs with hs | ⟨rfl, rfl⟩
    · exact h.bound i s hs
    · exact fun b hb => absurd hb List.not_mem_nil

/-- **Leaving an inner scope.** What was done in a new scope inside `sc` extends the table before
it. -/
theorem Extends.of_inner {t t' : Table} {sc : ScopeId} {name : Text} (hsc : sc < t.scopes.length)
    (h : Extends t.scopes.length (t.addScope (some sc) name).1 t') : Extends sc t t' := by
  have hlen : (t.addScope (some sc) name).1.scopes.length = t.scopes.length + 1 := by
    simp [Table.addScope]
  -- the new scope is the only one that was written to
  have hold : ∀ i, i < t.scopes.length → t'.scope? i = t.scope? i := by
    intro i hi
    rw [h.scope_eq i (by omega) (Nat.ne_of_lt hi), scope?_addScope_of_lt _ _ hi]
  have hle := h.scopes_le
  obtain ⟨n, hself⟩ := scope?_addScope_self t sc name
  obtain ⟨x, hx, houter, -⟩ := h.outer_eq _ hself
  refine ⟨by omega, fun i hi _ => hold i hi, fun s hs => ⟨s, (hold sc hsc).trans hs, rfl, rfl⟩,
    fun i s hi hs o ho => ?_, h.symbol_same, fun hv => h.valid (hv.addScope hsc name)⟩
  rcases Nat.eq_or_lt_of_le hi with rfl | hlt
  · -- the new scope itself
    obtain rfl := Option.some.inj (hx.symm.trans hs)
    rw [houter] at ho
    exact .inl ho
  · rcases h.inner i s (by omega) hs o ho with ho | ho
    · rw [chain_of_scope? hself] at ho
      rcases List.mem_cons.mp ho with rfl | ho
      · exact .inr (Nat.le_refl _)
      · exact .inl ho
    · exact .inr (by omega)

/-! ### Frames of grown tables -/

/-- A scope is in its own chain. -/
theorem mem_chain_self {t : Table} {i : ScopeId} (h : i < t.scopes.length) : i ∈ t.chain i := by
  obtain ⟨s, hs⟩ := exists_scope? h
  rw [chain_of_scope? hs]
  exact List.mem_cons_self

theorem lt_of_mem_chain {t : Table} {i j : ScopeId} (h : i ∈ t.chain j) : j < t.scopes.length := by
  unfold chain at h
  split at h
  · next s hs => exact scope?_lt hs
  · cases h

/-- A number without a scope has no chain. -/
theorem chain_eq_nil {t : Table} {i : ScopeId} (h : t.scopes.length ≤ i) : t.chain i = [] := by
  have hnone : t.scope? i = none := List.getElem?_eq_none h
  simp [chain, hnone]

/-- Chains of old scopes stay when a scope is made. -/
theorem chain_addScope_of_lt {t : Table} {i : ScopeId} (o : Option ScopeId) (name : Text)
    (hi : i < t.scopes.length) : (t.addScope o name).1.chain i = t.chain i := by
  unfold chain
  rw [scope?_addScope_of_lt o name hi]

/-- The chain of a new scope is that of the scope around it, with the new one in front. -/
theorem chain_addScope_self (t : Table) (o : ScopeId) (name : Text) :
    (t.addScope (some o) name).1.chain t.scopes.length = t.scopes.length :: t.chain o := by
  obtain ⟨n, hself⟩ := scope?_addScope_self t o name
  exact chain_of_scope? hself

theorem namesOf_congr {t t' : Table} {id : ScopeId} (h : t'.scope? id = t.scope? id) :
    t'.namesOf id = t.namesOf id := by
  unfold namesOf
  rw [h]

/-- Frames are read off scopes. -/
theorem frames_of_scopes {t t' : Table} (h : t'.scopes = t.scopes) {id : ScopeId} :
    t'.frames id = t.frames id := by
  unfold frames chain namesOf scope?
  rw [h]

/-- Chains of old scopes stay. -/
theorem Extends.chain_eq {sc : ScopeId} {t t' : Table} (h : Extends sc t t') {id : ScopeId}
    (hid : id < t.scopes.length) : t'.chain id = t.chain id := by
  have hs : t.scope? id = some t.scopes[id] := List.getElem?_eq_getElem hid
  by_cases hne : id = sc
  · subst hne
    -- the scope that is read gets names, but it lies where it lay
    obtain ⟨s', hs', ho, -⟩ := h.outer_eq _ hs
    rw [chain_of_scope? hs', chain_of_scope? hs, ho]
  · unfold chain
    rw [h.scope_eq id hid hne]

/-- Scopes that do not lie inside `sc` see what they saw before. -/
theorem Extends.frames_eq {sc : ScopeId} {t t' : Table} (h : Extends sc t t') (hv : t.Valid)
    {id : ScopeId} (hid : id < t.scopes.length) (hsc : sc ∉ t.chain id) :
    t'.frames id = t.frames id := by
  unfold frames
  rw [h.chain_eq hid]
  refine List.map_congr_left fun o ho => namesOf_congr (h.scope_eq o ?_ ?_)
  · exact Nat.lt_of_le_of_lt (hv.chain_le ho) hid
  · rintro rfl
    exact hsc ho

/-- Symbols that are the same, if perhaps in another state, mean the same. -/
theorem reveal_eq_of_same {t t' : Table} {names : List (Text × SymbolId)}
    (h : ∀ b ∈ names, ∃ sym, t.symbol? b.2 = some sym ∧ sym.name = b.1)
    (hsame : ∀ i s, t.symbol? i = some s → ∃ s', t'.symbol? i = some s' ∧ s.Same s') :
    t'.reveal names = t.reveal names := by
  unfold reveal
  refine List.filterMap_congr fun b hb => ?_
  obtain ⟨sym, hsym, -⟩ := h b hb
  obtain ⟨sym', hsym', hs⟩ := hsame _ sym hsym
  rw [hsym, hsym', Option.map_some, Option.map_some, hs.entry]

/-- With the same frames, names mean the same. -/
theorem Extends.view_eq {sc : ScopeId} {t t' : Table} (h : Extends sc t t') (hv : t.Valid)
    {id : ScopeId} (hframes : t'.frames id = t.frames id) : t'.view id = t.view id := by
  unfold view
  rw [hframes]
  refine List.map_congr_left fun names hnames => ?_
  obtain ⟨o, -, rfl⟩ := List.mem_map.mp hnames
  exact reveal_eq_of_same (fun b hb => hv.bound_of_mem hb) h.symbol_same

/-- An inner scope is not among the scopes around an outer one. -/
theorem Valid.not_mem_chain {t : Table} (h : t.Valid) {id i : ScopeId} (hi : id < i) :
    i ∉ t.chain id :=
  fun hmem => Nat.not_lt.mpr (h.chain_le hmem) hi

/-- The frames of a new scope: an empty one in front of those around it. -/
theorem frames_addScope {t : Table} (h : t.Valid) {o : ScopeId} (ho : o < t.scopes.length)
    (name : Text) :
    (t.addScope (some o) name).1.frames t.scopes.length = [] :: t.frames o := by
  obtain ⟨n, hself⟩ := scope?_addScope_self t o name
  unfold frames
  rw [chain_of_scope? hself, List.map_cons]
  congr 1
  · unfold namesOf
    rw [hself]
  · refine List.map_congr_left fun i hi => namesOf_congr (scope?_addScope_of_lt _ _ ?_)
    exact Nat.lt_of_le_of_lt (h.chain_le hi) ho

/-- In a new scope everything means what it means around it. -/
theorem view_addScope {t : Table} (h : t.Valid) {o : ScopeId} (ho : o < t.scopes.length)
    (name : Text) : (t.addScope (some o) name).1.view t.scopes.length = [] :: t.view o := by
  unfold view
  rw [frames_addScope h ho]
  rfl

/-- A new scope does not change what the old ones see. -/
theorem frames_addScope_of_lt {t : Table} (h : t.Valid) {id o : ScopeId}
    (hid : id < t.scopes.length) (name : Text) :
    (t.addScope (some o) name).1.frames id = t.frames id := by
  have hscope : ∀ i, i < t.scopes.length →
      (t.addScope (some o) name).1.scope? i = t.scope? i :=
    fun i hi => scope?_addScope_of_lt _ _ hi
  unfold frames chain
  rw [hscope id hid]
  split
  · next s hs =>
    refine List.map_congr_left fun i hi => namesOf_congr (hscope i ?_)
    rcases List.mem_cons.mp hi with rfl | hi
    · exact hid
    · exact Nat.lt_trans (h.outer_lt id s hs i hi) hid
  · rfl

/-- What an outer scope sees after an inner one was read: what it saw before. -/
theorem Extends.frames_of_inner {t t' : Table} {sc : ScopeId} {name : Text} (hv : t.Valid)
    (hsc : sc < t.scopes.length)
    (h : Extends t.scopes.length (t.addScope (some sc) name).1 t') :
    t'.frames sc = t.frames sc := by
  have hv' := hv.addScope hsc name
  have hlt : sc < (t.addScope (some sc) name).1.scopes.length := by
    simp only [addScope, List.length_append, List.length_singleton]
    exact Nat.lt_succ_of_lt hsc
  rw [h.frames_eq hv' hlt (hv'.not_mem_chain hsc), frames_addScope_of_lt hv hsc]

/-- A name is bound at the end of the names of its scope. -/
theorem namesOf_bound {t : Table} {sc : ScopeId} (hsc : sc < t.scopes.length)
    (b : Text × SymbolId) : (t.bound sc b).namesOf sc = t.namesOf sc ++ [b] := by
  have hs : t.scope? sc = some t.scopes[sc] := List.getElem?_eq_getElem hsc
  unfold namesOf
  rw [scope?_bound, if_pos rfl, hs]
  rfl

/-- The frames of a scope with one more name. -/
theorem frames_bound {t : Table} (h : t.Valid) {sc : ScopeId} (hsc : sc < t.scopes.length)
    (b : Text × SymbolId) :
    ∃ outer, t.frames sc = t.namesOf sc :: outer ∧
      (t.bound sc b).frames sc = (t.namesOf sc ++ [b]) :: outer := by
  have hs : t.scope? sc = some t.scopes[sc] := List.getElem?_eq_getElem hsc
  have hs' : (t.bound sc b).scope? sc =
      some { t.scopes[sc] with names := t.scopes[sc].names ++ [b] } := by
    rw [scope?_bound, if_pos rfl, hs]
    rfl
  refine ⟨(t.scopes[sc].outer).map t.namesOf, ?_, ?_⟩
  · unfold frames
    rw [chain_of_scope? hs, List.map_cons]
  · unfold frames
    rw [chain_of_scope? hs', List.map_cons, namesOf_bound hsc b]
    congr 1
    · -- the scopes around `sc` come before it
      refine List.map_congr_left fun i hi => namesOf_congr ?_
      rw [scope?_bound, if_neg (Nat.ne_of_gt (h.outer_lt sc _ hs i hi))]

/-! ### Where scopes stay -/

/-- With one more name in a scope, a scope is where it was. -/
theorem scope?_of_bound {t : Table} {sc i : ScopeId} {b : Text × SymbolId} {s : Scope}
    (hs : (t.bound sc b).scope? i = some s) :
    ∃ s₀, t.scope? i = some s₀ ∧ s.number = s₀.number ∧ s.outer = s₀.outer := by
  rw [scope?_bound] at hs
  split at hs
  · obtain ⟨s₀, hs₀, rfl⟩ := Option.map_eq_some_iff.mp hs
    exact ⟨s₀, hs₀, rfl, rfl⟩
  · exact ⟨s, hs, rfl, rfl⟩

/-- Binding a name leaves all chains. -/
theorem chain_bound (t : Table) (sc : ScopeId) (b : Text × SymbolId) :
    (t.bound sc b).chain = t.chain := by
  funext i
  unfold chain
  rw [scope?_bound]
  by_cases hi : sc = i
  · rw [if_pos hi]
    cases t.scope? i <;> rfl
  · rw [if_neg hi]

/-- Binding a name leaves the names of other scopes. -/
theorem namesOf_bound_of_ne (t : Table) {sc i : ScopeId} (b : Text × SymbolId) (h : sc ≠ i) :
    (t.bound sc b).namesOf i = t.namesOf i :=
  namesOf_congr (by rw [scope?_bound, if_neg h])

/-- Names stay distinct when a new one is bound. -/
theorem Distinct.bound {t : Table} (h : t.Distinct) {sc : ScopeId} (hsc : sc < t.scopes.length)
    {b : Text × SymbolId} (hnew : b.1 ∉ (t.namesOf sc).map Prod.fst) : (t.bound sc b).Distinct := by
  intro i
  by_cases hi : sc = i
  · subst hi
    rw [namesOf_bound hsc, List.map_append, List.map_singleton, ← List.concat_eq_append]
    exact (h sc).concat hnew
  · rw [namesOf_bound_of_ne t _ hi]
    exact h i

/-- Making a scope adds one. -/
theorem length_addScope (t : Table) (outer : Option ScopeId) (name : Text) :
    (t.addScope outer name).1.scopes.length = t.scopes.length + 1 := by
  simp [addScope]

/-- A scope of a table with one more is an old one or the new one. -/
theorem scope?_of_addScope {t : Table} {outer : Option ScopeId} {name : Text} {i : ScopeId}
    {s : Scope} (hs : (t.addScope outer name).1.scope? i = some s) :
    t.scope? i = some s ∨ i = t.scopes.length ∧ s.names = [] ∧
      (outer = none → s.number = 0 ∧ s.outer = []) ∧
      ∀ o, outer = some o → s.number = t.treeSize (t.root o) ∧ s.outer = t.chain o := by
  by_cases hi : i < t.scopes.length
  · rw [scope?_addScope_of_lt _ _ hi] at hs
    exact .inl hs
  · have hlt := scope?_lt hs
    rw [length_addScope] at hlt
    obtain rfl : i = t.scopes.length := Nat.le_antisymm (Nat.le_of_lt_succ hlt) (Nat.not_lt.mp hi)
    have hself := Option.some.inj ((List.getElem?_concat_length).symm.trans hs)
    refine .inr ⟨rfl, ?_⟩
    cases outer with
    | none =>
      obtain rfl := hself
      exact ⟨rfl, fun _ => ⟨rfl, rfl⟩, fun o ho => nomatch ho⟩
    | some o =>
      obtain rfl := hself
      refine ⟨rfl, fun ho => (nomatch ho), ?_⟩
      rintro _ ⟨⟩
      exact ⟨rfl, rfl⟩

/-- Old scopes stay in their trees. -/
theorem root_addScope_of_lt {t : Table} {i : ScopeId} (outer : Option ScopeId) (name : Text)
    (hi : i < t.scopes.length) : (t.addScope outer name).1.root i = t.root i := by
  unfold root
  rw [chain_addScope_of_lt _ _ hi]

/-- A new scope has no names, as a number without a scope has none. -/
theorem namesOf_addScope (t : Table) (outer : Option ScopeId) (name : Text) (i : ScopeId) :
    (t.addScope outer name).1.namesOf i = t.namesOf i := by
  by_cases hi : i < t.scopes.length
  · exact namesOf_congr (scope?_addScope_of_lt _ _ hi)
  · have hnone : t.scope? i = none := List.getElem?_eq_none (Nat.not_lt.mp hi)
    unfold namesOf
    rw [hnone]
    cases hs : (t.addScope outer name).1.scope? i with
    | none => rfl
    | some s =>
      rcases scope?_of_addScope hs with hs | ⟨-, hnames, -⟩
      · exact absurd (scope?_lt hs) hi
      · exact hnames

/-- A binding stays when a name is bound. -/
theorem findIn?_bound {t : Table} {i : ScopeId} {x : Text} {k : SymbolId}
    (h : t.findIn? i x = some k) (sc : ScopeId) (b : Text × SymbolId) :
    (t.bound sc b).findIn? i x = some k := by
  obtain ⟨s, hs, hfind⟩ := Option.bind_eq_some_iff.mp h
  unfold findIn?
  rw [scope?_bound, hs]
  split
  · -- the first binding of a name is among the old ones
    obtain ⟨c, hc, rfl⟩ := Option.map_eq_some_iff.mp hfind
    simp only [Option.map_some, Option.bind_some, Scope.find?, List.find?_append, hc,
      Option.some_or]
  · exact hfind

/-! ### Declarations -/

/-- A scope does not have a name: nothing is found under it. -/
theorem findIn?_eq_none_iff {t : Table} {sc : ScopeId} {x : Text} :
    t.findIn? sc x = none ↔ x ∉ (t.namesOf sc).map Prod.fst := by
  rw [findIn?_eq_lookup, List.lookup_eq_none_iff]
  simp only [List.mem_map, not_exists, not_and, bne_iff_ne, ne_eq]
  exact ⟨fun h b hb hx => h b hb hx.symm, fun h b hb hx => h b hb hx.symm⟩

/-- Where names are bound to symbols that are there, a name is free if it is not listed. -/
theorem Valid.bind_findIn?_eq_none_iff {t : Table} (h : t.Valid) (sc : ScopeId) (x : Text) :
    (t.findIn? sc x).bind t.symbol? = none ↔ x ∉ (t.namesOf sc).map Prod.fst := by
  rw [← findIn?_eq_none_iff]
  cases hx : t.findIn? sc x with
  | none => simp
  | some i =>
    obtain ⟨sym, hsym, -⟩ := h.symbol_of_findIn? hx
    simp [hsym]

/-- **What the declaration of a new name in scope `sc` does to a table**: it has one more symbol,
and the scope has one more name. -/
structure Declared (sc : ScopeId) (s : Symbol) (t t' : Table) : Prop where
  grown : Extends sc t t'
  length : t'.symbols.length = t.symbols.length + 1
  old : ∀ i, i < t.symbols.length → t'.symbol? i = t.symbol? i
  new : ∃ s', t'.symbol? t.symbols.length = some s' ∧ s'.name = s.name ∧ s'.content = s.content
  frames : ∃ outer, t.frames sc = t.namesOf sc :: outer ∧
    t'.frames sc = (t.namesOf sc ++ [(s.name, t.symbols.length)]) :: outer

/-- Adding a symbol, binding it and giving it its augmented name is a declaration. -/
theorem Valid.declared {t : Table} (h : t.Valid) {sc : ScopeId} (hsc : sc < t.scopes.length)
    {s : Symbol} (hs : s.Typed) {f : Symbol → Symbol}
    (hf : ∀ s, ∃ a, f s = { s with augmented := a }) :
    Declared sc s t
      (((t.addSymbol s).1.bound sc (s.name, t.symbols.length)).modify t.symbols.length f) := by
  have hself := symbol?_addSymbol_self t s
  have hsame := Symbol.same_of_augmented hf
  have hadd := extends_addSymbol sc t hs
  have hbound : Extends sc (t.addSymbol s).1
      ((t.addSymbol s).1.bound sc (s.name, t.symbols.length)) := extends_bound sc hself rfl
  -- the three steps extend the table one after the other
  refine ⟨hadd.trans (hbound.trans (extends_modify sc _ _ hsame)), ?_, fun i hi => ?_, ?_, ?_⟩
  · simp [modify, Table.bound, addSymbol]
  · rw [symbol?_modify, if_neg (Nat.ne_of_gt hi)]
    exact symbol?_addSymbol_of_lt s hi
  · obtain ⟨a, ha⟩ := hf s
    refine ⟨f s, ?_, by rw [ha], by rw [ha]⟩
    rw [symbol?_modify, if_pos rfl]
    exact (congrArg (Option.map f) hself).trans rfl
  · exact frames_bound (hadd.valid h) hsc (s.name, t.symbols.length)

/-- A declaration in the view: the scope ends in the new name. -/
theorem Declared.view {sc : ScopeId} {s : Symbol} {t t' : Table} (h : Declared sc s t t')
    (hv : t.Valid) :
    ∃ names Γ, t.view sc = names :: Γ ∧ t'.view sc = (names ++ [(s.name, s.entry)]) :: Γ := by
  obtain ⟨outer, hframes, hframes'⟩ := h.frames
  have hreveal : ∀ names ∈ t.frames sc, t'.reveal names = t.reveal names := by
    intro names hnames
    obtain ⟨o, -, rfl⟩ := List.mem_map.mp hnames
    exact reveal_eq_of_same (fun b hb => hv.bound_of_mem hb) h.grown.symbol_same
  rw [hframes] at hreveal
  -- all that is old means the same in both tables, and the new name means the new symbol
  refine ⟨t.reveal (t.namesOf sc), outer.map t.reveal, ?_, ?_⟩
  · rw [Table.view, hframes, List.map_cons]
  · obtain ⟨s', hs', -, hc⟩ := h.new
    have hnew : t'.reveal [(s.name, t.symbols.length)] = [(s.name, s.entry)] := by
      simp [reveal, hs', Symbol.entry, hc]
    rw [Table.view, hframes', List.map_cons, ← hnew, ← hreveal _ List.mem_cons_self]
    congr 1
    · exact List.filterMap_append
    · exact List.map_congr_left fun names hnames =>
        hreveal names (List.mem_cons_of_mem _ hnames)

end Table
end Slang
