import Mathlib.Data.List.Forall2
import Slang.Proofs.Alike
import Slang.Proofs.Confined
import Slang.Proofs.Outline.Sections

/-!
# Two runs on the same statements

The same statements are analysed twice, in tables that differ: scopes and symbols may have other
numbers, two names of the whole program may have been declared in another order, and the second run
may know less of values. `Renaming` says how the second run comes from the first one. This module has
the relations between what the two runs have and find, and follows the two runs through an
expression (`renamed_check`):

* types are the same;
* what the second run knows of a value, the first one knows as well;
* the findings are the same, but the second run may miss that constants overflow or divide by zero.

Unless the second run is `lossy`, values and findings are the same. Even then a symbol that is not
`shown` may be known in the first run only. This is for globals, whose values are not used in
functions.
-/

namespace Slang

/-! ### Lists with some members left out -/

/-- **A list without some of its members**, each of which satisfies `p`. -/
inductive Without {α : Type} (p : α → Prop) : List α → List α → Prop
  | nil : Without p [] []
  | keep (a : α) {l l' : List α} (h : Without p l l') : Without p (a :: l) (a :: l')
  | drop (a : α) (ha : p a) {l l' : List α} (h : Without p l l') : Without p (a :: l) l'

namespace Without

variable {α β : Type} {p : α → Prop} {l l' k k' : List α}

/-- Nothing has to be left out. -/
theorem refl (l : List α) : Without p l l := by
  induction l with
  | nil => exact .nil
  | cons a l ih => exact .keep a ih

/-- Two lists one after the other. -/
theorem append (h : Without p l l') (h' : Without p k k') : Without p (l ++ k) (l' ++ k') := by
  induction h with
  | nil => exact h'
  | keep a _ ih => exact .keep a ih
  | drop a ha _ ih => exact .drop a ha ih

/-- Where nothing may be left out, nothing is. -/
theorem eq (h : Without p l l') (hp : ∀ a, ¬p a) : l' = l := by
  induction h with
  | nil => rfl
  | keep a _ ih => rw [ih]
  | drop a ha _ ih => exact absurd ha (hp a)

/-- What is left out of a list is left out of its images. -/
theorem map {q : β → Prop} (f : α → β) (hf : ∀ a, p a → q (f a)) (h : Without p l l') :
    Without q (l.map f) (l'.map f) := by
  induction h with
  | nil => exact .nil
  | keep a _ ih => exact .keep (f a) ih
  | drop a ha _ ih => exact .drop (f a) (hf a ha) ih

/-- What is left out of a list can be left out in any other order of it. -/
theorem perm (h : Without p l l') (hk : l.Perm k) : ∃ k', Without p k k' ∧ l'.Perm k' := by
  -- on how the list is put in order; what was left out stays out in each step
  induction hk generalizing l' with
  | nil =>
    cases h
    exact ⟨[], .nil, .nil⟩
  | cons a _ ih =>
    cases h with
    | keep _ h =>
      obtain ⟨k', hk', hperm⟩ := ih h
      exact ⟨a :: k', .keep a hk', hperm.cons a⟩
    | drop _ ha h =>
      obtain ⟨k', hk', hperm⟩ := ih h
      exact ⟨k', .drop a ha hk', hperm⟩
  | swap a b l =>
    cases h with
    | keep _ h =>
      cases h with
      | keep _ h => exact ⟨_, .keep a (.keep b h), .swap a b _⟩
      | drop _ ha h => exact ⟨_, .drop a ha (.keep b h), .refl _⟩
    | drop _ hb h =>
      cases h with
      | keep _ h => exact ⟨_, .keep a (.drop b hb h), .refl _⟩
      | drop _ ha h => exact ⟨_, .drop a ha (.drop b hb h), .refl _⟩
  | trans _ _ ih₁ ih₂ =>
    obtain ⟨k₁, hk₁, hperm₁⟩ := ih₁ h
    obtain ⟨k₂, hk₂, hperm₂⟩ := ih₂ hk₁
    exact ⟨k₂, hk₂, hperm₁.trans hperm₂⟩

/-- Lists that are joined, each of them without some members. -/
theorem flatMap {l : List β} {l' : List β} {f f' : β → List α}
    (h : List.Forall₂ (fun a b => Without p (f a) (f' b)) l l') :
    Without p (l.flatMap f) (l'.flatMap f') := by
  induction h with
  | nil => exact .nil
  | cons h _ ih => exact h.append ih

end Without

/-- Whether a finding is about constants that overflow or divide by zero. -/
def Finding.IsFoldError (f : Finding) : Prop :=
  f.what = .folding .overflow ∨ f.what = .folding .divisionByZero

/-! ### What symbols refer to -/

/-- A symbol that may be added to a table with some symbols: its types are sound, its augmented name
is plain, and its parameters are there. -/
structure Symbol.Admitted (n : Nat) (s : Symbol) : Prop where
  typed : s.Typed
  augmented : s.augmented = s.name
  params : ∀ p ∈ s.params, p.id < n

namespace Table

/-- **Symbols refer to what is there**: an augmented name ends in the number of a scope, and the
parameters of a function are symbols. -/
structure Closed (t : Table) : Prop where
  augmented : ∀ k s, t.symbol? k = some s →
    s.augmented = s.name ∨ ∃ i < t.scopes.length, s.augmented = s.name ++ "_" ++ Text.ofNat i
  params : ∀ k s, t.symbol? k = some s → ∀ p ∈ s.params, p.id < t.symbols.length

namespace Closed

variable {t : Table}

/-- A symbol is added. -/
theorem addSymbol (h : t.Closed) {s : Symbol} (hs : s.Admitted t.symbols.length) :
    (t.addSymbol s).1.Closed where
  augmented := by
    intro k x hx
    rcases symbol?_addSymbol hx with hx | rfl
    · exact h.augmented k x hx
    · exact .inl hs.augmented
  params := by
    intro k x hx p hp
    have hlt : p.id < t.symbols.length := by
      rcases symbol?_addSymbol hx with hx | rfl
      · exact h.params k x hx p hp
      · exact hs.params p hp
    simp only [Table.addSymbol, List.length_append, List.length_singleton]
    exact Nat.lt_succ_of_lt hlt

/-- A symbol is changed, but not its parameters. -/
theorem modify (h : t.Closed) (id : SymbolId) {f : Symbol → Symbol}
    (hf : ∀ s, (f s).params = s.params ∧ (f s).name = s.name ∧
      ((f s).augmented = s.augmented ∨ (f s).augmented = s.name ∨
        ∃ i < t.scopes.length, (f s).augmented = s.name ++ "_" ++ Text.ofNat i)) :
    (t.modify id f).Closed where
  -- the names of other symbols stay; that of the changed one stays, is plain, or ends in a scope's
  -- number
  augmented := by
    intro k x hx
    rw [symbol?_modify] at hx
    split at hx
    · obtain ⟨y, hy, rfl⟩ := Option.map_eq_some_iff.mp hx
      obtain ⟨-, hname, haugmented⟩ := hf y
      rw [hname]
      rcases haugmented with heq | heq
      · rw [heq]
        exact h.augmented k y hy
      · exact heq
    · exact h.augmented k x hx
  params := by
    intro k x hx p hp
    simp only [Table.modify, List.length_modify]
    rw [symbol?_modify] at hx
    split at hx
    · obtain ⟨y, hy, rfl⟩ := Option.map_eq_some_iff.mp hx
      rw [(hf y).1] at hp
      exact h.params k y hy p hp
    · exact h.params k x hx p hp

/-- A name is put into a scope. -/
theorem bound (h : t.Closed) (sc : ScopeId) (b : Text × SymbolId) : (t.bound sc b).Closed where
  augmented := by
    simp only [Table.bound, List.length_modify]
    exact h.augmented
  params := h.params

/-- A scope is added. -/
theorem addScope (h : t.Closed) (outer : Option ScopeId) (name : Text) :
    (t.addScope outer name).1.Closed where
  augmented := by
    intro k s hs
    rw [length_addScope]
    refine (h.augmented k s hs).imp_right ?_
    rintro ⟨i, hi, heq⟩
    exact ⟨i, Nat.lt_succ_of_lt hi, heq⟩
  params := h.params

end Closed
end Table

namespace Analysis

/-! ### Renamings -/

/-- **How a second run comes from a first one.** -/
structure Renaming where
  /-- The number that a scope has in the second run. -/
  scope : ScopeId → ScopeId
  /-- The number that a symbol has in the second run. -/
  symbol : SymbolId → SymbolId
  /-- Names of the whole program that may have changed places. -/
  swapped : List Text
  /-- Whether the second run may know less of values. -/
  lossy : Bool
  /-- The symbols of which both runs know the same. -/
  shown : SymbolId → Bool
  /-- The scopes from here on see nothing else but globals. -/
  base : ScopeId
  /-- What each of the runs has found before. -/
  before : List Finding
  before' : List Finding
  scope_injective : Function.Injective scope
  symbol_injective : Function.Injective symbol
  scope_global : scope globalScope = globalScope
  nodup_swapped : swapped.Nodup

namespace Renaming

variable (m : Renaming)

/-- A name of the second run. -/
def binding (b : Text × SymbolId) : Text × SymbolId := (b.1, m.symbol b.2)

/-- A parameter in the second run. -/
def param (p : Param) : Param := { p with id := m.symbol p.id }

/-- A function in the second run, while its body is read. -/
def frame (f : Frame) : Frame := { f with params := f.params.map m.symbol }

/-- Whether a finding may be missing in the second run. -/
def Misses (f : Finding) : Prop := m.lossy = true ∧ f.IsFoldError

/-- The findings of both runs. -/
def Findings (fs fs' : List Finding) : Prop := Without m.Misses fs fs'

/-- **The names of a scope in both runs**: the same in the same order, but of the whole program two
neighbours may have changed places. -/
def Names (i : ScopeId) (l l' : List (Text × SymbolId)) : Prop :=
  ∃ before mid after, l = before ++ mid ++ after ∧
    l' = (before ++ mid.reverse ++ after).map m.binding ∧
    (mid.map Prod.fst).Sublist (if i = globalScope then m.swapped else [])

/-- A scope of both runs. -/
structure Scopes (i : ScopeId) (s s' : Scope) : Prop where
  number : s.number = i
  number' : s'.number = m.scope i
  name : s'.name = s.name
  outer : s'.outer = s.outer.map m.scope
  names : m.Names i s.names s'.names

/-- What the two runs store of a symbol. -/
inductive Content (k : SymbolId) : Symbol.Content → Symbol.Content → Prop
  | variable {v v' : Value} {c c' : Bool} (hty : v'.ty = v.ty) (hknown : c' = true → c = true ∧ v' = v)
      (hsame : m.lossy = false → v' = v ∧ c' = (c && m.shown k)) :
      Content k (.variable v c) (.variable v' c')
  | function (params : List Param) (result : Ty) :
      Content k (.function params result) (.function (params.map m.param) result)

/-- The augmented names of a symbol in both runs: none, or with the number of a scope. -/
def Augmented (s s' : Symbol) : Prop :=
  s.augmented = s.name ∧ s'.augmented = s.name ∨
    ∃ i, s.augmented = s.name ++ "_" ++ Text.ofNat i ∧
      s'.augmented = s.name ++ "_" ++ Text.ofNat (m.scope i)

/-- A symbol of both runs. -/
structure Symbols (k : SymbolId) (s s' : Symbol) : Prop where
  name : s'.name = s.name
  line : s'.line = s.line
  inferred : s'.inferred = s.inferred
  augmented : m.Augmented s s'
  content : m.Content k s.content s'.content

/-- **The tables of both runs.** The second one may have more scopes and symbols, of which the first
one does not know. What is made next has corresponding numbers. -/
structure Tables (t t' : Table) : Prop where
  scopes : ∀ i s, t.scope? i = some s → ∃ s', t'.scope? (m.scope i) = some s' ∧ m.Scopes i s s'
  symbols : ∀ k s, t.symbol? k = some s →
    ∃ s', t'.symbol? (m.symbol k) = some s' ∧ m.Symbols k s s'
  nextScope : ∀ n, m.scope (t.scopes.length + n) = t'.scopes.length + n
  nextSymbol : ∀ n, m.symbol (t.symbols.length + n) = t'.symbols.length + n
  tree : t.OneTree
  tree' : t'.OneTree
  valid : t.Valid
  closed : t.Closed
  confined : t.Confined m.base fun k => m.shown k = true

/-- The contexts of both runs. -/
structure Contexts (ctx ctx' : Context) : Prop where
  options : ctx'.options = ctx.options
  global : ctx.global = globalScope
  global' : ctx'.global = globalScope
  scope : ctx'.scope = m.scope ctx.scope
  fn : ctx'.fn = ctx.fn.map m.frame
  mutated : ∀ x, x ∈ ctx.mutated → x ∈ ctx'.mutated
  mutated' : m.lossy = false → ∀ x, x ∈ ctx'.mutated → x ∈ ctx.mutated

/-- **Where the second run may hide something**: in functions, and in scopes that see nothing of it
but globals. -/
structure Placed (ctx : Context) : Prop where
  base : m.base ≤ ctx.scope
  fn : ∀ k, m.shown k = false → ctx.fn.isSome = true

/-- What the two runs know about an expression. -/
structure Checks (c c' : Checked) : Prop where
  ty : c'.ty = c.ty
  value : ∀ v, c'.value = some v → c.value = some v
  same : m.lossy = false → c'.value = c.value
  typed : ∀ v, c.value = some v → v.ty = c.ty
  findings : m.Findings c.findings c'.findings

end Renaming

section
variable {m : Renaming}

/-! ### Names -/

/-- Renamed symbols are found under the same names. -/
theorem Renaming.lookup_map_binding (l : List (Text × SymbolId)) (x : Text) :
    (l.map m.binding).lookup x = (l.lookup x).map m.symbol := by
  induction l with
  | nil => rfl
  | cons b l ih =>
    obtain ⟨y, k⟩ := b
    rw [List.map_cons, List.lookup_cons, ih, List.lookup_cons]
    unfold Renaming.binding
    dsimp only
    cases x == y <;> rfl

/-- Where no name is listed twice, names are found in any order. -/
theorem lookup_reverse {l : List (Text × SymbolId)} (h : (l.map Prod.fst).Nodup) (x : Text) :
    l.reverse.lookup x = l.lookup x := by
  have h' : (l.reverse.map Prod.fst).Nodup := ((List.reverse_perm l).map Prod.fst).nodup_iff.mpr h
  refine Option.ext fun k => ⟨fun hk => ?_, fun hk => ?_⟩
  · exact Table.lookup_of_mem h (List.mem_reverse.mp (Table.mem_of_lookup hk))
  · exact Table.lookup_of_mem h' (List.mem_reverse.mpr (Table.mem_of_lookup hk))

namespace Renaming.Names

variable {i : ScopeId} {l l' : List (Text × SymbolId)}

/-- No names. -/
theorem nil : m.Names i [] [] := ⟨[], [], [], rfl, rfl, List.nil_sublist _⟩

/-- A name at the end of a scope, in both runs. -/
theorem append (h : m.Names i l l') (b : Text × SymbolId) :
    m.Names i (l ++ [b]) (l' ++ [m.binding b]) := by
  obtain ⟨before, mid, after, rfl, rfl, hmid⟩ := h
  exact ⟨before, mid, after ++ [b], by simp, by simp, hmid⟩

/-- **A name is found in both runs or in neither**, wherever it has moved to. -/
theorem lookup (h : m.Names i l l') (x : Text) : l'.lookup x = (l.lookup x).map m.symbol := by
  obtain ⟨before, mid, after, rfl, rfl, hmid⟩ := h
  have hnodup : (mid.map Prod.fst).Nodup := by
    refine hmid.nodup ?_
    split
    · exact m.nodup_swapped
    · exact List.nodup_nil
  rw [Renaming.lookup_map_binding, List.lookup_append, List.lookup_append, List.lookup_append,
    List.lookup_append, lookup_reverse hnodup]

end Renaming.Names

/-! ### Tables -/

namespace Renaming.Tables

variable {t t' : Table}

/-- A scope that the first run does not have is missing in the second. -/
theorem scope?_eq_none (h : m.Tables t t') {i : ScopeId} (hi : t.scope? i = none) :
    t'.scope? (m.scope i) = none := by
  have hle := List.getElem?_eq_none_iff.mp hi
  obtain ⟨n, rfl⟩ := Nat.exists_eq_add_of_le hle
  rw [h.nextScope]
  exact List.getElem?_eq_none (Nat.le_add_right _ _)

/-- A scope of the first run is one of the second. -/
theorem scope_lt (h : m.Tables t t') {i : ScopeId} (hi : i < t.scopes.length) :
    m.scope i < t'.scopes.length := by
  obtain ⟨s', hs', -⟩ := h.scopes i _ (List.getElem?_eq_getElem hi)
  exact Table.scope?_lt hs'

/-- The scopes around a scope. -/
theorem chain (h : m.Tables t t') (i : ScopeId) :
    t'.chain (m.scope i) = (t.chain i).map m.scope := by
  cases hs : t.scope? i with
  | none =>
    have hnone := h.scope?_eq_none hs
    simp [Table.chain, hs, hnone]
  | some s =>
    obtain ⟨s', hs', hscopes⟩ := h.scopes i s hs
    rw [Table.chain_of_scope? hs, Table.chain_of_scope? hs', hscopes.outer, List.map_cons]

/-- The names of a scope, also of one that is not there. -/
theorem names (h : m.Tables t t') (i : ScopeId) :
    m.Names i (t.namesOf i) (t'.namesOf (m.scope i)) := by
  unfold Table.namesOf
  cases hs : t.scope? i with
  | none =>
    rw [h.scope?_eq_none hs]
    exact .nil
  | some s =>
    obtain ⟨s', hs', hscopes⟩ := h.scopes i s hs
    rw [hs']
    exact hscopes.names

/-- A name is looked up in one scope. -/
theorem findIn? (h : m.Tables t t') (i : ScopeId) (x : Text) :
    t'.findIn? (m.scope i) x = (t.findIn? i x).map m.symbol := by
  rw [Table.findIn?_eq_lookup, Table.findIn?_eq_lookup]
  exact (h.names i).lookup x

/-- Looking a name up in some scopes. -/
theorem findSome? (h : m.Tables t t') (chain : List ScopeId) (x : Text) :
    (chain.map m.scope).findSome? (fun i => t'.findIn? i x) =
      (chain.findSome? fun i => t.findIn? i x).map m.symbol := by
  induction chain with
  | nil => rfl
  | cons i chain ih =>
    rw [List.map_cons, List.findSome?_cons, List.findSome?_cons, h.findIn?, ih]
    cases t.findIn? i x <;> rfl

/-- A name is looked up from a scope outwards. -/
theorem find? (h : m.Tables t t') (i : ScopeId) (x : Text) :
    t'.find? (m.scope i) x = (t.find? i x).map m.symbol := by
  unfold Table.find?
  rw [h.chain]
  exact h.findSome? _ x

/-- A name is looked up around a scope. -/
theorem findOutside? (h : m.Tables t t') (i : ScopeId) (x : Text) :
    t'.findOutside? (m.scope i) x = (t.findOutside? i x).map m.symbol := by
  unfold Table.findOutside?
  rw [h.chain, ← List.map_tail]
  exact h.findSome? _ x

/-- A number stands for a symbol in both runs or in none. -/
theorem symbol? (h : m.Tables t t') (k : SymbolId) :
    (t.symbol? k = none ∧ t'.symbol? (m.symbol k) = none) ∨
      ∃ s s', t.symbol? k = some s ∧ t'.symbol? (m.symbol k) = some s' ∧ m.Symbols k s s' := by
  cases hs : t.symbol? k with
  | none =>
    have hle := List.getElem?_eq_none_iff.mp hs
    obtain ⟨n, rfl⟩ := Nat.exists_eq_add_of_le hle
    refine .inl ⟨rfl, ?_⟩
    rw [h.nextSymbol]
    exact List.getElem?_eq_none (Nat.le_add_right _ _)
  | some s =>
    obtain ⟨s', hs', hsymbols⟩ := h.symbols k s hs
    exact .inr ⟨s, s', rfl, hs', hsymbols⟩

/-- A name stands for a symbol in both runs or in none. -/
theorem bind_symbol? (h : m.Tables t t') (o : Option SymbolId) :
    (o.bind t.symbol? = none ∧ (o.map m.symbol).bind t'.symbol? = none) ∨
      ∃ k s s', o.bind t.symbol? = some s ∧ (o.map m.symbol).bind t'.symbol? = some s' ∧
        m.Symbols k s s' := by
  cases o with
  | none => exact .inl ⟨rfl, rfl⟩
  | some k => exact (h.symbol? k).imp_right fun ⟨s, s', hs, hs', hsymbols⟩ =>
      ⟨k, s, s', hs, hs', hsymbols⟩

end Renaming.Tables

namespace Renaming.Symbols

variable {k : SymbolId} {s s' : Symbol}

/-- A symbol is a variable in both runs, or the same function. -/
theorem cases (h : m.Symbols k s s') :
    (∃ v c v' c', s.content = .variable v c ∧ s'.content = .variable v' c' ∧ v'.ty = v.ty ∧
      (c' = true → c = true ∧ v' = v) ∧ (m.lossy = false → v' = v ∧ c' = (c && m.shown k))) ∨
      ∃ ps result, s.content = .function ps result ∧
        s'.content = .function (ps.map m.param) result := by
  have hcontent := h.content
  generalize s.content = c at hcontent
  generalize s'.content = c' at hcontent
  cases hcontent with
  | «variable» hty hknown hsame => exact .inl ⟨_, _, _, _, rfl, rfl, hty, hknown, hsame⟩
  | function ps result => exact .inr ⟨ps, result, rfl, rfl⟩

/-- Both runs give a symbol the same type. -/
theorem ty (h : m.Symbols k s s') : s'.ty = s.ty := by
  rcases h.cases with ⟨v, c, v', c', hc, hc', hty, -, -⟩ | ⟨ps, result, hc, hc'⟩
  · simp only [Symbol.ty, hc, hc', hty]
  · simp only [Symbol.ty, hc, hc']

/-- Both runs give a function the same parameters. -/
theorem params (h : m.Symbols k s s') : s'.params = s.params.map m.param := by
  rcases h.cases with ⟨v, c, v', c', hc, hc', -, -, -⟩ | ⟨ps, result, hc, hc'⟩
  · simp only [Symbol.params, hc, hc', List.map_nil]
  · simp only [Symbol.params, hc, hc']

/-- Both runs describe a symbol in the same words. -/
theorem describe (h : m.Symbols k s s') : s'.describe = s.describe := by
  rcases h.cases with ⟨v, c, v', c', hc, hc', hty, -, -⟩ | ⟨ps, result, hc, hc'⟩
  · simp only [Symbol.describe, hc, hc', hty, h.name]
  · simp only [Symbol.describe, hc, hc', h.name, List.map_map]
    rfl

end Renaming.Symbols

/-! ### Expressions -/

namespace Renaming.Checks

variable {fs fs' : List Finding}

/-- Neither run knows a type. -/
theorem untyped (h : m.Findings fs fs') : m.Checks (.untyped fs) (.untyped fs') :=
  ⟨rfl, fun _ hv => hv, fun _ => rfl, fun _ hv => (nomatch hv), h⟩

/-- Both runs know the type alone. -/
theorem ofTy (ty : Ty) (h : m.Findings fs fs') : m.Checks (.ofTy ty fs) (.ofTy ty fs') :=
  ⟨rfl, fun _ hv => hv, fun _ => rfl, fun _ hv => (nomatch hv), h⟩

/-- Both runs know a constant. -/
theorem constant {ctx ctx' : Context} (h : m.Contexts ctx ctx') (v : Value) :
    m.Checks (constant ctx v) (constant ctx' v) := by
  have hsame : (Analysis.constant ctx' v).value = (Analysis.constant ctx v).value := by
    unfold Analysis.constant
    rw [h.options]
  refine ⟨rfl, fun w hw => hsame ▸ hw, fun _ => hsame, fun w hw => ?_, .nil⟩
  rw [← constant_value hw]
  rfl

/-- A value that only the first run knows. -/
theorem lost {c : Checked} (hlossy : m.lossy = true) (htyped : ∀ v, c.value = some v → v.ty = c.ty)
    (h : m.Findings c.findings fs') : m.Checks c (.ofTy c.ty fs') :=
  ⟨rfl, fun _ hv => (nomatch hv), fun hl => absurd (hlossy.symm.trans hl) Bool.noConfusion,
    htyped, h⟩

end Renaming.Checks

section
variable {ctx ctx' : Context} {t t' : Table}

/-- A symbol is a global in both runs or in neither. -/
theorem Renaming.Contexts.isGlobal (hctx : m.Contexts ctx ctx') (ht : m.Tables t t')
    (k : SymbolId) (x : Text) :
    isGlobal ctx' t' (m.symbol k) x = isGlobal ctx t k x := by
  unfold Analysis.isGlobal
  rw [hctx.global, hctx.global', ← m.scope_global, ht.findIn?, m.scope_global]
  cases t.findIn? globalScope x with
  | none => rfl
  | some j =>
    refine Bool.eq_iff_iff.mpr ?_
    rw [Option.map_some, beq_iff_eq, beq_iff_eq, Option.some.injEq, Option.some.injEq]
    exact m.symbol_injective.eq_iff

/-- The second run is uncertain where the first one is. -/
theorem Renaming.Contexts.isUncertain (hctx : m.Contexts ctx ctx') (x : Text) :
    (isUncertain ctx x = true → isUncertain ctx' x = true) ∧
      (m.lossy = false → isUncertain ctx' x = isUncertain ctx x) := by
  have hfn : ctx'.fn.isSome = ctx.fn.isSome := by
    rw [hctx.fn]
    exact Option.isSome_map
  unfold Analysis.isUncertain
  rw [hfn]
  refine ⟨?_, fun hlossy => ?_⟩
  · simp only [Bool.or_eq_true, List.contains_iff_mem]
    exact Or.imp_right (hctx.mutated x)
  · refine congrArg _ (Bool.eq_iff_iff.mpr ?_)
    rw [List.contains_iff_mem, List.contains_iff_mem]
    exact ⟨hctx.mutated' hlossy x, hctx.mutated x⟩

/-- What a name stands for is shown, or it is a global that is named in a function. -/
theorem shown_or_global (hctx : m.Contexts ctx ctx') (hplaced : m.Placed ctx)
    (ht : m.Tables t t') {x : Text} {k : SymbolId} {s : Symbol}
    (hfind : t.find? ctx.scope x = some k) (hs : t.symbol? k = some s) :
    m.shown k = true ∨ isGlobal ctx t k s.name = true ∧ ctx.fn.isSome = true := by
  cases hk : m.shown k with
  | true => exact .inl rfl
  | false =>
    refine .inr ⟨?_, hplaced.fn k hk⟩
    obtain ⟨s₀, hs₀, hname⟩ := ht.valid.symbol_of_find? hfind
    obtain rfl := Option.some.inj (hs₀.symm.trans hs)
    have hglobal := (ht.confined.find? hplaced.base hfind).resolve_left (by simp [hk])
    unfold isGlobal
    rw [hctx.global, hname, hglobal]
    exact beq_self_eq_true _

/-- A variable by its name. If the second run uses its value, so does the first one. -/
theorem Renaming.Checks.ofVariable (hctx : m.Contexts ctx ctx') {v v' : Value} (hty : v'.ty = v.ty)
    {use use' : Bool} (huse : use' = true → use = true ∧ v' = v)
    (hsame : m.lossy = false → v' = v ∧ use' = use) :
    m.Checks (if use then Analysis.constant ctx v else .ofTy v.ty [])
      (if use' then Analysis.constant ctx' v' else .ofTy v'.ty []) := by
  cases use' with
  | true =>
    obtain ⟨rfl, rfl⟩ := huse rfl
    exact .constant hctx _
  | false =>
    rw [if_neg Bool.false_ne_true, hty]
    cases use with
    | false => exact .ofTy _ .nil
    | true =>
      -- the first run uses the value and the second does not: that happens in a lossy renaming only
      have hlossy : m.lossy = true := by
        cases hl : m.lossy with
        | true => rfl
        | false => exact absurd (hsame hl).2 Bool.false_ne_true
      refine .lost (c := Analysis.constant ctx v) hlossy (fun w hw => ?_) .nil
      rw [← constant_value hw]
      rfl

/-- **A name in both runs**: its type is the same, and a value that the second run uses is the one the
first run uses. -/
theorem renamed_checkName (hctx : m.Contexts ctx ctx') (hplaced : m.Placed ctx)
    (ht : m.Tables t t') (i : Ident) : m.Checks (checkName ctx t i) (checkName ctx' t' i) := by
  unfold checkName
  rw [hctx.scope, ht.find?]
  cases hfind : t.find? ctx.scope i.name with
  | none => exact .untyped (.refl _)
  | some k =>
    dsimp only [Option.map_some]
    rcases ht.symbol? k with ⟨hs, hs'⟩ | ⟨s, s', hs, hs', hsymbols⟩
    · rw [hs, hs']
      exact .untyped (.refl _)
    · rw [hs, hs']
      dsimp only
      rcases hsymbols.cases with ⟨v, c, v', c', hc, hc', hty, hknown, hsame⟩ | ⟨ps, result, hc, hc'⟩
      · rw [hc, hc']
        dsimp only
        rw [hctx.isGlobal ht, hsymbols.name]
        obtain ⟨hle, heq⟩ := hctx.isUncertain s.name
        refine .ofVariable hctx hty (fun huse => ?_) fun hlossy => ?_
        · -- the second run uses the value: it is known in the first run too, and no less certain there
          rw [Bool.and_eq_true] at huse
          obtain ⟨rfl, rfl⟩ := hknown huse.1
          refine ⟨?_, rfl⟩
          have huncertain := huse.2
          cases hg : isGlobal ctx t k s.name <;> cases hu : isUncertain ctx s.name <;>
            simp_all
        · -- nothing is lost: the two runs can differ only on a symbol that is hidden
          obtain ⟨rfl, rfl⟩ := hsame hlossy
          refine ⟨rfl, ?_⟩
          rw [heq hlossy]
          rcases shown_or_global hctx hplaced ht hfind hs with hshown | ⟨hglobal, hfn⟩
          · rw [hshown, Bool.and_true]
          · -- the value of a global is not used in a function
            have huncertain : isUncertain ctx s.name = true := by
              unfold isUncertain
              rw [hfn, Bool.true_or]
            rw [hglobal, huncertain]
            simp
      · rw [hc, hc']
        exact .untyped (.refl _)

/-! ### Operators -/

/-- A result of folding that the second run may not know. -/
theorem renamed_folded (tok : Token) {ty : Ty} {fs fs' : List Finding} (hfs : m.Findings fs fs')
    {r : Except FoldError Value} (hok : ∀ v, r = .ok v → v.ty = ty)
    (herror : ∀ e, r = .error e → e = .overflow ∨ e = .divisionByZero) :
    m.Checks (folded tok ty fs r) (folded tok ty fs' r) ∧
      (m.lossy = true → m.Checks (folded tok ty fs r) (.ofTy ty fs')) := by
  cases r with
  | ok v =>
    have htyped : ∀ w, some v = some w → w.ty = ty := by
      rintro w ⟨⟩
      exact hok v rfl
    refine ⟨⟨rfl, fun w hw => hw, fun _ => rfl, htyped, hfs⟩, fun hlossy => ?_⟩
    exact .lost (c := ⟨ty, some v, fs⟩) hlossy htyped hfs
  | error e =>
    refine ⟨.ofTy ty (hfs.append (.refl _)), fun hlossy => .ofTy ty ?_⟩
    -- a fold error that the second run misses, as it does not know the operands
    have hmissed : m.Misses (tok.finding (.folding e)) := by
      refine ⟨hlossy, ?_⟩
      rcases herror e rfl with rfl | rfl
      · exact .inl rfl
      · exact .inr rfl
    rw [← List.append_nil fs']
    exact hfs.append (.drop _ hmissed .nil)

/-- What the first run does not know, the second run does not know. -/
theorem Renaming.Checks.value_eq_none {c c' : Checked} (hc : m.Checks c c') (hv : c.value = none) :
    c'.value = none := by
  cases hv' : c'.value with
  | none => rfl
  | some w => cases hv.symm.trans (hc.value w hv')

/-- Only a run that may lose values does not know what the first run knows. -/
theorem Renaming.Checks.lossy {c c' : Checked} (hc : m.Checks c c') {v : Value}
    (hv : c.value = some v) (hv' : c'.value = none) : m.lossy = true := by
  cases hl : m.lossy with
  | true => rfl
  | false => cases hv'.symm.trans ((hc.same hl).trans hv)

/-- A prefix operator in both runs. -/
theorem renamed_checkUnary (tok : Token) (op : UnaryOp) {c c' : Checked} (hc : m.Checks c c') :
    m.Checks (checkUnary tok op c) (checkUnary tok op c') := by
  unfold checkUnary
  rw [hc.ty]
  split
  · exact .untyped hc.findings
  · split
    · exact .untyped (hc.findings.append (.refl _))
    · next hty =>
      rw [not_ne_iff] at hty
      cases hv : c.value with
      | none =>
        rw [hc.value_eq_none hv]
        exact .ofTy _ hc.findings
      | some v =>
        have hfolded := renamed_folded tok hc.findings (r := op.fold v)
          (fun w hw => ty_of_unary_fold hw)
          (fun e he => .inl (unary_fold_error ((hc.typed v hv).trans hty) he))
        -- the operand may be known in the first run only, and the second then folds nothing
        cases hv' : c'.value with
        | none => exact hfolded.2 (hc.lossy hv hv')
        | some w =>
          obtain rfl := Option.some.inj (hv.symm.trans (hc.value w hv'))
          exact hfolded.1

/-- An operator between two operands in both runs. -/
theorem renamed_checkBinary (tok : Token) (op : BinaryOp) {l l' r r' : Checked}
    (hl : m.Checks l l') (hr : m.Checks r r') :
    m.Checks (checkBinary tok op l r) (checkBinary tok op l' r') := by
  have hbefore : m.Findings (l.findings ++ r.findings) (l'.findings ++ r'.findings) :=
    hl.findings.append hr.findings
  unfold checkBinary
  dsimp only
  rw [hl.ty, hr.ty]
  split
  · exact .untyped hbefore
  · cases hresult : op.resultTy? l.ty r.ty with
    | none => exact .untyped (hbefore.append (.refl _))
    | some ty =>
      dsimp only
      cases hlv : l.value with
      | none =>
        rw [hl.value_eq_none hlv]
        exact .ofTy ty hbefore
      | some v =>
        cases hrv : r.value with
        | none =>
          rw [hr.value_eq_none hrv]
          cases l'.value <;> exact .ofTy ty hbefore
        | some w =>
          rw [← hl.typed v hlv, ← hr.typed w hrv] at hresult
          have hfolded := renamed_folded tok hbefore (r := op.fold v w)
            (fun u hu => ty_of_binary_fold hresult hu) (fun e he => binary_fold_error hresult he)
          -- the second run folds if it knows both operands
          cases hlv' : l'.value with
          | none => exact hfolded.2 (hl.lossy hlv hlv')
          | some v' =>
            cases hrv' : r'.value with
            | none => exact hfolded.2 (hr.lossy hrv hrv')
            | some w' =>
              obtain rfl := Option.some.inj (hlv.symm.trans (hl.value v' hlv'))
              obtain rfl := Option.some.inj (hrv.symm.trans (hr.value w' hrv'))
              exact hfolded.1

/-! ### Calls -/

/-- The arguments of a call are compared by their types, which are the same. -/
theorem renamed_argumentFindings (function : Text) (index : Nat) (es : List Expr)
    {cs cs' : List Checked} (hcs : List.Forall₂ m.Checks cs cs') (ps : List Param) :
    argumentFindings function index es cs' (ps.map m.param) =
      argumentFindings function index es cs ps := by
  induction hcs generalizing index es ps with
  | nil => cases es <;> rfl
  | cons hc _ ih =>
    cases es with
    | nil => rfl
    | cons e es =>
      cases ps with
      | nil => rfl
      | cons p ps =>
        rw [List.map_cons, argumentFindings, argumentFindings, hc.ty, ih]
        rfl

/-- A call in both runs. -/
theorem renamed_checkCall (hctx : m.Contexts ctx ctx') (ht : m.Tables t t') (i : Ident)
    (es : List Expr) {cs cs' : List Checked} (hcs : List.Forall₂ m.Checks cs cs') :
    m.Checks (checkCall ctx t i es cs) (checkCall ctx' t' i es cs') := by
  have hbefore : m.Findings (cs.flatMap (·.findings)) (cs'.flatMap (·.findings)) :=
    .flatMap (hcs.imp fun _ _ h => h.findings)
  have hself : isInferredSelf ctx' i.name = isInferredSelf ctx i.name := by
    unfold isInferredSelf
    rw [hctx.fn]
    cases ctx.fn <;> rfl
  unfold checkCall
  dsimp only
  rw [hctx.scope, ht.find?, hself]
  -- the name means nothing, a variable, or a function, and the same in both runs
  rcases ht.bind_symbol? (t.find? ctx.scope i.name) with ⟨hs, hs'⟩ | ⟨k, s, s', hs, hs', hsymbols⟩
  · rw [hs, hs']
    exact .untyped (hbefore.append (.refl _))
  · rw [hs, hs']
    dsimp only
    rcases hsymbols.cases with ⟨v, c, v', c', hc, hc', hty, -, -⟩ | ⟨ps, result, hc, hc'⟩
    · rw [hc, hc']
      dsimp only
      rw [hty]
      exact .untyped (hbefore.append (.refl _))
    · rw [hc, hc']
      dsimp only
      rw [← hcs.length_eq, List.length_map]
      split
      · exact .ofTy result (hbefore.append (.refl _))
      · rw [renamed_argumentFindings i.name 1 es hcs ps]
        exact .ofTy result (hbefore.append (.refl _))

mutual

/-- **Expressions in both runs.** -/
theorem renamed_check (hctx : m.Contexts ctx ctx') (hplaced : m.Placed ctx) (ht : m.Tables t t') :
    (e : Expr) → m.Checks (check ctx t e) (check ctx' t' e)
  | .int tok n => by
    rw [check, check]
    split
    · exact .ofTy _ (.refl _)
    · exact .constant hctx _
  | .str _ s => by
    rw [check, check]
    exact .constant hctx _
  | .bool _ b => by
    rw [check, check]
    exact .constant hctx _
  | .ident i => by
    rw [check, check]
    exact renamed_checkName hctx hplaced ht i
  | .unary tok op e => by
    rw [check, check]
    split
    · exact .constant hctx _
    · exact renamed_checkUnary tok op (renamed_check hctx hplaced ht e)
  | .binary tok op l r => by
    rw [check, check]
    exact renamed_checkBinary tok op (renamed_check hctx hplaced ht l)
      (renamed_check hctx hplaced ht r)
  | .group _ e => by
    rw [check, check]
    exact renamed_check hctx hplaced ht e
  | .call _ i es => by
    rw [check, check]
    exact renamed_checkCall hctx ht i es (renamed_checkAll hctx hplaced ht es)
  | .hole => by
    rw [check, check]
    exact .untyped .nil

/-- The arguments of a call in both runs. -/
theorem renamed_checkAll (hctx : m.Contexts ctx ctx') (hplaced : m.Placed ctx)
    (ht : m.Tables t t') :
    (es : List Expr) → List.Forall₂ m.Checks (checkAll ctx t es) (checkAll ctx' t' es)
  | [] => by
    rw [checkAll, checkAll]
    exact .nil
  | e :: es => by
    rw [checkAll, checkAll]
    exact .cons (renamed_check hctx hplaced ht e) (renamed_checkAll hctx hplaced ht es)

end

end
end
end Analysis
end Slang
