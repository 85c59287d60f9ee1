import Slang.Proofs.Outline
import Slang.Proofs.Growth

/-!
# The sections of a table

A table is read as a row of sections, one for each scope in the order of making. What analysis does
to a table shows there in three ways only: a declaration adds a row to the section of its scope, a
new scope adds an empty section at the end, and everything else changes nothing.

`Table.Lists` says that between two tables exactly the given contents were declared in a scope. It
composes along statements (`Lists.append`), and a block is one of its cases (`lists_of_inner`).
-/

namespace Slang

open Typing Report

/-! ### Rows of symbols -/

/-- The row of a symbol in a section, without what is known of its value. -/
def Section.symbolRow (x : Section) (s : Symbol) : Row :=
  (Row.ofSymbol ⟨x.number, x.name, x.outer, []⟩ s).static

namespace Symbol

/-- Two states of a symbol that have the same row wherever it is bound. -/
def Shows (s s' : Symbol) : Prop := ∀ x : Section, x.symbolRow s' = x.symbolRow s

theorem Shows.refl (s : Symbol) : Shows s s := fun _ => rfl

theorem Shows.trans {s s' s'' : Symbol} (h : Shows s s') (h' : Shows s' s'') : Shows s s'' :=
  fun x => (h' x).trans (h x)

theorem Shows.name {s s' : Symbol} (h : Shows s s') : s'.name = s.name :=
  congrArg Row.name (h ⟨[], 0, [], []⟩)

/-- Of a value, only the type shows. -/
theorem shows_of_ty {s : Symbol} {v w : Value} {c d : Bool} (hc : s.content = .variable v c)
    (hty : w.ty = v.ty) : Shows s { s with content := .variable w d } := by
  intro x
  simp [Section.symbolRow, Row.ofSymbol, Row.static, Symbol.ty, describe, descriptor, hc, hty]

theorem shows_setCalculated (s : Symbol) (b : Bool) : Shows s (s.setCalculated b) := by
  unfold setCalculated
  split
  · next v c hc => exact shows_of_ty hc rfl
  · exact .refl s

theorem shows_of_store? {s s' : Symbol} {v : Value} (h : s.store? v = some s') : Shows s s' := by
  unfold store? at h
  split at h
  · next old c hc =>
    split at h
    · next hty =>
      obtain rfl := Option.some.inj h
      exact shows_of_ty hc hty
    · cases h
  · cases h

end Symbol

theorem Analysis.shows_assigned (unknowable : Bool) (value : Option Value) (s : Symbol) :
    Symbol.Shows s (assigned unknowable value s) := by
  unfold assigned
  split
  · next s' hs' =>
    split at hs'
    · cases hs'
    · obtain ⟨v, -, hv⟩ := Option.bind_eq_some_iff.mp hs'
      exact Symbol.shows_of_store? hv
  · exact Symbol.shows_setCalculated s false

namespace Table

/-! ### Sections -/

/-- The section of a scope. -/
def sectionOf (t : Table) (s : Scope) : Section :=
  ⟨s.name, s.number, s.outer, s.names.filterMap fun b => (t.symbol? b.2).map fun sym =>
    (Row.ofSymbol s sym).static⟩

/-- **The sections of a table**, in the order in which its scopes were made. -/
def sections (t : Table) : List Section := t.scopes.map t.sectionOf

@[simp] theorem length_sections (t : Table) : t.sections.length = t.scopes.length :=
  List.length_map _

theorem getElem?_sections (t : Table) (i : ScopeId) :
    t.sections[i]? = (t.scope? i).map t.sectionOf :=
  List.getElem?_map

/-- Sections are read off scopes and the rows of symbols. -/
theorem sections_congr {t t' : Table} (hscopes : t'.scopes = t.scopes)
    (hrows : ∀ i s, t.scope? i = some s → ∀ b ∈ s.names,
      ∃ x x', t.symbol? b.2 = some x ∧ t'.symbol? b.2 = some x' ∧ x.Shows x') :
    t'.sections = t.sections := by
  unfold sections
  rw [hscopes]
  refine List.map_congr_left fun s hs => ?_
  obtain ⟨i, hi⟩ := List.mem_iff_getElem?.mp hs
  unfold sectionOf
  congr 1
  refine List.filterMap_congr fun b hb => ?_
  obtain ⟨x, x', hx, hx', hshows⟩ := hrows i s hi b hb
  rw [hx, hx', Option.map_some, Option.map_some]
  exact congrArg some (hshows ⟨s.name, s.number, s.outer, []⟩)

/-- Two tables with the same scopes, in which every symbol is shown as before. -/
structure Keeps (t t' : Table) : Prop where
  scopes : t'.scopes = t.scopes
  shown : ∀ i s, t.symbol? i = some s → ∃ s', t'.symbol? i = some s' ∧ s.Shows s'

theorem Keeps.sections {t t' : Table} (h : Keeps t t') (hv : t.Valid) :
    t'.sections = t.sections := by
  refine sections_congr h.scopes fun i s hs b hb => ?_
  obtain ⟨x, hx, -⟩ := hv.bound i s hs b hb
  obtain ⟨x', hx', hshows⟩ := h.shown b.2 x hx
  exact ⟨x, x', hx, hx', hshows⟩

theorem keeps_addSymbol (t : Table) (s : Symbol) : Keeps t (t.addSymbol s).1 :=
  ⟨rfl, fun _ x hx => ⟨x, (symbol?_addSymbol_of_lt s (symbol?_lt hx)).trans hx, .refl x⟩⟩

theorem keeps_modify (t : Table) (id : SymbolId) {f : Symbol → Symbol}
    (hf : ∀ s, Symbol.Shows s (f s)) : Keeps t (t.modify id f) := by
  refine ⟨rfl, fun i s hs => ?_⟩
  rw [symbol?_modify, hs]
  split
  · exact ⟨f s, rfl, hf s⟩
  · exact ⟨s, rfl, .refl s⟩

/-- A new name adds the row of its symbol. -/
theorem sections_bound {t : Table} (sc : ScopeId) {b : Text × SymbolId} {s : Symbol}
    (hs : t.symbol? b.2 = some s) :
    (t.bound sc b).sections =
      t.sections.modify sc fun x => { x with rows := x.rows ++ [x.symbolRow s] } := by
  refine List.ext_getElem? fun i => ?_
  rw [getElem?_sections, scope?_bound, List.getElem?_modify, getElem?_sections]
  -- the section of this scope gets a row at its end; nothing in the others depends on it
  by_cases hi : sc = i
  · rw [if_pos hi]
    cases t.scope? i with
    | none => rfl
    | some x =>
      have hs' : (t.bound sc b).symbol? b.2 = some s := hs
      simp only [hi, if_true, Option.map_some, Option.map_eq_map, sectionOf,
        List.filterMap_append, List.filterMap_cons, List.filterMap_nil]
      rw [← hi, hs']
      rfl
  · simp only [hi, if_false]
    cases t.scope? i with
    | none => rfl
    | some x => rfl

/-! ### Declarations -/

/-- Changing the last symbol that was added is adding the changed one. -/
theorem modify_bound_addSymbol (t : Table) (sc : ScopeId) (b : Text × SymbolId) (s : Symbol)
    (f : Symbol → Symbol) :
    ((t.addSymbol s).1.bound sc b).modify t.symbols.length f =
      (t.addSymbol (f s)).1.bound sc b := by
  have hlast : (t.symbols ++ [s]).modify t.symbols.length f = t.symbols ++ [f s] := by
    rw [List.modify_eq_take_drop, List.take_left, List.drop_left]
    rfl
  simp only [addSymbol, bound, modify, hlast]

/-- **A declaration adds a row to the section of its scope.** -/
theorem sections_declared {t : Table} (hv : t.Valid) {sc : ScopeId} {x : Scope}
    (hx : t.scope? sc = some x) (s : Symbol) :
    (((t.addSymbol s).1.bound sc (s.name, t.symbols.length)).modify t.symbols.length fun y =>
        { y with augmented := x.augment y.name }).sections =
      t.sections.modify sc fun y =>
        { y with rows := y.rows ++ [y.symbolRow { s with augmented := y.augment s.name }] } := by
  rw [modify_bound_addSymbol, sections_bound sc (symbol?_addSymbol_self t _),
    (keeps_addSymbol t _).sections hv]
  refine List.ext_getElem? fun i => ?_
  rw [List.getElem?_modify, List.getElem?_modify, getElem?_sections]
  by_cases hi : sc = i
  · rw [← hi, hx]
    rfl
  · simp only [hi, if_false]

/-! ### New scopes -/

/-- All scopes of a table are in the tree of the first one. -/
def OneTree (t : Table) : Prop := ∀ i, i < t.scopes.length → t.root i = 0

theorem oneTree_freshTable : Analysis.freshTable.OneTree := by
  intro i hi
  obtain rfl : i = 0 := Nat.lt_one_iff.mp hi
  rfl

theorem OneTree.treeSize_eq {t : Table} (h : t.OneTree) : t.treeSize 0 = t.scopes.length := by
  have hall : (List.range t.scopes.length).filter (fun i => t.root i == 0) =
      List.range t.scopes.length :=
    List.filter_eq_self.mpr fun i hi => beq_iff_eq.mpr (h i (List.mem_range.mp hi))
  rw [treeSize, hall, List.length_range]

/-- **A new scope adds a section at the end**, numbered by the count of those before it. -/
theorem OneTree.sections_addScope {t : Table} (h : t.OneTree) {o : ScopeId}
    (ho : o < t.scopes.length) (name : Text) :
    (t.addScope (some o) name).1.sections =
      t.sections ++ [⟨name, t.scopes.length, t.chain o, []⟩] := by
  simp only [addScope, sections, List.map_append, List.map_cons, List.map_nil, h o ho,
    h.treeSize_eq]
  rfl

/-- A new scope is numbered by the count of those before it. -/
theorem OneTree.scope?_addScope_self {t : Table} (h : t.OneTree) {o : ScopeId}
    (ho : o < t.scopes.length) (name : Text) :
    (t.addScope (some o) name).1.scope? t.scopes.length =
      some ⟨t.scopes.length, name, t.chain o, []⟩ := by
  refine List.getElem?_concat_length.trans ?_
  dsimp only
  rw [h o ho, h.treeSize_eq]

theorem OneTree.bound {t : Table} (h : t.OneTree) (sc : ScopeId) (b : Text × SymbolId) :
    (t.bound sc b).OneTree := by
  intro i hi
  have hlt : i < t.scopes.length := by simpa [Table.bound] using hi
  rw [root, chain_bound]
  exact h i hlt

/-- A scope within another one is in the same tree. -/
theorem OneTree.addScope {t : Table} (h : t.OneTree) {o : ScopeId} (ho : o < t.scopes.length)
    (name : Text) : (t.addScope (some o) name).1.OneTree := by
  intro i hi
  by_cases hlt : i < t.scopes.length
  · rw [root, chain_addScope_of_lt _ _ hlt]
    exact h i hlt
  · have hi' : i = t.scopes.length := by
      simp only [Table.addScope, List.length_append, List.length_singleton] at hi
      exact Nat.le_antisymm (Nat.le_of_lt_succ hi) (Nat.not_lt.mp hlt)
    -- the chain of the new scope goes on with that of the scope around
    have hroot := h o ho
    have hs : t.scope? o = some t.scopes[o] := List.getElem?_eq_getElem ho
    rw [hi', root, chain_addScope_self]
    rw [root, chain_of_scope? hs] at hroot
    rw [chain_of_scope? hs]
    exact hroot

/-! ### Contents -/

/-- **Between two tables, exactly these contents were declared in scope `sc`.** -/
structure Lists (sc : ScopeId) (c : Outline.Contents) (t t' : Table) : Prop where
  sections : t'.sections = t.sections.modify sc (Section.add c.items) ++
    Outline.sectionsAll (t.chain sc) t.scopes.length c.inner
  chain : ∀ i, i < t.scopes.length → t'.chain i = t.chain i
  shown : ∀ i s, t.symbol? i = some s → ∃ s', t'.symbol? i = some s' ∧ s.Shows s'
  distinct : t.Distinct → t'.Distinct

theorem modify_append_of_lt {α : Type} (f : α → α) {l : List α} (l' : List α) {i : Nat}
    (h : i < l.length) : (l ++ l').modify i f = l.modify i f ++ l' := by
  rw [List.modify_eq_take_drop, List.modify_eq_take_drop, List.take_append_of_le_length h.le,
    List.drop_append_of_le_length h.le, List.append_assoc]
  cases hd : l.drop i with
  | nil => exact absurd (List.drop_eq_nil_iff.mp hd) (Nat.not_le.mpr h)
  | cons a r => rfl

theorem modify_add_nil (l : List Section) (i : Nat) : l.modify i (Section.add []) = l := by
  have hid : Section.add [] = id := funext Section.add_nil
  rw [hid, List.modify_id]

theorem Keeps.lists {t t' : Table} (h : Keeps t t') (hv : t.Valid) (sc : ScopeId)
    (returns : List Ty) : Lists sc { returns } t t' where
  sections := by
    rw [h.sections hv, modify_add_nil, Outline.sectionsAll, List.append_nil]
  chain := fun i _ => by
    unfold Table.chain scope?
    rw [h.scopes]
  shown := h.shown
  distinct := fun hd i => by
    rw [namesOf_congr (congrArg (·[i]?) h.scopes)]
    exact hd i

theorem Lists.length {sc : ScopeId} {c : Outline.Contents} {t t' : Table} (h : Lists sc c t t') :
    t'.scopes.length =
      t.scopes.length + (Outline.sectionsAll (t.chain sc) t.scopes.length c.inner).length := by
  rw [← length_sections, h.sections, List.length_append, List.length_modify, length_sections]

/-- Contents one after the other. -/
theorem Lists.append {sc : ScopeId} {c d : Outline.Contents} {t t' t'' : Table}
    (h : Lists sc c t t') (h' : Lists sc d t' t'') (hsc : sc < t.scopes.length) :
    Lists sc (c.append d) t t'' where
  sections := by
    -- the sections of the first part follow the old ones, so that the second part finds the scope
    -- where it was
    have hlt : sc < (t.sections.modify sc (Section.add c.items)).length := by
      rwa [List.length_modify, length_sections]
    have hadd : Section.add d.items ∘ Section.add c.items = Section.add (c.items ++ d.items) :=
      funext fun s => s.add_add c.items d.items
    rw [h'.sections, h.chain sc hsc, h.length, h.sections, modify_append_of_lt _ _ hlt,
      List.modify_modify_eq, hadd, List.append_assoc, ← Outline.sectionsAll_append]
    rfl
  chain := fun i hi => by
    have hlen := h.length
    rw [h'.chain i (by omega), h.chain i hi]
  shown := fun i s hs => by
    obtain ⟨s', hs', hshows⟩ := h.shown i s hs
    obtain ⟨s'', hs'', hshows'⟩ := h'.shown i s' hs'
    exact ⟨s'', hs'', hshows.trans hshows'⟩
  distinct := h'.distinct ∘ h.distinct

/-- **Leaving an inner scope.** What was declared in a new scope inside `sc` is one more scope in
the contents of `sc`. -/
theorem OneTree.lists_of_inner {t t' : Table} (hone : t.OneTree) {sc : ScopeId}
    (hsc : sc < t.scopes.length) {name : Text} {c : Outline.Contents} (returns : List Ty)
    (h : Lists t.scopes.length c (t.addScope (some sc) name).1 t') :
    Lists sc { inner := [.scope name c.items c.inner], returns } t t' where
  sections := by
    have hlen : (t.addScope (some sc) name).1.scopes.length = t.scopes.length + 1 := by
      simp [Table.addScope]
    -- the new section stands at the end, and everything in it is added there
    have hlast : ∀ x : Section,
        (t.sections ++ [x]).modify t.scopes.length (Section.add c.items) =
          t.sections ++ [x.add c.items] := by
      intro x
      rw [List.modify_eq_take_drop, ← length_sections, List.take_left, List.drop_left]
      rfl
    rw [h.sections, hone.sections_addScope hsc, chain_addScope_self, hlen, hlast, modify_add_nil,
      Outline.sectionsAll_singleton, Outline.sections, List.append_assoc]
    rfl
  chain := fun i hi => by
    rw [h.chain i (Nat.lt_of_lt_of_le hi (by simp [Table.addScope])), chain_addScope_of_lt _ _ hi]
  shown := h.shown
  distinct := fun hd => h.distinct fun i => by
    rw [namesOf_addScope]
    exact hd i

/-- One tree stays one tree. -/
theorem OneTree.next {t t' : Table} (hone : t.OneTree) {sc : ScopeId}
    (hsc : sc < t.scopes.length) {c : Outline.Contents} (h : Lists sc c t t') : t'.OneTree := by
  intro i hi
  by_cases hlt : i < t.scopes.length
  · rw [root, h.chain i hlt]
    exact hone i hlt
  · -- a new scope is inside `sc`, so its chain ends where that of `sc` ends
    obtain ⟨s, hs⟩ : ∃ s, t'.scope? i = some s := ⟨_, List.getElem?_eq_getElem hi⟩
    have hmem : t'.sectionOf s ∈
        Outline.sectionsAll (t.chain sc) t.scopes.length c.inner := by
      have hget := getElem?_sections t' i
      rw [hs, h.sections, List.getElem?_append_right
        (by rw [List.length_modify, length_sections]; exact Nat.not_lt.mp hlt)] at hget
      exact List.mem_of_getElem? hget
    obtain ⟨pre, hpre⟩ := Outline.outer_suffixAll _ _ _ _ hmem
    change pre ++ t.chain sc = s.outer at hpre
    have hroot := hone sc hsc
    have hs' : t.scope? sc = some t.scopes[sc] := List.getElem?_eq_getElem hsc
    rw [root, chain_of_scope? hs'] at hroot
    rw [root, chain_of_scope? hs, ← hpre, chain_of_scope? hs']
    simpa [List.getLast?_append, List.getLast?_cons] using hroot

end Table
end Slang
