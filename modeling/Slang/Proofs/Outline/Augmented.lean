import Slang.Proofs.Numerals
import Slang.Proofs.Outline.Listed

/-!
# Augmented names

Outside the global scope a variable gets an augmented name, which ends in the number of its scope.
Scopes have different numbers and no scope has a name twice (`Table.Distinct`), so no two variables
of a program have the same augmented name (`numbered_inj`).

A parameter keeps its plain name, and this may be the augmented name of a variable. So the augmented
names of a function are not always different; `nodup_augmented_iff` says when they are.
-/

namespace Slang

open Typing Report

/-! ### The sections of one outline -/

namespace Outline

mutual

/-- The numbers in an outline are those around it and its own. -/
theorem bounds_of_mem (outer : List Nat) (n : Nat) :
    (o : Outline) → ∀ s ∈ o.sections outer n, ∀ x ∈ s.number :: s.outer,
      x ∈ outer ∨ n ≤ x ∧ x < n + (o.sections outer n).length
  | .scope name items inner => by
    intro s hs x hx
    rw [sections, List.mem_cons] at hs
    rw [sections, List.length_cons]
    rcases hs with rfl | hs
    · rw [Section.number_add, Section.outer_add, List.mem_cons] at hx
      rcases hx with rfl | hx
      · exact .inr (by omega)
      · exact .inl hx
    · rcases bounds_of_memAll (n :: outer) (n + 1) inner s hs x hx with hx | hx
      · rcases List.mem_cons.mp hx with rfl | hx
        · exact .inr (by omega)
        · exact .inl hx
      · exact .inr (by omega)

theorem bounds_of_memAll (outer : List Nat) (n : Nat) :
    (os : List Outline) → ∀ s ∈ sectionsAll outer n os, ∀ x ∈ s.number :: s.outer,
      x ∈ outer ∨ n ≤ x ∧ x < n + (sectionsAll outer n os).length
  | [] => by
    intro s hs
    rw [sectionsAll] at hs
    cases hs
  | o :: os => by
    intro s hs x hx
    rw [sectionsAll, List.mem_append] at hs
    rw [sectionsAll, List.length_append]
    rcases hs with hs | hs
    · exact (bounds_of_mem outer n o s hs x hx).imp_right fun h => by omega
    · exact (bounds_of_memAll outer _ os s hs x hx).imp_right fun h => by omega

end

/-- Of an outline, only the first section is directly inside the scopes around it. -/
theorem filter_direct (outer : List Nat) (n : Nat) (o : Outline) :
    ((o.sections outer n).filter (·.outer = outer)).map (·.number) = [n] := by
  cases o with
  | scope name items inner =>
    have hnone : (sectionsAll (n :: outer) (n + 1) inner).filter (·.outer = outer) = [] := by
      refine List.filter_eq_nil_iff.mpr fun s hs heq => ?_
      have hsuffix := (outer_suffixAll (n :: outer) (n + 1) inner s hs).length_le
      rw [of_decide_eq_true heq, List.length_cons] at hsuffix
      omega
    rw [sections, List.filter_cons_of_pos (by simp), hnone]
    rfl

theorem mem_of_mem_sections (outer : List Nat) (n : Nat) (o : Outline) :
    ∀ s ∈ o.sections outer n, n ∈ s.number :: s.outer := by
  intro s hs
  cases o with
  | scope name items inner =>
    rw [sections, List.mem_cons] at hs
    rcases hs with rfl | hs
    · exact List.mem_cons_self
    · have hsuffix := outer_suffixAll (n :: outer) (n + 1) inner s hs
      exact List.mem_cons_of_mem _ (hsuffix.subset List.mem_cons_self)

/-- **Outlines side by side can be told apart by the number of their first section**: the sections
with this number, or inside the one that has it, are those of the outline. -/
theorem exists_segment {outer : List Nat} {n : Nat} {os : List Outline} {j : Nat} {o : Outline}
    (hlt : ∀ x ∈ outer, x < n) (hj : os[j]? = some o) :
    ∃ m, n ≤ m ∧
      (((sectionsAll outer n os).filter (·.outer = outer)).map (·.number))[j]? = some m ∧
      (sectionsAll outer n os).filter (fun s => m ∈ s.number :: s.outer) = o.sections outer m := by
  induction os generalizing n j with
  | nil => cases hj
  | cons o' os ih =>
    -- every scope lists itself, so that the numbers go up from one to the next
    have hpos : 0 < (o'.sections outer n).length := by
      cases o'
      rw [sections]
      exact Nat.succ_pos _
    rw [sectionsAll]
    simp only [List.filter_append, List.map_append, filter_direct, List.singleton_append]
    cases j with
    | zero =>
      obtain rfl := Option.some.inj hj
      refine ⟨n, Nat.le_refl n, rfl, ?_⟩
      -- the first scope has the number `n`, and it is in the chain of all sections below it
      have hall : (o'.sections outer n).filter (fun s => n ∈ s.number :: s.outer) =
          o'.sections outer n := by
        refine List.filter_eq_self.mpr fun s hs => decide_eq_true ?_
        exact mem_of_mem_sections outer n o' s hs
      have hnone : (sectionsAll outer (n + (o'.sections outer n).length) os).filter
          (fun s => n ∈ s.number :: s.outer) = [] := by
        refine List.filter_eq_nil_iff.mpr fun s hs hmem => ?_
        rcases bounds_of_memAll outer _ os s hs n (of_decide_eq_true hmem) with hn | hn
        · exact Nat.lt_irrefl n (hlt n hn)
        · omega
      rw [hall, hnone, List.append_nil]
    | succ j =>
      obtain ⟨m, hm, hnumber, hsegment⟩ := ih (n := n + (o'.sections outer n).length)
        (fun x hx => Nat.lt_add_right _ (hlt x hx)) hj
      refine ⟨m, by omega, hnumber, ?_⟩
      -- the sections of the first scope are numbered below the others
      have hnone : (o'.sections outer n).filter (fun s => m ∈ s.number :: s.outer) = [] := by
        refine List.filter_eq_nil_iff.mpr fun s hs hmem => ?_
        rcases bounds_of_mem outer n o' s hs m (of_decide_eq_true hmem) with hm' | hm'
        · have := hlt m hm'
          omega
        · omega
      rw [hnone, List.nil_append, hsegment]

/-! ### What scopes declare -/

/-- Whether a variable is declared. -/
def Item.isVariable : Item → Bool
  | .variable .. => true
  | .parameter .. | .function .. => false

/-- **A scope of variables only**, and so are the scopes inside it. -/
inductive Local : Outline → Prop
  | scope {name : Text} {items : List Item} {inner : List Outline}
      (hitems : ∀ i ∈ items, i.isVariable = true) (hinner : ∀ o ∈ inner, Local o) :
      Local (.scope name items inner)

/-- Contents without parameters and functions. -/
structure Contents.Local (c : Contents) : Prop where
  items : ∀ i ∈ c.items, i.isVariable = true
  inner : ∀ o ∈ c.inner, o.Local

theorem Contents.Local.empty (returns : List Ty) : Contents.Local { returns } :=
  ⟨fun _ hi => absurd hi List.not_mem_nil, fun _ ho => absurd ho List.not_mem_nil⟩

theorem Contents.Local.append {c d : Contents} (hc : c.Local) (hd : d.Local) :
    (c.append d).Local where
  items := fun i hi => (List.mem_append.mp hi).elim (hc.items i) (hd.items i)
  inner := fun o ho => (List.mem_append.mp ho).elim (hc.inner o) (hd.inner o)

mutual

/-- Statements of a body declare variables, in their scope and in blocks. -/
theorem local_ofStmt (Γ : Env) : (s : Stmt) → (ofStmt Γ s).Local
  | .letDecl _ name type value => by
    rw [ofStmt]
    refine ⟨fun i hi => ?_, fun _ ho => absurd ho List.not_mem_nil⟩
    obtain ⟨ty, -, rfl⟩ := List.mem_map.mp hi
    rfl
  | .block _ body => by
    have hbody := local_ofStmts ([] :: Γ) body
    rw [ofStmt]
    refine ⟨fun _ hi => absurd hi List.not_mem_nil, fun o ho => ?_⟩
    obtain rfl := List.mem_singleton.mp ho
    exact .scope hbody.items hbody.inner
  | .ret .. | .assign .. | .expr .. | .fn .. | .hole => by
    rw [ofStmt]
    exact .empty _

theorem local_ofStmts (Γ : Env) : (ss : List Stmt) → (ofStmts Γ ss).Local
  | [] => by
    rw [ofStmts]
    exact .empty []
  | s :: ss => by
    rw [ofStmts]
    exact (local_ofStmt Γ s).append (local_ofStmts (after Γ s) ss)

end

/-- **The scope of a function**: first its parameters, then variables. -/
inductive IsFunction (head : FnHead) : Outline → Prop
  | mk {items : List Item} {inner : List Outline} (hitems : ∀ i ∈ items, i.isVariable = true)
      (hinner : ∀ o ∈ inner, o.Local) :
      IsFunction head (.scope head.name.name (head.params.map .parameter ++ items) inner)

theorem isFunction_ofFunction (global : Names) (head : FnHead) (body : List Stmt) :
    IsFunction head (ofFunction global head body) :=
  have hbody := local_ofStmts [paramNames head, global] body
  .mk hbody.items hbody.inner

end Outline

/-- Whether a statement has a scope of its own. -/
def Stmt.isScoped : Stmt → Bool
  | .fn .. | .block .. => true
  | .letDecl .. | .assign .. | .ret .. | .expr .. | .hole => false

/-- The statements of a program that have scopes of their own, in source order: the functions, and
blocks that stand outside of functions. -/
def Program.scoped (p : Program) : Program := p.filter Stmt.isScoped

namespace Outline

/-- The scope of a statement, if the statement is a function, is that of the function. -/
def IsScopeOf (s : Stmt) (o : Outline) : Prop := ∀ head ∈ s.fnHead?, IsFunction head o

/-- A statement of the top level makes its own scope, if any. -/
theorem forall₂_ofTop (global : Names) (s : Stmt) :
    List.Forall₂ IsScopeOf (Program.scoped [s]) (ofTop global s).inner := by
  -- a function makes one scope, a block makes one, and the rest make none
  cases s with
  | fn head brace body =>
    refine .cons (fun head' hhead => ?_) .nil
    obtain rfl := Option.some.inj hhead
    exact isFunction_ofFunction global head body
  | block tok body =>
    rw [ofTop, ofStmt]
    · exact .cons (fun _ hhead => by cases hhead) .nil
    · exact fun _ _ _ hs => Stmt.noConfusion hs
  | _ =>
    rw [ofTop, ofStmt]
    · exact .nil
    · exact fun _ _ _ hs => Stmt.noConfusion hs

/-- **The scopes inside the global one** are those of the statements that have one, in source
order. -/
theorem forall₂_scoped (global : Names) (p : Program) :
    List.Forall₂ IsScopeOf (Program.scoped p) (ofTops global p).inner := by
  induction p generalizing global with
  | nil => exact .nil
  | cons s p ih =>
    -- a statement gives as many scopes as it counts for, none or one
    rw [ofTops, Program.scoped, ← List.singleton_append, List.filter_append]
    exact List.rel_append (forall₂_ofTop global s) (ih (afterTop global s))

end Outline

/-! ### Rows -/

/-- A row of a variable outside the global scope: the augmented name ends in the scope's number. -/
def Report.Row.IsLocal (r : Row) : Prop := r.augmented = r.name ++ "_" ++ Text.ofInt r.scopeId

/-- A name is not its own numbered name. -/
theorem Report.Row.name_ne_numbered (r : Row) :
    r.name ≠ r.name ++ "_" ++ Text.ofInt r.scopeId :=
  Text.ne_numbered _ _

namespace Section

/-- Rows under distinct names that have the number of their section. -/
structure Sound (s : Section) : Prop where
  number : ∀ r ∈ s.rows, r.scopeId = s.number
  distinct : (s.rows.map (·.name)).Nodup

theorem isLocal_row {s : Section} (houter : s.outer ≠ []) {i : Outline.Item}
    (hi : i.isVariable = true) : (s.row i).IsLocal := by
  rcases i with p | ⟨x, ty, written⟩ | ⟨head, result⟩
  · cases hi
  · have hroot : s.outer.isEmpty = false := by simpa using houter
    unfold Report.Row.IsLocal
    rw [row, variableRow]
    dsimp only
    rw [augment, hroot, if_neg Bool.false_ne_true, Text.ofInt_natCast]
  · cases hi

end Section

/-- **The sections of a table are sound**, if no scope has a name twice. -/
theorem Table.sound_sections {t : Table} (hv : t.Valid) (hd : t.Distinct) :
    ∀ s ∈ t.sections, s.Sound := by
  intro x hx
  obtain ⟨s, hs, rfl⟩ := List.mem_map.mp hx
  obtain ⟨i, hi⟩ := List.mem_iff_getElem?.mp hs
  refine ⟨fun r hr => ?_, ?_⟩
  · obtain ⟨b, -, hb⟩ := List.mem_filterMap.mp hr
    obtain ⟨sym, -, rfl⟩ := Option.map_eq_some_iff.mp hb
    rfl
  · -- each name is bound to a symbol of that name, so it is the name of its row
    have hnames : (t.sectionOf s).rows.map (·.name) = s.names.map Prod.fst := by
      rw [sectionOf, List.map_filterMap, ← List.filterMap_eq_map]
      refine List.filterMap_congr fun b hb => ?_
      obtain ⟨sym, hsym, hname⟩ := hv.bound i s hi b hb
      rw [hsym, Option.map_some, Option.map_some]
      exact congrArg some hname
    rw [hnames]
    have hdistinct := hd i
    unfold namesOf at hdistinct
    rwa [show t.scope? i = some s from hi] at hdistinct

namespace Outline

mutual

/-- Below the global scope, all rows of variables have numbered names. -/
theorem Local.isLocal_sections {outer : List Nat} (houter : outer ≠ []) (n : Nat) :
    {o : Outline} → o.Local → ∀ s ∈ o.sections outer n, ∀ r ∈ s.rows, r.IsLocal
  | .scope name items inner, .scope hitems hinner => by
    intro s hs r hr
    rw [sections, List.mem_cons] at hs
    rcases hs with rfl | hs
    · obtain ⟨i, hi, rfl⟩ := List.mem_map.mp hr
      exact Section.isLocal_row houter (hitems i hi)
    · exact Local.isLocal_sectionsAll (List.cons_ne_nil n outer) (n + 1) hinner s hs r hr

theorem Local.isLocal_sectionsAll {outer : List Nat} (houter : outer ≠ []) (n : Nat) :
    {os : List Outline} → (∀ o ∈ os, o.Local) →
      ∀ s ∈ sectionsAll outer n os, ∀ r ∈ s.rows, r.IsLocal
  | [], _ => by
    intro s hs
    rw [sectionsAll] at hs
    cases hs
  | o :: os, h => by
    intro s hs
    rw [sectionsAll, List.mem_append] at hs
    rcases hs with hs | hs
    · exact Local.isLocal_sections houter n (h o List.mem_cons_self) s hs
    · exact Local.isLocal_sectionsAll houter _ (fun o ho => h o (List.mem_cons_of_mem _ ho)) s hs

end

/-- **The rows of a function** are those of its parameters, under their own names in its first
section, and those of variables. -/
theorem IsFunction.rows_sections {head : FnHead} {o : Outline} (h : IsFunction head o)
    {outer : List Nat} (houter : outer ≠ []) (n : Nat) :
    (∀ r ∈ (o.sections outer n).flatMap (·.rows),
      (r.augmented = r.name ∧ r.scopeId = (n : Int) ∧ r.name ∈ head.params.map (·.name.name)) ∨
        r.IsLocal) ∧
      ∀ q ∈ head.params, ∃ r ∈ (o.sections outer n).flatMap (·.rows),
        r.name = q.name.name ∧ r.augmented = r.name := by
  cases h with
  | @mk items inner hitems hinner =>
    rw [sections]
    refine ⟨fun r hr => ?_, fun q hq => ?_⟩
    · -- a row of the function's own scope is a parameter or a local; any other one is in an inner
      -- scope
      rw [List.flatMap_cons, List.mem_append] at hr
      rcases hr with hr | hr
      · obtain ⟨i, hi, rfl⟩ := List.mem_map.mp hr
        rcases List.mem_append.mp hi with hi | hi
        · obtain ⟨q, hq, rfl⟩ := List.mem_map.mp hi
          exact .inl ⟨rfl, rfl, List.mem_map_of_mem hq⟩
        · exact .inr (Section.isLocal_row houter (hitems i hi))
      · obtain ⟨s, hs, hr⟩ := List.mem_flatMap.mp hr
        exact .inr
          (Local.isLocal_sectionsAll (List.cons_ne_nil n outer) (n + 1) hinner s hs r hr)
    · refine ⟨(Section.mk head.name.name n outer []).row (.parameter q), ?_, rfl, rfl⟩
      rw [List.flatMap_cons, List.mem_append]
      exact .inl (List.mem_map_of_mem (List.mem_append_left _ (List.mem_map_of_mem hq)))

end Outline

/-- The number of the scope and the name tell rows apart. -/
theorem nodup_keys {l : List Section} (hsound : ∀ s ∈ l, s.Sound)
    (hnumbers : (l.map (·.number)).Nodup) :
    ((l.flatMap (·.rows)).map fun r => (r.scopeId, r.name)).Nodup := by
  induction l with
  | nil => exact List.nodup_nil
  | cons s l ih =>
    rw [List.map_cons, List.nodup_cons] at hnumbers
    have hs := hsound s List.mem_cons_self
    rw [List.flatMap_cons, List.map_append]
    refine List.Nodup.append ?_
      (ih (fun s' hs' => hsound s' (List.mem_cons_of_mem s hs')) hnumbers.2) ?_
    · exact List.Nodup.of_map Prod.snd (by rw [List.map_map]; exact hs.distinct)
    · -- rows of different sections have different numbers
      intro k hk hk'
      obtain ⟨r, hr, rfl⟩ := List.mem_map.mp hk
      obtain ⟨r', hr', heq⟩ := List.mem_map.mp hk'
      obtain ⟨s', hs', hr'⟩ := List.mem_flatMap.mp hr'
      have hnumber : (s'.number : Int) = s.number := by
        rw [← (hsound s' (List.mem_cons_of_mem s hs')).number r' hr', ← hs.number r hr]
        exact congrArg Prod.fst heq
      refine hnumbers.1 ?_
      rw [← Int.ofNat_inj.mp hnumber]
      exact List.mem_map_of_mem hs'

theorem isLocal_inj {q r : Row} (hq : q.IsLocal) (hr : r.IsLocal) {m n : Nat}
    (hm : q.scopeId = m) (hn : r.scopeId = n) (h : q.augmented = r.augmented) :
    q.scopeId = r.scopeId ∧ q.name = r.name := by
  unfold Report.Row.IsLocal at hq hr
  rw [hq, hr, hm, hn, Text.ofInt_natCast, Text.ofInt_natCast] at h
  obtain ⟨hname, hnumber⟩ := Text.numbered_inj h
  exact ⟨by rw [hm, hn, hnumber], hname⟩

/-- **When augmented names are distinct**: no row with a plain name has the numbered name of another
one. -/
theorem nodup_augmented {l : List Row} {n : Nat}
    (hkeys : (l.map fun r => (r.scopeId, r.name)).Nodup)
    (hnumbers : ∀ r ∈ l, ∃ m : Nat, r.scopeId = m)
    (hkinds : ∀ r ∈ l, (r.augmented = r.name ∧ r.scopeId = n) ∨ r.IsLocal) :
    (l.map (·.augmented)).Nodup ↔
      ∀ q ∈ l, ∀ r ∈ l, q.augmented = q.name → r.IsLocal → q.name ≠ r.augmented := by
  have hinj : ∀ q ∈ l, ∀ r ∈ l, (q.scopeId, q.name) = (r.scopeId, r.name) → q = r :=
    fun q hq r hr h => List.inj_on_of_nodup_map hkeys hq hr h
  constructor
  · -- two rows with one augmented name are one row, and its name is not its numbered name
    intro hnodup q hq r hr hplain hlocal heq
    obtain rfl := List.inj_on_of_nodup_map hnodup hq hr (hplain.trans heq)
    exact q.name_ne_numbered (hplain.symm.trans hlocal)
  · intro h
    refine List.Nodup.map_on (fun q hq r hr heq => ?_) (List.Nodup.of_map _ hkeys)
    obtain ⟨m, hm⟩ := hnumbers q hq
    obtain ⟨m', hm'⟩ := hnumbers r hr
    -- plain names of one scope and numbered names are told apart by scope and name
    rcases hkinds q hq with ⟨hqplain, hqn⟩ | hqlocal <;>
      rcases hkinds r hr with ⟨hrplain, hrn⟩ | hrlocal
    · exact hinj q hq r hr (by rw [hqn, hrn, ← hqplain, ← hrplain, heq])
    · exact absurd (hqplain.symm.trans heq) (h q hq r hr hqplain hrlocal)
    · exact absurd (hrplain.symm.trans heq.symm) (h r hr q hq hrplain hqlocal)
    · obtain ⟨hscope, hname⟩ := isLocal_inj hqlocal hrlocal hm hm' heq
      exact hinj q hq r hr (by rw [hscope, hname])

namespace Analysis

/-! ### Functions of a program -/

section
variable {t : Table} {o : Outline}

theorem number_of_scope? (h : t.sections = o.sections [] 0) {i : ScopeId} {s : Scope}
    (hs : t.scope? i = some s) : s.number = i := by
  have hsection : (o.sections [] 0)[i]? = some (t.sectionOf s) := by
    rw [← h, Table.getElem?_sections, hs, Option.map_some]
  exact (Outline.number_of_getElem? hsection).trans (Nat.zero_add i)

/-- Walking a scope comes to the sections that it is around. -/
theorem walked_eq_filter (h : t.sections = o.sections [] 0) {i : Nat}
    (hi : i < t.scopes.length) :
    walked t i = t.sections.filter fun s => i ∈ s.number :: s.outer := by
  rw [walked, (inOrder_of_sections h).subtree_eq i hi, ← filterMap_sectionOf,
    List.filterMap_filter, List.filter_filterMap]
  refine List.filterMap_congr fun j _ => ?_
  cases hj : t.scope? j with
  | none => simp
  | some s =>
    have hnumber : (t.sectionOf s).number = j := number_of_scope? h hj
    have houter : (t.sectionOf s).outer = s.outer := rfl
    rw [Table.chain_of_scope? hj, Option.map_some, Option.filter_some, hnumber, houter]

/-- The scopes directly inside the first one, by their sections. -/
theorem children_eq_filter (h : t.sections = o.sections [] 0) (h0 : 0 < t.scopes.length) :
    t.children 0 = (t.sections.filter (·.outer = [0])).map (·.number) := by
  have hin := inOrder_of_sections h
  -- both lists increase, so it is enough that they have the same elements
  refine List.Pairwise.eq_of_mem_iff (r := (· < ·)) (List.pairwise_lt_range.filter _) ?_ ?_
  · have hsorted : (t.sections.map (·.number)).Pairwise (· < ·) := by
      rw [h, Outline.map_number_sections]
      exact List.pairwise_lt_range'
    exact hsorted.sublist (List.filter_sublist.map _)
  · intro j
    rw [hin.nested.mem_children, hin.chain_zero h0, List.mem_map]
    constructor
    · rintro ⟨-, hchain⟩
      have hj : j < t.scopes.length := Table.lt_of_mem_chain (hchain ▸ List.mem_cons_self)
      obtain ⟨s, hs⟩ := Table.exists_scope? hj
      refine ⟨t.sectionOf s, List.mem_filter.mpr ⟨?_, ?_⟩, number_of_scope? h hs⟩
      · exact List.mem_map_of_mem (List.mem_of_getElem? hs)
      · rw [Table.chain_of_scope? hs] at hchain
        exact decide_eq_true (List.cons.inj hchain).2
    · rintro ⟨x, hx, rfl⟩
      obtain ⟨hx, houter⟩ := List.mem_filter.mp hx
      obtain ⟨s, hs, rfl⟩ := List.mem_map.mp hx
      obtain ⟨i, hi⟩ := List.mem_iff_getElem?.mp hs
      have hnumber : (t.sectionOf s).number = i := number_of_scope? h hi
      rw [hnumber, Table.chain_of_scope? hi]
      exact ⟨List.mem_cons_self, congrArg (i :: ·) (of_decide_eq_true houter)⟩

/-- Walking the scope at index `j` inside the first one comes to the sections of the outline at
index `j`. -/
theorem exists_walked {name : Text} {items : List Outline.Item} {inner : List Outline}
    (h : t.sections = (Outline.scope name items inner).sections [] 0) {j : Nat}
    (hj : inner[j]? = some o) :
    ∃ sid, (t.children 0)[j]? = some sid ∧ walked t sid = o.sections [0] sid := by
  have h0 : 0 < t.scopes.length := by
    rw [← Table.length_sections, h, Outline.sections]
    exact Nat.succ_pos _
  have hlt : ∀ x ∈ [0], x < 1 := fun x hx => by
    rw [List.mem_singleton.mp hx]
    exact Nat.zero_lt_one
  obtain ⟨m, hm, hnumber, hsegment⟩ := Outline.exists_segment hlt hj
  -- the children of the whole program are the sections directly below it, in their order
  have hchild : (t.children 0)[j]? = some m := by
    rw [children_eq_filter h h0, h, Outline.sections, List.filter_cons_of_neg (by simp)]
    exact hnumber
  have hmem := Table.lt_of_mem_children (List.mem_of_getElem? hchild)
  refine ⟨m, hchild, ?_⟩
  have hfirst : m ≠ 0 := Nat.pos_iff_ne_zero.mp hm
  rw [walked_eq_filter h hmem.2, h, Outline.sections,
    List.filter_cons_of_neg (by simpa using hfirst)]
  exact hsegment

end

theorem distinct_freshTable : freshTable.Distinct := by
  intro i
  rw [freshTable, Table.namesOf_addScope]
  exact List.nodup_nil

theorem valid_checkProgram (options : Options) (mutated : List Text) (p : Program) :
    (checkProgram options mutated p).table.Valid := by
  have hgrown := grows_hoistAll (topContext options mutated) startState p
  have hsc := hgrown.scope_lt (scope_lt_startState options mutated)
  rw [checkProgram_eq]
  exact (hgrown.trans (grows_checkTops _ _ hsc _)).table.valid valid_freshTable

/-- **Augmented names in a function.** For every program that is accepted, the scope of a function
that stands at index `j` among the statements with a scope is the scope at index `j` inside the
global one. Each of its rows, and of the rows of the blocks in it, is that of a parameter, which
keeps its name, or of a variable, whose augmented name ends in the number of its scope. The augmented
names are pairwise distinct if and only if no parameter has the augmented name of a variable of the
function. -/
theorem nodup_augmented_iff {options : Options} {p : Program} (haccepted : Accepted options p)
    {j : Nat} {head : FnHead} (hhead : (Program.scoped p)[j]?.bind Stmt.fnHead? = some head) :
    ∃ sid, ((analysed options p).children globalScope)[j]? = some sid ∧
      (∀ r ∈ rows (analysed options p) sid,
        (r.augmented = r.name ∧ r.name ∈ head.params.map (·.name.name)) ∨ r.IsLocal) ∧
      (((rows (analysed options p) sid).map (·.augmented)).Nodup ↔
        ∀ q ∈ head.params, ∀ r ∈ rows (analysed options p) sid,
          r.IsLocal → q.name.name ≠ r.augmented) := by
  have hclean := accepted_iff.mp haccepted
  have hsections : (analysed options p).sections = (Outline.ofProgram p).sections [] 0 :=
    sections_checkProgram hclean
  have hscoped := Outline.forall₂_scoped (hoisted p) p
  obtain ⟨o, ho, hfunction⟩ : ∃ o, (Outline.ofTops (hoisted p) p).inner[j]? = some o ∧
      Outline.IsFunction head o := by
    obtain ⟨s, hs, hhead⟩ := Option.bind_eq_some_iff.mp hhead
    obtain ⟨hj, rfl⟩ := List.getElem?_eq_some_iff.mp hs
    have hj' := hscoped.length_eq ▸ hj
    exact ⟨_, List.getElem?_eq_getElem hj', hscoped.get hj hj' head hhead⟩
  obtain ⟨sid, hchild, hwalked⟩ := exists_walked hsections ho
  refine ⟨sid, hchild, ?_⟩
  obtain ⟨hkinds, hparams⟩ := hfunction.rows_sections (List.cons_ne_nil 0 []) sid
  -- the sections of the function are sections of the table, whose names are distinct
  have hsound : ∀ s ∈ o.sections [0] sid, s.Sound := by
    intro s hs
    obtain ⟨i, -, hi⟩ := List.mem_filterMap.mp (hwalked ▸ hs)
    obtain ⟨x, hx, rfl⟩ := Option.map_eq_some_iff.mp hi
    exact Table.sound_sections (valid_checkProgram options p.globalWrites p)
      ((lists_checkProgram hclean).distinct distinct_freshTable) _
      (List.mem_map_of_mem (List.mem_of_getElem? hx))
  have hrows := map_static_rows (analysed options p) sid
  rw [hwalked] at hrows
  -- names and numbers are the same with and without what is known of values
  have hmem : ∀ r ∈ rows (analysed options p) sid,
      r.static ∈ (o.sections [0] sid).flatMap (·.rows) :=
    fun r hr => hrows ▸ List.mem_map_of_mem hr
  have hkinds' : ∀ r ∈ rows (analysed options p) sid,
      (r.augmented = r.name ∧ r.scopeId = (sid : Int) ∧ _) ∨ r.IsLocal :=
    fun r hr => hkinds r.static (hmem r hr)
  have hkeys := nodup_keys hsound (by
    rw [Outline.map_number_sections]
    exact List.nodup_range')
  rw [← hrows, List.map_map] at hkeys
  have hnumbers : ∀ r ∈ rows (analysed options p) sid, ∃ m : Nat, r.scopeId = m := by
    intro r hr
    obtain ⟨s, hs, hr⟩ := List.mem_flatMap.mp (hmem r hr)
    exact ⟨s.number, (hsound s hs).number r.static hr⟩
  refine ⟨fun r hr => (hkinds' r hr).imp_left fun h => ⟨h.1, h.2.2⟩, ?_⟩
  rw [nodup_augmented hkeys hnumbers fun r hr => (hkinds' r hr).imp_left fun h => ⟨h.1, h.2.1⟩]
  constructor
  · -- each parameter has a row under its plain name
    intro h q hq r hr hlocal
    obtain ⟨r', hr', hname, hplain⟩ := hparams q hq
    rw [← hrows] at hr'
    obtain ⟨x, hx, rfl⟩ := List.mem_map.mp hr'
    rw [← hname]
    exact h x hx r hr hplain hlocal
  · -- and each row under its plain name is that of a parameter
    intro h q hq r hr hplain hlocal
    rcases hkinds' q hq with ⟨-, -, hq⟩ | hqlocal
    · obtain ⟨q', hq', hname⟩ := List.mem_map.mp hq
      exact hname ▸ h q' hq' r hr hlocal
    · exact absurd (hplain.symm.trans hqlocal) q.name_ne_numbered

/-- A function with a parameter that is named like the augmented name of a variable. -/
def clashingSource : Text :=
  "fn f(x_1: int): int { let x = 2; return x + x_1; }
"

/-- Two symbols of such a function have the same augmented name. -/
theorem not_nodup_clashingSource :
    (Parser.parse clashingSource).faults = [] ∧
      Accepted {} (Parser.parse clashingSource).program ∧
      ∃ sid, ((analysed {} (Parser.parse clashingSource).program).children globalScope)[0]? =
          some sid ∧
        ¬((rows (analysed {} (Parser.parse clashingSource).program) sid).map
          (·.augmented)).Nodup := by
  have hparse : (Parser.parse clashingSource).faults = [] := by decide +kernel
  have haccepted : Accepted {} (Parser.parse clashingSource).program := by decide +kernel
  have hparams : ((Program.scoped (Parser.parse clashingSource).program)[0]?.bind Stmt.fnHead?).map
      (fun head => head.params.map (·.name.name)) = some [Text.ofString "x_1"] := by
    decide +kernel
  have hsid : ((analysed {} (Parser.parse clashingSource).program).children globalScope)[0]? =
      some 1 := by
    decide +kernel
  -- the local that clashes with the parameter
  have hlocal : ∃ r ∈ rows (analysed {} (Parser.parse clashingSource).program) 1,
      r.augmented = r.name ++ "_" ++ Text.ofInt r.scopeId ∧
        r.augmented = Text.ofString "x_1" := by
    decide +kernel
  obtain ⟨head, hhead, hparams⟩ := Option.map_eq_some_iff.mp hparams
  obtain ⟨sid, hchild, -, hiff⟩ := nodup_augmented_iff haccepted hhead
  obtain rfl := Option.some.inj (hchild.symm.trans hsid)
  refine ⟨hparse, haccepted, 1, hsid, fun hnodup => ?_⟩
  obtain ⟨r, hr, hlocal, hname⟩ := hlocal
  obtain ⟨q, hq, hqname⟩ := List.mem_map.mp (hparams ▸ List.mem_singleton_self _)
  exact hiff.mp hnodup q hq r hr hlocal (hqname.trans hname.symm)

end Analysis
end Slang
