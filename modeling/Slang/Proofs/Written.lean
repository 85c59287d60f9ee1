import Slang.Proofs.Additions
import Slang.Proofs.Folding.Body

/-!
# Which globals a body writes to

Before anything is checked, `Stmt.freeWritesAll` collects the names that a body assigns to and that
no parameter and no earlier declaration makes local. Later an assignment writes to whatever its name
stands for at its place (`Site.writtenGlobal?`). Both say the same of statements without errors
(`freeWrites_agree`): at each statement, the names that are local to the collection are the names of
the locals that the scopes have.

There is one way to part the two. A declaration without a type and without a value is an error of the
reader and no error of analysis, which declares nothing; the name counts as local all the same. Such
a declaration is **vague** (`Stmt.Vague`), and what is said of a name is said up to vague
declarations of it.
-/

namespace Slang.Analysis

open Execution (namesIn not_mem_namesIn)

/-! ### Agreement up to something -/

/-- **Two propositions agree up to `V`**: the first gives the second, and the second gives the first
unless `V` holds. -/
structure UpTo (V A B : Prop) : Prop where
  mp : A → B
  mpr : B → A ∨ V

namespace UpTo

variable {V A A' B B' C : Prop}

theorem of_iff (h : A ↔ B) : UpTo V A B := ⟨h.mp, fun hB => .inl (h.mpr hB)⟩

theorem congr (h : UpTo V A B) (hA : A' ↔ A) (hB : B' ↔ B) : UpTo V A' B' :=
  ⟨fun h' => hB.mpr (h.mp (hA.mp h')), fun h' => (h.mpr (hB.mp h')).imp_left hA.mpr⟩

theorem or (h : UpTo V A B) (h' : UpTo V A' B') : UpTo V (A ∨ A') (B ∨ B') where
  mp := Or.imp h.mp h'.mp
  mpr := by
    rintro (hB | hB)
    · exact (h.mpr hB).imp_left .inl
    · exact (h'.mpr hB).imp_left .inr

/-- Denial changes sides. -/
theorem not (h : UpTo V A B) : UpTo V (¬B) (¬A) where
  mp := mt h.mp
  mpr := by
    intro hA
    by_cases hB : B
    · exact .inr ((h.mpr hB).resolve_left hA)
    · exact .inl hB

theorem and_left (h : UpTo V A B) : UpTo V (C ∧ A) (C ∧ B) where
  mp := And.imp_right h.mp
  mpr := fun ⟨hC, hB⟩ => (h.mpr hB).imp_left fun hA => ⟨hC, hA⟩

theorem exists_congr {α : Type} {A B : α → Prop} (h : ∀ a, UpTo V (A a) (B a)) :
    UpTo V (∃ a, A a) (∃ a, B a) where
  mp := fun ⟨a, hA⟩ => ⟨a, (h a).mp hA⟩
  mpr := fun ⟨a, hB⟩ => ((h a).mpr hB).imp_left fun hA => ⟨a, hA⟩

end UpTo

/-! ### Names that are written to -/

/-- **The global variable that the assignment at a site writes to**, by its name. -/
def Site.writtenGlobal? (s : Site) : Option Text :=
  s.target?.bind fun id => (s.st.table.symbol? id).bind fun sym =>
    if sym.isVariable && isGlobal s.ctx s.st.table id sym.name then some sym.name else none

/-- Some statement writes to the global variable of a name, at any depth. -/
def WritesGlobalIn (ctx : Context) (st : State) (ss : List Stmt) (x : Text) : Prop :=
  ∃ place s, siteIn place ctx st ss = some s ∧ s.writtenGlobal? = some x

/-! ### Names that are local -/

section
variable {names : List (Text × SymbolId)} {locals : List (List (Text × SymbolId))} {x : Text}

/-- A name that stands for a local is the name of one. -/
theorem mem_namesIn_of_lookup {i : SymbolId}
    (h : (locals.findSome? fun names => names.lookup x) = some i) :
    x ∈ namesIn locals ∧ i ∈ Table.idsOf locals := by
  obtain ⟨names, hnames, hlookup⟩ := List.exists_of_findSome?_eq_some h
  have hmem := List.mem_flatten.mpr ⟨names, hnames, Table.mem_of_lookup hlookup⟩
  exact ⟨List.mem_map_of_mem hmem, List.mem_map_of_mem hmem⟩

/-- The names after a declaration. -/
theorem mem_namesIn_concat {y : Text} {i : SymbolId} :
    x ∈ namesIn ((names ++ [(y, i)]) :: locals) ↔ x = y ∨ x ∈ namesIn (names :: locals) := by
  simp only [namesIn, List.flatten_cons, List.map_append, List.mem_append, List.map_cons,
    List.map_nil, List.mem_singleton, or_assoc, or_left_comm]

/-- **Where the statements of a scope inside a function are read.** -/
structure Within (ctx : Context) (st : State) (names : List (Text × SymbolId))
    (locals : List (List (Text × SymbolId))) : Prop where
  global : ctx.global = globalScope
  valid : st.table.Valid
  scope_lt : ctx.scope < st.table.scopes.length
  inside : st.table.Inside ctx.scope (names :: locals)

variable {ctx : Context} {st : State} {V : Prop} {vars : List Text} {s : Stmt} {ss : List Stmt}

/-- **One statement.** The name that it declares becomes local on both sides. -/
theorem Within.next (h : Within ctx st names locals)
    (hlocal : UpTo V (x ∈ namesIn (names :: locals)) (x ∈ vars)) (hvague : s.Vague x → V)
    (hclean : (checkStmt ctx st s).Clean) :
    ∃ names', Within ctx (checkStmt ctx st s) names' locals ∧
      UpTo V (x ∈ namesIn (names' :: locals)) (x ∈ s.declares ++ vars) := by
  have hgrows := grows_checkStmt ctx st h.scope_lt s
  -- the statement declares a name, which is then local, or it declares none
  rcases declares_or_keeps h.valid h.scope_lt hclean with
    ⟨sym, hname, hdeclared⟩ | ⟨hnone, hframes⟩
  · refine ⟨_, ⟨h.global, hgrows.table.valid h.valid, hgrows.scope_lt h.scope_lt,
      h.inside.declared h.valid h.scope_lt hdeclared⟩, ?_⟩
    refine ((UpTo.of_iff Iff.rfl).or hlocal).congr mem_namesIn_concat ?_
    rw [hname]
    exact List.mem_cons
  · have hglobals : (checkStmt ctx st s).table.namesOf globalScope =
        st.table.namesOf globalScope :=
      hgrows.table.namesOf_eq (h.inside.lt_scopes h.scope_lt) (Nat.ne_of_lt h.inside.inner)
    refine ⟨names, ⟨h.global, hgrows.table.valid h.valid, hgrows.scope_lt h.scope_lt,
      h.inside.of_frames hframes hglobals⟩, fun hx => List.mem_append_right _ (hlocal.mp hx), ?_⟩
    intro hx
    rcases List.mem_append.mp hx with hx | hx
    · -- the name is not there, but it counts as local
      exact .inr (hvague (hnone x hx))
    · exact hlocal.mpr hx

/-- A block begins with what is local around it. -/
theorem Within.block (h : Within ctx st names locals) :
    Within (blockContext ctx st) (scopeStart ctx "block" st.returns st) [] (names :: locals) :=
  ⟨h.global, valid_scopeStart h.valid h.scope_lt _ _, scope_lt_blockStart ctx st,
    h.inside.addScope h.valid h.scope_lt "block"⟩

/-! ### Agreement -/

/-- An assignment without errors writes to a global if and only if its name is not local. -/
theorem Within.writtenGlobal?_assign (h : Within ctx st names locals) {tok : Token} {name : Ident}
    {e : Expr} (hclean : (checkAssign ctx name e st).Clean) :
    Site.writtenGlobal? ⟨ctx, st, .assign tok name e⟩ = some x ↔
      name.name = x ∧ x ∉ namesIn (names :: locals) := by
  obtain ⟨-, -, i, sym, v, c, hfind, hsym, hcontent, -⟩ := checkAssign_inv hclean
  obtain ⟨sym', hsym', hname⟩ := h.valid.symbol_of_find? hfind
  obtain rfl := Option.some.inj (hsym.symm.trans hsym')
  have hwritten : Site.writtenGlobal? ⟨ctx, st, .assign tok name e⟩ =
      if st.table.findIn? globalScope name.name = some i then some name.name else none := by
    simp [Site.writtenGlobal?, Site.target?, hfind, hsym, Symbol.isVariable, hcontent, isGlobal,
      h.global, hname]
  -- the name stands for the nearest local, or else for a global
  have hlookup := h.inside.find?_eq name.name
  rw [hfind] at hlookup
  rw [hwritten]
  cases hlocal : (names :: locals).findSome? fun names => names.lookup name.name with
  | some j =>
    -- no symbol is both, not even if there is a global of the same name
    rw [hlocal, Option.some_or] at hlookup
    obtain rfl := Option.some.inj hlookup
    obtain ⟨hmem, hid⟩ := mem_namesIn_of_lookup hlocal
    rw [if_neg fun hglobal => h.inside.apart i hid (Table.mem_ids_of_findIn? hglobal)]
    refine iff_of_false (Option.some_ne_none x).symm ?_
    rintro ⟨rfl, hnot⟩
    exact hnot hmem
  | none =>
    rw [hlocal, Option.none_or] at hlookup
    rw [if_pos hlookup.symm, Option.some.injEq]
    refine ⟨?_, And.left⟩
    rintro rfl
    exact ⟨rfl, not_mem_namesIn hlocal⟩

end

/-- An assignment is collected if its name does not count as local. -/
theorem mem_freeWrites_assign {x : Text} {vars : List Text} {tok : Token} {name : Ident}
    {e : Expr} : x ∈ (Stmt.assign tok name e).freeWrites vars ↔ name.name = x ∧ x ∉ vars := by
  rw [Stmt.freeWrites]
  split
  · next hmem =>
    refine iff_of_false List.not_mem_nil ?_
    rintro ⟨rfl, hnot⟩
    exact hnot (List.contains_iff_mem.mp hmem)
  · next hmem =>
    rw [List.mem_singleton]
    refine ⟨?_, fun h => h.1.symm⟩
    rintro rfl
    exact ⟨rfl, fun h => hmem (List.contains_iff_mem.mpr h)⟩

/-- **The collected writes are the writes**, for one name and up to vague declarations of it: what is
collected from statements is written by one of them, and what one of them writes is collected. -/
theorem freeWrites_agree (V : Prop) (x : Text) (ctx : Context) (st : State)
    (names : List (Text × SymbolId)) (locals : List (List (Text × SymbolId))) (vars : List Text)
    (h : Within ctx st names locals)
    (hlocal : UpTo V (x ∈ namesIn (names :: locals)) (x ∈ vars)) (ss : List Stmt)
    (hvague : ∀ s ∈ ss, s.Vague x → V) (hclean : (checkStmts ctx st ss).Clean) :
    UpTo V (x ∈ Stmt.freeWritesAll vars ss) (WritesGlobalIn ctx st ss x) := by
  -- on the size of the statements; `hlocal` is kept up by each of them, and is what a block begins
  -- with, since both sides forget at its end what it declared
  match ss with
  | [] =>
    rw [Stmt.freeWritesAll]
    exact .of_iff (iff_of_false List.not_mem_nil not_exists_siteIn_nil)
  | s :: ss =>
    rw [checkStmts_cons] at hclean
    have hgrows := grows_checkStmt ctx st h.scope_lt s
    have hs := (grows_checkStmts ctx _ (hgrows.scope_lt h.scope_lt) ss).clean hclean
    obtain ⟨names', hnext, hlocal'⟩ := h.next hlocal (hvague s List.mem_cons_self) hs
    have hrest := freeWrites_agree V x ctx (checkStmt ctx st s) names' locals
      (s.declares ++ vars) hnext hlocal' ss (fun s' hs' => hvague s' (List.mem_cons_of_mem s hs'))
      hclean
    rw [Stmt.freeWritesAll]
    refine UpTo.congr (.or ?_ hrest) List.mem_append exists_siteIn_cons
    -- the first statement: it writes itself, or a statement inside it does
    cases s with
    | assign tok name e =>
      rw [checkStmt] at hs
      refine hlocal.not.and_left.congr mem_freeWrites_assign ?_
      rw [h.writtenGlobal?_assign hs]
      refine or_iff_left ?_
      rintro ⟨_, _, hblock, _⟩
      cases hblock
    | block tok body =>
      rw [checkStmt_block] at hs
      have hbody := freeWrites_agree V x (blockContext ctx st)
        (scopeStart ctx "block" st.returns st) [] (names :: locals) vars h.block hlocal body
        (fun s' hs' hx => hvague _ List.mem_cons_self (.block hs' hx)) hs
      refine hbody.congr (by rw [Stmt.freeWrites]) ?_
      constructor
      · rintro (hwrites | ⟨_, _, ⟨⟩, hwrites⟩)
        · cases hwrites
        · exact hwrites
      · exact fun hwrites => .inr ⟨tok, body, rfl, hwrites⟩
    | _ =>
      -- no other statement writes, and none has statements inside
      refine .of_iff (iff_of_false (by simp [Stmt.freeWrites]) ?_)
      rintro (hwrites | ⟨_, _, hblock, _⟩)
      · cases hwrites
      · cases hblock
termination_by sizeOf ss

end Slang.Analysis
