import Slang.Proofs.Sites
import Slang.Proofs.Typing.Sound

/-!
# What a body does to the symbols around it

From inside a function a name stands for a local or for a global. The locals are variables of their
own: those of the parameters, and others that are made while the body is read (`Table.Inside`). So
of the symbols that were there before, a body touches only the parameters and the globals it
assigns to, and it leaves nothing known of such a global (`leaves_checkStmts`).
-/

namespace Slang

open Typing

/-- What is known of the value of a symbol. -/
def Table.known? (t : Table) (id : SymbolId) : Option Value := (t.symbol? id).bind Symbol.known?

namespace Symbol

/-- Nothing is known of a variable after it was marked so. -/
theorem known?_setCalculated_false (s : Symbol) : (s.setCalculated false).known? = none := by
  unfold setCalculated known?
  cases hc : s.content with
  | «variable» v c => rfl
  | function ps result => simp [hc]

end Symbol

namespace Analysis

/-- After an assignment a variable is known if the value is and the variable may be. -/
theorem known?_assigned {unknowable : Bool} {value : Option Value} {s : Symbol} {v : Value}
    {calculated : Bool} (hc : s.content = .variable v calculated)
    (hty : ∀ w, value = some w → w.ty = v.ty) :
    (assigned unknowable value s).known? = if unknowable then none else value := by
  unfold assigned
  cases unknowable with
  | true => exact s.known?_setCalculated_false
  | false =>
    cases value with
    | none => exact s.known?_setCalculated_false
    | some w =>
      have hstore : s.store? w = some { s with content := .variable w true } := by
        unfold Symbol.store?
        rw [hc]
        exact if_pos (hty w rfl)
      simp [hstore, Symbol.known?]

end Analysis

namespace Table

open Analysis

/-! ### The names inside a function -/

/-- The numbers of the symbols in some frames. -/
def idsOf (frames : List (List (Text × SymbolId))) : List SymbolId := frames.flatten.map Prod.snd

theorem idsOf_cons (names : List (Text × SymbolId)) (frames : List (List (Text × SymbolId))) :
    idsOf (names :: frames) = names.map Prod.snd ++ idsOf frames := by
  simp [idsOf]

/-- **A scope inside a function** sees frames of locals in front of the global one, and no symbol is
bound twice. -/
structure Inside (t : Table) (sc : ScopeId) (locals : List (List (Text × SymbolId))) : Prop where
  inner : globalScope < sc
  frames : t.frames sc = locals ++ [t.namesOf globalScope]
  nodup : (idsOf locals).Nodup
  apart : ∀ i ∈ idsOf locals, i ∉ (t.namesOf globalScope).map Prod.snd

variable {t t' : Table} {sc : ScopeId} {locals : List (List (Text × SymbolId))}

/-- Locals are symbols of the table. -/
theorem Inside.lt (h : t.Inside sc locals) (hv : t.Valid) {i : SymbolId} (hi : i ∈ idsOf locals) :
    i < t.symbols.length := by
  obtain ⟨b, hb, rfl⟩ := List.mem_map.mp hi
  obtain ⟨names, hnames, hb⟩ := List.mem_flatten.mp hb
  have hmem : names ∈ t.frames sc := h.frames ▸ List.mem_append_left _ hnames
  obtain ⟨o, -, rfl⟩ := List.mem_map.mp hmem
  obtain ⟨sym, hsym, -⟩ := hv.bound_of_mem hb
  exact symbol?_lt hsym

/-- Inside a function a name stands for the nearest local, or else for a global. -/
theorem Inside.find?_eq (h : t.Inside sc locals) (x : Text) :
    t.find? sc x =
      (locals.findSome? fun names => names.lookup x).or (t.findIn? globalScope x) := by
  rw [find?_eq_frames, h.frames, List.findSome?_append, findIn?_eq_lookup]
  simp

/-- What is found in a scope is one of its symbols. -/
theorem mem_ids_of_findIn? {x : Text} {i : SymbolId} (h : t.findIn? sc x = some i) :
    i ∈ (t.namesOf sc).map Prod.snd := by
  rw [findIn?_eq_lookup] at h
  exact List.mem_map_of_mem (mem_of_lookup h)

/-- A name that stands for something other than a local stands for a global. -/
theorem Inside.findIn?_of_find? (h : t.Inside sc locals) {x : Text} {i : SymbolId}
    (hx : t.find? sc x = some i) (hi : i ∉ idsOf locals) : t.findIn? globalScope x = some i := by
  rw [h.find?_eq] at hx
  cases hlocal : locals.findSome? fun names => names.lookup x with
  | some j =>
    -- the innermost frame that has the name is one of the locals
    rw [hlocal] at hx
    obtain ⟨names, hnames, hlookup⟩ := List.exists_of_findSome?_eq_some hlocal
    have hmem := List.mem_flatten.mpr ⟨names, hnames, mem_of_lookup hlookup⟩
    obtain rfl : j = i := Option.some.inj hx
    exact absurd (List.mem_map_of_mem hmem) hi
  | none =>
    rw [hlocal] at hx
    exact hx

/-- Only frames and the names of the global scope count. -/
theorem Inside.of_frames (h : t.Inside sc locals) (hframes : t'.frames sc = t.frames sc)
    (hglobal : t'.namesOf globalScope = t.namesOf globalScope) : t'.Inside sc locals where
  inner := h.inner
  frames := by rw [hframes, hglobal, h.frames]
  nodup := h.nodup
  apart := by rw [hglobal]; exact h.apart

/-- Reading an inner scope leaves the global scope alone. -/
theorem Extends.namesOf_eq (h : Extends sc t t') {i : ScopeId} (hi : i < t.scopes.length)
    (hne : i ≠ sc) : t'.namesOf i = t.namesOf i :=
  namesOf_congr (h.scope_eq i hi hne)

/-- What was done in a new scope leaves the names of all old ones alone. -/
theorem Extends.namesOf_of_inner {name : Text}
    (h : Extends t.scopes.length (t.addScope (some sc) name).1 t') {i : ScopeId}
    (hi : i < t.scopes.length) : t'.namesOf i = t.namesOf i := by
  have hi' : i < (t.addScope (some sc) name).1.scopes.length :=
    Nat.lt_trans hi (lt_scopes_addScope t (some sc) name)
  rw [h.namesOf_eq hi' (Nat.ne_of_lt hi)]
  exact namesOf_congr (scope?_addScope_of_lt _ _ hi)

theorem Inside.lt_scopes (h : t.Inside sc locals) (hsc : sc < t.scopes.length) :
    globalScope < t.scopes.length :=
  Nat.lt_trans h.inner hsc

theorem namesOf_of_frames {names : List (Text × SymbolId)}
    {outer : List (List (Text × SymbolId))} (h : t.frames sc = names :: outer) :
    t.namesOf sc = names := by
  unfold frames chain at h
  split at h
  · exact (List.cons.inj h).1
  · cases h

/-- A declaration adds its name to its scope. -/
theorem Declared.namesOf_eq {s : Symbol} (h : t.Declared sc s t') :
    t'.namesOf sc = t.namesOf sc ++ [(s.name, t.symbols.length)] := by
  obtain ⟨outer, -, hframes⟩ := h.frames
  exact namesOf_of_frames hframes

/-- A declaration inside a function adds a local. -/
theorem Inside.declared {names : List (Text × SymbolId)} (h : t.Inside sc (names :: locals))
    (hv : t.Valid) (hsc : sc < t.scopes.length) {s : Symbol} (hd : t.Declared sc s t') :
    t'.Inside sc ((names ++ [(s.name, t.symbols.length)]) :: locals) := by
  have hglobal : t'.namesOf globalScope = t.namesOf globalScope :=
    hd.grown.namesOf_eq (h.lt_scopes hsc) (Nat.ne_of_lt h.inner)
  have hids : idsOf ((names ++ [(s.name, t.symbols.length)]) :: locals) =
      names.map Prod.snd ++ t.symbols.length :: idsOf locals := by
    simp [idsOf_cons]
  -- the number of the new symbol is that of no old one
  have hnew : t.symbols.length ∉ idsOf (names :: locals) := fun hmem =>
    Nat.lt_irrefl _ (h.lt hv hmem)
  refine ⟨h.inner, ?_, ?_, ?_⟩
  · obtain ⟨outer, hframes, hframes'⟩ := hd.frames
    obtain ⟨hhead, htail⟩ := List.cons.inj (hframes.symm.trans h.frames)
    rw [hframes', hglobal, hhead, htail]
    rfl
  · -- the new number stands in the middle, but where it stands does not matter here
    rw [hids, List.perm_middle.nodup_iff, ← idsOf_cons]
    exact List.nodup_cons.mpr ⟨hnew, h.nodup⟩
  · intro i hi
    rw [hids, List.mem_append, List.mem_cons, or_left_comm, ← List.mem_append, ← idsOf_cons] at hi
    rw [hglobal]
    rcases hi with rfl | hi
    · intro hmem
      obtain ⟨b, hb, hlt⟩ := List.mem_map.mp hmem
      obtain ⟨sym, hsym, -⟩ := hv.bound_of_mem hb
      exact Nat.lt_irrefl _ (hlt ▸ symbol?_lt hsym)
    · exact h.apart i hi

/-- A new scope inside a function begins without names. -/
theorem Inside.addScope (h : t.Inside sc locals) (hv : t.Valid) (hsc : sc < t.scopes.length)
    (name : Text) : (t.addScope (some sc) name).1.Inside t.scopes.length ([] :: locals) where
  inner := h.lt_scopes hsc
  frames := by
    have hglobal : (t.addScope (some sc) name).1.namesOf globalScope = t.namesOf globalScope :=
      namesOf_congr (scope?_addScope_of_lt _ _ (h.lt_scopes hsc))
    rw [frames_addScope hv hsc, hglobal, h.frames]
    rfl
  nodup := h.nodup
  apart := by
    intro i hi
    rw [namesOf_congr (scope?_addScope_of_lt _ _ (h.lt_scopes hsc))]
    exact h.apart i hi

/-- After an inner scope was read, the scope around it sees what it saw before. -/
theorem Inside.of_inner (h : t.Inside sc locals) (hv : t.Valid) (hsc : sc < t.scopes.length)
    {name : Text} (hinner : Extends t.scopes.length (t.addScope (some sc) name).1 t') :
    t'.Inside sc locals :=
  h.of_frames (hinner.frames_of_inner hv hsc) (hinner.namesOf_of_inner (h.lt_scopes hsc))

end Table

namespace Analysis

/-! ### Writes in a body -/

/-- **What happens to a symbol** that is written to if and only if `W` holds: it stays as it is, or
it is a global of which nothing is known afterwards. -/
structure Leaves (W : Prop) (id : SymbolId) (t t' : Table) : Prop where
  unwritten : ¬W → t'.symbol? id = t.symbol? id
  written : W → id ∈ (t.namesOf globalScope).map Prod.snd ∧ t'.known? id = none

namespace Leaves

variable {W W' : Prop} {id : SymbolId} {t t' t'' : Table}

theorem of_symbol (hW : ¬W) (h : t'.symbol? id = t.symbol? id) : Leaves W id t t' :=
  ⟨fun _ => h, fun h => absurd h hW⟩

theorem congr (h : Leaves W id t t') (hiff : W' ↔ W) : Leaves W' id t t' :=
  ⟨fun hW => h.unwritten (mt hiff.mpr hW), fun hW => h.written (hiff.mp hW)⟩

/-- One thing after the other. What is forgotten stays forgotten. -/
theorem trans (h : Leaves W id t t') (h' : Leaves W' id t' t'')
    (hglobal : t'.namesOf globalScope = t.namesOf globalScope) : Leaves (W ∨ W') id t t'' where
  unwritten := fun hW => by
    rw [not_or] at hW
    rw [h'.unwritten hW.2, h.unwritten hW.1]
  written := by
    intro hW
    by_cases hW' : W'
    · obtain ⟨hmem, hnone⟩ := h'.written hW'
      exact ⟨hglobal ▸ hmem, hnone⟩
    · obtain ⟨hmem, hnone⟩ := h.written (hW.resolve_right hW')
      refine ⟨hmem, ?_⟩
      rw [Table.known?, h'.unwritten hW']
      exact hnone

end Leaves

section
variable {ctx : Context} {st : State} {locals : List (List (Text × SymbolId))} {id : SymbolId}

/-- An assignment inside a function makes nothing known of a symbol that is not local. -/
theorem leaves_checkAssign (hfn : ctx.fn.isSome) (hglobal : ctx.global = globalScope)
    (hv : st.table.Valid) (hin : st.table.Inside ctx.scope locals) (hid : id ∉ Table.idsOf locals)
    (tok : Token) {name : Ident} {e : Expr}
    (h : (checkAssign ctx name e st).Clean) :
    Leaves (Site.Writes ⟨ctx, st, .assign tok name e⟩ id) id st.table
      (checkAssign ctx name e st).table := by
  obtain ⟨-, -, i, s, v, c, hi, hs, hc, -, htable⟩ := checkAssign_inv h
  -- the assignment writes to one symbol, the one that its name stands for
  have hwrites : Site.Writes ⟨ctx, st, .assign tok name e⟩ id ↔ i = id := by
    constructor
    · rintro ⟨_, _, _, hstmt, hfind⟩
      obtain ⟨-, rfl, -⟩ := Stmt.assign.inj hstmt
      exact Option.some.inj (hi.symm.trans hfind)
    · rintro rfl
      exact ⟨tok, name, e, rfl, hi⟩
  refine Leaves.congr ?_ hwrites
  by_cases hne : i = id
  · subst hne
    have hfound := hin.findIn?_of_find? hi hid
    -- the assigned variable is the global of its name, so it is not known afterwards
    have hunknowable : isUnknowable ctx st.table i s.name = true := by
      obtain ⟨s', hs', hname⟩ := hv.symbol_of_findIn? hfound
      obtain rfl := Option.some.inj (hs.symm.trans hs')
      obtain ⟨f, hf⟩ := Option.isSome_iff_exists.mp hfn
      simp [isUnknowable, hf, isGlobal, hglobal, hname, hfound]
    have hnone : (checkAssign ctx name e st).table.known? i = none := by
      rw [Table.known?]
      rcases htable with ⟨-, htable⟩ | ⟨-, htable⟩
      · rw [htable, Table.symbol?_modify, if_pos rfl, hs]
        exact s.known?_setCalculated_false
      · rw [htable, Table.symbol?_modify, if_pos rfl, hs, hunknowable]
        exact s.known?_setCalculated_false
    exact ⟨fun hn => absurd rfl hn, fun _ => ⟨Table.mem_ids_of_findIn? hfound, hnone⟩⟩
  · refine .of_symbol hne ?_
    rcases htable with ⟨-, htable⟩ | ⟨-, htable⟩ <;>
      rw [htable, Table.symbol?_modify, if_neg hne]

end

/-- **What a body does to a symbol that is not local**: the symbol stays as it is unless it is
assigned to. If it is, it is a global, and nothing is known of it afterwards. -/
theorem leaves_checkStmts (ctx : Context) (st : State) (hfn : ctx.fn.isSome)
    (hglobal : ctx.global = globalScope) (hv : st.table.Valid)
    (hsc : ctx.scope < st.table.scopes.length) (names : List (Text × SymbolId))
    (locals : List (List (Text × SymbolId)))
    (hin : st.table.Inside ctx.scope (names :: locals)) (id : SymbolId)
    (hlt : id < st.table.symbols.length) (hid : id ∉ Table.idsOf (names :: locals))
    (ss : List Stmt) (hss : ∀ s ∈ ss, s.Proper) (h : (checkStmts ctx st ss).Clean) :
    Leaves (WritesIn ctx st ss id) id st.table (checkStmts ctx st ss).table := by
  match ss with
  | [] =>
    rw [checkStmts_nil]
    exact .of_symbol not_writesIn_nil rfl
  | s :: ss =>
    rw [checkStmts_cons] at h ⊢
    have hgrows := grows_checkStmt ctx st hsc s
    have hs := (grows_checkStmts ctx _ (hgrows.scope_lt hsc) ss).clean h
    have hglobals : (checkStmt ctx st s).table.namesOf globalScope =
        st.table.namesOf globalScope :=
      hgrows.table.namesOf_eq (hin.lt_scopes hsc) (Nat.ne_of_lt hin.inner)
    -- what is left of each kind of statement: the locals after it, and what it does itself
    have hrest := fun (names' : List (Text × SymbolId))
        (hin' : (checkStmt ctx st s).table.Inside ctx.scope (names' :: locals))
        (hid' : id ∉ Table.idsOf (names' :: locals))
        (hlt' : id < (checkStmt ctx st s).table.symbols.length) =>
      leaves_checkStmts ctx (checkStmt ctx st s) hfn hglobal (hgrows.table.valid hv)
        (hgrows.scope_lt hsc) names' locals hin' id hlt' hid' ss
        (fun s' hs' => hss s' (List.mem_cons_of_mem s hs')) h
    have hlt' := hgrows.table.symbol_lt hlt
    -- a statement that leaves the table as it is
    have hkeep : (checkStmt ctx st s).table = st.table → ¬WritesOf ctx st s id →
        Leaves (WritesOf ctx st s id ∨ WritesIn ctx (checkStmt ctx st s) ss id) id st.table
          (checkStmts ctx (checkStmt ctx st s) ss).table := by
      intro htable hW
      refine Leaves.trans (.of_symbol hW (by rw [htable])) (hrest names ?_ hid hlt') hglobals
      rw [htable]
      exact hin
    refine Leaves.congr ?_ writesIn_cons
    have hproper := hss s List.mem_cons_self
    cases hproper with
    | letDecl hone hvalue =>
      rw [checkStmt] at hs hrest hglobals hlt' ⊢
      obtain ⟨-, ty, v, sym, -, hsym, -, -, hdeclared, -⟩ :=
        checkLet_proper_inv hv hsc hone hvalue hs
      have hin' := hin.declared hv hsc hdeclared
      -- the new local is no symbol from before
      have hid' :
          id ∉ Table.idsOf ((names ++ [(sym.name, st.table.symbols.length)]) :: locals) := by
        simp only [Table.idsOf_cons, List.map_append, List.mem_append, List.map_cons,
          List.map_nil, List.mem_singleton, not_or] at hid ⊢
        exact ⟨⟨hid.1, Nat.ne_of_lt hlt⟩, hid.2⟩
      refine Leaves.trans (.of_symbol ?_ (hdeclared.old id hlt)) (hrest _ hin' hid' hlt') hglobals
      rintro ⟨_, _, _, hstmt, -⟩
      cases hstmt
    | @assign tok name e he =>
      have hleaves := leaves_checkAssign hfn hglobal hv hin hid tok
        (show (checkAssign ctx name e st).Clean by rwa [checkStmt] at hs)
      rw [checkStmt] at hs hrest hglobals hlt' ⊢
      have hframes : (checkAssign ctx name e st).table.frames ctx.scope =
          st.table.frames ctx.scope := by
        obtain ⟨-, -, _, _, _, _, -, -, -, -, htable⟩ := checkAssign_inv hs
        rcases htable with ⟨-, htable⟩ | ⟨-, htable⟩ <;> rw [htable] <;> rfl
      exact hleaves.trans (hrest names (hin.of_frames hframes hglobals) hid hlt') hglobals
    | @ret tok value hvalue =>
      refine hkeep ?_ ?_
      · rw [checkStmt]
        exact table_checkReturn ctx st tok value
      · rintro ⟨_, _, _, hstmt, -⟩
        cases hstmt
    | @block tok body hbody =>
      have hvalid := valid_scopeStart hv hsc "block" st.returns
      have hinner := scope_lt_blockStart ctx st
      rw [checkStmt_block] at hs
      have hbody := leaves_checkStmts (blockContext ctx st)
        (scopeStart ctx "block" st.returns st) hfn hglobal hvalid hinner [] (names :: locals)
        (hin.addScope hv hsc "block") id hlt hid body hbody hs
      -- a new scope changes no symbol and no global name
      have hnames : (scopeStart ctx "block" st.returns st).table.namesOf globalScope =
          st.table.namesOf globalScope :=
        Table.namesOf_congr
          (Table.scope?_addScope_of_lt (some ctx.scope) "block" (hin.lt_scopes hsc))
      have hleaves : Leaves (WritesOf ctx st (.block tok body) id) id st.table
          (checkStmt ctx st (.block tok body)).table := by
        rw [checkStmt_block]
        exact ⟨hbody.unwritten, fun hW => (hbody.written hW).imp_left (hnames ▸ ·)⟩
      refine hleaves.trans (hrest names ?_ hid hlt') hglobals
      rw [checkStmt_block]
      exact hin.of_inner hv hsc (grows_checkStmts (blockContext ctx st) _ hinner body).table
    | @expr tok e he =>
      refine hkeep ?_ ?_
      · rw [checkStmt]
        exact (table_checkExprStmt ctx st e).1
      · rintro ⟨_, _, _, hstmt, -⟩
        cases hstmt
termination_by sizeOf ss

end Analysis
end Slang
