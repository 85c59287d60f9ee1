import Mathlib.Data.List.Forall2
import Slang.Proofs.Bodies
import Slang.Proofs.Folding.Expression

/-!
# Activations

Analysis reads the body of a function once, and a run may go through it any number of times. Inside
a function, what is known of the locals is what they hold (`Mirrors`): this is so where a body
begins, because nothing is known of the parameters, and every statement keeps it up
(`ensures_execStmts`). Nothing is assumed of the globals, because analysis never folds them in a
function.

What is assumed of the globals outside (`P`) has to survive writes to the globals that
`Program.globalWrites` collects: a body writes to no others.
-/

namespace Slang.Execution

open Analysis

/-! ### Locals -/

/-- A local holds what is known of its symbol. -/
def Held (t : Table) (b : Text × SymbolId) (x : Text × Value) : Prop :=
  b.1 = x.1 ∧ ∀ c, t.known? b.2 = some c → x.2 = c

/-- The frames of locals, as analysis sees them and as they are. -/
abbrev HeldAll (t : Table) (locals : List (List (Text × SymbolId))) (env : Locals) : Prop :=
  List.Forall₂ (List.Forall₂ (Held t)) locals env

section
variable {t t' : Table} {names : List (Text × SymbolId)} {frame : List (Text × Value)}
  {locals : List (List (Text × SymbolId))} {env : Locals} {x : Text} {i : SymbolId} {v : Value}

theorem lookup_of_held (h : List.Forall₂ (Held t) names frame) (x : Text) :
    (names.lookup x = none ∧ frame.lookup x = none) ∨
      ∃ i v, names.lookup x = some i ∧ frame.lookup x = some v ∧
        ∀ c, t.known? i = some c → v = c := by
  induction h with
  | nil => exact .inl ⟨rfl, rfl⟩
  | @cons b y names frame hb _ ih =>
    rw [List.lookup_cons, List.lookup_cons, ← hb.1]
    cases x == b.1 with
    | true => exact .inr ⟨b.2, y.2, rfl, rfl, hb.2⟩
    | false => exact ih

/-- A name stands for a local as analysis sees it if and only if there is one. -/
theorem find?_of_held (h : HeldAll t locals env) (x : Text) :
    ((locals.findSome? fun names => names.lookup x) = none ∧ env.find? x = none) ∨
      ∃ i v, (locals.findSome? fun names => names.lookup x) = some i ∧ env.find? x = some v ∧
        ∀ c, t.known? i = some c → v = c := by
  induction h with
  | nil => exact .inl ⟨rfl, rfl⟩
  | @cons names frame locals env hframe _ ih =>
    unfold Locals.find? at ih ⊢
    rw [List.findSome?_cons, List.findSome?_cons]
    rcases lookup_of_held hframe x with ⟨hnames, hframe⟩ | ⟨i, v, hnames, hframe, hv⟩
    · rw [hnames, hframe]
      exact ih
    · rw [hnames, hframe]
      exact .inr ⟨i, v, rfl, rfl, hv⟩

/-- Other symbols still hold what is known of them. -/
theorem held_of_known (h : List.Forall₂ (Held t) names frame)
    (hsame : ∀ j ∈ names.map Prod.snd, t'.known? j = t.known? j) :
    List.Forall₂ (Held t') names frame := by
  induction h with
  | nil => exact .nil
  | @cons b y names frame hb _ ih =>
    refine .cons ⟨hb.1, fun c hc => hb.2 c ?_⟩ (ih fun j hj => hsame j (List.mem_cons_of_mem _ hj))
    rw [← hsame b.2 List.mem_cons_self]
    exact hc

theorem heldAll_of_known (h : HeldAll t locals env)
    (hsame : ∀ j ∈ Table.idsOf locals, t'.known? j = t.known? j) : HeldAll t' locals env := by
  induction h with
  | nil => exact .nil
  | @cons names frame locals env hframe _ ih =>
    rw [Table.idsOf_cons] at hsame
    exact .cons (held_of_known hframe fun j hj => hsame j (List.mem_append_left _ hj))
      (ih fun j hj => hsame j (List.mem_append_right _ hj))

/-- Storing in one frame what is known of the symbol afterwards. -/
theorem storeIn_of_held (h : List.Forall₂ (Held t) names frame)
    (hnodup : (names.map Prod.snd).Nodup) (hsame : ∀ j, j ≠ i → t'.known? j = t.known? j)
    (hnew : ∀ c, t'.known? i = some c → v = c) (hx : names.lookup x = some i) :
    ∃ frame', Locals.storeIn x v frame = some frame' ∧ List.Forall₂ (Held t') names frame' := by
  induction h with
  | nil => cases hx
  | @cons b y names frame hb hrest ih =>
    obtain ⟨y, w⟩ := y
    rw [List.map_cons, List.nodup_cons] at hnodup
    obtain rfl : b.1 = y := hb.1
    rw [List.lookup_cons] at hx
    unfold Locals.storeIn
    by_cases hy : b.1 = x
    · rw [beq_iff_eq.mpr hy.symm] at hx
      obtain rfl : b.2 = i := Option.some.inj hx
      -- no symbol is bound twice, so the others are as before
      refine ⟨_, if_pos hy, .cons ⟨rfl, hnew⟩ (held_of_known hrest fun j hj => hsame j ?_)⟩
      rintro rfl
      exact hnodup.1 hj
    · rw [beq_eq_false_iff_ne.mpr (Ne.symm hy)] at hx
      change names.lookup x = some i at hx
      obtain ⟨frame', hstore, hheld⟩ := ih hnodup.2 hx
      have hne : b.2 ≠ i := by
        rintro rfl
        exact hnodup.1 (List.mem_map.mpr ⟨_, Table.mem_of_lookup hx, rfl⟩)
      refine ⟨_, (if_neg hy).trans (congrArg _ hstore), .cons ⟨rfl, fun c hc => hb.2 c ?_⟩ hheld⟩
      rw [← hsame b.2 hne]
      exact hc

/-- A name that is not listed is not in the frame. -/
theorem storeIn_eq_none (h : List.Forall₂ (Held t) names frame) (hx : names.lookup x = none) :
    Locals.storeIn x v frame = none := by
  induction h with
  | nil => rfl
  | @cons b y names frame hb _ ih =>
    rw [List.lookup_cons] at hx
    unfold Locals.storeIn
    rw [← hb.1]
    -- frames list the same names as scopes, in the same order
    by_cases hy : b.1 = x
    · rw [beq_iff_eq.mpr hy.symm] at hx
      cases hx
    · rw [beq_eq_false_iff_ne.mpr (Ne.symm hy)] at hx
      rw [if_neg hy, ih hx]
      rfl

/-- **Storing in the nearest local of a name** what is known of its symbol afterwards. -/
theorem store?_of_held (h : HeldAll t locals env) (hnodup : (Table.idsOf locals).Nodup)
    (hsame : ∀ j, j ≠ i → t'.known? j = t.known? j) (hnew : ∀ c, t'.known? i = some c → v = c)
    (hx : (locals.findSome? fun names => names.lookup x) = some i) :
    ∃ env', env.store? x v = some env' ∧ HeldAll t' locals env' := by
  induction h with
  | nil => cases hx
  | @cons names frame locals env hframe hrest ih =>
    rw [Table.idsOf_cons, List.nodup_append] at hnodup
    obtain ⟨hhead, htail, hapart⟩ := hnodup
    rw [List.findSome?_cons] at hx
    unfold Locals.store?
    cases hlookup : names.lookup x with
    | some j =>
      -- the local is in this frame, and the frames around it do not have its symbol
      rw [hlookup] at hx
      obtain rfl : j = i := Option.some.inj hx
      have hmem : j ∈ names.map Prod.snd := List.mem_map_of_mem (Table.mem_of_lookup hlookup)
      obtain ⟨frame', hstore, hheld⟩ := storeIn_of_held hframe hhead hsame hnew hlookup
      rw [hstore]
      refine ⟨_, rfl, .cons hheld (heldAll_of_known hrest fun k hk => hsame k ?_)⟩
      rintro rfl
      exact hapart k hmem k hk rfl
    | none =>
      rw [hlookup] at hx
      obtain ⟨env', hstore, hheld⟩ := ih htail hx
      have hmem : i ∈ Table.idsOf locals := by
        obtain ⟨names', hnames', hx⟩ := List.exists_of_findSome?_eq_some hx
        exact List.mem_map_of_mem (List.mem_flatten.mpr ⟨names', hnames', Table.mem_of_lookup hx⟩)
      rw [storeIn_eq_none hframe hlookup, hstore]
      refine ⟨_, rfl, .cons (held_of_known hframe fun k hk => hsame k ?_) hheld⟩
      rintro rfl
      exact hapart k hk k hmem rfl

/-- A name that no inner scope lists is in none of the frames. -/
theorem store?_eq_none (h : HeldAll t locals env)
    (hx : (locals.findSome? fun names => names.lookup x) = none) : env.store? x v = none := by
  induction h with
  | nil => rfl
  | @cons names frame locals env hframe _ ih =>
    rw [List.findSome?_cons] at hx
    unfold Locals.store?
    cases hlookup : names.lookup x with
    | some j =>
      rw [hlookup] at hx
      cases hx
    | none =>
      rw [hlookup] at hx
      rw [storeIn_eq_none hframe hlookup, ih hx]
      rfl

end

/-! ### Activations -/

/-- **An activation that has come to a point of its body**: its locals hold what analysis knows of
them at this point. -/
structure Mirrors (ctx : Context) (st : State) (locals : List (List (Text × SymbolId)))
    (env : Locals) : Prop where
  valid : st.table.Valid
  scope_lt : ctx.scope < st.table.scopes.length
  inside : st.table.Inside ctx.scope locals
  held : HeldAll st.table locals env

/-- What is assumed of the globals survives writes to those in `mutated`. -/
def Survives (mutated : List Text) (P : Globals → Prop) : Prop :=
  ∀ g x v, x ∈ mutated → P g → P (g.set x v)

/-- **What an activation relies on**: it runs the body of a function, calls keep up what is assumed
of the globals, and so do writes to the globals in `mutated`. -/
structure Activation (known : Occurrence → Option Value) (ctx : Context)
    (call : Text → List Value → Run (Option Value)) (mutated : List Text) (P : Globals → Prop) :
    Prop where
  fn : ctx.fn.isSome
  global : ctx.global = globalScope
  call : ∀ f args, Ensures known P (call f args) fun _ => P
  writes : Survives mutated P

section
variable {known : Occurrence → Option Value} {ctx : Context} {st st' : State}
  {call : Text → List Value → Run (Option Value)} {mutated : List Text} {P : Globals → Prop}
  {names : List (Text × SymbolId)} {locals : List (List (Text × SymbolId))} {env : Locals}

/-- A known name inside a function is that of a local, which holds what is known. -/
theorem Mirrors.reading (h : Mirrors ctx st locals env)
    (hact : Activation known ctx call mutated P) : Reading known ctx st.table env call P where
  name := by
    intro id c hc g _
    obtain ⟨i, s, hfind, hs, hknown, hcertain, -⟩ := checkName_value hc
    have hi : st.table.known? i = some c := by rw [Table.known?, hs]; exact hknown
    rw [h.inside.find?_eq] at hfind
    rcases find?_of_held h.held id.name with ⟨hlocals, -⟩ | ⟨j, v, hlocals, henv, hv⟩
    · -- a global would be uncertain here
      rw [hlocals, Option.none_or] at hfind
      obtain ⟨s', hs', hname⟩ := h.valid.symbol_of_findIn? hfind
      obtain rfl := Option.some.inj (hs.symm.trans hs')
      simp [isGlobal, hact.global, hname, hfind, isUncertain, hact.fn] at hcertain
    · rw [hlocals, Option.some_or] at hfind
      obtain rfl := Option.some.inj hfind
      rw [henv, Option.some_or, hv c hi]
  call := hact.call

/-! ### Declarations -/

theorem known?_of_declared {sc : ScopeId} {s : Symbol} {t t' : Table} (h : t.Declared sc s t') :
    t'.known? t.symbols.length = s.known? ∧
      ∀ i, i < t.symbols.length → t'.known? i = t.known? i := by
  constructor
  · obtain ⟨s', hs', -, hc⟩ := h.new
    rw [Table.known?, hs', Option.bind_some, Symbol.known?, hc]
    rfl
  · intro i hi
    rw [Table.known?, h.old i hi]
    rfl

/-- A new local holds what is known of it. -/
theorem Mirrors.declare (h : Mirrors ctx st (names :: locals) env)
    (hgrows : st.Grows ctx.scope st') {s : Symbol} (hd : st.table.Declared ctx.scope s st'.table)
    {v : Value} (hv : ∀ c, s.known? = some c → v = c) :
    Mirrors ctx st' ((names ++ [(s.name, st.table.symbols.length)]) :: locals)
      (env.declare s.name v) := by
  obtain ⟨hnew, hold⟩ := known?_of_declared hd
  have hheld : HeldAll st'.table (names :: locals) env :=
    heldAll_of_known h.held fun j hj => hold j (h.inside.lt h.valid hj)
  refine ⟨hgrows.table.valid h.valid, hgrows.scope_lt h.scope_lt,
    h.inside.declared h.valid h.scope_lt hd, ?_⟩
  cases hheld with
  | cons hframe hrest =>
    refine .cons (List.rel_append hframe (.cons ⟨rfl, fun c hc => hv c ?_⟩ .nil)) hrest
    rw [← hnew]
    exact hc

/-- What is known of a declared variable. -/
theorem known?_of_letSymbol {name : Ident} {ty : Ty} {value : Option Value} {s : Symbol}
    (h : letSymbol name ty value = .ok s) (b : Bool) :
    ({ s with inferred := b } : Symbol).known? = value ∧ s.name = name.name := by
  obtain ⟨v, -, hv, rfl⟩ := letSymbol_ok h
  cases value with
  | none => exact ⟨rfl, rfl⟩
  | some w =>
    rw [hv w rfl]
    exact ⟨rfl, rfl⟩

/-- The value of a declared variable is known if its expression is constant. -/
theorem value_of_letTy {name : Ident} {type : Option TypeNode} {value : Option Expr}
    {init : Checked} {ty : Ty} {v : Option Value}
    (h : letTy name type value init = (some (ty, v), [])) {c : Value} (hc : v = some c) :
    value.isSome ∧ init.value = some c := by
  subst hc
  unfold letTy at h
  -- by what is written: a type, both, nothing, or a value
  split at h
  · cases h
  · split at h
    · cases h
    · split at h
      · simp only [Prod.mk.injEq, Option.some.injEq, and_true] at h
        exact ⟨rfl, h.2⟩
      · split at h <;> cases h
  · cases h
  · split at h
    · cases h
    · split at h
      · cases h
      · simp only [Prod.mk.injEq, Option.some.injEq, and_true] at h
        exact ⟨rfl, h.2⟩

/-! ### Assignments -/

/-- **What an assignment without errors does to what is known**: of the variable that the name
stands for, nothing is known but that it holds the value of the expression. -/
theorem known?_checkAssign {name : Ident} {e : Expr} (he : e.Whole)
    (h : (checkAssign ctx name e st).Clean) :
    ∃ i, st.table.find? ctx.scope name.name = some i ∧
      (checkAssign ctx name e st).table.scopes = st.table.scopes ∧
      (∀ j, j ≠ i → (checkAssign ctx name e st).table.known? j = st.table.known? j) ∧
      ∀ c, (checkAssign ctx name e st).table.known? i = some c →
        (check ctx st.table e).value = some c := by
  obtain ⟨-, -, i, s, v, calculated, hi, hs, hc, -, htable⟩ := checkAssign_inv h
  refine ⟨i, hi, ?_, ?_, ?_⟩
  · -- either the value is forgotten or it is stored; both change one symbol
    rcases htable with ⟨-, htable⟩ | ⟨-, htable⟩ <;> rw [htable] <;> rfl
  · intro j hj
    rw [Table.known?, Table.known?]
    rcases htable with ⟨-, htable⟩ | ⟨-, htable⟩ <;>
      rw [htable, Table.symbol?_modify, if_neg (Ne.symm hj)]
  · -- what is known afterwards was stored, and is what the check found
    intro c hknown
    rw [Table.known?] at hknown
    rcases htable with ⟨-, htable⟩ | ⟨hty, htable⟩
    · rw [htable, Table.symbol?_modify, if_pos rfl, hs] at hknown
      rw [Option.map_some, Option.bind_some, s.known?_setCalculated_false] at hknown
      cases hknown
    · rw [htable, Table.symbol?_modify, if_pos rfl, hs, Option.map_some, Option.bind_some,
        known?_assigned hc fun w hw => (ty_of_value he hw).trans hty] at hknown
      split at hknown
      · cases hknown
      · exact hknown

/-! ### Statements -/

/-- The names in some frames. -/
def namesIn (frames : List (List (Text × SymbolId))) : List Text := frames.flatten.map Prod.fst

/-- **After a statement** that does not return: the locals mirror the state after it, in the frames
around the innermost one they are those from before, and the variables `vars` are local. -/
def Continues (ctx : Context) (st : State) (locals : List (List (Text × SymbolId)))
    (vars : List Text) (out : Outcome) : Prop :=
  ∀ env, out = .next env → ∃ names, Mirrors ctx st (names :: locals) env ∧
    ∀ x ∈ vars, x ∈ namesIn (names :: locals)

theorem continues_next {vars : List Text} (h : Mirrors ctx st (names :: locals) env)
    (hvars : ∀ x ∈ vars, x ∈ namesIn (names :: locals)) :
    Continues ctx st locals vars (.next env) := by
  intro env' henv
  obtain rfl := Outcome.next.inj henv
  exact ⟨names, h, hvars⟩

theorem continues_returned {vars : List Text} (v : Option Value) :
    Continues ctx st locals vars (.returned v) :=
  fun _ h => nomatch h

/-- A name of some frame is found. -/
theorem not_mem_namesIn {x : Text} (h : (locals.findSome? fun names => names.lookup x) = none) :
    x ∉ namesIn locals := by
  intro hmem
  obtain ⟨b, hb, rfl⟩ := List.mem_map.mp hmem
  obtain ⟨names, hnames, hb⟩ := List.mem_flatten.mp hb
  have hlookup := List.findSome?_eq_none_iff.mp h names hnames
  rw [List.lookup_eq_none_iff] at hlookup
  simpa using hlookup b hb

variable {m : Machine}

/-- A declaration of a local. -/
theorem ensures_let (hact : Activation known ctx call mutated P)
    (h : Mirrors ctx st (names :: locals) env) {vars : List Text}
    (hvars : ∀ x ∈ vars, x ∈ namesIn (names :: locals)) {place : StmtPlace} {tok : Token}
    {name : Ident} {type : Option TypeNode} {value : Option Expr}
    (hone : type.isSome ∨ value.isSome) (hvalue : ∀ e ∈ value, e.Whole)
    (hclean : (checkLet ctx name type value st).Clean)
    (hmark : ∀ e, value = some e → Marked known ctx st.table ⟨place, []⟩ e) :
    Ensures known P (execStmt m call place env (.letDecl tok name type value)) fun out g =>
      P g ∧ Continues ctx (checkLet ctx name type value st) locals (name.name :: vars) out := by
  obtain ⟨-, ty, v, s, hty, hs, -, -, hdeclared, -⟩ :=
    checkLet_proper_inv h.valid h.scope_lt hone hvalue hclean
  obtain ⟨hknown, hname⟩ := known?_of_letSymbol hs type.isNone
  have hgrows := grows_checkLet ctx st name type value
  -- whatever value agrees with what is known can be declared
  have hnext : ∀ u : Value, (∀ c, v = some c → u = c) →
      Continues ctx (checkLet ctx name type value st) locals (name.name :: vars)
        (.next (env.declare name.name u)) := by
    intro u hu
    have hmirrors := h.declare hgrows hdeclared fun c hc => hu c (hknown ▸ hc)
    change Mirrors ctx _ ((names ++ [(s.name, _)]) :: locals) (env.declare s.name u) at hmirrors
    rw [hname] at hmirrors
    refine continues_next hmirrors fun x hx => ?_
    rw [namesIn, List.flatten_cons, List.append_assoc, List.map_append, List.map_append]
    rcases List.mem_cons.mp hx with rfl | hx
    · exact List.mem_append_right _ (List.mem_append_left _ List.mem_cons_self)
    · have hmem := hvars x hx
      rw [namesIn, List.flatten_cons, List.map_append, List.mem_append] at hmem
      rcases hmem with hmem | hmem
      · exact List.mem_append_left _ hmem
      · exact List.mem_append_right _ (List.mem_append_right _ hmem)
  cases value with
  | none =>
    -- nothing is known of a variable that starts with the default of its type
    rw [execStmt]
    refine ensures_demand.bind_of fun u _ => ensures_pure fun g hP => ⟨hP, hnext u fun c hc => ?_⟩
    exact absurd (value_of_letTy hty hc).1 Bool.false_ne_true
  | some e =>
    rw [execStmt]
    refine (ensures_eval (h.reading hact) (hvalue e rfl) (hmark e rfl)).bind_of fun w hw => ?_
    refine ensures_demand.bind_of fun u hu => ensures_pure fun g hP => ⟨hP, hnext u fun c hc => ?_⟩
    exact Option.some.inj (hu.symm.trans (hw c (value_of_letTy hty hc).2))

/-- An assignment inside a function: to a local, or to a global that functions may write to. -/
theorem ensures_assign (hact : Activation known ctx call mutated P)
    (h : Mirrors ctx st (names :: locals) env) {vars : List Text}
    (hvars : ∀ x ∈ vars, x ∈ namesIn (names :: locals)) {place : StmtPlace} {tok : Token}
    {name : Ident} {e : Expr} (he : e.Whole) (hclean : (checkAssign ctx name e st).Clean)
    (hwrites : ∀ x ∈ (Stmt.assign tok name e).freeWrites vars, x ∈ mutated)
    (hmark : Marked known ctx st.table ⟨place, []⟩ e) :
    Ensures known P (execStmt m call place env (.assign tok name e)) fun out g =>
      P g ∧ Continues ctx (checkAssign ctx name e st) locals vars out := by
  obtain ⟨i, hfind, hscopes, hothers, hnew⟩ := known?_checkAssign he hclean
  have hgrows := grows_checkAssign ctx st name e
  have hinside : (checkAssign ctx name e st).table.Inside ctx.scope (names :: locals) :=
    h.inside.of_frames (Table.frames_of_scopes hscopes)
      (Table.namesOf_congr (by rw [Table.scope?, hscopes]; rfl))
  have hmirrors : ∀ env', HeldAll (checkAssign ctx name e st).table (names :: locals) env' →
      Mirrors ctx (checkAssign ctx name e st) (names :: locals) env' := fun env' hheld =>
    ⟨hgrows.table.valid h.valid, hgrows.scope_lt h.scope_lt, hinside, hheld⟩
  rw [execStmt]
  refine (ensures_eval (h.reading hact) he hmark).bind_of fun w hw => ?_
  refine ensures_demand.bind_of fun u hu => ?_
  have hagrees : ∀ c, (checkAssign ctx name e st).table.known? i = some c → u = c := fun c hc =>
    Option.some.inj (hu.symm.trans (hw c (hnew c hc)))
  rw [h.inside.find?_eq] at hfind
  cases hlocal : (names :: locals).findSome? fun names => names.lookup name.name with
  | some j =>
    rw [hlocal, Option.some_or] at hfind
    obtain rfl := Option.some.inj hfind
    obtain ⟨env', hstore, hheld⟩ := store?_of_held h.held h.inside.nodup hothers hagrees hlocal
    rw [hstore]
    exact ensures_pure fun g hP => ⟨hP, continues_next (hmirrors env' hheld) hvars⟩
  | none =>
    rw [hlocal, Option.none_or] at hfind
    rw [store?_eq_none h.held hlocal]
    -- the name is not local, so it was collected as one that functions write to
    have hmutated : name.name ∈ mutated := by
      refine hwrites _ ?_
      have hvar : ¬vars.contains name.name = true := fun hmem =>
        not_mem_namesIn hlocal (hvars _ (List.contains_iff_mem.mp hmem))
      rw [Stmt.freeWrites, if_neg hvar]
      exact List.mem_singleton_self _
    have hheld : HeldAll (checkAssign ctx name e st).table (names :: locals) env := by
      refine heldAll_of_known h.held fun j hj => hothers j ?_
      rintro rfl
      exact h.inside.apart j hj (Table.mem_ids_of_findIn? hfind)
    have hstore : Ensures known P (store name.name u) fun _ => P :=
      ensures_store fun g hP => hact.writes g _ u hmutated hP
    refine hstore.bind fun _ => ?_
    exact ensures_pure fun g hP => ⟨hP, continues_next (hmirrors env hheld) hvars⟩

/-- A return ends the activation, so nothing is left to be kept up. -/
theorem ensures_ret (hact : Activation known ctx call mutated P)
    (h : Mirrors ctx st (names :: locals) env) {vars : List Text} {place : StmtPlace} {tok : Token}
    {value : Option Expr} (hvalue : ∀ e ∈ value, e.Whole)
    (hmark : ∀ e, value = some e → Marked known ctx st.table ⟨place, []⟩ e) :
    Ensures known P (execStmt m call place env (.ret tok value)) fun out g =>
      P g ∧ Continues ctx st' locals vars out := by
  cases value with
  | none =>
    rw [execStmt]
    exact ensures_pure fun g hP => ⟨hP, continues_returned none⟩
  | some e =>
    rw [execStmt]
    refine (ensures_eval (h.reading hact) (hvalue e rfl) (hmark e rfl)).bind_of fun v _ => ?_
    exact ensures_pure fun g hP => ⟨hP, continues_returned v⟩

/-- An expression changes no local, and no table. -/
theorem ensures_exprStmt (hact : Activation known ctx call mutated P)
    (h : Mirrors ctx st (names :: locals) env) {vars : List Text}
    (hvars : ∀ x ∈ vars, x ∈ namesIn (names :: locals)) {place : StmtPlace} {tok : Token} {e : Expr}
    (he : e.Whole) (hmark : Marked known ctx st.table ⟨place, []⟩ e) :
    Ensures known P (execStmt m call place env (.expr tok e)) fun out g =>
      P g ∧ Continues ctx (checkExprStmt ctx e st) locals vars out := by
  have hmirrors : Mirrors ctx (checkExprStmt ctx e st) (names :: locals) env := by
    refine ⟨?_, ?_, ?_, ?_⟩ <;> rw [(table_checkExprStmt ctx st e).1]
    exacts [h.valid, h.scope_lt, h.inside, h.held]
  rw [execStmt]
  refine (ensures_eval (h.reading hact) he hmark).bind_of fun v _ => ?_
  exact ensures_pure fun g hP => ⟨hP, continues_next hmirrors hvars⟩

end

/-! ### Bodies -/

/-- The occurrences inside statements, counted from `i` at a place, are known as analysis finds
them. -/
def MarkedIn (known : Occurrence → Option Value) (place : StmtPlace) (i : Nat) (ctx : Context)
    (st : State) (ss : List Stmt) : Prop :=
  ∀ j rest s, siteIn (j :: rest) ctx st ss = some s → ∀ e, s.stmt.value? = some e →
    Marked known s.ctx s.st.table ⟨place ++ (i + j) :: rest, []⟩ e

section
variable {known : Occurrence → Option Value} {place : StmtPlace} {i : Nat} {ctx : Context}
  {st : State} {s : Stmt} {ss : List Stmt}

theorem MarkedIn.here (h : MarkedIn known place i ctx st (s :: ss)) {e : Expr}
    (he : s.value? = some e) : Marked known ctx st.table ⟨place ++ [i], []⟩ e :=
  h 0 [] _ (siteIn_here ctx st s ss) e he

theorem MarkedIn.next (h : MarkedIn known place i ctx st (s :: ss)) :
    MarkedIn known place (i + 1) ctx (checkStmt ctx st s) ss := by
  intro j rest site hsite e he
  have := h (j + 1) rest site ((siteIn_next ctx st j rest s ss).trans hsite) e he
  rwa [Nat.add_comm j 1, ← Nat.add_assoc] at this

theorem MarkedIn.block {tok : Token} {body : List Stmt}
    (h : MarkedIn known place i ctx st (.block tok body :: ss)) :
    MarkedIn known (place ++ [i]) 0 (blockContext ctx st) (scopeStart ctx "block" st.returns st)
      body := by
  intro j rest site hsite e he
  have := h 0 (j :: rest) site ((siteIn_block ctx st j rest tok body ss).trans hsite) e he
  rwa [Nat.zero_add, List.append_assoc]

end

/-- A block is left: the locals around it mirror the state after it. -/
theorem Mirrors.of_block {ctx : Context} {st : State} {locals : List (List (Text × SymbolId))}
    {env env' : Locals} {names : List (Text × SymbolId)} {body : List Stmt}
    (h : Mirrors ctx st locals env)
    (hinner : Mirrors (blockContext ctx st)
      (checkStmts (blockContext ctx st) (scopeStart ctx "block" st.returns st) body)
      (names :: locals) env') :
    Mirrors ctx (checkStmts (blockContext ctx st) (scopeStart ctx "block" st.returns st) body)
      locals env'.tail := by
  have hgrown := grows_checkStmts (blockContext ctx st) (scopeStart ctx "block" st.returns st)
    (scope_lt_blockStart ctx st) body
  refine ⟨hinner.valid, ?_, h.inside.of_inner h.valid h.scope_lt hgrown.table, ?_⟩
  · exact Nat.lt_trans h.scope_lt (Nat.lt_of_lt_of_le (scope_lt_blockStart ctx st)
      hgrown.table.scopes_le)
  · have hheld := hinner.held
    cases hheld with
    | cons _ hrest => exact hrest

/-- **An activation runs statements.** If its locals mirror the state in which analysis begins to
read them, then all evaluations are right, and in the end the locals mirror the state after them. -/
theorem ensures_execStmts {known : Occurrence → Option Value} {m : Machine}
    {call : Text → List Value → Run (Option Value)} {mutated : List Text} {P : Globals → Prop}
    (ctx : Context) (hact : Activation known ctx call mutated P) (st : State)
    (names : List (Text × SymbolId)) (locals : List (List (Text × SymbolId))) (env : Locals)
    (h : Mirrors ctx st (names :: locals) env) (vars : List Text)
    (hvars : ∀ x ∈ vars, x ∈ namesIn (names :: locals)) (place : StmtPlace) (i : Nat)
    (ss : List Stmt) (hss : ∀ s ∈ ss, s.Proper) (hclean : (checkStmts ctx st ss).Clean)
    (hwrites : ∀ x ∈ Stmt.freeWritesAll vars ss, x ∈ mutated)
    (hmark : MarkedIn known place i ctx st ss) :
    Ensures known P (execStmts m call place i env ss) fun out g =>
      P g ∧ Continues ctx (checkStmts ctx st ss) locals [] out := by
  -- on the size of the statements, as analysis reads them; calls are no part of it
  match ss with
  | [] =>
    rw [execStmts, checkStmts_nil]
    refine ensures_pure fun g hP => ⟨hP, continues_next h fun x hx => ?_⟩
    exact absurd hx List.not_mem_nil
  | s :: ss =>
    rw [checkStmts_cons] at hclean ⊢
    rw [Stmt.freeWritesAll] at hwrites
    have hgrows := grows_checkStmt ctx st h.scope_lt s
    have hs := (grows_checkStmts ctx _ (hgrows.scope_lt h.scope_lt) ss).clean hclean
    have hwrites₁ : ∀ x ∈ s.freeWrites vars, x ∈ mutated := fun x hx =>
      hwrites x (List.mem_append_left _ hx)
    -- the first statement, by its kind
    have hhead : Ensures known P (execStmt m call (place ++ [i]) env s) fun out g =>
        P g ∧ Continues ctx (checkStmt ctx st s) locals (s.declares ++ vars) out := by
      have hproper := hss s List.mem_cons_self
      cases hproper with
      | letDecl hone hvalue =>
        rw [checkStmt] at hs ⊢
        exact ensures_let hact h hvars hone hvalue hs fun e he => hmark.here he
      | assign he =>
        rw [checkStmt] at hs ⊢
        exact ensures_assign hact h hvars he hs hwrites₁ (hmark.here rfl)
      | ret hvalue => exact ensures_ret hact h hvalue fun e he => hmark.here he
      | @block tok body hbody =>
        rw [checkStmt_block] at hs ⊢
        have hinner : Mirrors (blockContext ctx st) (scopeStart ctx "block" st.returns st)
            ([] :: names :: locals) ([] :: env) :=
          ⟨valid_scopeStart h.valid h.scope_lt _ _, scope_lt_blockStart ctx st,
            h.inside.addScope h.valid h.scope_lt "block", .cons .nil h.held⟩
        rw [Stmt.freeWrites] at hwrites₁
        have hrun := ensures_execStmts (m := m) (blockContext ctx st)
          ⟨hact.fn, hact.global, hact.call, hact.writes⟩ (scopeStart ctx "block" st.returns st) []
          (names :: locals) ([] :: env) hinner vars hvars (place ++ [i]) 0 body hbody hs hwrites₁
          hmark.block
        rw [execStmt]
        refine hrun.bind_of fun out hout => ?_
        cases out with
        | returned v => exact ensures_pure fun g hP => ⟨hP, continues_returned v⟩
        | next env' =>
          obtain ⟨names', hmirrors, -⟩ := hout env' rfl
          exact ensures_pure fun g hP => ⟨hP, continues_next (h.of_block hmirrors) hvars⟩
      | expr he =>
        rw [checkStmt]
        exact ensures_exprStmt hact h hvars he (hmark.here rfl)
    rw [execStmts]
    refine hhead.bind_of fun out hout => ?_
    cases out with
    | returned v => exact ensures_pure fun g hP => ⟨hP, continues_returned v⟩
    | next env' =>
      obtain ⟨names', hmirrors, hvars'⟩ := hout env' rfl
      exact ensures_execStmts ctx hact (checkStmt ctx st s) names' locals env' hmirrors
        (s.declares ++ vars) hvars' place (i + 1) ss
        (fun s' hs' => hss s' (List.mem_cons_of_mem s hs')) hclean
        (fun x hx => hwrites x (List.mem_append_right _ hx)) hmark.next
termination_by sizeOf ss

end Slang.Execution
