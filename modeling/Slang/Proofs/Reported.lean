import Slang.Proofs.Constants
import Slang.Proofs.Ready
import Slang.Report.Row

/-!
# What is reported of a global that a function writes to

Analysis keeps one flag for each variable: whether its value is known. In source order, every
assignment to a global sets it: one in a function body clears it, and one at top level sets it if
the assigned value is constant. So what is known of a global in the end was decided by the last
statement of the program that writes to it, and this does not depend on whether some function writes
to the global as well (`known?_iff_last`). A function that writes to it keeps it out of the report
only if no constant is assigned to it afterwards.

* `Ready.known?_assign`, `Ready.known?_body` and `Ready.known?_same` are what one top-level
  statement does to the flag;
* `known?_checkTops` is what the statements from some point on do to it.
-/

namespace Slang

open Typing

namespace Analysis

/-! ### Writes among top-level statements -/

/-- An assignment writes to a symbol, at a place among top-level statements that are read from a
given state on. -/
def WritesAmong (ctx : Context) (st : State) (l : List (Stmt × Option Symbol)) (place : StmtPlace)
    (id : SymbolId) : Prop :=
  ∃ s, siteAmong ctx st l place = some s ∧ s.Writes id

/-- The constant of a top-level statement, if its expression is one. -/
def constantOf (ctx : Context) (st : State) (l : List (Stmt × Option Symbol)) (i : Nat) :
    Option Value :=
  (siteAmong ctx st l [i]).bind fun s =>
    (s.stmt.value?.bind (Expr.part? [])).bind fun e => (check s.ctx s.st.table e).value

/-- **The last write to a symbol is a top-level assignment of the constant `c`.** -/
def LastAssigns (ctx : Context) (st : State) (l : List (Stmt × Option Symbol)) (id : SymbolId)
    (c : Value) : Prop :=
  ∃ i, WritesAmong ctx st l [i] id ∧ constantOf ctx st l i = some c ∧
    ∀ j place, WritesAmong ctx st l (j :: place) id → j ≤ i

section
variable {ctx : Context} {st : State} {s : Stmt × Option Symbol} {l : List (Stmt × Option Symbol)}
  {id : SymbolId}

theorem not_writesAmong_nil (place : StmtPlace) : ¬WritesAmong ctx st [] place id := by
  rintro ⟨s, hs, -⟩
  match place with
  | [] => cases hs
  | [i] => cases hs
  | i :: j :: place => cases hs

theorem not_writesAmong_here : ¬WritesAmong ctx st l [] id := by
  rintro ⟨s, hs, -⟩
  cases hs

theorem writesAmong_next {i : Nat} {place : StmtPlace} :
    WritesAmong ctx st (s :: l) ((i + 1) :: place) id ↔
      WritesAmong ctx (checkTop ctx st s) l (i :: place) id := by
  unfold WritesAmong
  rw [siteAmong_next]

theorem constantOf_next (i : Nat) :
    constantOf ctx st (s :: l) (i + 1) = constantOf ctx (checkTop ctx st s) l i := by
  unfold constantOf
  rw [siteAmong_next]

/-! ### One statement -/

/-- A top-level assignment makes known what is known of its value. -/
theorem Ready.known?_assign (h : Ready ctx st (s :: l))
    (hw : WritesAmong ctx st (s :: l) [0] id) :
    (checkTop ctx st s).table.known? id = constantOf ctx st (s :: l) 0 := by
  obtain ⟨site, hsite, tok, name, e, hstmt, hfind⟩ := hw
  obtain rfl := Option.some.inj ((siteAmong_here ctx st l s).symm.trans hsite)
  obtain ⟨s, signature⟩ := s
  obtain rfl : s = .assign tok name e := hstmt
  have hclean := h.clean_head
  rw [checkTop_assign] at hclean ⊢
  obtain ⟨-, hvalue, i, sym, v, calculated, hi, hs, hc, -, htable⟩ := checkAssign_inv hclean
  obtain rfl : i = id := Option.some.inj (hi.symm.trans hfind)
  have he : e.Whole := by
    have hproper : (Stmt.assign tok name e).ProperTop := h.proper _ List.mem_cons_self
    cases hproper with
    | assign he => exact he
  -- at top level every variable may be known
  have hknowable : isUnknowable ctx st.table i sym.name = false := by simp [isUnknowable, h.fn]
  change _ = (check ctx st.table e).value
  rcases htable with ⟨hinv, -⟩ | ⟨hty, htable⟩
  · exact absurd hinv (ne_invalid_of_hasType h.valid (hasType_check h.valid he hvalue))
  · rw [Table.known?, htable, Table.symbol?_modify, if_pos rfl, hs, Option.map_some,
      Option.bind_some, known?_assigned hc fun w hw => (ty_of_value he hw).trans hty, hknowable]
    rfl

/-- A function that writes to a global leaves nothing known of it. -/
theorem Ready.known?_body (h : Ready ctx st (s :: l))
    (hid : id ∈ (st.table.namesOf globalScope).map Prod.snd) {j : Nat} {place : StmtPlace}
    (hw : WritesAmong ctx st (s :: l) (0 :: j :: place) id) :
    (checkTop ctx st s).table.known? id = none := by
  obtain ⟨site, hsite, hwrites⟩ := hw
  obtain ⟨s, signature⟩ := s
  cases s with
  | fn head brace body =>
    obtain ⟨ctx', st', names, hentry, hreads⟩ := h.reads_fn
    rw [siteAmong_fn ctx st l hentry] at hsite
    have hleaves := hreads.leaves (lt_of_mem_namesOf h.valid hid) (h.not_mem_paramIds hid)
    exact (hleaves.written ⟨j :: place, site, hsite, hwrites⟩).2
  | _ => cases hsite

/-- A statement that does not write to a global changes nothing about it. -/
theorem Ready.known?_same (h : Ready ctx st (s :: l))
    (hid : id ∈ (st.table.namesOf globalScope).map Prod.snd)
    (hw : ∀ place, ¬WritesAmong ctx st (s :: l) (0 :: place) id) :
    (checkTop ctx st s).table.known? id = st.table.known? id := by
  have hlt := lt_of_mem_namesOf h.valid hid
  suffices hsame : (checkTop ctx st s).table.symbol? id = st.table.symbol? id by
    rw [Table.known?, hsame]
    rfl
  obtain ⟨s, signature⟩ := s
  have hclean := h.clean_head
  have hs : s.ProperTop := h.proper _ List.mem_cons_self
  cases hs with
  | letDecl hone hvalue =>
    rw [checkTop_letDecl] at hclean ⊢
    obtain ⟨-, ty, v, sym, -, -, -, -, hdeclared, -⟩ :=
      checkLet_proper_inv h.valid h.scope_lt' hone hvalue hclean
    exact hdeclared.old id hlt
  | @assign tok name e he =>
    rw [checkTop_assign] at hclean ⊢
    obtain ⟨-, -, i, sym, v, c, hi, -, -, -, htable⟩ := checkAssign_inv hclean
    have hne : i ≠ id := by
      rintro rfl
      exact hw [] ⟨_, siteAmong_here ctx st l _, tok, name, e, rfl, hi⟩
    rcases htable with ⟨-, htable⟩ | ⟨-, htable⟩ <;>
      rw [htable, Table.symbol?_modify, if_neg hne]
  | @fn head brace body hbody =>
    obtain ⟨ctx', st', names, hentry, hreads⟩ := h.reads_fn
    refine (hreads.leaves hlt (h.not_mem_paramIds hid)).unwritten ?_
    rintro ⟨place, site, hsite, hwrites⟩
    cases place with
    | nil => cases hsite
    | cons j place =>
      exact hw (j :: place) ⟨site, (siteAmong_fn ctx st l hentry j place).trans hsite, hwrites⟩

/-! ### All statements -/

/-- The last write, with one more statement in front: it is among the others, or it is that
statement and there are no others. -/
theorem lastAssigns_cons {c : Value} :
    LastAssigns ctx st (s :: l) id c ↔
      LastAssigns ctx (checkTop ctx st s) l id c ∨
        WritesAmong ctx st (s :: l) [0] id ∧ constantOf ctx st (s :: l) 0 = some c ∧
          ∀ place, ¬WritesAmong ctx (checkTop ctx st s) l place id := by
  constructor
  · rintro ⟨i, hw, hc, hlast⟩
    cases i with
    | zero =>
      refine .inr ⟨hw, hc, fun place hplace => ?_⟩
      cases place with
      | nil => exact not_writesAmong_here hplace
      | cons j place =>
        exact absurd (hlast _ _ (writesAmong_next.mpr hplace)) (Nat.not_succ_le_zero j)
    | succ i =>
      rw [constantOf_next] at hc
      refine .inl ⟨i, writesAmong_next.mp hw, hc, fun j place hplace => ?_⟩
      exact Nat.le_of_succ_le_succ (hlast _ _ (writesAmong_next.mpr hplace))
  · rintro (⟨i, hw, hc, hlast⟩ | ⟨hw, hc, hnone⟩)
    · refine ⟨i + 1, writesAmong_next.mpr hw, (constantOf_next i).trans hc, ?_⟩
      intro j place hplace
      cases j with
      | zero => exact Nat.zero_le _
      | succ j => exact Nat.succ_le_succ (hlast _ _ (writesAmong_next.mp hplace))
    · refine ⟨0, hw, hc, fun j place hplace => ?_⟩
      cases j with
      | zero => exact Nat.le_refl _
      | succ j => exact absurd (writesAmong_next.mp hplace) (hnone _)

end

/-- A global stays a global. -/
theorem Ready.mem_next {ctx : Context} {st : State} {s : Stmt × Option Symbol}
    {l : List (Stmt × Option Symbol)} (h : Ready ctx st (s :: l)) {id : SymbolId}
    (hid : id ∈ (st.table.namesOf globalScope).map Prod.snd) :
    id ∈ ((checkTop ctx st s).table.namesOf globalScope).map Prod.snd := by
  obtain ⟨new, hnames, -⟩ := h.names_next
  rw [hnames, List.map_append]
  exact List.mem_append_left _ hid

/-- **What is known of a global after some statements**: what the last of them that writes to it
says, or else what was known before. -/
theorem known?_checkTops {ctx : Context} {st : State} {l : List (Stmt × Option Symbol)}
    (h : Ready ctx st l) {id : SymbolId}
    (hid : id ∈ (st.table.namesOf globalScope).map Prod.snd) {c : Value} :
    (l.foldl (checkTop ctx) st).table.known? id = some c ↔
      LastAssigns ctx st l id c ∨
        (∀ place, ¬WritesAmong ctx st l place id) ∧ st.table.known? id = some c := by
  induction l generalizing st with
  | nil =>
    refine ⟨fun hc => .inr ⟨not_writesAmong_nil, hc⟩, ?_⟩
    rintro (⟨i, hw, -⟩ | ⟨-, hc⟩)
    · exact absurd hw (not_writesAmong_nil _)
    · exact hc
  | cons s l ih =>
    rw [List.foldl_cons, ih h.next (h.mem_next hid), lastAssigns_cons, or_assoc]
    refine or_congr_right ?_
    -- no later statement writes, so the first one decides
    constructor
    · rintro ⟨hnone, hc⟩
      by_cases hw : WritesAmong ctx st (s :: l) [0] id
      · rw [h.known?_assign hw] at hc
        exact .inl ⟨hw, hc, hnone⟩
      · by_cases hbody : ∃ j place, WritesAmong ctx st (s :: l) (0 :: j :: place) id
        · obtain ⟨j, place, hbody⟩ := hbody
          rw [h.known?_body hid hbody] at hc
          cases hc
        · have hsame : ∀ place, ¬WritesAmong ctx st (s :: l) (0 :: place) id := by
            intro place hplace
            cases place with
            | nil => exact hw hplace
            | cons j place => exact hbody ⟨j, place, hplace⟩
          rw [h.known?_same hid hsame] at hc
          refine .inr ⟨fun place hplace => ?_, hc⟩
          match place with
          | [] => exact not_writesAmong_here hplace
          | 0 :: place => exact hsame place hplace
          | (i + 1) :: place => exact hnone _ (writesAmong_next.mp hplace)
    · rintro (⟨hw, hc, hnone⟩ | ⟨hnone, hc⟩)
      · exact ⟨hnone, (h.known?_assign hw).trans hc⟩
      · refine ⟨fun place hplace => ?_, (h.known?_same hid fun place => hnone _).trans hc⟩
        cases place with
        | nil => exact not_writesAmong_here hplace
        | cons i place => exact hnone _ (writesAmong_next.mpr hplace)

/-! ### Programs -/

/-- What is assigned to in a body is a symbol of the table after it. -/
theorem lt_of_writesIn (ctx : Context) (st : State) (hv : st.table.Valid)
    (hsc : ctx.scope < st.table.scopes.length) {id : SymbolId} (ss : List Stmt)
    (h : WritesIn ctx st ss id) : id < (checkStmts ctx st ss).table.symbols.length := by
  match ss with
  | [] => exact absurd h not_writesIn_nil
  | s :: ss =>
    rw [checkStmts_cons]
    have hgrown := grows_checkStmt ctx st hsc s
    have hrest := grows_checkStmts ctx _ (hgrown.scope_lt hsc) ss
    rcases writesIn_cons.mp h with h | h
    · refine hrest.table.symbol_lt ?_
      cases s with
      | block tok body =>
        rw [checkStmt_block]
        exact lt_of_writesIn (blockContext ctx st) (scopeStart ctx "block" st.returns st)
          (valid_scopeStart hv hsc "block" st.returns) (scope_lt_blockStart ctx st) body h
      | _ =>
        obtain ⟨_, name, _, -, hfind⟩ := h
        obtain ⟨sym, hsym, -⟩ := hv.symbol_of_find? hfind
        exact hgrown.table.symbol_lt (Table.symbol?_lt hsym)
    · exact lt_of_writesIn ctx (checkStmt ctx st s) (hgrown.table.valid hv) (hgrown.scope_lt hsc)
        ss h
termination_by sizeOf ss

section
variable {ctx : Context} {st : State} {l : List (Stmt × Option Symbol)} {id : SymbolId}

/-- A global that is there in the end and whose symbol is there now is a global now. -/
theorem Ready.mem_of_mem_final (h : Ready ctx st l) (hlt : id < st.table.symbols.length)
    (hid : id ∈ ((l.foldl (checkTop ctx) st).table.namesOf globalScope).map Prod.snd) :
    id ∈ (st.table.namesOf globalScope).map Prod.snd := by
  induction l generalizing st with
  | nil => exact hid
  | cons s l ih =>
    have hgrown := grows_checkTop ctx st h.scope_lt' s
    have hmem := ih h.next (hgrown.table.symbol_lt hlt) hid
    obtain ⟨new, hnames, hnew⟩ := h.names_next
    rw [hnames, List.map_append, List.mem_append] at hmem
    exact hmem.resolve_right fun hmem => Nat.not_lt.mpr (hnew id hmem) hlt

/-- A global that a function assigns to was declared before the function. -/
theorem Ready.mem_of_body {s : Stmt × Option Symbol} (h : Ready ctx st (s :: l))
    (hid : id ∈ (((s :: l).foldl (checkTop ctx) st).table.namesOf globalScope).map Prod.snd)
    {j : Nat} {place : StmtPlace} (hw : WritesAmong ctx st (s :: l) (0 :: j :: place) id) :
    id ∈ (st.table.namesOf globalScope).map Prod.snd := by
  obtain ⟨site, hsite, hwrites⟩ := hw
  obtain ⟨s, signature⟩ := s
  cases s with
  | fn head brace body =>
    obtain ⟨ctx', st', names, hentry, hreads⟩ := h.reads_fn
    rw [siteAmong_fn ctx st l hentry] at hsite
    have hlt := lt_of_writesIn ctx' st' hreads.enters.valid hreads.enters.scope_lt body
      ⟨j :: place, site, hsite, hwrites⟩
    -- the symbol was there at the end of the body, and what is declared after it is newer
    have hafter : id < (checkTop ctx st (.fn head brace body, signature)).table.symbols.length := by
      rcases hreads.after with heq | ⟨sym, -, hdeclared⟩
      · rw [heq]
        exact hlt
      · exact hdeclared.grown.symbol_lt hlt
    have hmem := h.next.mem_of_mem_final hafter hid
    obtain ⟨new, hnames, hnew⟩ := hreads.names_next
    rw [hnames, List.map_append, List.mem_append] at hmem
    exact hmem.resolve_right fun hmem => Nat.not_lt.mpr (hnew id hmem) hlt
  | _ => cases hsite

/-- **A global that some function writes to is known in the end if and only if the last write to it
is a top-level assignment of a constant.** The declaration of the global no longer counts: the
function comes after it. -/
theorem known?_iff_last (h : Ready ctx st l)
    (hid : id ∈ ((l.foldl (checkTop ctx) st).table.namesOf globalScope).map Prod.snd)
    {i j : Nat} {place : StmtPlace} (hw : WritesAmong ctx st l (i :: j :: place) id) {c : Value} :
    (l.foldl (checkTop ctx) st).table.known? id = some c ↔ LastAssigns ctx st l id c := by
  induction i generalizing st l with
  | zero =>
    cases l with
    | nil => exact absurd hw (not_writesAmong_nil _)
    | cons s l =>
      have hnow := h.mem_of_body hid hw
      have hknown : (l.foldl (checkTop ctx) (checkTop ctx st s)).table.known? id = some c ↔ _ :=
        known?_checkTops h.next (h.mem_next hnow)
      rw [h.known?_body hnow hw] at hknown
      rw [List.foldl_cons, hknown, lastAssigns_cons]
      refine or_congr_right ⟨fun hc => absurd hc.2 (Option.some_ne_none c).symm, ?_⟩
      -- the statement is a function and no assignment
      intro hassign
      obtain ⟨⟨site, hsite, tok, name, e, hstmt, -⟩, -⟩ := hassign
      obtain rfl := Option.some.inj ((siteAmong_here ctx st l s).symm.trans hsite)
      obtain ⟨s, signature⟩ := s
      obtain rfl : s = .assign tok name e := hstmt
      obtain ⟨site, hsite, -⟩ := hw
      cases hsite
  | succ i ih =>
    cases l with
    | nil => exact absurd hw (not_writesAmong_nil _)
    | cons s l =>
      rw [List.foldl_cons, ih h.next hid (writesAmong_next.mp hw), lastAssigns_cons]
      refine ⟨.inl, fun hc => hc.resolve_right fun hassign => ?_⟩
      exact hassign.2.2 _ (writesAmong_next.mp hw)

end

/-- **The last write to a symbol in a program is a top-level assignment of the constant `c`**: no
statement after it writes to the symbol, and no function after it does. -/
def LastConstant (options : Options) (p : Program) (id : SymbolId) (c : Value) : Prop :=
  ∃ i, WritesAt options p [i] id ∧ constantAt options p ⟨[i], []⟩ = some c ∧
    ∀ j place, WritesAt options p (j :: place) id → j ≤ i

/-- **The row of a global that a function writes to.** For every source that is read without faults
and accepted: if an assignment inside a function body, at any depth, writes to the global `g`, then
the row of `g` shows a value if and only if the last write to `g` in the program is a top-level
assignment of a constant, and it shows that constant. -/
theorem row_of_global_written_in_body {src : Text} {options : Options}
    (hparse : (Parser.parse src).faults = [])
    (haccepted : Accepted options (Parser.parse src).program) {g : Text} {id : SymbolId}
    {s : Symbol}
    (hg : (analysed options (Parser.parse src).program).findIn? globalScope g = some id)
    (hs : (analysed options (Parser.parse src).program).symbol? id = some s) {i j : Nat}
    {place : StmtPlace}
    (hwrites : WritesAt options (Parser.parse src).program (i :: j :: place) id) (scope : Scope) :
    ((Report.Row.ofSymbol scope s).calculated = true ↔
        ∃ c, LastConstant options (Parser.parse src).program id c) ∧
      (∀ c, LastConstant options (Parser.parse src).program id c →
        (Report.Row.ofSymbol scope s).value = c.written) ∧
      ((Report.Row.ofSymbol scope s).calculated = false →
        (Report.Row.ofSymbol scope s).value = []) := by
  obtain ⟨hready, -⟩ := ready_start (Parser.proper_of_parse hparse) (accepted_iff.mp haccepted)
  have hglobal : id ∈ ((analysed options (Parser.parse src).program).namesOf globalScope).map
      Prod.snd := Table.mem_ids_of_findIn? hg
  -- a row shows what is known of the symbol, and nothing else
  have hknown : ∀ c, s.known? = some c ↔
      LastConstant options (Parser.parse src).program id c := by
    intro c
    have hlast : (analysed options (Parser.parse src).program).known? id = some c ↔ _ :=
      known?_iff_last hready hglobal hwrites
    rw [Table.known?, hs] at hlast
    exact hlast
  refine ⟨?_, ?_, ?_⟩
  · change s.known?.isSome = true ↔ _
    rw [Option.isSome_iff_exists]
    exact exists_congr hknown
  · intro c hc
    change (s.known?.map Value.written).getD [] = c.written
    rw [(hknown c).mpr hc]
    rfl
  · intro hcalculated
    change (s.known?.map Value.written).getD [] = []
    change s.known?.isSome = false at hcalculated
    rw [Option.isSome_eq_false_iff, Option.isNone_iff_eq_none] at hcalculated
    rw [hcalculated]
    rfl

/-- A global that a function writes to, and to which a constant is assigned at top level afterwards.
Whenever the function is called, the global does not hold this constant any more. -/
def rewrittenSource : Text :=
  "let g = 1;
fn f(): int { g = 2; return 0; }
g = 3;
let y = f();
"

/-- The row of such a global shows a value, although a function writes to the global. -/
theorem row_of_rewrittenSource :
    (Parser.parse rewrittenSource).faults = [] ∧
      Accepted {} (Parser.parse rewrittenSource).program ∧
      WritesAt {} (Parser.parse rewrittenSource).program [1, 0] 1 ∧
      ∃ s, (analysed {} (Parser.parse rewrittenSource).program).symbol? 1 = some s ∧ s.name = "g" ∧
        (Report.Row.ofSymbol ⟨0, globalName, [], []⟩ s).calculated = true ∧
        ∃ c, LastConstant {} (Parser.parse rewrittenSource).program 1 c := by
  have hparse : (Parser.parse rewrittenSource).faults = [] := by decide +kernel
  have haccepted : Accepted {} (Parser.parse rewrittenSource).program := by decide +kernel
  have hwrites : WritesAt {} (Parser.parse rewrittenSource).program [1, 0] 1 := by decide +kernel
  have hg : (analysed {} (Parser.parse rewrittenSource).program).findIn? globalScope "g" =
      some 1 := by
    decide +kernel
  have hs : ((analysed {} (Parser.parse rewrittenSource).program).symbol? 1).map
      (fun s => (s.name, s.known?)) = some (Text.ofString "g", some (.int 3)) := by
    decide +kernel
  obtain ⟨s, hs, hnamed⟩ := Option.map_eq_some_iff.mp hs
  obtain ⟨hname, hknown⟩ := Prod.mk.inj hnamed
  have hcalculated : (Report.Row.ofSymbol ⟨0, globalName, [], []⟩ s).calculated = true := by
    change s.known?.isSome = true
    rw [hknown]
    rfl
  exact ⟨hparse, haccepted, hwrites, s, hs, hname, hcalculated,
    (row_of_global_written_in_body hparse haccepted hg hs hwrites ⟨0, globalName, [], []⟩).1.mp
      hcalculated⟩

end Analysis
end Slang
