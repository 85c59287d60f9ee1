import Slang.Proofs.Guards.Source
import Slang.Proofs.Lines
import Slang.Proofs.RoundTrip.Bare

/-!
# Findings on one line

What analysis says about a program shows names of the program, integers as they are written,
operators, written forms of expressions and descriptions of symbols. Strings are shown in their
written form only, which is quoted. So if the names, the integers and the operators of a program are
on one line, all findings are (`oneLine_checkProgram`). Those of a source without syntax errors are
(`Parser.oneLine_of_parse`): its names and integers are literals of tokens that are no strings.

The invariant of analysis is `State.OneLine`. The descriptions of the symbols are part of it, since a
warning about a hidden name shows the description of a symbol that was made before.
-/

namespace Slang

/-! ### Trees -/

/-- **Expressions whose names, integers and operators are on one line.** -/
inductive Expr.OneLine : Expr → Prop
  | ident {id : Ident} (hname : id.name.OneLine) : OneLine (.ident id)
  | int {t : Token} {n : Int} (hliteral : t.literal.OneLine) : OneLine (.int t n)
  | str {t : Token} {s : Text} : OneLine (.str t s)
  | bool {t : Token} {b : Bool} : OneLine (.bool t b)
  | unary {t : Token} {op : UnaryOp} {e : Expr} (hop : op.spelling.OneLine) (he : OneLine e) :
      OneLine (.unary t op e)
  | binary {t : Token} {op : BinaryOp} {l r : Expr} (hop : op.spelling.OneLine) (hl : OneLine l)
      (hr : OneLine r) : OneLine (.binary t op l r)
  | group {t : Token} {e : Expr} (he : OneLine e) : OneLine (.group t e)
  | call {t : Token} {callee : Ident} {args : List Expr} (hname : callee.name.OneLine)
      (hargs : ∀ e ∈ args, OneLine e) : OneLine (.call t callee args)

/-- **Statements whose names, integers and operators are on one line.** -/
inductive Stmt.OneLine : Stmt → Prop
  | letDecl {t : Token} {name : Ident} {type : Option TypeNode} {value : Option Expr}
      (hname : name.name.OneLine) (hvalue : ∀ e ∈ value, e.OneLine) :
      OneLine (.letDecl t name type value)
  | assign {t : Token} {name : Ident} {e : Expr} (hname : name.name.OneLine) (he : e.OneLine) :
      OneLine (.assign t name e)
  | ret {t : Token} {value : Option Expr} (hvalue : ∀ e ∈ value, e.OneLine) : OneLine (.ret t value)
  | block {t : Token} {body : List Stmt} (hbody : ∀ s ∈ body, OneLine s) : OneLine (.block t body)
  | expr {t : Token} {e : Expr} (he : e.OneLine) : OneLine (.expr t e)
  | fn {head : FnHead} {brace : Option Token} {body : List Stmt} (hname : head.name.name.OneLine)
      (hparams : ∀ p ∈ head.params, p.name.name.OneLine) (hbody : ∀ s ∈ body, OneLine s) :
      OneLine (.fn head brace body)

/-- The written form of an expression is on one line: strings are quoted. -/
theorem Expr.OneLine.print {e : Expr} (h : e.OneLine) : e.print.OneLine := by
  induction h with
  | ident hname => exact hname
  | int => exact Text.oneLine_ofInt _
  | str => exact Text.oneLine_quoted _
  | @bool t b => cases b <;> simp +decide [Expr.print]
  | unary hop he ih => simp +decide [Expr.print, hop, ih]
  | binary hop hl hr ihl ihr => simp +decide [Expr.print, hop, ihl, ihr]
  | group he ih => exact ih
  | @call t callee args hname hargs ih =>
    -- the arguments of a call are printed one by one and joined by commas
    have hlist : ∀ t ∈ Expr.printAll args, t.OneLine := by
      rw [Expr.printAll_eq_map]
      exact List.forall_mem_map.mpr ih
    have hjoined : (Text.joinWith ", " (Expr.printAll args)).OneLine :=
      Text.oneLine_joinWith (by decide) hlist
    simp +decide [Expr.print, hname, hjoined]

namespace Grammar

/-- What is called is a token between parentheses. -/
theorem Callee.oneLine {ts : List Token} {id : Ident} (h : Callee ts id)
    (hts : ∀ t ∈ ts, t.OneLine) : id.name.OneLine := by
  induction h with
  | name ht => exact hts _ List.mem_cons_self (by rw [ht]; decide)
  | group ht h hclose ih =>
    exact ih fun u hu => hts u (List.mem_cons_of_mem _ (List.mem_append_left _ hu))

/-- An expression has its names, integers and operators from its tokens. -/
theorem Stratum.oneLine {n : Level} {ts : List Token} {e : Expr} (h : Stratum n ts e)
    (hts : ∀ t ∈ ts, t.OneLine) : e.OneLine := by
  induction h with
  | @binary t op ls rs l r ht hl hr ihl ihr =>
    rw [List.forall_mem_append, List.forall_mem_cons] at hts
    refine .binary ?_ (ihl hts.1) (ihr hts.2.2)
    -- operators that are read have fixed spellings
    cases hkind : t.kind <;> rw [hkind] at ht <;> cases ht <;> decide
  | tighter hn h ih => exact ih hts
  | @unary t op ts e ht h ih =>
    refine .unary ?_ (ih (List.forall_mem_cons.mp hts).2)
    cases hkind : t.kind <;> rw [hkind] at ht <;> cases ht <;> decide
  | call hcallee ht hargs hmid hclose ih =>
    rw [List.forall_mem_append, List.forall_mem_cons, List.forall_mem_append] at hts
    refine .call (hcallee.oneLine hts.1) (List.forall_mem_map.mpr fun a ha => ih a ha fun u hu => ?_)
    exact hts.2.2.1 u (mem_separated hmid (List.mem_map_of_mem ha) hu)
  | name ht => exact .ident (hts _ List.mem_cons_self (by rw [ht]; decide))
  | int ht hn hlt => exact .int (hts _ List.mem_cons_self (by rw [ht]; decide))
  | str ht => exact .str
  | kwTrue ht | kwFalse ht => exact .bool
  | group ht h hclose ih =>
    exact .group (ih fun u hu => hts u (List.mem_cons_of_mem _ (List.mem_append_left _ hu)))

/-- So has a declaration. -/
theorem Declaration.oneLine {ts : List Token} {s : Stmt} (h : Declaration ts s)
    (hts : ∀ t ∈ ts, t.OneLine) : s.OneLine := by
  cases h with
  | mk ht hname htype hvalue hone hsemi =>
    simp only [List.forall_mem_cons, List.forall_mem_append] at hts
    obtain ⟨-, hident, -, husemi, -⟩ := hts
    refine .letDecl (hident (by rw [hname]; decide)) ?_
    cases hvalue with
    | absent => exact nofun
    | written hsign he =>
      rintro e ⟨⟩
      exact he.oneLine (List.forall_mem_cons.mp husemi).2

/-- So has an assignment. -/
theorem Assignment.oneLine {ts : List Token} {s : Stmt} (h : Assignment ts s)
    (hts : ∀ t ∈ ts, t.OneLine) : s.OneLine := by
  cases h with
  | mk hname hsign he hsemi =>
    simp only [List.forall_mem_cons, List.forall_mem_append] at hts
    exact .assign (hts.1 (by rw [hname]; decide)) (he.oneLine hts.2.2.1)

/-- **A statement whose tokens are on one line is on one line**, strings apart. -/
theorem Statement.oneLine {ts : List Token} {s : Stmt} (h : Statement ts s)
    (hts : ∀ t ∈ ts, t.OneLine) : s.OneLine := by
  induction h with
  | declaration h => exact h.oneLine hts
  | assignment h => exact h.oneLine hts
  | ret ht hvalue hsemi =>
    simp only [List.forall_mem_cons, List.forall_mem_append] at hts
    refine .ret ?_
    cases hvalue with
    | absent => exact nofun
    | written he =>
      rintro e ⟨⟩
      exact he.oneLine hts.2.1
  -- each statement of a block has tokens of its own
  | block ht h hclose ih =>
    rw [List.forall_mem_cons, List.forall_mem_append, List.forall_mem_flatMap] at hts
    exact .block (List.forall_mem_map.mpr fun s hs => ih s hs (hts.2.1 s hs))
  | expr he hsemi =>
    rw [← List.cons_append, List.forall_mem_append] at hts
    exact .expr (he.oneLine hts.1)

/-- The names of the parameters are tokens as well. -/
theorem Function.oneLine {ts : List Token} {s : Stmt} (h : Function ts s)
    (hts : ∀ t ∈ ts, t.OneLine) : s.OneLine := by
  cases h with
  | mk ht hname hlparen hparams hmid hrparen htype hbrace hparts hclose =>
    simp only [List.forall_mem_cons, List.forall_mem_append, List.forall_mem_flatMap] at hts
    obtain ⟨-, hident, -, hmids, -, -, -, hbody, -⟩ := hts
    refine .fn (hident (by rw [hname]; decide)) (List.forall_mem_map.mpr fun p hp => ?_)
      (List.forall_mem_map.mpr fun s hs => (hparts s hs).oneLine (hbody s hs))
    have hp' : ∀ u ∈ p.1, u.OneLine := fun u hu =>
      hmids u (mem_separated hmid (List.mem_map_of_mem hp) hu)
    obtain ⟨us, param⟩ := p
    cases hparams _ hp with
    | mk hname => exact hp' _ List.mem_cons_self (by rw [hname]; decide)

/-- Each statement of a program has tokens of its own. -/
theorem Program.oneLine {ts : List Token} {p : Slang.Program} (h : Program ts p)
    (hts : ∀ t ∈ ts, t.OneLine) : ∀ s ∈ p, s.OneLine := by
  induction h with
  | nil => exact List.forall_mem_nil _
  | cons hs hp ih =>
    rw [List.forall_mem_append] at hts
    refine List.forall_mem_cons.mpr ⟨?_, ih hts.2⟩
    cases hs with
    | declaration h => exact h.oneLine hts.1
    | function h => exact h.oneLine hts.1
    | assignment h => exact h.oneLine hts.1

end Grammar

namespace Analysis

/-! ### Findings -/

/-- Findings with messages on one line. -/
def OneLines (fs : List Finding) : Prop := ∀ f ∈ fs, f.what.message.OneLine

theorem oneLines_nil : OneLines [] := List.forall_mem_nil _

theorem oneLines_append {fs gs : List Finding} :
    OneLines (fs ++ gs) ↔ OneLines fs ∧ OneLines gs :=
  List.forall_mem_append

theorem oneLines_finding {tok : Token} {p : SemanticProblem} :
    OneLines [tok.finding p] ↔ ∀ t ∈ p.texts, t.OneLine :=
  List.forall_mem_singleton.trans p.oneLine_message

/-- A finding that shows one text. -/
theorem oneLines_one {tok : Token} {p : SemanticProblem} {t : Text} (hp : p.texts = [t])
    (ht : t.OneLine) : OneLines [tok.finding p] := by
  rw [oneLines_finding, hp]
  exact List.forall_mem_singleton.mpr ht

/-! ### Expressions -/

section
variable (ctx : Context) (t : Table)

/-- A finding about a name shows the name. -/
theorem oneLines_checkName {id : Ident} (hname : id.name.OneLine) :
    OneLines (checkName ctx t id).findings := by
  unfold checkName
  split
  · exact oneLines_one rfl hname
  · split
    · exact oneLines_one rfl hname
    · split
      · exact oneLines_one rfl hname
      · split
        · exact oneLines_nil
        · exact oneLines_nil

/-- What is said about constants has no names in it. -/
theorem oneLines_folded {tok : Token} {ty : Ty} {before : List Finding} (h : OneLines before)
    (r : Except FoldError Value) : OneLines (folded tok ty before r).findings := by
  cases r with
  | ok v => exact h
  | error e => exact oneLines_append.mpr ⟨h, oneLines_finding.mpr (List.forall_mem_nil _)⟩

/-- A finding about a prefix operator shows it, and a type. -/
theorem oneLines_checkUnary {tok : Token} {op : UnaryOp} {right : Checked}
    (hop : op.spelling.OneLine) (h : OneLines right.findings) :
    OneLines (checkUnary tok op right).findings := by
  unfold checkUnary
  split
  · exact h
  · split
    · exact oneLines_append.mpr ⟨h, oneLines_one rfl hop⟩
    · split
      · exact h
      · exact oneLines_folded h _

/-- A finding about an infix operator shows it, and two types. -/
theorem oneLines_checkBinary {tok : Token} {op : BinaryOp} {left right : Checked}
    (hop : op.spelling.OneLine) (hl : OneLines left.findings) (hr : OneLines right.findings) :
    OneLines (checkBinary tok op left right).findings := by
  have hboth : OneLines (left.findings ++ right.findings) := oneLines_append.mpr ⟨hl, hr⟩
  unfold checkBinary
  dsimp only
  split
  · exact hboth
  · split
    · exact oneLines_append.mpr ⟨hboth, oneLines_one rfl hop⟩
    · split
      · exact oneLines_folded hboth _
      · exact hboth

/-- A finding about an argument shows the name of the function. -/
theorem oneLines_argumentFindings {function : Text} (hname : function.OneLine) (n : Nat)
    (es : List Expr) (cs : List Checked) (ps : List Param) :
    OneLines (argumentFindings function n es cs ps) := by
  fun_induction argumentFindings function n es cs ps with
  | case1 n e es c cs p ps ih =>
    refine oneLines_append.mpr ⟨?_, ih⟩
    split
    · exact oneLines_nil
    · exact oneLines_one rfl hname
  | case2 => exact oneLines_nil

/-- A finding about a call shows the name that is called. -/
theorem oneLines_checkCall {callee : Ident} (hname : callee.name.OneLine) (args : List Expr)
    {checked : List Checked} (h : ∀ c ∈ checked, OneLines c.findings) :
    OneLines (checkCall ctx t callee args checked).findings := by
  have hbefore : OneLines (checked.flatMap (·.findings)) := List.forall_mem_flatMap.mpr h
  unfold checkCall
  dsimp only
  split
  · refine oneLines_append.mpr ⟨hbefore, ?_⟩
    split
    · exact oneLines_one rfl hname
    · exact oneLines_one rfl hname
  · split
    · exact oneLines_append.mpr ⟨hbefore, oneLines_one rfl hname⟩
    · split
      · exact oneLines_append.mpr ⟨hbefore, oneLines_one rfl hname⟩
      · exact oneLines_append.mpr ⟨hbefore, oneLines_argumentFindings hname _ _ _ _⟩

/-- **What is found in an expression is on one line.** -/
theorem oneLines_check {e : Expr} (h : e.OneLine) : OneLines (check ctx t e).findings := by
  induction h with
  | ident hname =>
    rw [check]
    exact oneLines_checkName ctx t hname
  | int hliteral =>
    rw [check]
    split
    · exact oneLines_one rfl hliteral
    · exact oneLines_nil
  -- strings never get into a finding
  | str | bool =>
    rw [check]
    exact oneLines_nil
  | unary hop he ih =>
    rw [check]
    split
    · exact oneLines_nil
    · exact oneLines_checkUnary hop ih
  | binary hop hl hr ihl ihr =>
    rw [check]
    exact oneLines_checkBinary hop ihl ihr
  | group he ih =>
    rw [check]
    exact ih
  | call hname hargs ih =>
    rw [check, checkAll_eq_map]
    exact oneLines_checkCall ctx t hname _ (List.forall_mem_map.mpr ih)

end

/-! ### States -/

/-! ### Symbols -/

end Analysis

/-- **Symbols with names on one line**: their own, and those of the parameters. -/
structure Symbol.OneLine (s : Symbol) : Prop where
  name : s.name.OneLine
  params : ∀ p ∈ s.params, p.name.OneLine

namespace Symbol.OneLine

variable {s : Symbol}

/-- A description shows a name and types, and types are on one line by their names. -/
theorem describe (h : s.OneLine) : s.describe.OneLine := by
  obtain ⟨hname, hparams⟩ := h
  unfold Symbol.params at hparams
  unfold Symbol.describe
  split
  · simp +decide [Symbol.typed, hname]
  · next ps result hc =>
    rw [hc] at hparams
    have hlist : ∀ t ∈ ps.map fun p => Symbol.typed p.name p.ty, t.OneLine :=
      List.forall_mem_map.mpr fun p hp => by simp +decide [Symbol.typed, hparams p hp]
    have hjoined : (Text.joinWith ", " _).OneLine := Text.oneLine_joinWith (by decide) hlist
    simp +decide [hname, hjoined]

/-- A variable has no parameters. -/
theorem ofValue {name : Text} (hname : name.OneLine) (line : Int) (v : Value) (c b : Bool) :
    ({ Symbol.ofValue name line v c with inferred := b } : Symbol).OneLine :=
  ⟨hname, List.forall_mem_nil _⟩

/-- What is known of a variable does not count. -/
theorem withContent {v : Value} {c : Bool} (h : s.OneLine) :
    ({ s with content := .variable v c } : Symbol).OneLine :=
  ⟨h.name, List.forall_mem_nil _⟩

/-- Whether a value is known is not shown. -/
theorem setCalculated (h : s.OneLine) (b : Bool) : (s.setCalculated b).OneLine := by
  unfold Symbol.setCalculated
  split
  · exact h.withContent
  · exact h

/-- The value that is stored is not shown. -/
theorem assigned (h : s.OneLine) (unknowable : Bool) (value : Option Value) :
    (Analysis.assigned unknowable value s).OneLine := by
  unfold Analysis.assigned
  split
  · next s' hs' =>
    split at hs'
    · cases hs'
    · obtain ⟨v, -, hv⟩ := Option.bind_eq_some_iff.mp hs'
      -- storing keeps the name and the type, which are all that is shown
      unfold Symbol.store? at hv
      split at hv
      · split at hv
        · obtain rfl := Option.some.inj hv
          exact h.withContent
        · cases hv
      · cases hv
  · exact h.setCalculated false

end Symbol.OneLine

/-- **Tables with symbols on one line.** -/
def Table.OneLine (t : Table) : Prop := ∀ i s, t.symbol? i = some s → s.OneLine

namespace Table.OneLine

variable {t : Table} (h : t.OneLine)
include h

/-- A table gets a symbol on one line. -/
theorem addSymbol {s : Symbol} (hs : s.OneLine) : (t.addSymbol s).1.OneLine := by
  intro i s' hs'
  rcases Table.symbol?_addSymbol hs' with hs' | rfl
  · exact h i s' hs'
  · exact hs

/-- A symbol of a table changes and stays on one line. -/
theorem modify (id : SymbolId) {f : Symbol → Symbol} (hf : ∀ s, s.OneLine → (f s).OneLine) :
    (t.modify id f).OneLine := by
  intro i s hs
  rw [Table.symbol?_modify] at hs
  split at hs
  · obtain ⟨s', hs', rfl⟩ := Option.map_eq_some_iff.mp hs
    exact hf s' (h i s' hs')
  · exact h i s hs

/-- The names of scopes refer to symbols. -/
theorem bound (sc : ScopeId) (b : Text × SymbolId) : (t.bound sc b).OneLine := h

end Table.OneLine

namespace SymbolError

/-- A variable fails only for its type, and its name is quoted. -/
theorem oneLine_of_ofTy {ty : Ty} {name : Text} {line : Int} {e : SymbolError}
    (h : Symbol.ofTy ty name line = .error e) : e.message.OneLine := by
  unfold Symbol.ofTy at h
  split at h
  · cases h
  · obtain rfl := Except.error.inj h
    simp +decide [message]

theorem oneLine_of_letSymbol {name : Ident} {ty : Ty} {value : Option Value} {e : SymbolError}
    (h : Analysis.letSymbol name ty value = .error e) : e.message.OneLine := by
  unfold Analysis.letSymbol at h
  split at h
  · next v =>
    unfold Symbol.ofOperand at h
    dsimp only at h
    split at h
    · cases h
    · -- the value has another type, so its kind is shown if the type has values at all
      cases hofTy : Symbol.ofTy ty name.name name.token.line with
      | error e' =>
        rw [hofTy] at h
        obtain rfl := Except.error.inj h
        exact oneLine_of_ofTy hofTy
      | ok s =>
        rw [hofTy] at h
        obtain rfl := Except.error.inj h
        cases v <;> simp +decide [message, Operand.kindName]
  · exact oneLine_of_ofTy h

/-- Parameters that a signature cannot have: their names are shown as they are. -/
theorem oneLine_of_checkParams {function : Text} {n : Nat} {ps : List Param} {e : SymbolError}
    (h : Symbol.checkParams function n (ps.map some) = .error e)
    (hps : ∀ p ∈ ps, p.name.OneLine) : e.message.OneLine := by
  induction ps generalizing n with
  | nil => cases h
  | cons p ps ih =>
    rw [List.forall_mem_cons] at hps
    rw [List.map_cons, Symbol.checkParams] at h
    split at h
    · -- this parameter is at fault, and it is shown
      obtain rfl := Except.error.inj h
      simp +decide [message, hps.1]
    · cases hrest : Symbol.checkParams function (n + 1) (ps.map some) with
      | error e' =>
        rw [hrest] at h
        obtain rfl := Except.error.inj h
        exact ih hrest hps.2
      | ok qs =>
        rw [hrest] at h
        cases h

end SymbolError

namespace Analysis

/-! ### States -/

/-- **States with all names and all findings on one line.** -/
structure State.OneLine (st : State) : Prop where
  found : OneLines st.found
  table : st.table.OneLine

namespace State.OneLine

variable {st : State} (h : st.OneLine)
include h

/-- Findings on one line are added. -/
theorem report {fs : List Finding} (hfs : OneLines fs) : (st.report fs).OneLine where
  found := by
    rw [State.found_report]
    exact oneLines_append.mpr ⟨h.found, hfs⟩
  table := h.table

/-- A problem that shows one text is added. -/
theorem problem (tok : Token) {p : SemanticProblem} {t : Text} (hp : p.texts = [t])
    (ht : t.OneLine) : (st.problem tok p).OneLine :=
  h.report (oneLines_one hp ht)

/-- Notes are not shown. -/
theorem note {e : Event} (he : e.finding? = none) : (st.note e).OneLine where
  found := by
    rw [State.found_note st he]
    exact h.found
  table := h.table

/-- Returns are quoted by line and type, and neither can break a line. -/
theorem withReturns (r : Returns) : State.OneLine { st with returns := r } := ⟨h.found, h.table⟩

/-- A new scope has no symbols. -/
theorem scopeStart (ctx : Context) (name : Text) (r : Returns) :
    (scopeStart ctx name r st).OneLine :=
  ⟨h.found, h.table⟩

/-- A symbol is made. -/
theorem addSymbol {s : Symbol} (hs : s.OneLine) : (st.addSymbol s).1.OneLine :=
  ⟨h.found, h.table.addSymbol hs⟩

/-- A symbol changes. -/
theorem modify (id : SymbolId) {f : Symbol → Symbol} (hf : ∀ s, s.OneLine → (f s).OneLine) :
    (st.modify id f).OneLine :=
  ⟨h.found, h.table.modify id hf⟩

/-- A warning shows the description of the symbol that is hidden. -/
theorem shadowing (ctx : Context) {name : Text} (hname : name.OneLine) (tok : Token) :
    OneLines ((shadowing ctx st.table name).map tok.finding) := by
  unfold Analysis.shadowing
  split
  · split
    · next outer houter =>
      obtain ⟨i, -, hi⟩ := Option.bind_eq_some_iff.mp houter
      refine oneLines_finding.mpr (List.forall_mem_cons.mpr ⟨hname, ?_⟩)
      exact List.forall_mem_singleton.mpr (h.table i outer hi).describe
    · exact oneLines_nil
  · exact oneLines_nil

/-- A name is looked up before it is bound, so binding it does not fail. -/
theorem declare (ctx : Context) {s : Symbol} (hs : s.OneLine) (tok : Token) :
    (declare ctx s tok st).OneLine := by
  have hadd : (st.addSymbol s).1.OneLine := h.addSymbol hs
  cases hx : (st.table.findIn? ctx.scope s.name).bind (st.addSymbol s).1.table.symbol? with
  | some prev =>
    rw [declare_of_old hx]
    exact hadd.problem tok rfl hs.name
  | none =>
    obtain ⟨f, hf, hdefine⟩ := Table.define_eq (Table.symbol?_addSymbol_self st.table s) hx
    have hnew : Analysis.declare ctx s tok st = _ := bindName_of_new hx hdefine
    have hreport := hadd.report (hadd.shadowing ctx hs.name tok)
    rw [hnew]
    -- the augmented name is never shown
    refine ⟨hreport.found, (hreport.table.bound _ _).modify _ fun s' hs' => ?_⟩
    obtain ⟨a, ha⟩ := hf s'
    rw [ha]
    exact ⟨hs'.name, hs'.params⟩

/-- Binding a symbol may show its name, and the description of the symbol that it hides. -/
theorem bindName (ctx : Context) {s : Symbol} {id : SymbolId} (tok : Token)
    (hsym : st.table.symbol? id = some s) :
    (bindName ctx Table.bind s id tok st).OneLine := by
  have hs := h.table id s hsym
  cases hx : (st.table.findIn? ctx.scope s.name).bind st.table.symbol? with
  | some prev =>
    rw [bindName_of_old hx]
    exact h.problem tok rfl hs.name
  | none =>
    rw [bindName_of_new hx (Table.bind_eq hsym hx)]
    exact ⟨(h.report (h.shadowing ctx hs.name tok)).found, h.table.bound _ _⟩

end State.OneLine

/-! ### Statements -/

/-- A context in which the function around, if there is one, has a name on one line. -/
def Context.OneLine (ctx : Context) : Prop := ∀ f ∈ ctx.fn, f.name.OneLine

section
variable {ctx : Context} {st : State}

theorem oneLines_letTy {name : Ident} (hname : name.name.OneLine) (type : Option TypeNode)
    (value : Option Expr) (init : Checked) : OneLines (letTy name type value init).2 := by
  unfold letTy
  -- with a written type, the name is shown where the value does not fit it
  split
  · exact oneLines_nil
  · split
    · exact oneLines_nil
    · split
      · exact oneLines_nil
      · split
        · exact oneLines_one rfl hname
        · exact oneLines_one rfl hname
  · exact oneLines_nil
  · split
    · exact oneLines_nil
    · split
      · exact oneLines_one rfl hname
      · exact oneLines_nil

/-- Declarations keep the invariant. -/
theorem oneLine_checkLet (h : st.OneLine) {name : Ident} (hname : name.name.OneLine)
    (type : Option TypeNode) {value : Option Expr} (hvalue : ∀ e ∈ value, e.OneLine) :
    (checkLet ctx name type value st).OneLine := by
  have hinit : OneLines (letInit ctx st.table value).findings := by
    cases value with
    | none => exact oneLines_nil
    | some e => exact oneLines_check ctx st.table (hvalue e rfl)
  have hfound := h.report (oneLines_append.mpr ⟨hinit,
    oneLines_letTy hname type value (letInit ctx st.table value)⟩)
  unfold checkLet
  dsimp only
  split
  · exact hfound
  · split
    · next s hs =>
      obtain ⟨v, -, -, rfl⟩ := letSymbol_ok hs
      exact hfound.declare ctx (.ofValue hname _ _ _ _) _
    -- a name of its own is shown as it is, and an internal error quotes it
    · exact hfound.problem _ rfl hname
    · next e _ he => exact hfound.problem _ rfl (SymbolError.oneLine_of_letSymbol he)

/-- Assignments keep the invariant. -/
theorem oneLine_checkAssign (h : st.OneLine) {name : Ident} (hname : name.name.OneLine)
    {value : Expr} (hvalue : value.OneLine) : (checkAssign ctx name value st).OneLine := by
  have hfound := h.report (oneLines_check ctx st.table hvalue)
  unfold checkAssign
  dsimp only
  -- every way out is a report about the name, or a change of what is known of one symbol
  split
  · exact hfound.problem _ rfl hname
  · split
    · exact hfound.problem _ rfl hname
    · split
      · exact hfound.problem _ rfl hname
      · split
        · exact hfound.modify _ fun s hs => hs.setCalculated false
        · split
          · exact hfound.problem _ rfl hname
          · split
            · exact hfound.problem _ rfl hname
            · exact hfound.modify _ fun s hs => hs.assigned _ _

/-- A finding about a return shows the name of the function around it. -/
theorem oneLine_returnTy (h : st.OneLine) {f : Frame} (hf : f.name.OneLine) (got : Ty)
    (hasValue : Bool) (tok : Token) : (returnTy f got hasValue tok st).OneLine := by
  have hmarked : st.markReturned.OneLine := h.withReturns _
  unfold returnTy
  split
  · unfold inferReturn
    split
    · exact hmarked.withReturns _
    · split
      · exact hmarked
      · exact hmarked.problem _ rfl hf
  · unfold declaredReturn
    split
    · exact hmarked.problem _ rfl hf
    · split
      · exact hmarked.problem _ rfl hf
      · split
        · exact hmarked.problem _ rfl hf
        · exact hmarked

/-- Returns keep the invariant. -/
theorem oneLine_checkReturn (hctx : ctx.OneLine) (h : st.OneLine) (tok : Token)
    {value : Option Expr} (hvalue : ∀ e ∈ value, e.OneLine) :
    (checkReturn ctx tok value st).OneLine := by
  unfold checkReturn
  split
  · exact h
  · next f hfn =>
    have hf : f.name.OneLine := hctx f hfn
    split
    · exact oneLine_returnTy h hf _ _ _
    · next e =>
      have hfound := h.report (oneLines_check ctx st.table (hvalue e rfl))
      dsimp only
      split
      · exact hfound.withReturns _
      · split
        · exact (hfound.problem _ rfl hf).withReturns _
        · exact oneLine_returnTy hfound hf _ _ _

/-- What is not used is shown as it is written. -/
theorem oneLine_checkExprStmt (h : st.OneLine) {e : Expr} (he : e.OneLine) :
    (checkExprStmt ctx e st).OneLine := by
  have hfound := h.report (oneLines_check ctx st.table he)
  unfold checkExprStmt
  dsimp only
  split
  · exact hfound
  · exact hfound.problem _ rfl he.print

end

mutual

/-- Statements of a body keep the invariant. -/
theorem oneLine_checkStmt {ctx : Context} (hctx : ctx.OneLine) {st : State} (h : st.OneLine) :
    (s : Stmt) → s.OneLine → (checkStmt ctx st s).OneLine
  | .letDecl .., hs => by
    rw [checkStmt]
    cases hs with
    | letDecl hname hvalue => exact oneLine_checkLet h hname _ hvalue
  | .assign .., hs => by
    rw [checkStmt]
    cases hs with
    | assign hname he => exact oneLine_checkAssign h hname he
  | .ret .., hs => by
    rw [checkStmt]
    cases hs with
    | ret hvalue => exact oneLine_checkReturn hctx h _ hvalue
  | .expr .., hs => by
    rw [checkStmt]
    cases hs with
    | expr he => exact oneLine_checkExprStmt h he
  | .block _ body, hs => by
    rw [checkStmt_block]
    cases hs with
    | block hbody =>
      have hblock : (blockContext ctx st).OneLine := hctx
      exact oneLine_checkStmts hblock (h.scopeStart ctx _ _) body hbody
  | .fn .., _ => by
    rw [checkStmt]
    exact h.report (oneLines_finding.mpr (List.forall_mem_nil _))
  | .hole, hs => by cases hs

/-- **What is found in statements is on one line.** -/
theorem oneLine_checkStmts {ctx : Context} (hctx : ctx.OneLine) {st : State} (h : st.OneLine) :
    (ss : List Stmt) → (∀ s ∈ ss, s.OneLine) → (checkStmts ctx st ss).OneLine
  | [], _ => by
    rw [checkStmts]
    exact h
  | s :: ss, hss => by
    rw [checkStmts]
    rw [List.forall_mem_cons] at hss
    exact oneLine_checkStmts hctx (oneLine_checkStmt hctx h s hss.1) ss hss.2

end

/-! ### Functions -/

section
variable {ctx : Context} {st : State}

/-- Parameters are reported and made under their names. -/
theorem oneLine_makeParams (h : st.OneLine) (seen : List Text) {ps : List ParamDecl}
    (hps : ∀ p ∈ ps, p.name.name.OneLine) :
    (makeParams seen st ps).1.OneLine ∧ ∀ q ∈ (makeParams seen st ps).2, q.name.OneLine := by
  fun_induction makeParams seen st ps with
  | case1 => exact ⟨h, List.forall_mem_nil _⟩
  | case2 seen st p ps name hseen ih =>
    rw [List.forall_mem_cons] at hps
    exact ih (h.problem _ rfl hps.1) hps.2
  | case3 seen st p ps name hseen s hs st₁ id hadd st₂ rest hrest ih =>
    rw [List.forall_mem_cons] at hps
    obtain ⟨v, -, rfl⟩ := ofTy_ok hs
    obtain rfl : st₁ = (st.addSymbol _).1 := (congrArg Prod.fst hadd).symm
    rw [hrest] at ih
    obtain ⟨hst, hnames⟩ := ih (h.addSymbol (.ofValue hps.1 _ _ _ _)) hps.2
    exact ⟨hst, List.forall_mem_cons.mpr ⟨hps.1, hnames⟩⟩
  | case4 seen st p ps name hseen n ty hs ih =>
    rw [List.forall_mem_cons] at hps
    exact ih (h.problem _ rfl hps.1) hps.2
  | case5 seen st p ps name hseen e hne hs ih =>
    rw [List.forall_mem_cons] at hps
    exact ih (h.problem _ rfl (SymbolError.oneLine_of_ofTy hs)) hps.2

/-- A finding about a signature shows the function, or one of its parameters. -/
theorem oneLine_makeFunction (h : st.OneLine) {head : FnHead} (hname : head.name.name.OneLine)
    {params : List Param} (hparams : ∀ q ∈ params, q.name.OneLine) (result : Ty)
    (inferred : Bool) :
    (makeFunction head params result inferred st).1.OneLine ∧
      ∀ s ∈ (makeFunction head params result inferred st).2, s.OneLine := by
  rcases hmake : makeFunction head params result inferred st with ⟨st₁, _ | s⟩
  · refine ⟨?_, nofun⟩
    unfold makeFunction at hmake
    split at hmake
    · cases hmake
    · next e he =>
      dsimp only at hmake
      split at hmake
      · obtain rfl := congrArg Prod.fst hmake
        exact h.problem _ rfl hname
      · next hne =>
        obtain rfl := congrArg Prod.fst hmake
        refine h.problem _ rfl ?_
        -- the result type is reported above, so it is one of the parameters
        unfold Symbol.ofSignature at he
        split at he
        · cases hcheck : Symbol.checkParams head.name.name 0 (params.map some) with
          | error e' =>
            rw [hcheck] at he
            obtain rfl := Except.error.inj he
            exact SymbolError.oneLine_of_checkParams hcheck hparams
          | ok ps =>
            rw [hcheck] at he
            cases he
        · exact absurd (Except.error.inj he).symm (hne _ _)
  · obtain ⟨rfl, hs, hcontent, -⟩ := makeFunction_some hmake
    refine ⟨h, ?_⟩
    rintro _ ⟨⟩
    refine ⟨hs ▸ hname, ?_⟩
    unfold Symbol.params
    rw [hcontent]
    exact hparams

/-- Parameters are bound with the names that their symbols have. -/
theorem oneLine_bindParams (h : st.OneLine) (head : FnHead) (ps : List Param) :
    (bindParams ctx head st ps).OneLine := by
  induction ps generalizing st with
  | nil => exact h
  | cons p ps ih =>
    rw [bindParams]
    refine ih ?_
    split
    · next s hs => exact h.bindName ctx _ hs
    · exact h

/-- Bodies of functions keep the invariant. -/
theorem oneLine_checkBody (h : st.OneLine) {head : FnHead} (hname : head.name.name.OneLine)
    (declared : Option Ty) (params : List Param) {body : List Stmt}
    (hbody : ∀ s ∈ body, s.OneLine) : (checkBody ctx head declared params body st).OneLine := by
  have hctx : (bodyContext ctx head declared params st).OneLine := by
    rintro f ⟨⟩
    exact hname
  rw [checkBody_eq]
  exact oneLine_checkStmts hctx (oneLine_bindParams (h.scopeStart ctx _ _) head params) body hbody

/-- Functions with a written result type keep the invariant. -/
theorem oneLine_checkDeclared (h : st.OneLine) {head : FnHead} (hname : head.name.name.OneLine)
    (params : List Param) (result : Ty) {body : List Stmt} (hbody : ∀ s ∈ body, s.OneLine) :
    (checkDeclared ctx head params result body st).OneLine := by
  have hchecked : (checkBody ctx head (some result) params body st).OneLine :=
    oneLine_checkBody h hname _ params hbody
  unfold checkDeclared
  dsimp only
  split
  · exact hchecked.problem _ rfl hname
  · exact hchecked

/-- Functions without a written result type keep the invariant. -/
theorem oneLine_checkInferred (h : st.OneLine) {head : FnHead} (hname : head.name.name.OneLine)
    (hparams : ∀ p ∈ head.params, p.name.name.OneLine) {body : List Stmt}
    (hbody : ∀ s ∈ body, s.OneLine) : (checkInferred ctx head body st).OneLine := by
  obtain ⟨hmade, hnames⟩ := oneLine_makeParams h [] hparams
  have hchecked : (checkBody ctx head none (makeParams [] st head.params).2 body
      (makeParams [] st head.params).1).OneLine := oneLine_checkBody hmade hname none _ hbody
  obtain ⟨hst, hsymbol⟩ := oneLine_makeFunction hchecked hname hnames
    (checkBody ctx head none _ body _).returns.ty true
  unfold checkInferred
  dsimp only
  -- the signature could not be made, or it is declared
  split
  · next st₁ hmake =>
    rw [hmake] at hst
    exact hst
  · next st₁ s hmake =>
    rw [hmake] at hst hsymbol
    exact (hst.declare ctx (hsymbol s rfl) _).note rfl

/-! ### Programs -/

/-- The first pass on one statement keeps the invariant. -/
theorem oneLine_hoist (h : st.OneLine) {s : Stmt} (hs : s.OneLine) :
    (hoist ctx st s).1.OneLine := by
  cases hs with
  | letDecl | assign | ret | block | expr => exact h
  | @fn head brace body hname hparams hbody =>
    unfold hoist
    dsimp only
    split
    · exact h
    · next type htype =>
      -- the names of the parameters are part of the description of the function
      obtain ⟨hmade, hnames⟩ := oneLine_makeParams h [] hparams
      obtain ⟨hst, hsymbol⟩ := oneLine_makeFunction hmade hname hnames type.ty false
      split
      · next st₁ hmake =>
        rw [hmake] at hst
        exact hst
      · next st₁ s hmake =>
        rw [hmake] at hst hsymbol
        exact (hst.declare ctx (hsymbol s rfl) _).note rfl

/-- The first pass keeps the invariant. -/
theorem oneLine_hoistAll (h : st.OneLine) {p : Program} (hp : ∀ s ∈ p, s.OneLine) :
    (hoistAll ctx st p).1.OneLine ∧ ∀ s ∈ (hoistAll ctx st p).2, s.1.OneLine := by
  induction p generalizing st with
  | nil => exact ⟨h, List.forall_mem_nil _⟩
  | cons s ss ih =>
    rw [List.forall_mem_cons] at hp
    obtain ⟨hrest, hstmts⟩ := ih (oneLine_hoist h hp.1) hp.2
    exact ⟨hrest, List.forall_mem_cons.mpr ⟨hp.1, hstmts⟩⟩

/-- The second pass on one statement keeps the invariant. -/
theorem oneLine_checkTop (hctx : ctx.OneLine) (h : st.OneLine) {s : Stmt} (hs : s.OneLine)
    (signature : Option Symbol) : (checkTop ctx st (s, signature)).OneLine := by
  have hstmt : (checkStmt ctx st s).OneLine := oneLine_checkStmt hctx h s hs
  cases hs with
  | letDecl | assign | ret | block | expr =>
    rw [checkTop]
    · exact hstmt
    · exact fun _ _ _ heq => Stmt.noConfusion heq
  | @fn head brace body hname hparams hbody =>
    cases hresult : head.result with
    | none =>
      rw [checkTop_inferred _ _ _ hresult]
      exact oneLine_checkInferred h hname hparams hbody
    | some type =>
      cases signature with
      | none =>
        rw [checkTop_unsigned _ _ hresult]
        exact h
      | some s =>
        rw [checkTop_declared _ _ hresult]
        exact oneLine_checkDeclared h hname _ _ hbody

/-- The second pass keeps the invariant. -/
theorem oneLine_checkTops (hctx : ctx.OneLine) (h : st.OneLine) {l : List (Stmt × Option Symbol)}
    (hl : ∀ s ∈ l, s.1.OneLine) : (l.foldl (checkTop ctx) st).OneLine := by
  induction l generalizing st with
  | nil => exact h
  | cons s l ih =>
    rw [List.forall_mem_cons] at hl
    exact ih (oneLine_checkTop hctx h hl.1 s.2) hl.2

/-- **What is found in a program is on one line**, if its names, its integers and its operators
are. -/
theorem oneLine_checkProgram (options : Options) (mutated : List Text) {p : Program}
    (hp : ∀ s ∈ p, s.OneLine) : (checkProgram options mutated p).OneLine := by
  have hctx : (topContext options mutated).OneLine := nofun
  have hstart : startState.OneLine := ⟨oneLines_nil, nofun⟩
  have hhoist : (hoistAll (topContext options mutated) startState p).1.OneLine ∧ _ :=
    oneLine_hoistAll hstart hp
  rw [checkProgram_eq]
  exact oneLine_checkTops hctx hhoist.1 hhoist.2

end

end Analysis

/-- Names and integers of a source are literals of tokens that are no strings. -/
theorem Parser.oneLine_of_parse {src : Text} (h : (parse src).faults = []) :
    ∀ s ∈ (parse src).program, s.OneLine :=
  (program_derived (show (Lexer.eof src).kind = .eof from rfl) (Lexer.tokens src) h).oneLine
    (Lexer.oneLine_tokens src)

end Slang
