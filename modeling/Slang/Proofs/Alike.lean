import Mathlib.Data.List.Forall2
import Slang.Proofs.Constants

/-!
# Two runs of the analysis

Analysis is run twice: on two trees that differ only in where their tokens stand, and with options
of which the second may compute and warn less than the first. `Runs` says how places correspond and
what the options are. This module has the relations between what the two runs read and find, and
follows the two runs through an expression (`alike_check`):

* types are the same;
* values are the same, unless the second run computes none; then it knows none;
* the findings of the second run are those of the first one, at corresponding places, without those
  that the options of the second run suppress (`Runs.keeps`).

Lines need a relation of their own. They are kept in symbols and quoted in messages, and two tokens
of one line may stand on different lines in the other tree.
-/

namespace Slang

/-! ### Trees -/

section
variable (ρ : Position → Position → Prop)

/-- The same token, at a corresponding place. -/
structure Token.Alike (t t' : Token) : Prop where
  kind : t'.kind = t.kind
  literal : t'.literal = t.literal
  pos : ρ t.pos t'.pos

/-- The same name, where it is written. -/
structure Ident.Alike (i i' : Ident) : Prop where
  token : i.token.Alike ρ i'.token
  name : i'.name = i.name

/-- The same type, where it is written. -/
structure TypeNode.Alike (n n' : TypeNode) : Prop where
  token : n.token.Alike ρ n'.token
  ty : n'.ty = n.ty

/-- The same parameter, where it is declared. -/
structure ParamDecl.Alike (p p' : ParamDecl) : Prop where
  name : p.name.Alike ρ p'.name
  type : p.type.Alike ρ p'.type

/-- The same head of a function. -/
structure FnHead.Alike (h h' : FnHead) : Prop where
  token : h.token.Alike ρ h'.token
  name : h.name.Alike ρ h'.name
  params : List.Forall₂ (ParamDecl.Alike ρ) h.params h'.params
  result : Option.Rel (TypeNode.Alike ρ) h.result h'.result

/-- **The same expression**, with tokens at corresponding places. -/
inductive Expr.Alike : Expr → Expr → Prop
  | ident {i i' : Ident} (hi : i.Alike ρ i') : Alike (.ident i) (.ident i')
  | int {t t' : Token} (n : Int) (ht : t.Alike ρ t') : Alike (.int t n) (.int t' n)
  | str {t t' : Token} (s : Text) (ht : t.Alike ρ t') : Alike (.str t s) (.str t' s)
  | bool {t t' : Token} (b : Bool) (ht : t.Alike ρ t') : Alike (.bool t b) (.bool t' b)
  | unary {t t' : Token} (op : UnaryOp) {e e' : Expr} (ht : t.Alike ρ t') (he : Alike e e') :
      Alike (.unary t op e) (.unary t' op e')
  | binary {t t' : Token} (op : BinaryOp) {l l' r r' : Expr} (ht : t.Alike ρ t')
      (hl : Alike l l') (hr : Alike r r') : Alike (.binary t op l r) (.binary t' op l' r')
  | group {t t' : Token} {e e' : Expr} (ht : t.Alike ρ t') (he : Alike e e') :
      Alike (.group t e) (.group t' e')
  | call {t t' : Token} {i i' : Ident} {args args' : List Expr} (ht : t.Alike ρ t')
      (hi : i.Alike ρ i') (hlen : args.length = args'.length)
      (hargs : ∀ a ∈ args.zip args', Alike a.1 a.2) :
      Alike (.call t i args) (.call t' i' args')
  -- what is not there has the same place in all trees
  | hole (h : ρ Token.absent.pos Token.absent.pos) : Alike .hole .hole

/-- **The same statement**, with tokens at corresponding places. -/
inductive Stmt.Alike : Stmt → Stmt → Prop
  | letDecl {t t' : Token} {x x' : Ident} {type type' : Option TypeNode}
      {value value' : Option Expr} (ht : t.Alike ρ t') (hx : x.Alike ρ x')
      (htype : Option.Rel (TypeNode.Alike ρ) type type')
      (hvalue : Option.Rel (Expr.Alike ρ) value value') :
      Alike (.letDecl t x type value) (.letDecl t' x' type' value')
  | assign {t t' : Token} {x x' : Ident} {e e' : Expr} (ht : t.Alike ρ t') (hx : x.Alike ρ x')
      (he : e.Alike ρ e') : Alike (.assign t x e) (.assign t' x' e')
  | block {t t' : Token} {body body' : List Stmt} (ht : t.Alike ρ t')
      (hlen : body.length = body'.length) (hbody : ∀ s ∈ body.zip body', Alike s.1 s.2) :
      Alike (.block t body) (.block t' body')
  | ret {t t' : Token} {value value' : Option Expr} (ht : t.Alike ρ t')
      (hvalue : Option.Rel (Expr.Alike ρ) value value') : Alike (.ret t value) (.ret t' value')
  | expr {t t' : Token} {e e' : Expr} (ht : t.Alike ρ t') (he : e.Alike ρ e') :
      Alike (.expr t e) (.expr t' e')
  | fn {h h' : FnHead} {brace brace' : Option Token} {body body' : List Stmt}
      (hh : h.Alike ρ h') (hbrace : Option.Rel (Token.Alike ρ) brace brace')
      (hlen : body.length = body'.length) (hbody : ∀ s ∈ body.zip body', Alike s.1 s.2) :
      Alike (.fn h brace body) (.fn h' brace' body')
  | hole : Alike .hole .hole

/-- The same program, with tokens at corresponding places. -/
def Program.Alike (p p' : Program) : Prop := List.Forall₂ (Stmt.Alike ρ) p p'

/-! ### Findings -/

/-- Lines on which corresponding places stand. -/
def LinesAlike (l l' : Int) : Prop := ∃ p p', ρ p p' ∧ l = p.line ∧ l' = p'.line

/-- The line that a problem quotes. -/
def SemanticProblem.line? : SemanticProblem → Option Int
  | redeclared _ line => line
  | shadows _ _ line | inconsistentReturn _ _ _ line => some line
  | _ => none

/-- **The same problem**; lines that it quotes correspond. -/
inductive SemanticProblem.Alike : SemanticProblem → SemanticProblem → Prop
  | same (p : SemanticProblem) (h : p.line? = none) : Alike p p
  | redeclared (name : Text) {l l' : Int} (hl : LinesAlike ρ l l') :
      Alike (.redeclared name (some l)) (.redeclared name (some l'))
  | shadows (name described : Text) {l l' : Int} (hl : LinesAlike ρ l l') :
      Alike (.shadows name described l) (.shadows name described l')
  | inconsistentReturn (function : Text) (got first : Ty) {l l' : Int} (hl : LinesAlike ρ l l') :
      Alike (.inconsistentReturn function got first l) (.inconsistentReturn function got first l')

/-- The same problem at a corresponding place. -/
structure Finding.Alike (f f' : Finding) : Prop where
  pos : ρ f.pos f'.pos
  what : f.what.Alike ρ f'.what

end

/-! ### A tree is like itself -/

section
variable {ρ : Position → Position → Prop}

/-- Where each place corresponds to itself, so does everything that stands somewhere. -/
theorem Token.Alike.refl (hρ : ∀ p, ρ p p) (t : Token) : t.Alike ρ t := ⟨rfl, rfl, hρ t.pos⟩

theorem Ident.Alike.refl (hρ : ∀ p, ρ p p) (i : Ident) : i.Alike ρ i := ⟨.refl hρ i.token, rfl⟩

theorem TypeNode.Alike.refl (hρ : ∀ p, ρ p p) (n : TypeNode) : n.Alike ρ n :=
  ⟨.refl hρ n.token, rfl⟩

theorem FnHead.Alike.refl (hρ : ∀ p, ρ p p) (h : FnHead) : h.Alike ρ h where
  token := .refl hρ h.token
  name := .refl hρ h.name
  params := List.forall₂_same.mpr fun p _ => ⟨.refl hρ p.name, .refl hρ p.type⟩
  result := by
    cases h.result with
    | none => exact .none
    | some n => exact .some (.refl hρ n)

mutual

theorem Expr.Alike.refl (hρ : ∀ p, ρ p p) : (e : Expr) → e.Alike ρ e
  | .ident i => .ident (.refl hρ i)
  | .int t n => .int n (.refl hρ t)
  | .str t s => .str s (.refl hρ t)
  | .bool t b => .bool b (.refl hρ t)
  | .unary t op e => .unary op (.refl hρ t) (.refl hρ e)
  | .binary t op l r => .binary op (.refl hρ t) (.refl hρ l) (.refl hρ r)
  | .group t e => .group (.refl hρ t) (.refl hρ e)
  | .call t i args => .call (.refl hρ t) (.refl hρ i) rfl (Expr.Alike.reflAll hρ args)
  | .hole => .hole (hρ _)

theorem Expr.Alike.reflAll (hρ : ∀ p, ρ p p) :
    (es : List Expr) → ∀ a ∈ es.zip es, Expr.Alike ρ a.1 a.2
  | [] => fun _ ha => (nomatch ha)
  | e :: es => fun a ha => by
    rcases List.mem_cons.mp ha with rfl | ha
    · exact .refl hρ e
    · exact Expr.Alike.reflAll hρ es a ha

end

theorem Expr.Alike.reflOption (hρ : ∀ p, ρ p p) : (e : Option Expr) → Option.Rel (Expr.Alike ρ) e e
  | none => .none
  | some e => .some (.refl hρ e)

mutual

theorem Stmt.Alike.refl (hρ : ∀ p, ρ p p) : (s : Stmt) → s.Alike ρ s
  | .letDecl t x type value => by
    refine .letDecl (.refl hρ t) (.refl hρ x) ?_ (Expr.Alike.reflOption hρ value)
    cases type with
    | none => exact .none
    | some n => exact .some (.refl hρ n)
  | .assign t x e => .assign (.refl hρ t) (.refl hρ x) (.refl hρ e)
  | .block t body => .block (.refl hρ t) rfl (Stmt.Alike.reflAll hρ body)
  | .ret t value => .ret (.refl hρ t) (Expr.Alike.reflOption hρ value)
  | .expr t e => .expr (.refl hρ t) (.refl hρ e)
  | .fn head brace body => by
    refine .fn (.refl hρ head) ?_ rfl (Stmt.Alike.reflAll hρ body)
    cases brace with
    | none => exact .none
    | some t => exact .some (.refl hρ t)
  | .hole => .hole

theorem Stmt.Alike.reflAll (hρ : ∀ p, ρ p p) :
    (ss : List Stmt) → ∀ a ∈ ss.zip ss, Stmt.Alike ρ a.1 a.2
  | [] => fun _ ha => (nomatch ha)
  | s :: ss => fun a ha => by
    rcases List.mem_cons.mp ha with rfl | ha
    · exact .refl hρ s
    · exact Stmt.Alike.reflAll hρ ss a ha

end

theorem Program.Alike.refl (hρ : ∀ p, ρ p p) (p : Program) : p.Alike ρ p :=
  List.forall₂_same.mpr fun s _ => .refl hρ s

end

section
variable {ρ : Position → Position → Prop} {e e' : Expr}

/-- The tokens by which two expressions are reported correspond. -/
theorem Expr.Alike.token (h : e.Alike ρ e') : ρ e.token.pos e'.token.pos := by
  cases h with
  | ident hi => exact hi.token.pos
  | int n ht | str n ht | bool n ht => exact ht.pos
  | unary op ht he => exact ht.pos
  | binary op ht hl hr => exact ht.pos
  | group ht he => exact ht.pos
  | call ht hi hlen hargs => exact hi.token.pos
  | hole h => exact h

/-- Lists of one length that are related entry by entry, as the constructors with lists say it. -/
theorem forall₂_of_zip {α β : Type} {R : α → β → Prop} {l : List α} {l' : List β}
    (hlen : l.length = l'.length) (h : ∀ a ∈ l.zip l', R a.1 a.2) : List.Forall₂ R l l' :=
  List.forall₂_iff_zip.mpr ⟨hlen, fun {a b} hab => h (a, b) hab⟩

/-- The printed form does not show places. -/
theorem Expr.Alike.print (h : e.Alike ρ e') : e'.print = e.print := by
  induction h with
  | ident hi => exact hi.name
  | int n ht | str n ht | bool n ht => rfl
  | unary op ht he ih => simp only [Expr.print, ih]
  | binary op ht hl hr ihl ihr => simp only [Expr.print, ihl, ihr]
  | group ht he ih => simpa only [Expr.print] using ih
  | @call t t' i i' args args' ht hi hlen hargs ih =>
    have hall : Expr.printAll args' = Expr.printAll args := by
      have hprint := forall₂_of_zip (R := fun a b => Expr.print b = Expr.print a) hlen ih
      -- the induction below is on the list alone
      clear ih hlen hargs
      induction hprint with
      | nil => rfl
      | cons h _ ih => rw [Expr.printAll, Expr.printAll, h, ih]
    simp only [Expr.print, hi.name, hall]
  | hole h => rfl

/-- Parentheses are taken off both. -/
theorem Expr.Alike.ungroup (h : e.Alike ρ e') : e.ungroup.Alike ρ e'.ungroup := by
  induction h with
  | ident hi => exact .ident hi
  | int n ht => exact .int n ht
  | str s ht => exact .str s ht
  | bool b ht => exact .bool b ht
  | unary op ht he ih => exact .unary op ht he
  | binary op ht hl hr ihl ihr => exact .binary op ht hl hr
  | group ht he ih => exact ih
  | call ht hi hlen hargs ih => exact .call ht hi hlen hargs
  | hole h => exact .hole h

/-- Both are calls, or neither is. -/
theorem Expr.Alike.isCall (h : e.Alike ρ e') : e'.isCall = e.isCall := by
  cases h <;> rfl

end

namespace Analysis

/-! ### Runs -/

/-- **Two runs**: how the places of the first correspond to those of the second, and the options of
both. The second run computes constants and warns only if the first one does. -/
structure Runs where
  place : Position → Position → Prop
  left : Options
  right : Options
  fold : right.fold = true → left.fold = true
  warn : right.warnShadowing = true → left.warnShadowing = true

namespace Runs

variable (m : Runs)

/-- Whether only the first run computes constants. -/
def loses : Bool := m.left.fold && !m.right.fold

/-- Whether only the first run warns about shadowing. -/
def mutes : Bool := m.left.warnShadowing && !m.right.warnShadowing

/-- What the second run knows of a value. -/
def known (v : Option Value) : Option Value := if m.loses then none else v

/-- The findings that the options of the second run do not suppress. -/
def keeps (f : Finding) : Bool :=
  match f.what with
  | .folding .overflow | .folding .divisionByZero => !m.loses
  | .shadows .. => !m.mutes
  | _ => true

/-- **The findings of the second run**: those of the first that are not suppressed, in order. -/
def Findings (fs fs' : List Finding) : Prop :=
  List.Forall₂ (Finding.Alike m.place) (fs.filter m.keeps) fs'

/-- What the two runs know about an expression. -/
structure Checks (c c' : Checked) : Prop where
  ty : c'.ty = c.ty
  value : c'.value = m.known c.value
  typed : ∀ v, c.value = some v → v.ty = c.ty
  findings : m.Findings c.findings c'.findings

/-- What the two runs store of a symbol. -/
inductive Content : Symbol.Content → Symbol.Content → Prop
  | variable {v v' : Value} {c c' : Bool} (hty : v'.ty = v.ty) (hlost : m.loses = true → c' = false)
      (hsame : m.loses = false → v' = v ∧ c' = c) : Content (.variable v c) (.variable v' c')
  | function (params : List Param) (result : Ty) :
      Content (.function params result) (.function params result)

/-- A symbol of both runs. -/
structure Symbols (s s' : Symbol) : Prop where
  name : s'.name = s.name
  line : LinesAlike m.place s.line s'.line
  inferred : s'.inferred = s.inferred
  augmented : s'.augmented = s.augmented
  content : m.Content s.content s'.content

/-- **The tables of both runs**: the same scopes, and the same symbols under the same numbers. -/
structure Tables (t t' : Table) : Prop where
  scopes : t'.scopes = t.scopes
  symbols : List.Forall₂ m.Symbols t.symbols t'.symbols

/-- The contexts of both runs. -/
structure Contexts (ctx ctx' : Context) : Prop where
  left : ctx.options = m.left
  right : ctx' = { ctx with options := m.right }

end Runs

section
variable {m : Runs}

/-! ### Findings -/

namespace Runs.Findings

variable {fs fs' gs gs' : List Finding}

theorem nil : m.Findings [] [] := List.Forall₂.nil

/-- Findings in order, and more findings after them. -/
theorem append (h : m.Findings fs fs') (h' : m.Findings gs gs') :
    m.Findings (fs ++ gs) (fs' ++ gs') := by
  unfold Runs.Findings at *
  rw [List.filter_append]
  exact List.rel_append h h'

/-- A problem that is not suppressed. -/
theorem single {t t' : Token} {p p' : SemanticProblem} (hpos : m.place t.pos t'.pos)
    (hp : p.Alike m.place p') (hkeep : m.keeps (t.finding p) = true) :
    m.Findings [t.finding p] [t'.finding p'] := by
  unfold Runs.Findings
  rw [List.filter_cons_of_pos hkeep]
  exact .cons ⟨hpos, hp⟩ .nil

/-- A problem that is suppressed. -/
theorem dropped {f : Finding} (hkeep : m.keeps f = false) : m.Findings [f] [] := by
  unfold Runs.Findings
  rw [List.filter_cons_of_neg (by simp [hkeep])]
  exact .nil

/-- Findings of all entries of two lists. -/
theorem flatMap {α β : Type} {l : List α} {l' : List β} {f : α → List Finding}
    {f' : β → List Finding} (h : List.Forall₂ (fun a b => m.Findings (f a) (f' b)) l l') :
    m.Findings (l.flatMap f) (l'.flatMap f') := by
  induction h with
  | nil => exact nil
  | cons h _ ih => exact h.append ih

end Runs.Findings

/-- What the options of the second run suppress. -/
theorem Runs.keeps_eq_false_iff (f : Finding) :
    m.keeps f = false ↔
      (m.loses = true ∧ (f.what = .folding .overflow ∨ f.what = .folding .divisionByZero)) ∨
        m.mutes = true ∧ ∃ name d line, f.what = .shadows name d line := by
  unfold Runs.keeps
  cases hf : f.what with
  | folding cause => cases cause <;> simp
  | _ => simp

/-- What the first run does not know, the second does not know either. -/
theorem Runs.known_none : m.known none = none := by
  unfold Runs.known
  split <;> rfl

/-- Two runs that both compute constants, or both do not, know the same. -/
theorem Runs.known_of_not_loses (h : m.loses = false) (v : Option Value) : m.known v = v := by
  rw [known, h, if_neg Bool.false_ne_true]

/-- A second run that alone does not compute constants knows nothing. -/
theorem Runs.known_of_loses (h : m.loses = true) (v : Option Value) : m.known v = none := by
  rw [known, h, if_pos rfl]

/-! ### Tables -/

namespace Runs.Tables

variable {t t' : Table}

/-- Scopes keep numbers of symbols and no symbols, so they are equal in both runs and not only alike. -/
theorem scope? (h : m.Tables t t') (i : ScopeId) : t'.scope? i = t.scope? i := by
  rw [Table.scope?, Table.scope?, h.scopes]

theorem chain (h : m.Tables t t') (i : ScopeId) : t'.chain i = t.chain i := by
  rw [Table.chain, Table.chain, h.scope?]

theorem findIn? (h : m.Tables t t') (i : ScopeId) (x : Text) : t'.findIn? i x = t.findIn? i x := by
  rw [Table.findIn?, Table.findIn?, h.scope?]

theorem find? (h : m.Tables t t') (i : ScopeId) (x : Text) : t'.find? i x = t.find? i x := by
  unfold Table.find?
  rw [h.chain]
  exact congrArg (List.findSome? · _) (funext fun s => h.findIn? s x)

theorem findOutside? (h : m.Tables t t') (i : ScopeId) (x : Text) :
    t'.findOutside? i x = t.findOutside? i x := by
  unfold Table.findOutside?
  rw [h.chain]
  exact congrArg (List.findSome? · _) (funext fun s => h.findIn? s x)

theorem length (h : m.Tables t t') : t'.symbols.length = t.symbols.length :=
  h.symbols.length_eq.symm

/-- A number stands for a symbol in both runs or in none. -/
theorem symbol? (h : m.Tables t t') (i : SymbolId) :
    (t.symbol? i = none ∧ t'.symbol? i = none) ∨
      ∃ s s', t.symbol? i = some s ∧ t'.symbol? i = some s' ∧ m.Symbols s s' := by
  by_cases hi : i < t.symbols.length
  · have hi' : i < t'.symbols.length := h.length ▸ hi
    exact .inr ⟨_, _, List.getElem?_eq_getElem hi, List.getElem?_eq_getElem hi',
      h.symbols.get hi hi'⟩
  · have hi' : ¬i < t'.symbols.length := h.length ▸ hi
    exact .inl ⟨List.getElem?_eq_none (Nat.not_lt.mp hi),
      List.getElem?_eq_none (Nat.not_lt.mp hi')⟩

/-- A name stands for a symbol in both runs or in none. -/
theorem bind_symbol? (h : m.Tables t t') (i : Option SymbolId) :
    (i.bind t.symbol? = none ∧ i.bind t'.symbol? = none) ∨
      ∃ s s', i.bind t.symbol? = some s ∧ i.bind t'.symbol? = some s' ∧ m.Symbols s s' := by
  cases i with
  | none => exact .inl ⟨rfl, rfl⟩
  | some i => exact h.symbol? i

end Runs.Tables

namespace Runs.Symbols

variable {s s' : Symbol}

/-- A symbol is a variable in both runs, or the same function. -/
theorem cases (h : m.Symbols s s') :
    (∃ v c v' c', s.content = .variable v c ∧ s'.content = .variable v' c' ∧ v'.ty = v.ty ∧
      (m.loses = true → c' = false) ∧ (m.loses = false → v' = v ∧ c' = c)) ∨
      ∃ ps result, s.content = .function ps result ∧ s'.content = .function ps result := by
  have hcontent := h.content
  generalize s.content = c at hcontent
  generalize s'.content = c' at hcontent
  cases hcontent with
  | «variable» hty hlost hsame => exact .inl ⟨_, _, _, _, rfl, rfl, hty, hlost, hsame⟩
  | function ps result => exact .inr ⟨ps, result, rfl, rfl⟩

/-- A symbol has one type in both runs. -/
theorem ty (h : m.Symbols s s') : s'.ty = s.ty := by
  rcases h.cases with ⟨v, c, v', c', hc, hc', hty, -, -⟩ | ⟨ps, result, hc, hc'⟩
  · simp only [Symbol.ty, hc, hc', hty]
  · simp only [Symbol.ty, hc, hc']

/-- A function has the same parameters in both runs, under the same numbers. -/
theorem params (h : m.Symbols s s') : s'.params = s.params := by
  rcases h.cases with ⟨v, c, v', c', hc, hc', -, -, -⟩ | ⟨ps, result, hc, hc'⟩ <;>
    simp only [Symbol.params, hc, hc']

/-- What a message says of a symbol shows neither its value nor its line. -/
theorem describe (h : m.Symbols s s') : s'.describe = s.describe := by
  rcases h.cases with ⟨v, c, v', c', hc, hc', hty, -, -⟩ | ⟨ps, result, hc, hc'⟩
  · simp only [Symbol.describe, hc, hc', hty, h.name]
  · simp only [Symbol.describe, hc, hc', h.name]

end Runs.Symbols

/-! ### Expressions -/

theorem Runs.Contexts.scope {ctx ctx' : Context} (h : m.Contexts ctx ctx') :
    ctx'.scope = ctx.scope := by
  rw [h.right]

theorem Runs.Contexts.fn {ctx ctx' : Context} (h : m.Contexts ctx ctx') : ctx'.fn = ctx.fn := by
  rw [h.right]

/-- Whether a name is that of a global depends on scopes alone. -/
theorem Runs.Contexts.isGlobal {ctx ctx' : Context} (h : m.Contexts ctx ctx') {t t' : Table}
    (ht : m.Tables t t') (i : SymbolId) (x : Text) :
    isGlobal ctx' t' i x = isGlobal ctx t i x := by
  unfold Analysis.isGlobal
  rw [h.right, ht.findIn?]

namespace Runs.Checks

variable {fs fs' : List Finding}

theorem untyped (h : m.Findings fs fs') : m.Checks (.untyped fs) (.untyped fs') :=
  ⟨rfl, Runs.known_none.symm, fun _ hv => (nomatch hv), h⟩

theorem ofTy (ty : Ty) (h : m.Findings fs fs') : m.Checks (.ofTy ty fs) (.ofTy ty fs') :=
  ⟨rfl, Runs.known_none.symm, fun _ hv => (nomatch hv), h⟩

/-- A constant is known to each run that computes constants. -/
theorem constant {ctx ctx' : Context} (h : m.Contexts ctx ctx') (v : Value) :
    m.Checks (constant ctx v) (constant ctx' v) := by
  refine ⟨rfl, ?_, fun w hw => ?_, .nil⟩
  · unfold Analysis.constant Runs.known Runs.loses
    rw [h.right, h.left]
    -- the second run computes constants only if the first does, which leaves three cases
    have := m.fold
    cases hl : m.left.fold <;> cases hr : m.right.fold <;> simp_all
  · rw [← constant_value hw]
    rfl

/-- A value that only the first run computes. -/
theorem lost {v : Value} {ty : Ty} (hlost : m.loses = true) (hv : v.ty = ty)
    (h : m.Findings fs fs') : m.Checks ⟨ty, some v, fs⟩ (.ofTy ty fs') :=
  ⟨rfl, (Runs.known_of_loses hlost _).symm, fun w hw => by cases hw; exact hv, h⟩

end Runs.Checks

section
variable {ctx ctx' : Context} {t t' : Table}

/-- Names in both runs. -/
theorem alike_checkName (hctx : m.Contexts ctx ctx') (ht : m.Tables t t') {i i' : Ident}
    (hi : i.Alike m.place i') : m.Checks (checkName ctx t i) (checkName ctx' t' i') := by
  have hmissing : m.Checks (.untyped [i.token.finding (.undeclared i.name)])
      (.untyped [i'.token.finding (.undeclared i.name)]) :=
    .untyped (.single hi.token.pos (.same _ rfl) rfl)
  unfold checkName
  rw [ht.find?, hctx.scope, hi.name]
  cases hfind : t.find? ctx.scope i.name with
  | none => exact hmissing
  | some id =>
    dsimp only
    rcases ht.symbol? id with ⟨hs, hs'⟩ | ⟨s, s', hs, hs', hsymbols⟩
    · rw [hs, hs']
      exact hmissing
    · have huncertain : isUncertain ctx' s'.name = isUncertain ctx s.name := by
        rw [hctx.right, hsymbols.name]
        rfl
      rw [hs, hs']
      dsimp only
      rw [hctx.isGlobal ht, huncertain, hsymbols.name]
      -- a variable may have another value in the second run, but no other type
      rcases hsymbols.cases with ⟨v, c, v', c', hc, hc', hty, hlost, hsame⟩ | ⟨ps, result, hc, hc'⟩
      · rw [hc, hc']
        dsimp only
        cases hloses : m.loses with
        | false =>
          obtain ⟨rfl, rfl⟩ := hsame hloses
          split
          · exact .constant hctx _
          · exact .ofTy _ .nil
        | true =>
          -- the second run knows no values
          rw [hlost hloses, Bool.false_and, if_neg Bool.false_ne_true, hty]
          unfold constant
          split
          · split
            · exact .lost hloses rfl .nil
            · exact .ofTy _ .nil
          · exact .ofTy _ .nil
      · rw [hc, hc']
        exact .untyped (.single hi.token.pos (.same _ rfl) rfl)

/-! ### Operators -/

/-- An integer fails to be a constant only for its size. -/
theorem ofInt?_error {n : Int} {e : FoldError} (h : Value.ofInt? n = .error e) :
    e = .overflow := by
  unfold Value.ofInt? at h
  split at h
  · exact (Except.error.inj h).symm
  · cases h

/-- An operand of the right type folds, unless the result is out of range. -/
theorem unary_fold_error {op : UnaryOp} {v : Value} {e : FoldError} (hv : v.ty = op.operandTy)
    (h : op.fold v = .error e) : e = .overflow := by
  cases op with
  | neg =>
    cases v with
    | int n => exact ofInt?_error h
    | _ => cases hv
  | not =>
    cases v with
    | bool b => cases h
    | _ => cases hv
  | other s => cases v <;> cases hv

/-- Operands of the right types fold, unless the result is out of range or undefined. -/
theorem binary_fold_error {op : BinaryOp} {l r : Value} {ty : Ty} {e : FoldError}
    (hty : op.resultTy? l.ty r.ty = some ty) (h : op.fold l r = .error e) :
    e = .overflow ∨ e = .divisionByZero := by
  cases l <;> cases r
  case int.int l r =>
    cases op with
    | add | sub | mul => exact .inl (ofInt?_error h)
    | div =>
      simp only [BinaryOp.fold, BinaryOp.foldInt] at h
      split at h
      · exact .inr (Except.error.inj h).symm
      · exact .inl (ofInt?_error h)
    | eq | ne => cases h
    | and | or | other => cases hty
  case bool.bool l r =>
    cases op with
    | and | or | eq | ne => cases h
    | add | sub | mul | div | other => cases hty
  case str.str l r =>
    cases op with
    | add | eq | ne => cases h
    | sub | mul | div | and | or | other => cases hty
  -- operands of different types have no result
  all_goals cases op <;> cases hty

/-- A result of folding. The second run has the same one, or it does not fold. -/
theorem alike_folded {tok tok' : Token} (htok : m.place tok.pos tok'.pos) {ty : Ty}
    {fs fs' : List Finding} (hfs : m.Findings fs fs') {r : Except FoldError Value}
    (hok : ∀ v, r = .ok v → v.ty = ty)
    (herror : ∀ e, r = .error e → e = .overflow ∨ e = .divisionByZero) :
    (m.loses = false → m.Checks (folded tok ty fs r) (folded tok' ty fs' r)) ∧
      (m.loses = true → m.Checks (folded tok ty fs r) (.ofTy ty fs')) := by
  cases r with
  | ok v =>
    refine ⟨fun hloses => ?_, fun hloses => .lost hloses (hok v rfl) hfs⟩
    exact ⟨rfl, (Runs.known_of_not_loses hloses _).symm, fun w hw => by cases hw; exact hok v rfl,
      hfs⟩
  | error e =>
    -- the error is kept or suppressed together with the value
    refine ⟨fun hloses => .ofTy ty (hfs.append (.single htok (.same _ rfl) ?_)), fun hloses => ?_⟩
    · rcases herror e rfl with rfl | rfl <;> simp [Runs.keeps, Token.finding, hloses]
    · have hdropped := hfs.append (.dropped (f := tok.finding (.folding e)) (by
        rcases herror e rfl with rfl | rfl <;> simp [Runs.keeps, Token.finding, hloses]))
      rw [List.append_nil] at hdropped
      exact .ofTy ty hdropped

/-- Prefix operators in both runs. -/
theorem alike_checkUnary {tok tok' : Token} (htok : m.place tok.pos tok'.pos) (op : UnaryOp)
    {c c' : Checked} (hc : m.Checks c c') :
    m.Checks (checkUnary tok op c) (checkUnary tok' op c') := by
  unfold checkUnary
  rw [hc.ty]
  split
  · exact .untyped hc.findings
  · split
    · exact .untyped (hc.findings.append (.single htok (.same _ rfl) rfl))
    · next hty =>
      rw [not_ne_iff] at hty
      rw [hc.value]
      cases hv : c.value with
      | none =>
        rw [Runs.known_none]
        exact .ofTy _ hc.findings
      | some v =>
        -- the operand has the right type, so folding can only overflow
        obtain ⟨hsame, hlost⟩ := alike_folded htok hc.findings (r := op.fold v)
          (fun w hw => ty_of_unary_fold hw)
          (fun e he => .inl (unary_fold_error ((hc.typed v hv).trans hty) he))
        cases hloses : m.loses with
        | false =>
          rw [Runs.known_of_not_loses hloses]
          exact hsame hloses
        | true =>
          rw [Runs.known_of_loses hloses]
          exact hlost hloses

/-- Infix operators in both runs. -/
theorem alike_checkBinary {tok tok' : Token} (htok : m.place tok.pos tok'.pos) (op : BinaryOp)
    {l l' r r' : Checked} (hl : m.Checks l l') (hr : m.Checks r r') :
    m.Checks (checkBinary tok op l r) (checkBinary tok' op l' r') := by
  have hbefore := hl.findings.append hr.findings
  unfold checkBinary
  dsimp only
  rw [hl.ty, hr.ty]
  split
  · exact .untyped hbefore
  · cases hresult : op.resultTy? l.ty r.ty with
    | none => exact .untyped (hbefore.append (.single htok (.same _ rfl) rfl))
    | some ty =>
      dsimp only
      rw [hl.value, hr.value]
      cases hlv : l.value with
      | none =>
        rw [Runs.known_none]
        exact .ofTy ty hbefore
      | some v =>
        cases hrv : r.value with
        | none =>
          rw [Runs.known_none]
          cases m.known (some v) <;> exact .ofTy ty hbefore
        | some w =>
          -- the types that were checked are those of the values, so folding fails only for the values
          rw [← hl.typed v hlv, ← hr.typed w hrv] at hresult
          obtain ⟨hsame, hlost⟩ := alike_folded htok hbefore (r := op.fold v w)
            (fun u hu => ty_of_binary_fold hresult hu) (fun e he => binary_fold_error hresult he)
          cases hloses : m.loses with
          | false =>
            rw [Runs.known_of_not_loses hloses, Runs.known_of_not_loses hloses]
            exact hsame hloses
          | true =>
            rw [Runs.known_of_loses hloses, Runs.known_of_loses hloses]
            exact hlost hloses

/-! ### Calls -/

/-- Arguments are compared with parameters by type alone, and types are the same. -/
theorem alike_argumentFindings (function : Text) (index : Nat) {es es' : List Expr}
    (hes : List.Forall₂ (Expr.Alike m.place) es es') {cs cs' : List Checked}
    (hcs : List.Forall₂ m.Checks cs cs') (ps : List Param) :
    m.Findings (argumentFindings function index es cs ps)
      (argumentFindings function index es' cs' ps) := by
  induction hes generalizing index cs cs' ps with
  | nil => exact .nil
  | cons he _ ih =>
    cases hcs with
    | nil => exact .nil
    | cons hc hcs =>
      cases ps with
      | nil => exact .nil
      | cons p ps =>
        rw [argumentFindings, argumentFindings, hc.ty]
        refine Runs.Findings.append ?_ (ih (index + 1) hcs ps)
        split
        · exact .nil
        · exact .single he.token (.same _ rfl) rfl

/-- Calls in both runs. -/
theorem alike_checkCall (hctx : m.Contexts ctx ctx') (ht : m.Tables t t') {i i' : Ident}
    (hi : i.Alike m.place i') {es es' : List Expr} (hes : List.Forall₂ (Expr.Alike m.place) es es')
    {cs cs' : List Checked} (hcs : List.Forall₂ m.Checks cs cs') :
    m.Checks (checkCall ctx t i es cs) (checkCall ctx' t' i' es' cs') := by
  have hbefore : m.Findings (cs.flatMap (·.findings)) (cs'.flatMap (·.findings)) :=
    .flatMap (hcs.imp fun _ _ h => h.findings)
  have hself : isInferredSelf ctx' i.name = isInferredSelf ctx i.name := by
    rw [hctx.right]
    rfl
  unfold checkCall
  dsimp only
  rw [ht.find?, hctx.scope, hi.name, hself]
  rcases ht.bind_symbol? (t.find? ctx.scope i.name) with ⟨hs, hs'⟩ | ⟨s, s', hs, hs', hsymbols⟩
  · -- what is missing may be the function that is being read
    rw [hs, hs']
    refine .untyped (hbefore.append (.single hi.token.pos (.same _ ?_) ?_))
    · split <;> rfl
    · split <;> rfl
  · rw [hs, hs']
    dsimp only
    rcases hsymbols.cases with ⟨v, c, v', c', hc, hc', hty, -, -⟩ | ⟨ps, result, hc, hc'⟩
    · rw [hc, hc']
      dsimp only
      rw [hty]
      exact .untyped (hbefore.append (.single hi.token.pos (.same _ rfl) rfl))
    · rw [hc, hc']
      dsimp only
      rw [hcs.length_eq]
      split
      · exact .ofTy result (hbefore.append (.single hi.token.pos (.same _ rfl) rfl))
      · exact .ofTy result (hbefore.append (alike_argumentFindings i.name 1 hes hcs ps))

/-- The least integer is told by its literal. -/
theorem isLeastInt_of_alike (op : UnaryOp) {e e' : Expr} (h : e.Alike m.place e') :
    isLeastInt op e' = isLeastInt op e := by
  cases h <;> rfl

/-- **Expressions in both runs.** -/
theorem alike_check (hctx : m.Contexts ctx ctx') (ht : m.Tables t t') {e e' : Expr}
    (h : e.Alike m.place e') : m.Checks (check ctx t e) (check ctx' t' e') := by
  induction h with
  | ident hi =>
    rw [check, check]
    exact alike_checkName hctx ht hi
  | int n htok =>
    rw [check, check, htok.literal]
    split
    · exact .ofTy _ (.single htok.pos (.same _ rfl) rfl)
    · exact .constant hctx _
  | str s htok | bool s htok =>
    rw [check, check]
    exact .constant hctx _
  | unary op htok he ih =>
    rw [check, check, isLeastInt_of_alike op he]
    split
    · exact .constant hctx _
    · exact alike_checkUnary htok.pos op ih
  | binary op htok hl hr ihl ihr =>
    rw [check, check]
    exact alike_checkBinary htok.pos op ihl ihr
  | group htok he ih =>
    rw [check, check]
    exact ih
  | @call tok tok' i i' es es' htok hi hlen hes ih =>
    rw [check, check]
    have hcs : List.Forall₂ m.Checks (checkAll ctx t es) (checkAll ctx' t' es') := by
      have hcheck := forall₂_of_zip (R := fun e e' => m.Checks (check ctx t e) (check ctx' t' e'))
        hlen ih
      clear hes ih hlen
      induction hcheck with
      | nil =>
        rw [checkAll, checkAll]
        exact .nil
      | cons h _ ih =>
        rw [checkAll, checkAll]
        exact .cons h ih
    exact alike_checkCall hctx ht hi (forall₂_of_zip hlen hes) hcs
  | hole h =>
    rw [check, check]
    exact .untyped .nil

end
end
end Analysis
end Slang
