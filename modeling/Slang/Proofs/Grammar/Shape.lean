import Slang.Proofs.Grammar.Sound

/-!
# The shape of trees that are read from source

Trees can be put together by hand and then have gaps. Those of a source without faults have none:
expressions are whole, a declaration has a type or a value, functions stand at top level only and
nothing but declarations, assignments and functions stands there. The grammar says all of this, so
it is read off a derivation.
-/

namespace Slang

/-- **Expressions without gaps.** -/
inductive Expr.Whole : Expr → Prop
  | ident {id : Ident} : Whole (.ident id)
  | int {t : Token} {n : Int} : Whole (.int t n)
  | str {t : Token} {s : Text} : Whole (.str t s)
  | bool {t : Token} {b : Bool} : Whole (.bool t b)
  | unary {t : Token} {op : UnaryOp} {e : Expr} (he : Whole e) : Whole (.unary t op e)
  | binary {t : Token} {op : BinaryOp} {l r : Expr} (hl : Whole l) (hr : Whole r) :
      Whole (.binary t op l r)
  | group {t : Token} {e : Expr} (he : Whole e) : Whole (.group t e)
  | call {t : Token} {callee : Ident} {args : List Expr} (hargs : ∀ a ∈ args, Whole a) :
      Whole (.call t callee args)

/-- **Statements of a body without gaps.** -/
inductive Stmt.Proper : Stmt → Prop
  | letDecl {t : Token} {name : Ident} {type : Option TypeNode} {value : Option Expr}
      (hone : type.isSome ∨ value.isSome) (hvalue : ∀ e ∈ value, e.Whole) :
      Proper (.letDecl t name type value)
  | assign {t : Token} {name : Ident} {e : Expr} (he : e.Whole) : Proper (.assign t name e)
  | ret {t : Token} {value : Option Expr} (hvalue : ∀ e ∈ value, e.Whole) : Proper (.ret t value)
  | block {t : Token} {body : List Stmt} (hbody : ∀ s ∈ body, Proper s) : Proper (.block t body)
  | expr {t : Token} {e : Expr} (he : e.Whole) : Proper (.expr t e)

/-- **Top-level statements without gaps.** -/
inductive Stmt.ProperTop : Stmt → Prop
  | letDecl {t : Token} {name : Ident} {type : Option TypeNode} {value : Option Expr}
      (hone : type.isSome ∨ value.isSome) (hvalue : ∀ e ∈ value, e.Whole) :
      ProperTop (.letDecl t name type value)
  | assign {t : Token} {name : Ident} {e : Expr} (he : e.Whole) : ProperTop (.assign t name e)
  | fn {head : FnHead} {brace : Option Token} {body : List Stmt} (hbody : ∀ s ∈ body, s.Proper) :
      ProperTop (.fn head brace body)

namespace Grammar

/-- The tokens of an element are among those of the list. -/
theorem mem_separated {tss : List (List Token)} {mid us : List Token} {u : Token}
    (h : Separated tss mid) (hus : us ∈ tss) (hu : u ∈ us) : u ∈ mid := by
  induction h with
  | nil => cases hus
  | single ts => exact List.mem_singleton.mp hus ▸ hu
  | cons hcomma hrest ih =>
    rcases List.mem_cons.mp hus with rfl | hus
    · exact List.mem_append_left _ hu
    · exact List.mem_append_right _ (List.mem_cons_of_mem _ (ih hus))

theorem Stratum.whole {n : Level} {ts : List Token} {e : Expr} (h : Stratum n ts e) : e.Whole := by
  induction h with
  | binary ht hl hr ihl ihr => exact .binary ihl ihr
  | tighter hn h ih => exact ih
  | unary ht h ih => exact .unary ih
  | call hcallee ht hargs hmid hclose ih =>
    refine .call fun a ha => ?_
    obtain ⟨b, hb, rfl⟩ := List.mem_map.mp ha
    exact ih b hb
  | name ht => exact .ident
  | int ht hn hlt => exact .int
  | str ht => exact .str
  | kwTrue ht => exact .bool
  | kwFalse ht => exact .bool
  | group ht h hclose ih => exact .group ih

theorem OptionalValue.whole {ts : List Token} {value : Option Expr} (h : OptionalValue ts value) :
    ∀ e ∈ value, e.Whole := by
  cases h with
  | absent => exact nofun
  | written hsign he =>
    rintro e ⟨⟩
    exact he.whole

theorem OptionalResult.whole {ts : List Token} {value : Option Expr}
    (h : OptionalResult ts value) : ∀ e ∈ value, e.Whole := by
  cases h with
  | absent => exact nofun
  | written he =>
    rintro e ⟨⟩
    exact he.whole

theorem Statement.proper {ts : List Token} {s : Stmt} (h : Statement ts s) : s.Proper := by
  induction h with
  | declaration h =>
    cases h with
    | mk ht hname htype hvalue hone hsemi => exact .letDecl hone hvalue.whole
  | assignment h =>
    cases h with
    | mk hname hsign he hsemi => exact .assign he.whole
  | ret ht hvalue hsemi => exact .ret hvalue.whole
  | block ht h hclose ih =>
    refine .block fun s hs => ?_
    obtain ⟨b, hb, rfl⟩ := List.mem_map.mp hs
    exact ih b hb
  | expr he hsemi => exact .expr he.whole

theorem TopLevel.proper {ts : List Token} {s : Stmt} (h : TopLevel ts s) : s.ProperTop := by
  cases h with
  | declaration h =>
    cases h with
    | mk ht hname htype hvalue hone hsemi => exact .letDecl hone hvalue.whole
  | assignment h =>
    cases h with
    | mk hname hsign he hsemi => exact .assign he.whole
  | function h =>
    cases h with
    | mk ht hname hlparen hparams hmid hrparen htype hbrace hparts hclose =>
      refine .fn fun s hs => ?_
      obtain ⟨b, hb, rfl⟩ := List.mem_map.mp hs
      exact (hparts b hb).proper

theorem Program.proper {ts : List Token} {p : Slang.Program} (h : Program ts p) :
    ∀ s ∈ p, s.ProperTop := by
  induction h with
  | nil => exact fun s hs => absurd hs List.not_mem_nil
  | cons hs hp ih =>
    intro s hmem
    rcases List.mem_cons.mp hmem with rfl | hmem
    · exact hs.proper
    · exact ih s hmem

end Grammar

/-- **The program of a source without faults has no gaps.** -/
theorem Parser.proper_of_parse {src : Text} (h : (parse src).faults = []) :
    ∀ s ∈ (parse src).program, s.ProperTop :=
  (program_derived (show (Lexer.eof src).kind = .eof from rfl) (Lexer.tokens src) h).proper

end Slang
