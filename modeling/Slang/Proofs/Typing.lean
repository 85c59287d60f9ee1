import Slang.Tree
import Slang.Operator.Fold

/-!
# The static rules

When a program is well-formed, by rules that do not go through the checker. An environment is a list
of scopes, innermost first; a scope lists its names in the order of their declarations.

* `HasType Γ e ty` types an expression. A name has to stand for a variable, a callee for a function
  that takes arguments of exactly these types;
* `Body Γ ss Γ' rs` types the statements of a scope. It says what the scopes are afterwards, and
  collects the types of the returns in the order in which they are written; a return without a
  value counts as `void`;
* `FunctionOk` and `TopLevel` add functions, and `WellFormed` is the rule for a whole program.

Functions with a written result type are visible from the start, all other names from their
declaration on: `hoisted` is the global scope before the first statement.
-/

namespace Slang.Typing

/-- What a name stands for. -/
inductive Entry where
  | variable (ty : Ty)
  | function (params : List Ty) (result : Ty)
  deriving DecidableEq, Repr

/-- The names of a scope, in the order of their declarations. -/
abbrev Names := List (Text × Entry)

/-- The scopes around a place, innermost first. -/
abbrev Env := List Names

/-- What a name stands for: the binding of the nearest scope that has it. -/
def Env.find? (Γ : Env) (x : Text) : Option Entry := Γ.findSome? fun names => names.lookup x

/-- The types of variables. -/
inductive IsValue : Ty → Prop
  | int : IsValue .int
  | bool : IsValue .bool
  | string : IsValue .string

theorem IsValue.ne_void {ty : Ty} (h : IsValue ty) : ty ≠ .void := by
  rintro rfl
  cases h

theorem IsValue.ne_invalid {ty : Ty} (h : IsValue ty) : ty ≠ .invalid := by
  rintro rfl
  cases h

/-! ### Expressions -/

/-- **Types of expressions.** The least integer is written as the negation of a literal that by
itself is out of range. -/
inductive HasType (Γ : Env) : Expr → Ty → Prop
  | int {t : Token} {n : Int} (hn : n ≤ maxInt) : HasType Γ (.int t n) .int
  | least {t t' : Token} : HasType Γ (.unary t .neg (.int t' (-minInt))) .int
  | str {t : Token} {s : Text} : HasType Γ (.str t s) .string
  | bool {t : Token} {b : Bool} : HasType Γ (.bool t b) .bool
  | name {id : Ident} {ty : Ty} (h : Γ.find? id.name = some (.variable ty)) :
      HasType Γ (.ident id) ty
  | neg {t : Token} {e : Expr} (he : HasType Γ e .int) : HasType Γ (.unary t .neg e) .int
  | not {t : Token} {e : Expr} (he : HasType Γ e .bool) : HasType Γ (.unary t .not e) .bool
  | add {t : Token} {l r : Expr} {ty : Ty} (hty : ty = .int ∨ ty = .string) (hl : HasType Γ l ty)
      (hr : HasType Γ r ty) : HasType Γ (.binary t .add l r) ty
  | arithmetic {t : Token} {op : BinaryOp} {l r : Expr} (hop : op = .sub ∨ op = .mul ∨ op = .div)
      (hl : HasType Γ l .int) (hr : HasType Γ r .int) : HasType Γ (.binary t op l r) .int
  | logic {t : Token} {op : BinaryOp} {l r : Expr} (hop : op = .and ∨ op = .or)
      (hl : HasType Γ l .bool) (hr : HasType Γ r .bool) : HasType Γ (.binary t op l r) .bool
  | equality {t : Token} {op : BinaryOp} {l r : Expr} {ty : Ty} (hop : op = .eq ∨ op = .ne)
      (hty : ty ≠ .void) (hl : HasType Γ l ty) (hr : HasType Γ r ty) :
      HasType Γ (.binary t op l r) .bool
  | group {t : Token} {e : Expr} {ty : Ty} (he : HasType Γ e ty) : HasType Γ (.group t e) ty
  | call {t : Token} {callee : Ident} {args : List Expr} {params : List Ty} {result : Ty}
      (hcallee : Γ.find? callee.name = some (.function params result))
      (hlen : args.length = params.length) (hargs : ∀ a ∈ args.zip params, HasType Γ a.1 a.2) :
      HasType Γ (.call t callee args) result

/-! ### Statements -/

/-- **The type of a declared variable**: the written one, which the value has as well, or else that
of the value. -/
inductive Declares (Γ : Env) : Option TypeNode → Option Expr → Ty → Prop
  | written {t : Token} {ty : Ty} : Declares Γ (some ⟨t, ty⟩) none ty
  | both {t : Token} {e : Expr} {ty : Ty} (he : HasType Γ e ty) :
      Declares Γ (some ⟨t, ty⟩) (some e) ty
  | inferred {e : Expr} {ty : Ty} (he : HasType Γ e ty) : Declares Γ none (some e) ty

/-- **Statements of a scope**: the scopes before and after them, and the types of their returns. -/
inductive Body : Env → List Stmt → Env → List Ty → Prop
  | nil {Γ : Env} : Body Γ [] Γ []
  | letDecl {names : Names} {Γ Γ' : Env} {t : Token} {name : Ident} {type : Option TypeNode}
      {value : Option Expr} {ty : Ty} {ss : List Stmt} {rs : List Ty}
      (hvalue : Declares (names :: Γ) type value ty) (hty : IsValue ty)
      (hnew : name.name ∉ names.map Prod.fst)
      (hrest : Body ((names ++ [(name.name, .variable ty)]) :: Γ) ss Γ' rs) :
      Body (names :: Γ) (.letDecl t name type value :: ss) Γ' rs
  | assign {Γ Γ' : Env} {t : Token} {name : Ident} {e : Expr} {ty : Ty} {ss : List Stmt}
      {rs : List Ty} (hname : Γ.find? name.name = some (.variable ty)) (he : HasType Γ e ty)
      (hrest : Body Γ ss Γ' rs) : Body Γ (.assign t name e :: ss) Γ' rs
  | ret {Γ Γ' : Env} {t : Token} {ss : List Stmt} {rs : List Ty} (hrest : Body Γ ss Γ' rs) :
      Body Γ (.ret t none :: ss) Γ' (.void :: rs)
  | retValue {Γ Γ' : Env} {t : Token} {e : Expr} {ty : Ty} {ss : List Stmt} {rs : List Ty}
      (he : HasType Γ e ty) (hty : ty ≠ .void) (hrest : Body Γ ss Γ' rs) :
      Body Γ (.ret t (some e) :: ss) Γ' (ty :: rs)
  | block {Γ Γ' Δ : Env} {t : Token} {body ss : List Stmt} {qs rs : List Ty}
      (hbody : Body ([] :: Γ) body Δ qs) (hrest : Body Γ ss Γ' rs) :
      Body Γ (.block t body :: ss) Γ' (qs ++ rs)
  | expr {Γ Γ' : Env} {t : Token} {e : Expr} {ty : Ty} {ss : List Stmt} {rs : List Ty}
      (he : HasType Γ e ty) (hrest : Body Γ ss Γ' rs) : Body Γ (.expr t e :: ss) Γ' rs

/-! ### Functions and programs -/

/-- The parameters of a function as the first names of its scope. -/
def paramNames (head : FnHead) : Names :=
  head.params.map fun p => (p.name.name, .variable p.type.ty)

/-- What a function stands for, with a given result type. -/
def signature (head : FnHead) (result : Ty) : Entry :=
  .function (head.params.map fun p => p.type.ty) result

/-- **A function that returns `result`.** Its parameters have distinct names and types that
variables have. Every return in the body, at any depth, is of the result type; a function without a
return returns `void`. -/
structure FunctionOk (global : Names) (head : FnHead) (body : List Stmt) (result : Ty) : Prop where
  distinct : (head.params.map fun p => p.name.name).Nodup
  params : ∀ p ∈ head.params, IsValue p.type.ty
  result_ok : IsValue result ∨ result = .void
  body_ok : ∃ Γ' rs, Body [paramNames head, global] body Γ' rs ∧ (∀ r ∈ rs, r = result) ∧
    (result ≠ .void → rs ≠ [])

/-- **Top-level statements** after the names in `global` have been declared. A function without a
written result type is declared after its body. -/
inductive TopLevel : Names → Program → Prop
  | nil {global : Names} : TopLevel global []
  | letDecl {global : Names} {t : Token} {name : Ident} {type : Option TypeNode}
      {value : Option Expr} {ty : Ty} {p : Program} (hvalue : Declares [global] type value ty)
      (hty : IsValue ty) (hnew : name.name ∉ global.map Prod.fst)
      (hrest : TopLevel (global ++ [(name.name, .variable ty)]) p) :
      TopLevel global (.letDecl t name type value :: p)
  | assign {global : Names} {t : Token} {name : Ident} {e : Expr} {ty : Ty} {p : Program}
      (hname : Env.find? [global] name.name = some (.variable ty)) (he : HasType [global] e ty)
      (hrest : TopLevel global p) : TopLevel global (.assign t name e :: p)
  | declared {global : Names} {head : FnHead} {type : TypeNode} {brace : Option Token}
      {body : List Stmt} {p : Program} (htype : head.result = some type)
      (hfn : FunctionOk global head body type.ty) (hrest : TopLevel global p) :
      TopLevel global (.fn head brace body :: p)
  | inferred {global : Names} {head : FnHead} {result : Ty} {brace : Option Token}
      {body : List Stmt} {p : Program} (htype : head.result = none)
      (hfn : FunctionOk global head body result) (hnew : head.name.name ∉ global.map Prod.fst)
      (hrest : TopLevel (global ++ [(head.name.name, signature head result)]) p) :
      TopLevel global (.fn head brace body :: p)

/-- The name that a statement declares ahead of all others: that of a function with a written result
type. -/
def hoistedName : Stmt → Option (Text × Entry)
  | .fn head _ _ => head.result.map fun type => (head.name.name, signature head type.ty)
  | _ => none

/-- The global scope before the first statement. -/
def hoisted (p : Program) : Names := p.filterMap hoistedName

/-- **Well-formed programs.** -/
structure WellFormed (p : Program) : Prop where
  distinct : ((hoisted p).map Prod.fst).Nodup
  statements : TopLevel (hoisted p) p

end Slang.Typing
