import Slang.Tree.Parser

/-!
# The grammar of the language

Which sequences of tokens are programs, and which tree each of them has. Nothing here reads
tokens from left to right: a phrase is related to its tree by rules, and the tokens of a phrase are
those of its parts, one after the other. Every token of a phrase therefore belongs to exactly one
place of the tree, in the order in which it was written.

* `Stratum n` are the expressions whose outermost operator binds at least as tightly as `n`. The
  strata are `||`, `&&`, equality, sums, products, prefix operators and calls. An infix operator of
  level `n` has a left operand of stratum `n` and a right operand of stratum `n + 1`: every level
  is left associative;
* `Callee` is what can be called: a name, in any number of parentheses. A call is no callee, so
  nothing is called twice;
* `Declaration`, `Assignment` and `Statement` are the statements of a body, `Function` and
  `Program` the rest.
-/

namespace Slang.Grammar

/-! ### Lists -/

/-- Phrases with a comma between neighbours, and none at the end. -/
inductive Separated : List (List Token) → List Token → Prop
  | nil : Separated [] []
  | single (ts : List Token) : Separated [ts] ts
  | cons {ts us rest : List Token} {tss : List (List Token)} {comma : Token}
      (hcomma : comma.kind = .comma) (hrest : Separated (us :: tss) rest) :
      Separated (ts :: us :: tss) (ts ++ comma :: rest)

/-! ### Expressions -/

/-- The prefix operator that a kind of token stands for. -/
def unaryOp? : Token.Kind → Option UnaryOp
  | .minus => some .neg
  | .bang => some .not
  | _ => none

/-- **What can be called**: a name, in any number of parentheses. -/
inductive Callee : List Token → Ident → Prop
  | name {t : Token} (ht : t.kind = .ident) : Callee [t] ⟨t, t.literal⟩
  | group {t close : Token} {ts : List Token} {id : Ident} (ht : t.kind = .lparen)
      (h : Callee ts id) (hclose : close.kind = .rparen) : Callee (t :: (ts ++ [close])) id

/-- The loosest stratum, that of `||`. -/
def loosest : Level := Level.lowest + 1

/-- **Expressions by stratum**, with their trees. -/
inductive Stratum : Level → List Token → Expr → Prop
  | binary {t : Token} {op : BinaryOp} {ls rs : List Token} {l r : Expr}
      (ht : t.kind.binaryOp? = some op) (hl : Stratum op.level ls l)
      (hr : Stratum (op.level + 1) rs r) : Stratum op.level (ls ++ t :: rs) (.binary t op l r)
  | tighter {n : Level} {ts : List Token} {e : Expr} (hn : n < Level.call)
      (h : Stratum (n + 1) ts e) : Stratum n ts e
  | unary {t : Token} {op : UnaryOp} {ts : List Token} {e : Expr} (ht : unaryOp? t.kind = some op)
      (h : Stratum Level.unary ts e) : Stratum Level.unary (t :: ts) (.unary t op e)
  | call {t close : Token} {ts mid : List Token} {callee : Ident}
      {args : List (List Token × Expr)} (hcallee : Callee ts callee) (ht : t.kind = .lparen)
      (hargs : ∀ a ∈ args, Stratum loosest a.1 a.2) (hmid : Separated (args.map Prod.fst) mid)
      (hclose : close.kind = .rparen) :
      Stratum Level.call (ts ++ t :: (mid ++ [close])) (.call t callee (args.map Prod.snd))
  | name {t : Token} (ht : t.kind = .ident) : Stratum Level.call [t] (.ident ⟨t, t.literal⟩)
  | int {t : Token} {n : Nat} (ht : t.kind = .int) (hn : t.literal.toNat? = some n)
      (hlt : n < 9223372036854775808) : Stratum Level.call [t] (.int t n)
  | str {t : Token} (ht : t.kind = .string) : Stratum Level.call [t] (.str t t.literal)
  | kwTrue {t : Token} (ht : t.kind = .kwTrue) : Stratum Level.call [t] (.bool t true)
  | kwFalse {t : Token} (ht : t.kind = .kwFalse) : Stratum Level.call [t] (.bool t false)
  | group {t close : Token} {ts : List Token} {e : Expr} (ht : t.kind = .lparen)
      (h : Stratum loosest ts e) (hclose : close.kind = .rparen) :
      Stratum Level.call (t :: (ts ++ [close])) (.group t e)

/-- **Expressions** of any stratum. -/
abbrev Expression : List Token → Expr → Prop := Stratum loosest

/-! ### Parts of statements -/

/-- A type: one of its keywords. -/
inductive TypeName : Token → TypeNode → Prop
  | mk {t : Token} {ty : Ty} (ht : t.kind = .typeLiteral)
      (hty : Ty.ofKeyword? t.literal = some ty) : TypeName t ⟨t, ty⟩

/-- A colon and a type, or nothing. -/
inductive OptionalType : List Token → Option TypeNode → Prop
  | absent : OptionalType [] none
  | written {colon t : Token} {type : TypeNode} (hcolon : colon.kind = .colon)
      (ht : TypeName t type) : OptionalType [colon, t] (some type)

/-- A sign of assignment and an expression, or nothing. -/
inductive OptionalValue : List Token → Option Expr → Prop
  | absent : OptionalValue [] none
  | written {sign : Token} {ts : List Token} {e : Expr} (hsign : sign.kind = .assign)
      (he : Expression ts e) : OptionalValue (sign :: ts) (some e)

/-- The value of a return, or nothing. -/
inductive OptionalResult : List Token → Option Expr → Prop
  | absent : OptionalResult [] none
  | written {ts : List Token} {e : Expr} (he : Expression ts e) : OptionalResult ts (some e)

/-! ### Statements -/

/-- A declaration of a variable. It has a type, a value, or both. -/
inductive Declaration : List Token → Stmt → Prop
  | mk {t name semi : Token} {ts us : List Token} {type : Option TypeNode} {value : Option Expr}
      (ht : t.kind = .kwLet) (hname : name.kind = .ident) (htype : OptionalType ts type)
      (hvalue : OptionalValue us value) (hone : type.isSome ∨ value.isSome)
      (hsemi : semi.kind = .semicolon) :
      Declaration (t :: name :: (ts ++ (us ++ [semi])))
        (.letDecl t ⟨name, name.literal⟩ type value)

/-- An assignment. -/
inductive Assignment : List Token → Stmt → Prop
  | mk {name sign semi : Token} {ts : List Token} {e : Expr} (hname : name.kind = .ident)
      (hsign : sign.kind = .assign) (he : Expression ts e) (hsemi : semi.kind = .semicolon) :
      Assignment (name :: sign :: (ts ++ [semi])) (.assign sign ⟨name, name.literal⟩ e)

/-- **Statements of a body**: declarations, assignments, returns, blocks and expressions. The token
of an expression statement is the first of the expression. -/
inductive Statement : List Token → Stmt → Prop
  | declaration {ts : List Token} {s : Stmt} (h : Declaration ts s) : Statement ts s
  | assignment {ts : List Token} {s : Stmt} (h : Assignment ts s) : Statement ts s
  | ret {t semi : Token} {ts : List Token} {value : Option Expr} (ht : t.kind = .kwReturn)
      (hvalue : OptionalResult ts value) (hsemi : semi.kind = .semicolon) :
      Statement (t :: (ts ++ [semi])) (.ret t value)
  | block {t close : Token} {parts : List (List Token × Stmt)} (ht : t.kind = .lbrace)
      (h : ∀ s ∈ parts, Statement s.1 s.2) (hclose : close.kind = .rbrace) :
      Statement (t :: (parts.flatMap Prod.fst ++ [close])) (.block t (parts.map Prod.snd))
  | expr {t semi : Token} {ts : List Token} {e : Expr} (he : Expression (t :: ts) e)
      (hsemi : semi.kind = .semicolon) : Statement (t :: (ts ++ [semi])) (.expr t e)

/-- A parameter: a name, a colon and a type. -/
inductive Parameter : List Token → ParamDecl → Prop
  | mk {name colon t : Token} {type : TypeNode} (hname : name.kind = .ident)
      (hcolon : colon.kind = .colon) (ht : TypeName t type) :
      Parameter [name, colon, t] ⟨⟨name, name.literal⟩, type⟩

/-- **Functions**: a name, parameters, an optional type and a body. -/
inductive Function : List Token → Stmt → Prop
  | mk {t name lparen rparen brace close : Token} {mid us : List Token} {type : Option TypeNode}
      {params : List (List Token × ParamDecl)} {parts : List (List Token × Stmt)}
      (ht : t.kind = .kwFn) (hname : name.kind = .ident) (hlparen : lparen.kind = .lparen)
      (hparams : ∀ p ∈ params, Parameter p.1 p.2) (hmid : Separated (params.map Prod.fst) mid)
      (hrparen : rparen.kind = .rparen) (htype : OptionalType us type)
      (hbrace : brace.kind = .lbrace) (hparts : ∀ s ∈ parts, Statement s.1 s.2)
      (hclose : close.kind = .rbrace) :
      Function (t :: name :: lparen ::
          (mid ++ rparen :: (us ++ brace :: (parts.flatMap Prod.fst ++ [close]))))
        (.fn ⟨t, ⟨name, name.literal⟩, params.map Prod.snd, type⟩ (some brace)
          (parts.map Prod.snd))

/-- What stands at top level: declarations, functions and assignments. -/
inductive TopLevel : List Token → Stmt → Prop
  | declaration {ts : List Token} {s : Stmt} (h : Declaration ts s) : TopLevel ts s
  | function {ts : List Token} {s : Stmt} (h : Function ts s) : TopLevel ts s
  | assignment {ts : List Token} {s : Stmt} (h : Assignment ts s) : TopLevel ts s

/-- **Programs**: any number of top-level statements. -/
inductive Program : List Token → Slang.Program → Prop
  | nil : Program [] []
  | cons {ts rest : List Token} {s : Stmt} {p : Slang.Program} (hs : TopLevel ts s)
      (hp : Program rest p) : Program (ts ++ rest) (s :: p)

end Slang.Grammar
