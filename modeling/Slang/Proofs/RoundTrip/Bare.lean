import Slang.Tree.Printer

/-!
# Trees without tokens and groups

A tree remembers where each of its parts was written, and which expressions stood in parentheses.
What is left without this is its **bare** form: statements, names, types, operators, values,
arguments and blocks. Two trees with the same bare form are printed alike, since nothing else of a
tree is printed (`Stmt.print_bare`).
-/

namespace Slang

/-- The name alone. -/
def Ident.bare (id : Ident) : Ident := ⟨.absent, id.name⟩

/-- The type alone. -/
def TypeNode.bare (t : TypeNode) : TypeNode := ⟨.absent, t.ty⟩

/-- A parameter without its tokens. -/
def ParamDecl.bare (p : ParamDecl) : ParamDecl := ⟨p.name.bare, p.type.bare⟩

/-- What a function says before its body, without tokens. -/
def FnHead.bare (h : FnHead) : FnHead :=
  ⟨.absent, h.name.bare, h.params.map ParamDecl.bare, h.result.map TypeNode.bare⟩

mutual

/-- An expression without tokens, with the content of a group in its place. -/
def Expr.bare : Expr → Expr
  | .ident id => .ident id.bare
  | .int _ n => .int .absent n
  | .str _ s => .str .absent s
  | .bool _ b => .bool .absent b
  | .unary _ op e => .unary .absent op e.bare
  | .binary _ op l r => .binary .absent op l.bare r.bare
  | .group _ e => e.bare
  | .call _ callee args => .call .absent callee.bare (Expr.bareAll args)
  | .hole => .hole

/-- The bare forms of the arguments of a call. -/
def Expr.bareAll : List Expr → List Expr
  | [] => []
  | e :: es => e.bare :: Expr.bareAll es

end

mutual

/-- A statement without tokens and groups. -/
def Stmt.bare : Stmt → Stmt
  | .letDecl _ name type value =>
    .letDecl .absent name.bare (type.map TypeNode.bare) (value.map Expr.bare)
  | .assign _ name value => .assign .absent name.bare value.bare
  | .block _ body => .block .absent (Stmt.bareAll body)
  | .ret _ value => .ret .absent (value.map Expr.bare)
  | .expr _ e => .expr .absent e.bare
  | .fn head brace body =>
    .fn head.bare (brace.map fun _ => .absent) (Stmt.bareAll body)
  | .hole => .hole

/-- The bare forms of the statements of a block. -/
def Stmt.bareAll : List Stmt → List Stmt
  | [] => []
  | s :: ss => s.bare :: Stmt.bareAll ss

end

/-- A program without tokens and groups. -/
def Program.bare (p : Program) : Program := p.map Stmt.bare

theorem Expr.bareAll_eq_map (es : List Expr) : Expr.bareAll es = es.map Expr.bare := by
  induction es with
  | nil => rfl
  | cons e es ih => rw [Expr.bareAll, ih, List.map_cons]

theorem Expr.printAll_eq_map (es : List Expr) : Expr.printAll es = es.map Expr.print := by
  induction es with
  | nil => rfl
  | cons e es ih => rw [Expr.printAll, ih, List.map_cons]

theorem Stmt.bareAll_eq_map (ss : List Stmt) : Stmt.bareAll ss = ss.map Stmt.bare := by
  induction ss with
  | nil => rfl
  | cons s ss ih => rw [Stmt.bareAll, ih, List.map_cons]

/-! ### Printing a bare tree -/

mutual

theorem Expr.print_bare : (e : Expr) → e.bare.print = e.print
  | .ident _ | .int .. | .str .. | .bool .. | .hole => rfl
  | .unary _ op e => by rw [Expr.bare, Expr.print, Expr.print, Expr.print_bare e]
  | .binary _ op l r => by
    rw [Expr.bare, Expr.print, Expr.print, Expr.print_bare l, Expr.print_bare r]
  | .group _ e => by rw [Expr.bare, Expr.print, Expr.print_bare e]
  | .call _ callee args => by
    rw [Expr.bare, Expr.print, Expr.print, Expr.printAll_bareAll args]
    rfl

theorem Expr.printAll_bareAll : (es : List Expr) →
    Expr.printAll (Expr.bareAll es) = Expr.printAll es
  | [] => rfl
  | e :: es => by
    rw [Expr.bareAll, Expr.printAll, Expr.printAll, Expr.print_bare e, Expr.printAll_bareAll es]

end

theorem TypeNode.printOptional_bare (type : Option TypeNode) :
    TypeNode.printOptional (type.map TypeNode.bare) = TypeNode.printOptional type := by
  cases type <;> rfl

theorem FnHead.print_bare (h : FnHead) : h.bare.print = h.print := by
  have hparams : (h.params.map ParamDecl.bare).map ParamDecl.print =
      h.params.map ParamDecl.print := by
    rw [List.map_map]
    rfl
  unfold FnHead.print FnHead.bare
  rw [TypeNode.printOptional_bare, hparams]
  rfl

mutual

/-- **Nothing but the bare form of a tree is printed.** -/
theorem Stmt.print_bare : (s : Stmt) → s.bare.print = s.print
  | .letDecl _ name type none => by
    simp only [Stmt.bare, Stmt.print, TypeNode.printOptional_bare, Option.map_none, Ident.bare]
  | .letDecl _ name type (some e) => by
    simp only [Stmt.bare, Stmt.print, TypeNode.printOptional_bare, Option.map_some, Ident.bare,
      Expr.print_bare]
  | .assign _ name value => by
    rw [Stmt.bare, Stmt.print, Stmt.print, Expr.print_bare]
    rfl
  | .block _ body => by rw [Stmt.bare, Stmt.print, Stmt.print, Stmt.printBody_bareAll body]
  | .ret _ none => rfl
  | .ret _ (some e) => by
    rw [Stmt.bare, Option.map_some, Stmt.print, Stmt.print, Expr.print_bare]
  | .expr _ e => by rw [Stmt.bare, Stmt.print, Stmt.print, Expr.print_bare]
  | .fn head brace body => by
    rw [Stmt.bare, Stmt.print, Stmt.print, FnHead.print_bare, Stmt.printBody_bareAll body]
  | .hole => rfl

theorem Stmt.printBody_bareAll : (ss : List Stmt) →
    Stmt.printBody (Stmt.bareAll ss) = Stmt.printBody ss
  | [] => rfl
  | s :: ss => by
    rw [Stmt.bareAll, Stmt.printBody, Stmt.printBody, Stmt.print_bare s, Stmt.printBody_bareAll ss]

end

theorem Program.print_bare (p : Program) : p.bare.print = p.print := by
  unfold Program.print Program.bare
  rw [List.flatMap_map]
  simp only [Stmt.print_bare]

end Slang
