import Slang.Tree
import Slang.Text.Quoted
/-!
# Printing syntax trees

The written form of a tree. Every operation stands in parentheses of its own, so the parentheses of
the source are not printed again; strings are quoted; the statements of a block are indented by one
tab more than the block.
-/

namespace Slang

mutual

/-- The written form of an expression. -/
def Expr.print : Expr → Text
  | .ident id => id.name
  | .int _ n => Text.ofInt n
  | .str _ s => s.quoted
  | .bool _ b => if b then "true" else "false"
  | .unary _ op e => "(" ++ op.spelling ++ e.print ++ ")"
  | .binary _ op l r => "(" ++ l.print ++ " " ++ op.spelling ++ " " ++ r.print ++ ")"
  | .group _ e => e.print
  | .call _ callee args => callee.name ++ "(" ++ Text.joinWith ", " (Expr.printAll args) ++ ")"
  | .hole => []

/-- The written forms of the arguments of a call. -/
def Expr.printAll : List Expr → List Text
  | [] => []
  | e :: es => e.print :: Expr.printAll es

end

/-- The written form of a parameter. -/
def ParamDecl.print (p : ParamDecl) : Text := p.name.name ++ ": " ++ p.type.ty.name

/-- A written type after a colon, if there is one. -/
def TypeNode.printOptional : Option TypeNode → Text
  | some t => ": " ++ t.ty.name
  | none => []

/-- The written form of a function's declaration up to its body. -/
def FnHead.print (h : FnHead) : Text :=
  "fn " ++ h.name.name ++ "(" ++ Text.joinWith ", " (h.params.map ParamDecl.print) ++ ")"
    ++ TypeNode.printOptional h.result

/-- Each line of a text with a tab in front and a line feed behind. -/
def Text.indented (t : Text) : Text :=
  (t.split Text.lineFeed).flatMap fun line => "\t" ++ line ++ "\n"

mutual

/-- The written form of a statement. -/
def Stmt.print : Stmt → Text
  | .letDecl _ name type value =>
    "let " ++ name.name ++ TypeNode.printOptional type
      ++ (match value with | some e => " = " ++ e.print | none => []) ++ ";"
  | .assign _ name value => name.name ++ " = " ++ value.print ++ ";"
  | .block _ body => "\x7b\n" ++ Stmt.printBody body ++ "\x7d"
  | .ret _ (some e) => "return " ++ e.print ++ ";"
  | .ret _ none => "return;"
  | .expr _ e => e.print ++ ";"
  | .fn head _ body => head.print ++ " \x7b\n" ++ Stmt.printBody body ++ "\x7d"
  | .hole => []

/-- The statements of a block, one after the other and indented. -/
def Stmt.printBody : List Stmt → Text
  | [] => []
  | s :: ss => s.print.indented ++ Stmt.printBody ss

end

/-- The written form of a program: its statements, each on lines of its own. -/
def Program.print (p : Program) : Text := p.flatMap fun s => s.print ++ "\n"

end Slang
