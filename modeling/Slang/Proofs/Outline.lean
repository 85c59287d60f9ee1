import Mathlib.Data.List.Chain
import Slang.Analysis.Program
import Slang.Proofs.Typing
import Slang.Report.Row

/-!
# The outline of a program

What a symbol table should list, read off the syntax tree alone. An **outline** is a tree of scopes:
each has a name, the declarations that stand in it, and the scopes inside it. The scope of the whole
program has first the functions with a written result type and then, in source order, the variables
and the other functions; inside it there is one scope for each function, with its parameters and the
variables of its body, and inside that one scope for each block.

`Outline.sections` puts the scopes of an outline in a row, parents first, and numbers them from
zero. A **section** is one scope of that row with the rows of a report on it; values are left out.

Types that are not written come from the form of expressions (`Expr.formTy?`). That their parts fit
is not asked here. Nothing has to be there either: an expression has no type if what its type comes
from is missing, and a declaration for which there is no type declares nothing.
-/

namespace Slang

open Typing

/-! ### Types by form -/

/-- The type of an operation, by the type of its left operand. -/
def BinaryOp.formTy (left : Ty) : BinaryOp → Ty
  -- numbers are added, and texts are joined
  | .add => left
  | .sub | .mul | .div => .int
  | _ => .bool

/-- The type that an expression has by its form, unless a part is missing that it depends on. -/
def Expr.formTy? (Γ : Env) : Expr → Option Ty
  | .ident id =>
    match Γ.find? id.name with
    | some (.variable ty) => some ty
    | _ => none
  | .int .. => some .int
  | .str .. => some .string
  | .bool .. => some .bool
  | .unary _ op e => (e.formTy? Γ).map fun _ => op.operandTy
  | .binary _ op l r => (l.formTy? Γ).bind fun left => (r.formTy? Γ).map fun _ => op.formTy left
  | .group _ e => e.formTy? Γ
  -- the type of a call is that of the result, whatever the arguments are
  | .call _ callee _ =>
    match Γ.find? callee.name with
    | some (.function _ result) => some result
    | _ => none
  | .hole => none

/-- The type of a declared variable: the written one, or else that of the value. -/
def declaredTy? (Γ : Env) (type : Option TypeNode) (value : Option Expr) : Option Ty :=
  match type, value with
  | some t, _ => some t.ty
  | none, some e => e.formTy? Γ
  | none, none => none

/-- The name that a declaration of a variable adds to its scope, if there is a type for it. -/
def declaredNames (Γ : Env) (name : Ident) (type : Option TypeNode) (value : Option Expr) : Names :=
  (declaredTy? Γ type value).toList.map fun ty => (name.name, .variable ty)

/-- The type of a return: that of its value, or `void` without one. -/
def returnedTy? (Γ : Env) : Option Expr → Option Ty
  | some e => e.formTy? Γ
  | none => some .void

/-! ### Items and sections -/

/-- A row without what is known of a value. -/
def Report.Row.static (r : Report.Row) : Report.Row := { r with value := [], calculated := false }

/-- **A declaration**, as the tree shows it. -/
inductive Outline.Item where
  | parameter (p : ParamDecl)
  /-- A variable: its name, its type, and whether the type is written. -/
  | variable (name : Ident) (ty : Ty) (written : Bool)
  /-- A function and the type of its result. -/
  | function (head : FnHead) (result : Ty)

/-- **One scope of a listing**: its name and number, the numbers of the scopes around it, innermost
first, and its rows. -/
structure Section where
  name : Text
  number : Nat
  outer : List Nat
  rows : List Report.Row
  deriving DecidableEq

namespace Section

/-- The row of a variable. -/
def variableRow (s : Section) (name : Ident) (augmented : Text) (ty : Ty) (inferred : Bool) :
    Report.Row where
  scope := s.name
  scopeId := s.number
  depth := s.outer.length
  name := name.name
  augmented := augmented
  type := ty.name
  line := name.token.line
  value := []
  calculated := false
  signature := name.name ++ ": " ++ ty.name
  descriptor := ty.descriptor
  inferred := inferred

/-- The row of a function. -/
def functionRow (s : Section) (head : FnHead) (result : Ty) : Report.Row where
  scope := s.name
  scopeId := s.number
  depth := s.outer.length
  name := head.name.name
  augmented := head.name.name
  type := Ty.function.name
  line := head.name.token.line
  value := []
  calculated := false
  signature := head.name.name ++ "(" ++ Text.joinWith ", " (head.params.map ParamDecl.print)
    ++ "): " ++ result.name
  descriptor := "(" ++ head.params.flatMap (·.type.ty.descriptor) ++ ")" ++ result.descriptor
  inferred := head.result.isNone

/-- The augmented name of a variable: its name, with the number of the scope outside the root. -/
def augment (s : Section) (name : Text) : Text :=
  if s.outer.isEmpty then name else name ++ "_" ++ Text.ofNat s.number

/-- The row of a declaration. A parameter keeps its name, and its type is always written. -/
def row (s : Section) : Outline.Item → Report.Row
  | .parameter p => s.variableRow p.name p.name.name p.type.ty false
  | .variable name ty written => s.variableRow name (s.augment name.name) ty (!written)
  | .function head result => s.functionRow head result

/-- A section with more declarations. -/
def add (items : List Outline.Item) (s : Section) : Section :=
  { s with rows := s.rows ++ items.map s.row }

@[simp] theorem add_nil (s : Section) : s.add [] = s := by
  simp [add]

@[simp] theorem add_add (s : Section) (xs ys : List Outline.Item) :
    (s.add xs).add ys = s.add (xs ++ ys) := by
  -- the rows that a section has play no part in the rows that are added
  have hrow : (s.add xs).row = s.row := funext fun item => by cases item <;> rfl
  rw [add, hrow]
  simp only [add, List.map_append, List.append_assoc]

@[simp] theorem number_add (items : List Outline.Item) (s : Section) :
    (s.add items).number = s.number := rfl

@[simp] theorem outer_add (items : List Outline.Item) (s : Section) :
    (s.add items).outer = s.outer := rfl

end Section

/-! ### Outlines -/

/-- **A tree of scopes**: a name, the declarations of the scope and the scopes inside it. -/
inductive Outline where
  | scope (name : Text) (items : List Outline.Item) (inner : List Outline)

namespace Outline

mutual

/-- The sections of an outline inside the scopes `outer`, numbered from `n`: a scope comes before
those inside it. -/
def sections (outer : List Nat) (n : Nat) : Outline → List Section
  | .scope name items inner =>
    (Section.mk name n outer []).add items :: sectionsAll (n :: outer) (n + 1) inner

/-- The sections of outlines that stand side by side. -/
def sectionsAll (outer : List Nat) (n : Nat) : List Outline → List Section
  | [] => []
  | o :: os =>
    let first := o.sections outer n
    first ++ sectionsAll outer (n + first.length) os

end

/-- The rows of an outline. -/
def rows (o : Outline) : List Report.Row := (o.sections [] 0).flatMap (·.rows)

/-- What statements declare: the items and the scopes, and the types of their returns in the order
in which they are written. -/
structure Contents where
  items : List Item := []
  inner : List Outline := []
  returns : List Ty := []

/-- What statements declare one after the other. -/
def Contents.append (c d : Contents) : Contents :=
  ⟨c.items ++ d.items, c.inner ++ d.inner, c.returns ++ d.returns⟩

/-- The scopes around a place, with more names in the innermost one. -/
def extend (Γ : Env) (new : Names) : Env := Γ.modifyHead (· ++ new)

@[simp] theorem extend_nil (Γ : Env) : extend Γ [] = Γ := by
  cases Γ <;> simp [extend]

/-- The scopes around the place after a statement. -/
def after (Γ : Env) : Stmt → Env
  | .letDecl _ name type value => extend Γ (declaredNames Γ name type value)
  | .assign .. | .block .. | .ret .. | .expr .. | .fn .. | .hole => Γ

mutual

/-- What a statement of a body declares. -/
def ofStmt (Γ : Env) : Stmt → Contents
  | .letDecl _ name type value =>
    { items := (declaredTy? Γ type value).toList.map fun ty => .variable name ty type.isSome }
  | .ret _ value => { returns := (returnedTy? Γ value).toList }
  -- a block has a scope of its own, but its returns are those of the function
  | .block _ body =>
    let c := ofStmts ([] :: Γ) body
    { inner := [.scope "block" c.items c.inner], returns := c.returns }
  | .assign .. | .expr .. | .fn .. | .hole => {}

/-- What the statements of a body declare. -/
def ofStmts (Γ : Env) : List Stmt → Contents
  | [] => {}
  | s :: ss => (ofStmt Γ s).append (ofStmts (after Γ s) ss)

end

/-- What the body of a function declares. -/
def ofBody (global : Names) (head : FnHead) (body : List Stmt) : Contents :=
  ofStmts [paramNames head, global] body

/-- The scope of a function. -/
def ofFunction (global : Names) (head : FnHead) (body : List Stmt) : Outline :=
  .scope head.name.name (head.params.map .parameter ++ (ofBody global head body).items)
    (ofBody global head body).inner

/-- The result type of a function by its body: that of the first return. -/
def inferredTy (global : Names) (head : FnHead) (body : List Stmt) : Ty :=
  (ofBody global head body).returns.headD .void

/-- What a top-level statement declares. A function with a written result type has been declared
before. -/
def ofTop (global : Names) : Stmt → Contents
  | .fn head _ body =>
    { items := if head.result.isSome then [] else [.function head (inferredTy global head body)]
      inner := [ofFunction global head body] }
  | s => ofStmt [global] s

/-- The names of the global scope after a top-level statement. -/
def afterTop (global : Names) : Stmt → Names
  | .fn head _ body =>
    if head.result.isSome then global
    else global ++ [(head.name.name, signature head (inferredTy global head body))]
  | .letDecl _ name type value => global ++ declaredNames [global] name type value
  | _ => global

/-- What top-level statements declare. -/
def ofTops (global : Names) : Program → Contents
  | [] => {}
  | s :: p => (ofTop global s).append (ofTops (afterTop global s) p)

/-- The function that a statement declares ahead of all others. -/
def hoistedItem : Stmt → Option Item
  | .fn head _ _ => head.result.map fun type => .function head type.ty
  | _ => none

/-- The functions with a written result type. -/
def hoistedItems (p : Program) : List Item := p.filterMap hoistedItem

/-- **The outline of a program.** -/
def ofProgram (p : Program) : Outline :=
  .scope Analysis.globalName (hoistedItems p ++ (ofTops (hoisted p) p).items)
    (ofTops (hoisted p) p).inner

/-! ### Sections in a row -/

theorem sectionsAll_append (outer : List Nat) (n : Nat) (os os' : List Outline) :
    sectionsAll outer n (os ++ os') =
      sectionsAll outer n os ++ sectionsAll outer (n + (sectionsAll outer n os).length) os' := by
  induction os generalizing n with
  | nil => simp [sectionsAll]
  | cons o os ih =>
    simp only [List.cons_append, sectionsAll, ih, List.append_assoc, List.length_append,
      Nat.add_assoc]

theorem sectionsAll_singleton (outer : List Nat) (n : Nat) (o : Outline) :
    sectionsAll outer n [o] = o.sections outer n := by
  simp [sectionsAll]

mutual

/-- The scopes of an outline are inside the scopes around it. -/
theorem outer_suffix (outer : List Nat) (n : Nat) :
    (o : Outline) → ∀ s ∈ o.sections outer n, outer <:+ s.outer
  | .scope name items inner => by
    intro s hs
    rw [sections, List.mem_cons] at hs
    rcases hs with rfl | hs
    · exact List.suffix_rfl
    · exact (List.suffix_cons n outer).trans (outer_suffixAll (n :: outer) (n + 1) inner s hs)

theorem outer_suffixAll (outer : List Nat) (n : Nat) :
    (os : List Outline) → ∀ s ∈ sectionsAll outer n os, outer <:+ s.outer
  | [] => by
    intro s hs
    rw [sectionsAll] at hs
    cases hs
  | o :: os => by
    intro s hs
    rw [sectionsAll, List.mem_append] at hs
    rcases hs with hs | hs
    · exact outer_suffix outer n o s hs
    · exact outer_suffixAll outer _ os s hs

end

mutual

/-- **Sections are numbered one after the other.** -/
theorem map_number_sections (outer : List Nat) (n : Nat) :
    (o : Outline) →
      (o.sections outer n).map (·.number) = List.range' n (o.sections outer n).length
  | .scope name items inner => by
    rw [sections, List.map_cons, map_number_sectionsAll (n :: outer) (n + 1) inner,
      List.length_cons, List.range'_succ, Section.number_add]

theorem map_number_sectionsAll (outer : List Nat) (n : Nat) :
    (os : List Outline) →
      (sectionsAll outer n os).map (·.number) = List.range' n (sectionsAll outer n os).length
  | [] => by simp [sectionsAll]
  | o :: os => by
    rw [sectionsAll, List.map_append, map_number_sections outer n o,
      map_number_sectionsAll outer _ os, List.length_append, List.range'_append_1]

end

theorem number_of_getElem? {outer : List Nat} {n i : Nat} {o : Outline} {x : Section}
    (h : (o.sections outer n)[i]? = some x) : x.number = n + i := by
  have hmap := congrArg (·[i]?) (map_number_sections outer n o)
  simp only [List.getElem?_map, h, Option.map_some] at hmap
  rw [List.getElem?_range' (List.getElem?_eq_some_iff.mp h).1, Nat.one_mul] at hmap
  exact Option.some.inj hmap

/-- The first of some sections that stand side by side is directly inside the scopes around them. -/
theorem outer_of_head? {outer : List Nat} {n : Nat} {os : List Outline} {s : Section}
    (h : (sectionsAll outer n os).head? = some s) : s.outer = outer := by
  cases os with
  | nil => simp [sectionsAll] at h
  | cons o os =>
    cases o with
    | scope name items inner =>
      rw [sectionsAll, sections, List.cons_append, List.head?_cons] at h
      rw [← Option.some.inj h, Section.outer_add]

/-- How one section follows another: inside it, or inside a scope around it. -/
def Follows (a b : Section) : Prop := b.outer <:+ a.number :: a.outer

mutual

/-- **Sections follow each other as scopes do that are made while reading.** -/
theorem isChain_sections (outer : List Nat) (n : Nat) :
    (o : Outline) → (o.sections outer n).IsChain Follows
  | .scope name items inner => by
    rw [sections, List.isChain_cons]
    refine ⟨fun s hs => ?_, isChain_sectionsAll (n :: outer) (n + 1) inner⟩
    rw [Follows, outer_of_head? hs]
    exact List.suffix_rfl

theorem isChain_sectionsAll (outer : List Nat) (n : Nat) :
    (os : List Outline) → (sectionsAll outer n os).IsChain Follows
  | [] => by
    rw [sectionsAll]
    exact .nil
  | o :: os => by
    rw [sectionsAll, List.isChain_append]
    refine ⟨isChain_sections outer n o, isChain_sectionsAll outer _ os, fun a ha b hb => ?_⟩
    -- the next outline starts outside the one before it
    rw [Follows, outer_of_head? hb]
    exact (outer_suffix outer n o a (List.mem_of_mem_getLast? ha)).trans (List.suffix_cons _ _)

end

end Outline
end Slang
