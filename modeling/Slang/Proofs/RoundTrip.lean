import Slang.Proofs.Grammar.Complete
import Slang.Proofs.Grammar.Shape
import Slang.Proofs.Pieces.Spans
import Slang.Proofs.RoundTrip.Bare
import Slang.Proofs.RoundTrip.Spelling

/-!
# Printing and reading again

The printed form of a program is a program again, and the same one up to the places of its tokens
and the parentheses around its expressions (`parse_print`).

The printer drops the groups of the source and puts every operation in parentheses of its own. So
the tokens of what is printed are another phrase, with another derivation: an expression of any
stratum becomes one of the tightest. The induction is on the derivation of the tree that is printed,
and for each rule the tokens of its printed form are derived by rules of the same grammar
(`Stratum.renders`, `Statement.renders`).
-/

namespace Slang

open Grammar Lexer

/-- **A token whose literal can be written so that it is read again**: a name that is not a keyword,
and a string of bytes that have an escape. -/
structure Token.Legible (t : Token) : Prop where
  name : t.kind = .ident → isWord t.literal = true ∧ wordKind t.literal = .ident
  content : t.kind = .string → ∀ b ∈ t.literal, Quotable b

namespace Grammar

variable {n : Level} {ts us : List Token} {e : Expr} {s : Stmt}

/-- **Tokens of the same phrase**: a phrase of `R` whose tree is, but for `bare`, the tree `a`. -/
def Again {α : Type} (R : List Token → α → Prop) (bare : α → α) (a : α) (ts : List Token) : Prop :=
  ∃ a', R ts a' ∧ bare a' = bare a

/-! ### Lists -/

/-- A comma and a space. -/
theorem comma_append (t : Text) : (", " : Text) ++ t = "," ++ (" " ++ t) := rfl

/-- What is printed with commas between neighbours is a list of what is printed. -/
theorem renders_joinWith {α : Type} {R : List Token → α → Prop} {print : α → Text} {bare : α → α} :
    ∀ xs : List α, (∀ x ∈ xs, Renders (print x) (Again R bare x)) →
      Renders (Text.joinWith ", " (xs.map print)) fun mid =>
        ∃ parts : List (List Token × α), Separated (parts.map Prod.fst) mid ∧
          (∀ a ∈ parts, R a.1 a.2) ∧ (parts.map Prod.snd).map bare = xs.map bare
  | [], _ => by
    refine Renders.nil.imp ?_
    rintro _ rfl
    exact ⟨[], .nil, List.forall_mem_nil _, rfl⟩
  | [x], hxs => by
    refine (hxs x List.mem_cons_self).imp ?_
    rintro ts ⟨x', hx', hbare⟩
    refine ⟨[(ts, x')], .single ts, ?_, congrArg (fun y => [y]) hbare⟩
    intro a ha
    obtain rfl := List.mem_singleton.mp ha
    exact hx'
  | x :: y :: xs, hxs => by
    -- the members after the first, behind a comma and a space
    have hothers := renders_joinWith (y :: xs) fun z hz => hxs z (List.mem_cons_of_mem x hz)
    have hrest := Renders.closed "," .comma (by decide) hothers.space
    rw [List.map_cons, List.map_cons, Text.joinWith, List.append_assoc, comma_append]
    · refine ((hxs x List.mem_cons_self).append hrest rfl).imp ?_
      rintro _ ⟨us, _, rfl, ⟨x', hx', hbare⟩, comma, mid, rfl, hcomma, -, parts, hmid, hparts, hall⟩
      cases parts with
      | nil => cases hall
      | cons a parts =>
        refine ⟨(us, x') :: a :: parts, .cons hcomma hmid, ?_, ?_⟩
        · exact List.forall_mem_cons.mpr ⟨hx', hparts⟩
        · rw [List.map_cons, List.map_cons, hbare, hall]
          rfl
    · simp

/-! ### Expressions -/

/-- The name of a function is written as a word and read as a name. -/
theorem Callee.name_legible {id : Ident} (h : Callee ts id) (hts : ∀ t ∈ ts, t.Legible) :
    isWord id.name = true ∧ wordKind id.name = .ident := by
  induction h with
  | name ht => exact (hts _ List.mem_cons_self).name ht
  | @group t close ts id ht h hclose ih =>
    exact ih fun u hu => hts u (List.mem_cons_of_mem t (List.mem_append_left [close] hu))

/-- Printed operators are marks. -/
theorem mem_marks_of_binaryOp? {kind : Token.Kind} {op : BinaryOp}
    (h : kind.binaryOp? = some op) : (op.spelling, kind) ∈ marks := by
  cases kind <;> cases h <;> decide

/-- No operator binds looser than the loosest. -/
theorem loosest_le_level {kind : Token.Kind} {op : BinaryOp} (h : kind.binaryOp? = some op) :
    loosest ≤ op.level := by
  cases kind <;> cases h <;> decide

/-- A prefix operator stands right before its operand; `!` and an equality sign would be read as
one. -/
theorem renders_unaryOp {kind : Token.Kind} {op : UnaryOp} {t : Text} {P : List Token → Prop}
    (hop : unaryOp? kind = some op) (h : Renders t P) (ht : t.head? ≠ some 61) :
    Renders (op.spelling ++ t) (Leads kind op.spelling P) := by
  cases kind <;> cases hop
  · exact Renders.closed "-" .minus (by decide) h
  · exact h.bang ht

/-- A single token is an operand. -/
theorem renders_atom {t : Text} {kind : Token.Kind} {literal : Text}
    (h : Renders (t ++ []) (Leads kind literal (· = [])))
    (hatom : ∀ u : Token, u.kind = kind → u.literal = literal →
      Again (Stratum Level.call) Expr.bare e [u]) :
    Renders t (Again (Stratum Level.call) Expr.bare e) := by
  rw [List.append_nil] at h
  refine h.imp ?_
  rintro _ ⟨u, _, rfl, hkind, hliteral, rfl⟩
  exact hatom u hkind hliteral

/-- A word does not begin with an equals sign. -/
theorem ne_assign_of_isWord {w : Text} (h : isWord w = true) (t : Text) :
    (w ++ t).head? ≠ some 61 := by
  cases w with
  | nil => cases h
  | cons b w =>
    rintro ⟨⟩
    cases h

/-- No printed expression starts with a sign of equality. -/
theorem Stratum.head?_print (h : Stratum n ts e) (hts : ∀ t ∈ ts, t.Legible) (t : Text) :
    (e.print ++ t).head? ≠ some 61 := by
  -- what is written in brackets begins with one
  have hparen : ∀ u : Text, ("(" ++ u).head? ≠ some 61 := by
    rintro u ⟨⟩
  induction h with
  | binary | unary =>
    simp only [Expr.print, List.append_assoc]
    exact hparen _
  | tighter _ _ ih => exact ih hts
  | call hcallee =>
    have hname := hcallee.name_legible fun u hu => hts u (List.mem_append_left _ hu)
    simp only [Expr.print, List.append_assoc]
    exact ne_assign_of_isWord hname.1 _
  | name ht => exact ne_assign_of_isWord ((hts _ List.mem_cons_self).name ht).1 t
  | @int u n ht hn hlt =>
    -- a number begins with a digit
    have hdigits := Text.isDigit_ofNat n
    have hne := Text.ofNat_ne_nil n
    rw [Expr.print, Text.ofInt_natCast]
    generalize Text.ofNat n = w at hdigits hne
    cases w with
    | nil => exact absurd rfl hne
    | cons b w =>
      rintro ⟨⟩
      exact absurd (hdigits 61 List.mem_cons_self) (by decide)
  | str ht =>
    rw [Expr.print, quoted_eq ((hts _ List.mem_cons_self).content ht)]
    rintro ⟨⟩
  | kwTrue | kwFalse => rintro ⟨⟩
  | @group u close ts e ht h hclose ih =>
    exact ih fun v hv => hts v (List.mem_cons_of_mem u (List.mem_append_left [close] hv))

/-- An operation in parentheses is an operand. -/
theorem Stratum.parenthesized {lparen rparen : Token} (h : Stratum n us e)
    (hlparen : lparen.kind = .lparen) (hrparen : rparen.kind = .rparen) (hn : loosest ≤ n) :
    Stratum Level.call (lparen :: (us ++ [rparen])) (.group lparen e) :=
  .group hlparen (h.loosen hn) hrparen

/-- **A printed expression is an expression**, of the tightest stratum and with the same bare
tree. -/
theorem Stratum.renders (h : Stratum n ts e) (hts : ∀ t ∈ ts, t.Legible) :
    Renders e.print (Again (Stratum Level.call) Expr.bare e) := by
  induction h with
  | @binary t op ls rs l r ht hl hr ihl ihr =>
    have hleft := ihl fun u hu => hts u (List.mem_append_left _ hu)
    have hright := ihr fun u hu => hts u (List.mem_append_right _ (List.mem_cons_of_mem t hu))
    have hrest := Renders.spaced (mem_marks_of_binaryOp? ht)
      (hright.append .rparen rfl)
    simp only [Expr.print, List.append_assoc]
    refine (Renders.closed "(" .lparen (by decide) (hleft.append hrest rfl)).imp ?_
    rintro _ ⟨lparen, _, rfl, hlparen, -, us, _, rfl, ⟨l', hl', hbarel⟩, t', _, rfl, hkind, -,
      vs, _, rfl, ⟨r', hr', hbarer⟩, rparen, _, rfl, hrparen, -, rfl⟩
    have hlt := level_lt_unary ht
    -- operands are written in brackets or are calls, so that they fit on both sides
    have hbinary : Stratum op.level (us ++ t' :: vs) (.binary t' op l' r') := by
      refine .binary (hkind ▸ ht) (hl'.loosen ?_) (hr'.loosen ?_)
      · exact Nat.le_trans (Nat.le_of_lt hlt) (by decide)
      · exact Nat.le_trans hlt (by decide)
    have hgroup := hbinary.parenthesized hlparen hrparen (loosest_le_level ht)
    rw [List.append_assoc, List.cons_append] at hgroup
    refine ⟨_, hgroup, ?_⟩
    rw [Expr.bare, Expr.bare, Expr.bare, hbarel, hbarer]
  | tighter _ _ ih => exact ih hts
  | @unary t op ts e ht h ih =>
    have hts' : ∀ u ∈ ts, u.Legible := fun u hu => hts u (List.mem_cons_of_mem t hu)
    have hoperand := (ih hts').append .rparen rfl
    -- a mark before an equals sign would be read as one operator
    have hop := renders_unaryOp ht hoperand (h.head?_print hts' _)
    simp only [Expr.print, List.append_assoc]
    refine (Renders.closed "(" .lparen (by decide) hop).imp ?_
    rintro _ ⟨lparen, _, rfl, hlparen, -, t', _, rfl, hkind, -, us, _, rfl, ⟨e', he', hbare⟩,
      rparen, _, rfl, hrparen, -, rfl⟩
    have hunary : Stratum Level.unary (t' :: us) (.unary t' op e') :=
      .unary (hkind ▸ ht) (he'.loosen (by decide))
    refine ⟨_, hunary.parenthesized hlparen hrparen (by decide), ?_⟩
    rw [Expr.bare, Expr.bare, Expr.bare, hbare]
  | @call t close ts mid callee args hcallee ht hargs hmid hclose ih =>
    obtain ⟨hword, hkind⟩ := hcallee.name_legible fun u hu => hts u (List.mem_append_left _ hu)
    have hmids : ∀ u ∈ mid, u.Legible := fun u hu => hts u (by simp [hu])
    -- the arguments, by the induction hypothesis, and the commas between them
    have hlist : Renders (Text.joinWith ", " ((args.map Prod.snd).map Expr.print)) fun mid =>
        ∃ parts : List (List Token × Expr), Separated (parts.map Prod.fst) mid ∧
          (∀ a ∈ parts, Stratum Level.call a.1 a.2) ∧
          (parts.map Prod.snd).map Expr.bare = (args.map Prod.snd).map Expr.bare := by
      refine renders_joinWith _ fun e he => ?_
      obtain ⟨a, ha, rfl⟩ := List.mem_map.mp he
      exact ih a ha fun u hu => hmids u (mem_separated hmid (List.mem_map_of_mem ha) hu)
    have hrest := Renders.closed "(" .lparen (by decide) (hlist.append .rparen rfl)
    simp only [Expr.print, List.append_assoc, Expr.printAll_eq_map]
    refine (hrest.word hword hkind rfl).imp ?_
    rintro _ ⟨name, _, rfl, hname, hliteral, lparen, _, rfl, hlparen, -, mid', _, rfl,
      ⟨parts, hmid', hparts, hbare⟩, rparen, _, rfl, hrparen, -, rfl⟩
    refine ⟨_, .call (.name hname) hlparen (fun a ha => (hparts a ha).loosen (by decide)) hmid'
      hrparen, ?_⟩
    rw [Expr.bare, Expr.bare, Expr.bareAll_eq_map, Expr.bareAll_eq_map, hbare, Ident.bare, hliteral]
    rfl
  | @name t ht =>
    obtain ⟨hword, hkind⟩ := (hts t List.mem_cons_self).name ht
    refine renders_atom (Renders.nil.word hword hkind rfl) fun u hu hliteral => ?_
    exact ⟨_, .name hu, by rw [hliteral]; rfl⟩
  | @int t n ht hn hlt =>
    rw [Expr.print, Text.ofInt_natCast]
    refine renders_atom (Renders.nil.numeral n rfl) fun u hu hliteral => ?_
    exact ⟨_, .int hu (hliteral ▸ Text.toNat?_ofNat n) hlt, rfl⟩
  | @str t ht =>
    refine renders_atom (Renders.nil.quoted ((hts t List.mem_cons_self).content ht)) ?_
    intro u hu hliteral
    exact ⟨_, .str hu, by rw [hliteral]; rfl⟩
  | @kwTrue t ht =>
    refine renders_atom (t := "true") (Renders.nil.word rfl rfl rfl) fun u hu _ => ?_
    exact ⟨_, .kwTrue hu, rfl⟩
  | @kwFalse t ht =>
    refine renders_atom (t := "false") (Renders.nil.word rfl rfl rfl) fun u hu _ => ?_
    exact ⟨_, .kwFalse hu, rfl⟩
  | @group t close ts e ht h hclose ih =>
    exact ih fun u hu => hts u (List.mem_cons_of_mem t (List.mem_append_left [close] hu))

/-! ### Parts of statements -/

/-- Types are printed with the words that they are read from. -/
theorem word_of_ofKeyword? {w : Text} {ty : Ty} (h : Ty.ofKeyword? w = some ty) :
    ty.name = w ∧ isWord w = true ∧ wordKind w = .typeLiteral := by
  unfold Ty.ofKeyword? at h
  split_ifs at h with h₁ h₂ h₃ h₄ <;> cases h
  · exact h₁ ▸ ⟨rfl, rfl, rfl⟩
  · exact h₂ ▸ ⟨rfl, rfl, rfl⟩
  · exact h₃ ▸ ⟨rfl, rfl, rfl⟩
  · exact h₄ ▸ ⟨rfl, rfl, rfl⟩

/-- The name of a type is read again as the same type. -/
theorem TypeName.renders {t : Token} {type : TypeNode} (h : TypeName t type) :
    Renders type.ty.name fun ts => ∃ u type', ts = [u] ∧ TypeName u type' ∧
      type'.bare = type.bare := by
  cases h with
  | mk ht hty =>
    obtain ⟨hname, hword, hkind⟩ := word_of_ofKeyword? hty
    have hprint := Renders.nil.word hword hkind rfl
    rw [List.append_nil, ← hname] at hprint
    refine hprint.imp ?_
    rintro _ ⟨u, _, rfl, hu, hliteral, rfl⟩
    exact ⟨u, _, rfl, .mk hu (by rw [hliteral, hname, hty]), rfl⟩

/-- A colon and the space after it. -/
theorem colon_append (t : Text) : (": " : Text) ++ t = ":" ++ (" " ++ t) := rfl

/-- A type that may be left out is read again. -/
theorem OptionalType.renders {type : Option TypeNode} (h : OptionalType ts type) :
    Renders (TypeNode.printOptional type) (Again OptionalType (Option.map TypeNode.bare) type) := by
  cases h with
  | absent =>
    refine Renders.nil.imp ?_
    rintro _ rfl
    exact ⟨none, .absent, rfl⟩
  | @written colon t type hcolon ht =>
    rw [TypeNode.printOptional, colon_append]
    refine (Renders.closed ":" .colon (by decide) ht.renders.space).imp ?_
    rintro _ ⟨colon', _, rfl, hcolon', -, u, type', rfl, htype', hbare⟩
    exact ⟨some type', .written hcolon' htype', congrArg some hbare⟩

/-- A type does not run into the word before it. -/
theorem soft_printOptional (type : Option TypeNode) {t : Text} (ht : soft t = true) :
    soft (TypeNode.printOptional type ++ t) = true := by
  cases type with
  | none => exact ht
  | some type => rfl

/-- A sign of assignment and a printed value, or nothing. -/
def printValue : Option Expr → Text
  | some e => " = " ++ e.print
  | none => []

/-- A sign of assignment has a space on each side. -/
theorem renders_assign {t : Text} {P : List Token → Prop} (h : Renders t P) :
    Renders (" = " ++ t) (Leads .assign "=" P) :=
  Renders.spaced (show (("=" : Text), Token.Kind.assign) ∈ marks by decide) h

/-- A value that may be left out is read again. -/
theorem OptionalValue.renders {value : Option Expr} (h : OptionalValue ts value)
    (hts : ∀ t ∈ ts, t.Legible) :
    Renders (printValue value) (Again OptionalValue (Option.map Expr.bare) value) := by
  cases h with
  | absent =>
    refine Renders.nil.imp ?_
    rintro _ rfl
    exact ⟨none, .absent, rfl⟩
  | @written sign us e hsign he =>
    have hvalue := he.renders fun u hu => hts u (List.mem_cons_of_mem sign hu)
    refine (renders_assign hvalue).imp ?_
    rintro _ ⟨sign', us, rfl, hsign', -, e', he', hbare⟩
    exact ⟨some e', .written hsign' (he'.loosen (by decide)), congrArg some hbare⟩

/-! ### Statements -/

/-- The first word of a declaration and the space after it. -/
theorem let_append (t : Text) : ("let " : Text) ++ t = "let" ++ (" " ++ t) := rfl

/-- A declaration in one line of text, with each of its tokens apart. -/
theorem print_letDecl (t : Token) (name : Ident) (type : Option TypeNode) (value : Option Expr) :
    (Stmt.letDecl t name type value).print =
      "let" ++ (" " ++ (name.name ++ (TypeNode.printOptional type ++ (printValue value ++ ";")))) := by
  cases value with
  | none => simp only [Stmt.print, printValue, List.append_assoc, let_append]
  | some e => simp only [Stmt.print, printValue, List.append_assoc, let_append]

/-- What is there in one of two is there in the other, if they are equal after a change. -/
theorem isSome_of_map_eq {α : Type} {f : α → α} {o o' : Option α} (h : o'.map f = o.map f)
    (ho : o.isSome) : o'.isSome := by
  rw [← Option.isSome_map (f := f), h, Option.isSome_map]
  exact ho

/-- **A declaration that is printed is read again.** -/
theorem Declaration.renders (h : Declaration ts s) (hts : ∀ t ∈ ts, t.Legible) :
    Renders s.print (Again Declaration Stmt.bare s) := by
  cases h with
  | @mk t name semi ts us type value ht hname htype hvalue hone hsemi =>
    obtain ⟨hword, hkind⟩ := (hts name (by simp)).name hname
    -- from the semicolon back to the word it begins with
    have hvalues := (hvalue.renders fun u hu => hts u (by simp [hu])).append .semicolon rfl
    have hsoft : soft (printValue value ++ ";") = true := by cases value <;> rfl
    have hrest := htype.renders.append hvalues hsoft
    have hnamed := hrest.word hword hkind (soft_printOptional type hsoft)
    rw [print_letDecl]
    refine (hnamed.space.word (w := "let") rfl rfl rfl).imp ?_
    rintro _ ⟨t', _, rfl, ht', -, name', _, rfl, hname', hliteral, us', _, rfl,
      ⟨type', htype', hbaret⟩, vs', _, rfl, ⟨value', hvalue', hbarev⟩, semi', _, rfl, hsemi', -, rfl⟩
    refine ⟨_, .mk ht' hname' htype' hvalue' ?_ hsemi', ?_⟩
    · exact hone.imp (isSome_of_map_eq hbaret) (isSome_of_map_eq hbarev)
    · rw [Stmt.bare, Stmt.bare, hbaret, hbarev, Ident.bare, hliteral]
      rfl

/-- An assignment that is printed is read again. -/
theorem Assignment.renders (h : Assignment ts s) (hts : ∀ t ∈ ts, t.Legible) :
    Renders s.print (Again Assignment Stmt.bare s) := by
  cases h with
  | @mk name sign semi us e hname hsign he hsemi =>
    obtain ⟨hword, hkind⟩ := (hts name (by simp)).name hname
    have hvalue := (he.renders fun u hu => hts u (by simp [hu])).append .semicolon rfl
    simp only [Stmt.print, List.append_assoc]
    refine ((renders_assign hvalue).word hword hkind rfl).imp ?_
    rintro _ ⟨name', _, rfl, hname', hliteral, sign', _, rfl, hsign', -, us', _, rfl,
      ⟨e', he', hbare⟩, semi', _, rfl, hsemi', -, rfl⟩
    refine ⟨_, .mk hname' hsign' (he'.loosen (by decide)) hsemi', ?_⟩
    rw [Stmt.bare, Stmt.bare, hbare, Ident.bare, hliteral]
    rfl

/-- The first word of a return statement and the space after it. -/
theorem return_append (t : Text) : ("return " : Text) ++ t = "return" ++ (" " ++ t) := rfl

/-- A return statement without a value. -/
theorem return_semicolon : ("return;" : Text) = "return" ++ ";" := rfl

/-- **A return statement that is printed is read again.** -/
theorem renders_return {t : Token} {value : Option Expr} (hvalue : OptionalResult ts value)
    (hts : ∀ t ∈ ts, t.Legible) :
    Renders (Stmt.ret t value).print (Again Statement Stmt.bare (.ret t value)) := by
  cases hvalue with
  | absent =>
    rw [Stmt.print, return_semicolon]
    refine (Renders.semicolon.word (w := "return") rfl rfl rfl).imp ?_
    rintro _ ⟨t', _, rfl, ht', -, semi', _, rfl, hsemi', -, rfl⟩
    exact ⟨_, .ret ht' .absent hsemi', rfl⟩
  | written he =>
    have hvalue := (he.renders hts).append .semicolon rfl
    rw [Stmt.print, List.append_assoc, return_append]
    refine (hvalue.space.word (w := "return") rfl rfl rfl).imp ?_
    rintro _ ⟨t', _, rfl, ht', -, us', _, rfl, ⟨e', he', hbare⟩, semi', _, rfl, hsemi', -, rfl⟩
    refine ⟨_, .ret ht' (.written (he'.loosen (by decide))) hsemi', ?_⟩
    rw [Stmt.bare, Stmt.bare, Option.map_some, Option.map_some, hbare]

/-- An expression that stands as a statement is read again. -/
theorem renders_exprStmt {t : Token} (he : Expression ts e) (hts : ∀ t ∈ ts, t.Legible) :
    Renders (Stmt.expr t e).print (Again Statement Stmt.bare (.expr t e)) := by
  rw [Stmt.print]
  refine ((he.renders hts).append .semicolon rfl).imp ?_
  rintro _ ⟨us', _, rfl, ⟨e', he', hbare⟩, semi', _, rfl, hsemi', -, rfl⟩
  obtain ⟨t', us, rfl, -⟩ := Parser.starts_of_stratum he'
  refine ⟨_, .expr (he'.loosen (by decide)) hsemi', ?_⟩
  rw [Stmt.bare, Stmt.bare, hbare]

/-- **A printed body is a list of statements.** Each of them is indented, with all lines that it
has, and the lines of a block in it once more. -/
theorem renders_body {t : Text} {P : List Token → Prop} (ht : Renders t P) :
    ∀ parts : List (List Token × Stmt),
      (∀ s ∈ parts, Renders s.2.print (Again Statement Stmt.bare s.2)) →
      Renders (Stmt.printBody (parts.map Prod.snd) ++ t) (Joined (fun ts =>
        ∃ parts' : List (List Token × Stmt), ts = parts'.flatMap Prod.fst ∧
          (∀ s ∈ parts', Statement s.1 s.2) ∧
          Stmt.bareAll (parts'.map Prod.snd) = Stmt.bareAll (parts.map Prod.snd)) P)
  | [], _ => ht.imp fun ts hP => ⟨[], ts, rfl, ⟨[], rfl, List.forall_mem_nil _, rfl⟩, hP⟩
  | s :: parts, hparts => by
    obtain ⟨hfirst, hothers⟩ := List.forall_mem_cons.mp hparts
    rw [List.map_cons, Stmt.printBody, List.append_assoc]
    refine (hfirst.indented (renders_body ht parts hothers)).imp ?_
    rintro _ ⟨us, _, rfl, ⟨s', hs', hbare⟩, _, vs, rfl, ⟨parts', rfl, hparts', hall⟩, hP⟩
    refine ⟨us ++ parts'.flatMap Prod.fst, vs, (List.append_assoc ..).symm, ?_, hP⟩
    refine ⟨(us, s') :: parts', rfl, List.forall_mem_cons.mpr ⟨hs', hparts'⟩, ?_⟩
    rw [List.map_cons, Stmt.bareAll, Stmt.bareAll, hbare, hall]

/-- A brace and the line feed after it. -/
theorem brace_append (t : Text) : ("\x7b\n" : Text) ++ t = "\x7b" ++ ("\n" ++ t) := rfl

/-- **A printed statement is a statement** with the same bare tree. -/
theorem Statement.renders (h : Statement ts s) (hts : ∀ t ∈ ts, t.Legible) :
    Renders s.print (Again Statement Stmt.bare s) := by
  -- on the derivation of the statement that was printed
  induction h with
  | declaration h =>
    refine (h.renders hts).imp ?_
    rintro us ⟨s', hs', hbare⟩
    exact ⟨s', .declaration hs', hbare⟩
  | assignment h =>
    refine (h.renders hts).imp ?_
    rintro us ⟨s', hs', hbare⟩
    exact ⟨s', .assignment hs', hbare⟩
  | ret ht hvalue hsemi => exact renders_return hvalue fun u hu => hts u (by simp [hu])
  | @block t close parts ht h hclose ih =>
    have hbody := renders_body .rbrace parts fun s hs =>
      ih s hs fun u hu => hts u (List.mem_cons_of_mem t (List.mem_append_left _
        (List.mem_flatMap.mpr ⟨s, hs, hu⟩)))
    rw [Stmt.print, List.append_assoc, brace_append]
    refine (Renders.closed "\x7b" .lbrace (by decide) hbody.line).imp ?_
    rintro _ ⟨t', _, rfl, ht', -, _, _, rfl, ⟨parts', rfl, hparts', hbare⟩, close', _, rfl, hclose',
      -, rfl⟩
    -- the statements within, by the induction hypothesis, between two braces
    refine ⟨_, .block ht' hparts' hclose', ?_⟩
    rw [Stmt.bare, Stmt.bare, hbare]
  | @expr t semi ts e he hsemi =>
    refine renders_exprStmt he fun u hu => hts u ?_
    rw [← List.cons_append]
    exact List.mem_append_left _ hu

/-! ### Functions and programs -/

/-- A parameter that is printed is read again. -/
theorem Parameter.renders {p : ParamDecl} (h : Parameter ts p) (hts : ∀ t ∈ ts, t.Legible) :
    Renders p.print (Again Parameter ParamDecl.bare p) := by
  cases h with
  | @mk name colon t type hname hcolon ht =>
    obtain ⟨hword, hkind⟩ := (hts name List.mem_cons_self).name hname
    have htype := Renders.closed ":" .colon (by decide) ht.renders.space
    rw [ParamDecl.print, List.append_assoc, colon_append]
    refine (htype.word hword hkind rfl).imp ?_
    rintro _ ⟨name', _, rfl, hname', hliteral, colon', _, rfl, hcolon', -, u, type', rfl, htype',
      hbare⟩
    refine ⟨_, .mk hname' hcolon' htype', ?_⟩
    rw [ParamDecl.bare, ParamDecl.bare, hbare, Ident.bare, hliteral]
    rfl

/-- The first word of a function and the space after it. -/
theorem fn_append (t : Text) : ("fn " : Text) ++ t = "fn" ++ (" " ++ t) := rfl

/-- The brace before a body, with what surrounds it. -/
theorem space_brace_append (t : Text) :
    (" \x7b\n" : Text) ++ t = " " ++ ("\x7b" ++ ("\n" ++ t)) := rfl

/-- **A function that is printed is read again.** -/
theorem Function.renders (h : Function ts s) (hts : ∀ t ∈ ts, t.Legible) :
    Renders s.print (Again Function Stmt.bare s) := by
  cases h with
  | @mk t name lparen rparen brace close mid us type params parts ht hname hlparen hparams hmid
      hrparen htype hbrace hparts hclose =>
    obtain ⟨hword, hkind⟩ := (hts name (by simp)).name hname
    -- from the end of the body back to the word it begins with
    have hbody := renders_body .rbrace parts fun s hs =>
      (hparts s hs).renders fun u hu => hts u (by
        simp only [List.mem_cons, List.mem_append, List.mem_flatMap]
        exact .inr (.inr (.inr (.inr (.inr (.inr (.inr (.inl ⟨s, hs, hu⟩))))))))
    have hopen := (Renders.closed "\x7b" .lbrace (by decide) hbody.line).space
    have hresult := Renders.closed ")" .rparen (by decide) (htype.renders.append hopen rfl)
    have hlist : Renders (Text.joinWith ", " ((params.map Prod.snd).map ParamDecl.print))
        fun mid => ∃ parts : List (List Token × ParamDecl), Separated (parts.map Prod.fst) mid ∧
          (∀ a ∈ parts, Parameter a.1 a.2) ∧
          (parts.map Prod.snd).map ParamDecl.bare = (params.map Prod.snd).map ParamDecl.bare := by
      refine renders_joinWith _ fun p hp => ?_
      obtain ⟨a, ha, rfl⟩ := List.mem_map.mp hp
      refine (hparams a ha).renders fun u hu => hts u ?_
      have hu := mem_separated hmid (List.mem_map_of_mem ha) hu
      simp [hu]
    have hhead := Renders.closed "(" .lparen (by decide) (hlist.append hresult rfl)
    have hnamed := hhead.word hword hkind rfl
    simp only [Stmt.print, FnHead.print, List.append_assoc, fn_append, space_brace_append]
    refine (hnamed.space.word (w := "fn") rfl rfl rfl).imp ?_
    rintro _ ⟨t', _, rfl, ht', -, name', _, rfl, hname', hliteral, lparen', _, rfl, hlparen', -,
      mid', _, rfl, ⟨params', hmid', hparams', hbarep⟩, rparen', _, rfl, hrparen', -, us', _, rfl,
      ⟨type', htype', hbaret⟩, brace', _, rfl, hbrace', -, _, _, rfl,
      ⟨parts', rfl, hparts', hbares⟩, close', _, rfl, hclose', -, rfl⟩
    refine ⟨_, .mk ht' hname' hlparen' hparams' hmid' hrparen' htype' hbrace' hparts' hclose', ?_⟩
    rw [Stmt.bare, Stmt.bare, FnHead.bare, FnHead.bare, hbarep, hbaret, hbares, Ident.bare, hliteral]
    rfl

/-- A statement of the top level is read again. -/
theorem TopLevel.renders (h : TopLevel ts s) (hts : ∀ t ∈ ts, t.Legible) :
    Renders s.print (Again TopLevel Stmt.bare s) := by
  cases h with
  | declaration h =>
    refine (h.renders hts).imp ?_
    rintro us ⟨s', hs', hbare⟩
    exact ⟨s', .declaration hs', hbare⟩
  | function h =>
    refine (h.renders hts).imp ?_
    rintro us ⟨s', hs', hbare⟩
    exact ⟨s', .function hs', hbare⟩
  | assignment h =>
    refine (h.renders hts).imp ?_
    rintro us ⟨s', hs', hbare⟩
    exact ⟨s', .assignment hs', hbare⟩

/-- **A printed program is a program** with the same bare tree. -/
theorem Program.renders {p : Slang.Program} (h : Program ts p) (hts : ∀ t ∈ ts, t.Legible) :
    Renders (Program.print p) (Again Program Program.bare p) := by
  induction h with
  | nil =>
    refine Renders.nil.imp ?_
    rintro _ rfl
    exact ⟨[], .nil, rfl⟩
  | @cons ts rest s p hs hp ih =>
    have hfirst := hs.renders fun t ht => hts t (List.mem_append_left _ ht)
    have hothers := ih fun t ht => hts t (List.mem_append_right _ ht)
    -- each statement stands on lines of its own
    have hprint : Slang.Program.print (s :: p) = s.print ++ ("\n" ++ Slang.Program.print p) := by
      rw [Slang.Program.print, List.flatMap_cons, List.append_assoc]
      rfl
    rw [hprint]
    refine (hfirst.append hothers.line rfl).imp ?_
    rintro _ ⟨us, vs, rfl, ⟨s', hs', hbare⟩, p', hp', hall⟩
    refine ⟨s' :: p', .cons hs' hp', ?_⟩
    exact congrArg₂ List.cons hbare hall

end Grammar

/-! ### Sources -/

/-- A word that is no keyword is a name. -/
theorem Lexer.wordKind_eq_ident {w : Text} (h : ∀ kind, (w, kind) ∉ keywords) :
    wordKind w = .ident := by
  unfold wordKind
  split_ifs with h₁ h₂ h₃ h₄ h₅ h₆
  · exact absurd (by rw [h₁]; decide) (h .kwLet)
  · exact absurd (by rw [h₂]; decide) (h .kwFn)
  · exact absurd (by rw [h₃]; decide) (h .kwReturn)
  · exact absurd (by rw [h₄]; decide) (h .kwTrue)
  · exact absurd (by rw [h₅]; decide) (h .kwFalse)
  · simp only [Bool.or_eq_true, decide_eq_true_eq] at h₆
    rcases h₆ with ((hw | hw) | hw) | hw <;>
      exact absurd (by rw [hw]; decide) (h .typeLiteral)
  · rfl

/-- A name is a word that is no keyword. -/
theorem Lexer.name_of_shape {w literal : Text} (h : Shape w (some (.ident, literal))) :
    isWord literal = true ∧ wordKind literal = .ident := by
  cases h with
  | keyword h => exact absurd rfl ((by decide : ∀ k ∈ keywords, k.2 ≠ .ident) _ h)
  | name hb htail hname =>
    exact ⟨Bool.and_eq_true_iff.mpr ⟨hb, List.all_eq_true.mpr htail⟩, wordKind_eq_ident hname⟩
  | mark h => exact absurd rfl ((by decide : ∀ k ∈ marks, k.2 ≠ .ident) _ h)

/-- The tokens of a source are legible if its strings are. -/
theorem Lexer.legible_tokens {src : Text}
    (h : ∀ t ∈ tokens src, t.kind = .string → ∀ b ∈ t.literal, Quotable b) :
    ∀ t ∈ tokens src, t.Legible := by
  intro t ht
  obtain ⟨w, hshape⟩ := shape_of_mem_tokensFrom _ _ t ht
  refine ⟨fun hkind => ?_, h t ht⟩
  rw [hkind] at hshape
  exact name_of_shape hshape

namespace Parser

/-- **What is printed is read as the program that was printed.** If a source has no syntax errors,
and its strings hold only bytes that quoting writes with escapes that strings have, then the printed
form of its program has no syntax errors either, and it holds the same program up to tokens and
groups. So printing it once more changes nothing. -/
theorem parse_print (src : Text) (hfaults : (parse src).faults = [])
    (hstrings : ∀ t ∈ Lexer.tokens src, t.kind = .string → ∀ b ∈ t.literal, Quotable b) :
    (parse (Program.print (parse src).program)).faults = [] ∧
      Program.bare (parse (Program.print (parse src).program)).program =
        Program.bare (parse src).program ∧
      Program.print (parse (Program.print (parse src).program)).program =
        Program.print (parse src).program := by
  have hderived := program_derived (show (Lexer.eof src).kind = .eof from rfl) _ hfaults
  obtain ⟨p, hp, hbare⟩ := (hderived.renders (legible_tokens hstrings)).tokens
  have hparse : parse (Program.print (parse src).program) = ⟨p, []⟩ := program_complete hp
  rw [hparse]
  refine ⟨rfl, hbare, ?_⟩
  rw [← Program.print_bare, hbare]
  exact Program.print_bare _

/-- Groups, strings with escapes, and a block in a block. -/
def groupedSource : Text :=
  "let s = \"a\\t\\\"b\\n\" + (\"c\");
   fn f(n: int): int \x7b \x7b return -(n) * f((01 + 2) - 3); \x7d \x7d"

theorem parse_print_groupedSource :
    (parse (Program.print (parse groupedSource).program)).faults = [] ∧
      Program.bare (parse (Program.print (parse groupedSource).program)).program =
        Program.bare (parse groupedSource).program ∧
      Program.print (parse (Program.print (parse groupedSource).program)).program =
        Program.print (parse groupedSource).program :=
  parse_print groupedSource (by decide +kernel) (by decide +kernel)

example : Program.print (parse groupedSource).program =
    "let s = (\"a\\t\\\"b\\n\" + \"c\");
fn f(n: int): int \x7b
\t\x7b
\t\treturn ((-n) * f(((1 + 2) - 3)));
\t\x7d
\x7d
" := by decide +kernel

end Parser
end Slang
