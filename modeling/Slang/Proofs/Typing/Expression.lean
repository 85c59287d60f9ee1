import Slang.Proofs.Accepted
import Slang.Proofs.Grammar.Shape

/-!
# Types of expressions

Checking an expression and typing it by the rules come to the same. `hasType_check` is soundness: an
expression without errors has the type that checking gives it. It holds whether or not constants
are computed. `check_of_hasType` is completeness, for checking without constants: there nothing but
types can be wrong with an expression, so nothing is reported at all.

An expression without a type is not reported where it stands, but a part of it has been. The only
part that is never reported is a hole, so soundness is about whole expressions.
-/

namespace Slang

open Typing

/-! ### Names -/

theorem Symbol.entry_eq_variable {s : Symbol} {ty : Ty} (h : s.entry = .variable ty) :
    ∃ v calculated, s.content = .variable v calculated ∧ v.ty = ty := by
  unfold Symbol.entry at h
  split at h
  · next v c hc => exact ⟨v, c, hc, Entry.variable.inj h⟩
  · cases h

theorem Symbol.entry_eq_function {s : Symbol} {params : List Ty} {result : Ty}
    (h : s.entry = .function params result) :
    ∃ qs, s.content = .function qs result ∧ qs.map (·.ty) = params := by
  unfold Symbol.entry at h
  split at h
  · cases h
  · next qs r hc =>
    obtain ⟨rfl, rfl⟩ := Entry.function.inj h
    exact ⟨qs, hc, rfl⟩

namespace Table.Valid

variable {t : Table} {sc : ScopeId} {x : Text}

/-- A name that means something stands for a symbol. -/
theorem exists_of_find?_view (h : t.Valid) {entry : Entry}
    (hx : (t.view sc).find? x = some entry) :
    ∃ i s, t.find? sc x = some i ∧ t.symbol? i = some s ∧ s.name = x ∧ s.entry = entry := by
  rw [h.find?_view] at hx
  obtain ⟨i, hi, hentry⟩ := Option.bind_eq_some_iff.mp hx
  obtain ⟨s, hs, hname⟩ := h.symbol_of_find? hi
  rw [hs, Option.map_some] at hentry
  exact ⟨i, s, hi, hs, hname, Option.some.inj hentry⟩

theorem find?_view_eq_some (h : t.Valid) {i : SymbolId} {s : Symbol} (hi : t.find? sc x = some i)
    (hs : t.symbol? i = some s) : (t.view sc).find? x = some s.entry := by
  rw [h.find?_view, hi, Option.bind_some, hs, Option.map_some]

end Table.Valid

/-- The result of a function has a type of variables or none at all: tables hold sound signatures
only. -/
theorem isValue_or_void_of_find? {t : Table} (hv : t.Valid) {sc : ScopeId} {x : Text}
    {params : List Ty} {result : Ty} (h : (t.view sc).find? x = some (.function params result)) :
    IsValue result ∨ result = .void := by
  obtain ⟨i, s, -, hs, -, hentry⟩ := hv.exists_of_find?_view h
  obtain ⟨qs, hc, -⟩ := Symbol.entry_eq_function hentry
  have htyped := hv.typed i s hs
  unfold Symbol.Typed at htyped
  rw [hc] at htyped
  exact htyped.2

/-- Expressions have the types of variables or none at all. -/
theorem isValue_or_void_of_hasType {t : Table} (hv : t.Valid) {sc : ScopeId} {e : Expr} {ty : Ty}
    (h : HasType (t.view sc) e ty) : IsValue ty ∨ ty = .void := by
  -- on the typing: only a call may be void, as functions may return nothing
  induction h with
  | int | least | neg | arithmetic => exact .inl .int
  | str => exact .inl .string
  | bool | not | logic | equality => exact .inl .bool
  | name h =>
    obtain ⟨i, s, -, -, -, hentry⟩ := hv.exists_of_find?_view h
    obtain ⟨v, c, -, rfl⟩ := Symbol.entry_eq_variable hentry
    exact .inl (isValue_ty v)
  | add hty =>
    rcases hty with rfl | rfl
    · exact .inl .int
    · exact .inl .string
  | group _ ih => exact ih
  | call hcallee => exact isValue_or_void_of_find? hv hcallee

theorem ne_invalid_of_hasType {t : Table} (hv : t.Valid) {sc : ScopeId} {e : Expr} {ty : Ty}
    (h : HasType (t.view sc) e ty) : ty ≠ .invalid := by
  rcases isValue_or_void_of_hasType hv h with h | rfl
  · exact h.ne_invalid
  · exact Ty.noConfusion

namespace Analysis

/-! ### Soundness -/

theorem checkAll_eq_map (ctx : Context) (t : Table) (es : List Expr) :
    checkAll ctx t es = es.map (check ctx t) := by
  induction es with
  | nil => rw [checkAll, List.map_nil]
  | cons e es ih => rw [checkAll, ih, List.map_cons]

/-- Computing a constant has no part in its type. -/
@[simp] theorem ty_folded (tok : Token) (ty : Ty) (before : List Finding)
    (r : Except FoldError Value) : (folded tok ty before r).ty = ty := by
  cases r <;> rfl

theorem clean_of_folded {tok : Token} {ty : Ty} {before : List Finding}
    {r : Except FoldError Value} (h : Clean (folded tok ty before r).findings) : Clean before := by
  cases r with
  | ok v => exact h
  | error e => exact (clean_append.mp h).1

theorem isLeastInt_iff {op : UnaryOp} {e : Expr} :
    isLeastInt op e = true ↔ op = .neg ∧ ∃ tok, e = .int tok (-minInt) := by
  cases e <;> simp [isLeastInt]

theorem clean_of_checkUnary {tok : Token} {op : UnaryOp} {right : Checked}
    (h : Clean (checkUnary tok op right).findings) : Clean right.findings := by
  unfold checkUnary at h
  split at h
  · exact h
  · split at h
    · exact (clean_append.mp h).1
    · split at h
      · exact h
      · exact clean_of_folded h

/-- **Prefix operators without errors**: the operand is of the type that the operator takes. -/
theorem checkUnary_inv {tok : Token} {op : UnaryOp} {right : Checked} (hright : right.ty ≠ .invalid)
    (h : Clean (checkUnary tok op right).findings) :
    right.ty = op.operandTy ∧ (checkUnary tok op right).ty = op.operandTy := by
  unfold checkUnary at h ⊢
  rw [if_neg hright] at h ⊢
  by_cases hty : right.ty = op.operandTy
  · rw [if_neg (not_not_intro hty)]
    refine ⟨hty, ?_⟩
    split
    · rfl
    · exact ty_folded _ _ _ _
  · rw [if_pos hty] at h
    simp [Checked.untyped, SemanticProblem.severity] at h

theorem clean_of_checkBinary {tok : Token} {op : BinaryOp} {left right : Checked}
    (h : Clean (checkBinary tok op left right).findings) :
    Clean left.findings ∧ Clean right.findings := by
  rw [← clean_append]
  unfold checkBinary at h
  dsimp only at h
  split at h
  · exact h
  · split at h
    · exact (clean_append.mp h).1
    · split at h
      · exact clean_of_folded h
      · exact h

/-- **Infix operators without errors**: there is such an operation on the types of the operands. -/
theorem checkBinary_inv {tok : Token} {op : BinaryOp} {left right : Checked}
    (hleft : left.ty ≠ .invalid) (hright : right.ty ≠ .invalid)
    (h : Clean (checkBinary tok op left right).findings) :
    op.resultTy? left.ty right.ty = some (checkBinary tok op left right).ty := by
  unfold checkBinary at h ⊢
  dsimp only at h ⊢
  rw [if_neg (not_or_intro hleft hright)] at h ⊢
  -- without a result there is an error
  cases hty : op.resultTy? left.ty right.ty with
  | none =>
    rw [hty] at h
    simp [Checked.untyped, SemanticProblem.severity] at h
  | some ty =>
    dsimp only
    split
    · rw [ty_folded]
    · rfl

/-- Operations on types are those of the rules. -/
theorem hasType_unary {Γ : Env} {tok : Token} {op : UnaryOp} {e : Expr}
    (he : HasType Γ e op.operandTy) (hop : op.operandTy ≠ .invalid) :
    HasType Γ (.unary tok op e) op.operandTy := by
  cases op with
  | neg => exact .neg he
  | not => exact .not he
  | other s => exact absurd rfl hop

/-- **The operators by their rules.** -/
theorem hasType_binary {Γ : Env} {tok : Token} {op : BinaryOp} {l r : Expr} {lty rty ty : Ty}
    (hl : HasType Γ l lty) (hr : HasType Γ r rty) (h : op.resultTy? lty rty = some ty) :
    HasType Γ (.binary tok op l r) ty := by
  unfold BinaryOp.resultTy? at h
  split at h
  · cases h
  · -- the operands are of one type, and the operator picks the rule
    next hne =>
    obtain ⟨heq, hvoid⟩ := not_or.mp hne
    obtain rfl := not_not.mp heq
    -- sums are of numbers or texts, the other three of numbers, the connectives of truth values, and
    -- equality of any value
    cases op with
    | add =>
      dsimp only at h
      split at h
      · next hty =>
        obtain rfl := Option.some.inj h
        exact .add hty hl hr
      · cases h
    | sub | mul | div =>
      dsimp only at h
      split at h
      · next hty =>
        obtain rfl := Option.some.inj h
        subst hty
        exact .arithmetic (by simp) hl hr
      · cases h
    | and | or =>
      dsimp only at h
      split at h
      · next hty =>
        obtain rfl := Option.some.inj h
        subst hty
        exact .logic (by simp) hl hr
      · cases h
    | eq | ne =>
      obtain rfl := Option.some.inj h
      exact .equality (by simp) hvoid hl hr
    | other s => cases h

theorem clean_argumentFindings {function : Text} {n : Nat} {es : List Expr} {cs : List Checked}
    {ps : List Param} (hes : es.length = cs.length) (hps : cs.length = ps.length) :
    Clean (argumentFindings function n es cs ps) ↔
      ∀ a ∈ cs.zip ps, a.1.ty = .invalid ∨ a.1.ty = a.2.ty := by
  induction cs generalizing n es ps with
  | nil =>
    obtain rfl := List.eq_nil_of_length_eq_zero hes
    simp [argumentFindings]
  | cons c cs ih =>
    obtain ⟨e, es, rfl⟩ := List.exists_cons_of_length_eq_add_one hes
    obtain ⟨p, ps, rfl⟩ := List.exists_cons_of_length_eq_add_one hps.symm
    have ih := @ih (n + 1) es ps (by simpa using hes) (by simpa using hps)
    rw [argumentFindings, clean_append, ih, List.zip_cons_cons]
    simp only [List.mem_cons, forall_eq_or_imp]
    -- an argument without a type is passed over, since it was reported before
    refine and_congr_left fun _ => ?_
    split
    · next h => simp [h]
    · next h => simp [h, SemanticProblem.severity]

section
variable {ctx : Context} {t : Table}

theorem hasType_checkName (hv : t.Valid) {id : Ident} (h : Clean (checkName ctx t id).findings) :
    HasType (t.view ctx.scope) (.ident id) (checkName ctx t id).ty := by
  unfold checkName at h ⊢
  cases hi : t.find? ctx.scope id.name with
  | none =>
    rw [hi] at h
    simp [Checked.untyped, SemanticProblem.severity] at h
  | some i =>
    -- what is known of the variable does not matter, its type is that of its symbol
    obtain ⟨s, hs, -⟩ := hv.symbol_of_find? hi
    have hentry := hv.find?_view_eq_some hi hs
    rw [hi] at h
    dsimp only at h ⊢
    rw [hs] at h ⊢
    dsimp only at h ⊢
    cases hc : s.content with
    | function ps r =>
      rw [hc] at h
      simp [Checked.untyped, SemanticProblem.severity] at h
    | «variable» v calculated =>
      have htype : HasType (t.view ctx.scope) (.ident id) v.ty :=
        .name (by rw [hentry, Symbol.entry, hc])
      dsimp only
      split <;> exact htype

/-- **Calls without errors**: the name stands for a function that takes so many arguments, and they
are without errors too. -/
theorem checkCall_inv (hv : t.Valid) {callee : Ident} {args : List Expr} {checked : List Checked}
    (h : Clean (checkCall ctx t callee args checked).findings) :
    ∃ params : List Param, (t.view ctx.scope).find? callee.name =
        some (.function (params.map (·.ty)) (checkCall ctx t callee args checked).ty) ∧
      checked.length = params.length ∧ Clean (checked.flatMap (·.findings)) ∧
      Clean (argumentFindings callee.name 1 args checked params) := by
  unfold checkCall at h ⊢
  dsimp only at h ⊢
  -- an unknown name, a variable and a wrong number of arguments are errors
  cases hi : t.find? ctx.scope callee.name with
  | none =>
    rw [hi] at h
    dsimp only [Option.bind_none, Checked.untyped] at h
    split at h <;> simp [SemanticProblem.severity] at h
  | some i =>
    obtain ⟨s, hs, -⟩ := hv.symbol_of_find? hi
    have hentry := hv.find?_view_eq_some hi hs
    rw [hi] at h
    rw [Option.bind_some, hs] at h ⊢
    dsimp only at h ⊢
    cases hc : s.content with
    | «variable» v c =>
      rw [hc] at h
      simp [Checked.untyped, SemanticProblem.severity] at h
    | function params result =>
      rw [hc] at h
      dsimp only at h ⊢
      by_cases hlen : checked.length = params.length
      · rw [if_neg (not_not_intro hlen)] at h ⊢
        exact ⟨params, by rw [hentry, Symbol.entry, hc]; rfl, hlen, clean_append.mp h⟩
      · rw [if_pos hlen] at h
        simp [Checked.ofTy, SemanticProblem.severity] at h

theorem hasType_checkCall (hv : t.Valid) {tok : Token} {callee : Ident} {args : List Expr}
    (hargs : ∀ a ∈ args, Clean (check ctx t a).findings →
      HasType (t.view ctx.scope) a (check ctx t a).ty)
    (h : Clean (checkCall ctx t callee args (args.map (check ctx t))).findings) :
    HasType (t.view ctx.scope) (.call tok callee args)
      (checkCall ctx t callee args (args.map (check ctx t))).ty := by
  obtain ⟨params, hcallee, hlen, hbefore, hmatch⟩ := checkCall_inv hv h
  rw [clean_argumentFindings (by simp) hlen] at hmatch
  rw [List.length_map] at hlen
  refine .call hcallee (by rw [hlen, List.length_map]) ?_
  -- an argument without errors has a type, so it is that of the parameter
  rintro ⟨a, ty⟩ ha
  rw [List.zip_map_right] at ha
  obtain ⟨⟨a', p⟩, hap, heq⟩ := List.mem_map.mp ha
  obtain ⟨rfl, rfl⟩ := Prod.mk.inj heq
  have hmem := (List.of_mem_zip hap).1
  have htype := hargs a' hmem (clean_flatMap.mp hbefore _ (List.mem_map_of_mem hmem))
  have hzip : (check ctx t a', p) ∈ (args.map (check ctx t)).zip params := by
    rw [List.zip_map_left]
    exact List.mem_map.mpr ⟨(a', p), hap, rfl⟩
  rcases hmatch _ hzip with hinv | hty
  · exact absurd hinv (ne_invalid_of_hasType hv htype)
  · rw [show (check ctx t a').ty = p.ty from hty] at htype
    exact htype

/-- **Soundness on expressions.** -/
theorem hasType_check (hv : t.Valid) {e : Expr} (hw : e.Whole)
    (h : Clean (check ctx t e).findings) :
    HasType (t.view ctx.scope) e (check ctx t e).ty := by
  induction hw with
  | ident =>
    rw [check] at h ⊢
    exact hasType_checkName hv h
  | int =>
    rw [check] at h ⊢
    split at h
    · simp [Checked.ofTy, SemanticProblem.severity] at h
    · next hn =>
      rw [if_neg hn]
      exact .int (Int.not_lt.mp hn)
  | str =>
    rw [check]
    exact .str
  | bool =>
    rw [check]
    exact .bool
  | unary he ih =>
    rw [check] at h ⊢
    split at h
    · next hleast =>
      rw [if_pos hleast]
      obtain ⟨rfl, tok', rfl⟩ := isLeastInt_iff.mp hleast
      exact .least
    · next hleast =>
      rw [if_neg hleast]
      -- the operand has a type, so a wrong one would have been reported here
      have htype := ih (clean_of_checkUnary h)
      have hne := ne_invalid_of_hasType hv htype
      obtain ⟨hop, hty⟩ := checkUnary_inv hne h
      rw [hop] at htype hne
      rw [hty]
      exact hasType_unary htype hne
  | binary hl hr ihl ihr =>
    rw [check] at h ⊢
    obtain ⟨hleft, hright⟩ := clean_of_checkBinary h
    have hlty := ihl hleft
    have hrty := ihr hright
    exact hasType_binary hlty hrty
      (checkBinary_inv (ne_invalid_of_hasType hv hlty) (ne_invalid_of_hasType hv hrty) h)
  | group he ih =>
    rw [check] at h ⊢
    exact .group (ih h)
  | call hargs ih =>
    rw [check, checkAll_eq_map] at h ⊢
    exact hasType_checkCall hv ih h

/-! ### Completeness -/

theorem check_constant (hfold : ctx.options.fold = false) (v : Value) :
    constant ctx v = .ofTy v.ty [] := by
  simp [constant, Checked.ofTy, hfold]

theorem check_unary (tok : Token) (op : UnaryOp) (hop : op.operandTy ≠ .invalid) :
    checkUnary tok op (.ofTy op.operandTy []) = .ofTy op.operandTy [] := by
  simp [checkUnary, Checked.ofTy, hop]

theorem check_binary (tok : Token) {op : BinaryOp} {lty rty ty : Ty} (hl : lty ≠ .invalid)
    (hr : rty ≠ .invalid) (h : op.resultTy? lty rty = some ty) :
    checkBinary tok op (.ofTy lty []) (.ofTy rty []) = .ofTy ty [] := by
  simp [checkBinary, Checked.ofTy, hl, hr, h]

theorem map_eq_map_of_zip {α β γ : Type} {f : α → γ} {g : β → γ} {as : List α} {bs : List β}
    (hlen : as.length = bs.length) (h : ∀ a ∈ as.zip bs, f a.1 = g a.2) : as.map f = bs.map g := by
  induction as generalizing bs with
  | nil =>
    obtain rfl := List.eq_nil_of_length_eq_zero hlen.symm
    rfl
  | cons a as ih =>
    obtain ⟨b, bs, rfl⟩ := List.exists_cons_of_length_eq_add_one hlen.symm
    rw [List.map_cons, List.map_cons, h (a, b) List.mem_cons_self,
      ih (Nat.succ.inj hlen) fun c hc => h c (List.mem_cons_of_mem _ hc)]

theorem argumentFindings_eq_nil {function : Text} {n : Nat} {es : List Expr} {ps : List Param} :
    argumentFindings function n es (ps.map fun p => .ofTy p.ty []) ps = [] := by
  induction ps generalizing n es with
  | nil => cases es <;> rfl
  | cons p ps ih =>
    cases es with
    | nil => rfl
    | cons e es =>
      rw [List.map_cons, argumentFindings, ih, if_pos (.inr rfl)]
      rfl

theorem check_call (tok : Token) {callee : Ident} {args : List Expr} {i : SymbolId} {s : Symbol}
    {ps : List Param} {result : Ty} (hi : t.find? ctx.scope callee.name = some i)
    (hs : t.symbol? i = some s) (hc : s.content = .function ps result)
    (hargs : args.map (check ctx t) = ps.map fun p => .ofTy p.ty []) :
    check ctx t (.call tok callee args) = .ofTy result [] := by
  rw [check, checkAll_eq_map, hargs]
  unfold checkCall
  rw [hi, Option.bind_some, hs]
  dsimp only
  rw [hc]
  dsimp only
  rw [if_neg (by simp), argumentFindings_eq_nil]
  simp [Checked.ofTy, List.flatMap_map]

/-- **Completeness on expressions.** Where constants are not computed, an expression that has a type
is checked without a finding. -/
theorem check_of_hasType (hv : t.Valid) (hfold : ctx.options.fold = false) {e : Expr} {ty : Ty}
    (h : HasType (t.view ctx.scope) e ty) : check ctx t e = .ofTy ty [] := by
  induction h with
  | int hn =>
    rw [check, if_neg (Int.not_lt.mpr hn)]
    exact check_constant hfold _
  | least =>
    rw [check, if_pos (isLeastInt_iff.mpr ⟨rfl, _, rfl⟩)]
    exact check_constant hfold _
  | str =>
    rw [check]
    exact check_constant hfold _
  | bool =>
    rw [check]
    exact check_constant hfold _
  | name h =>
    obtain ⟨i, s, hi, hs, -, hentry⟩ := hv.exists_of_find?_view h
    obtain ⟨v, c, hc, rfl⟩ := Symbol.entry_eq_variable hentry
    rw [check]
    unfold checkName
    rw [hi]
    dsimp only
    rw [hs]
    dsimp only
    rw [hc]
    dsimp only
    split
    · exact check_constant hfold v
    · rfl
  | neg he ih =>
    rw [check]
    split
    · -- a negated literal is the least integer, whichever rule gave it its type
      exact check_constant hfold _
    · rw [ih]
      exact check_unary _ .neg Ty.noConfusion
  | not he ih =>
    rw [check, if_neg (by simp [isLeastInt_iff]), ih]
    exact check_unary _ .not Ty.noConfusion
  | add hty hl hr ihl ihr =>
    rw [check, ihl, ihr]
    have hne := ne_invalid_of_hasType hv hl
    refine check_binary _ hne hne ?_
    rcases hty with rfl | rfl <;> rfl
  | arithmetic hop hl hr ihl ihr =>
    rw [check, ihl, ihr]
    refine check_binary _ Ty.noConfusion Ty.noConfusion ?_
    rcases hop with rfl | rfl | rfl <;> rfl
  | logic hop hl hr ihl ihr =>
    rw [check, ihl, ihr]
    refine check_binary _ Ty.noConfusion Ty.noConfusion ?_
    rcases hop with rfl | rfl <;> rfl
  | equality hop hty hl hr ihl ihr =>
    rw [check, ihl, ihr]
    have hne := ne_invalid_of_hasType hv hl
    refine check_binary _ hne hne ?_
    rcases hop with rfl | rfl <;> simp [BinaryOp.resultTy?, hty]
  | group he ih => rw [check, ih]
  | call hcallee hlen hargs ih =>
    obtain ⟨i, s, hi, hs, -, hentry⟩ := hv.exists_of_find?_view hcallee
    obtain ⟨qs, hc, rfl⟩ := Symbol.entry_eq_function hentry
    rw [List.length_map] at hlen
    -- argument by argument: each is checked to the type of its parameter
    refine check_call _ hi hs hc (map_eq_map_of_zip hlen fun a ha => ih (a.1, a.2.ty) ?_)
    rw [List.zip_map_right]
    exact List.mem_map.mpr ⟨a, ha, rfl⟩

end

end Analysis
end Slang
