import Slang.Proofs.Alike.Program
import Slang.Proofs.Sorting

/-!
# What the options of the analysis change

Computing constants changes what is known of values, and it finds constants that do not fold;
warning about shadowing adds warnings. Nothing else depends on these options, for any program, with
or without errors. Both are cases of two runs on one tree: the findings of the run with less options
are the findings of the other one without some of them (`findings_eq_filter`), and sorting keeps it
so.
-/

namespace Slang

/-! ### What messages begin with -/

/-- The fixed text with which a message begins. -/
def SemanticProblem.opening : SemanticProblem → Text
  | redeclared .. => "Symbol "
  | shadows .. => "Declaration of "
  | unbindable .. => "Internal Error: Failed to define "
  | unexpected _ => "Internal Error: "
  | duplicateParameter _ => "Duplicate parameter name "
  | parameterTy .. => "Parameter "
  | returnTy .. | missingReturn .. | functionAsValue _ | inferredRecursion _ | arity .. =>
    "Function "
  | nestedFunction => "Functions can only be declared at top level"
  | voidInitializer _ => "Cannot assign result of void expression to variable "
  | voidInferred _ => "Cannot infer type of "
  | assignMismatch .. => "Type mismatch: cannot assign "
  | variableTy .. => "Variable "
  | assignUndeclared _ => "Cannot assign to undeclared variable "
  | assignTarget .. => "Cannot assign to "
  | voidAssigned _ => "Cannot assign result of void expression to "
  | voidReturned _ => "Cannot return result of void expression from "
  | inconsistentReturn .. => "Inconsistent return types in "
  | valueFromVoid _ => "Cannot return value from void function "
  | returnMismatch .. => "Type mismatch: cannot return "
  | unusedResult _ => "Result of expression "
  | literalOverflow _ => "Integer literal "
  | undeclared _ => "Undeclared identifier "
  | unaryMismatch .. => "Operator "
  | binaryMismatch .. => "Type mismatch: "
  | folding cause => cause.message.capitalized
  | undeclaredFunction _ => "Undeclared function "
  | notAFunction .. => "'"
  | argument .. => "Argument "

theorem SemanticProblem.begins_with_opening (p : SemanticProblem) : p.opening <+: p.message := by
  cases p with
  | redeclared name line =>
    cases line <;> simp only [message, List.append_assoc] <;> exact List.prefix_append _ _
  | folding cause => exact List.prefix_rfl
  | nestedFunction => exact List.prefix_rfl
  | notAFunction name ty =>
    simp only [message, named, List.append_assoc]
    exact List.prefix_append _ _
  | _ =>
    simp only [message, List.append_assoc]
    exact List.prefix_append _ _

/-- What is said when constants overflow. -/
def overflowMessage : Text := "Integer overflow in constant expression"

/-- What is said about a constant division by zero. -/
def divisionMessage : Text := "Division by zero in constant expression"

/-- Whether a diagnostic is about constants that do not fold. -/
def Diagnostic.isFoldError (d : Diagnostic) : Bool :=
  d.severity == .error && (d.message == overflowMessage || d.message == divisionMessage)

/-- Whether a diagnostic is a warning about shadowing. -/
def Diagnostic.isShadowWarning (d : Diagnostic) : Bool :=
  d.severity == .warning && (Text.ofString "Declaration of ").isPrefixOf d.message

/-- The two messages about constants are said of nothing else. -/
theorem isFoldError_diagnostic (f : Finding) :
    f.diagnostic.isFoldError = true ↔
      f.what = .folding .overflow ∨ f.what = .folding .divisionByZero := by
  obtain ⟨pos, p⟩ := f
  -- problems are told apart by how their messages begin
  have hopening : p.message = overflowMessage ∨ p.message = divisionMessage →
      p.opening <+: overflowMessage ∨ p.opening <+: divisionMessage := by
    have hprefix := p.begins_with_opening
    exact Or.imp (fun h => h ▸ hprefix) fun h => h ▸ hprefix
  simp only [Diagnostic.isFoldError, Finding.diagnostic, Bool.and_eq_true, Bool.or_eq_true,
    beq_iff_eq]
  constructor
  · rintro ⟨-, hmessage⟩
    have h := hopening hmessage
    cases p with
    | folding cause =>
      cases cause with
      | overflow => exact .inl rfl
      | divisionByZero => exact .inr rfl
      | notFoldable | unknownOperator => exact absurd h (by decide)
    | _ => exact absurd h (by simp only [SemanticProblem.opening]; decide)
  · rintro (rfl | rfl)
    · exact ⟨rfl, .inl (by decide)⟩
    · exact ⟨rfl, .inr (by decide)⟩

theorem isShadowWarning_diagnostic (f : Finding) :
    f.diagnostic.isShadowWarning = true ↔ ∃ name d line, f.what = .shadows name d line := by
  obtain ⟨pos, p⟩ := f
  simp only [Diagnostic.isShadowWarning, Finding.diagnostic, Bool.and_eq_true, beq_iff_eq,
    List.isPrefixOf_iff_prefix]
  constructor
  · rintro ⟨hwarning, hmessage⟩
    cases p with
    | shadows name d line => exact ⟨name, d, line, rfl⟩
    | unusedResult written =>
      -- two beginnings of one text, of which neither begins the other
      have hopening := (SemanticProblem.unusedResult written).begins_with_opening
      have hboth := List.prefix_or_prefix_of_prefix hmessage hopening
      exact absurd hboth (by simp only [SemanticProblem.opening]; decide)
    | _ => cases hwarning
  · rintro ⟨name, d, line, rfl⟩
    exact ⟨rfl, (SemanticProblem.shadows name d line).begins_with_opening⟩

/-! ### What is known of values -/

/-- The type of a value, as its default. -/
def Value.blank : Value → Value
  | .int _ => .int 0
  | .bool _ => .bool false
  | .str _ => .str []

theorem Value.blank_eq_of_ty {v w : Value} (h : v.ty = w.ty) : v.blank = w.blank := by
  cases v <;> cases w <;> first | rfl | cases h

/-- A symbol without what is known of its value. -/
def Symbol.blank (s : Symbol) : Symbol :=
  match s.content with
  | .variable v _ => { s with content := .variable v.blank false }
  | .function .. => s

namespace Analysis

/-! ### Two runs on one tree -/

section
variable {m : Runs} (hplace : ∀ p q, m.place p q ↔ p = q)
include hplace

theorem eq_of_line {l l' : Int} (h : LinesAlike m.place l l') : l' = l := by
  obtain ⟨p, q, hpq, rfl, rfl⟩ := h
  rw [(hplace p q).mp hpq]

theorem eq_of_finds {f f' : Finding} (h : Finding.Alike m.place f f') : f' = f := by
  obtain ⟨pos, p⟩ := f
  obtain ⟨pos', p'⟩ := f'
  obtain ⟨hpos, hwhat⟩ := h
  obtain rfl : pos = pos' := (hplace _ _).mp hpos
  dsimp only at hwhat
  cases hwhat with
  | same => rfl
  | redeclared name hl | shadows name d hl | inconsistentReturn f got first hl =>
    rw [eq_of_line hplace hl]

/-- **The findings of the second run are those of the first without the suppressed ones.** -/
theorem findings_eq_filter {fs fs' : List Finding} (h : m.Findings fs fs') :
    fs' = fs.filter m.keeps := by
  have heq : List.Forall₂ Eq (fs.filter m.keeps) fs' :=
    List.Forall₂.imp (fun _ _ hf => (eq_of_finds hplace hf).symm) h
  exact (List.forall₂_eq_eq_eq ▸ heq : fs.filter m.keeps = fs').symm

/-- **A symbol in two runs on the same tree** differs in its value at most. -/
theorem eq_of_symbols {s s' : Symbol} (h : m.Symbols s s') :
    s'.blank = s.blank ∧ (m.loses = true → s'.known? = none) ∧ (m.loses = false → s' = s) := by
  obtain ⟨name, line, inferred, augmented, content⟩ := s
  obtain ⟨name', line', inferred', augmented', content'⟩ := s'
  obtain ⟨hname, hline, hinferred, haugmented, hcontent⟩ := h
  dsimp only at hname hline hinferred haugmented hcontent
  -- places stay, so that lines do
  obtain rfl := eq_of_line hplace hline
  subst hname hinferred haugmented
  cases hcontent with
  | «variable» hty hlost hsame =>
    refine ⟨?_, fun hl => ?_, fun hl => ?_⟩
    · simp only [Symbol.blank, Value.blank_eq_of_ty hty]
    · rw [hlost hl]
      rfl
    · obtain ⟨rfl, rfl⟩ := hsame hl
      rfl
  | function ps result => exact ⟨rfl, fun _ => rfl, fun _ => rfl⟩

/-- The diagnostics of the second run, for a test that tells the suppressed ones. -/
theorem diagnostics_eq_filter {p : Program} {test : Diagnostic → Bool}
    (htest : ∀ f, m.keeps f = !test f.diagnostic) :
    ((Analyzer.new m.right).analyze (some p)).1.diagnostics =
      ((Analyzer.new m.left).analyze (some p)).1.diagnostics.filter fun d => !test d := by
  have halike := alike_analyze (m := m) (Program.Alike.refl (fun q => (hplace q q).mpr rfl) p)
  unfold Analyzer.diagnostics
  rw [findings_eq_filter hplace halike.2, Diagnostic.filter_sort, List.filter_map]
  refine congrArg (fun l : List Finding => Diagnostic.sort (l.map Finding.diagnostic)) ?_
  exact List.filter_congr fun f _ => htest f

end

/-- One tree, with and without computing constants. -/
def foldRuns (warn : Bool) : Runs where
  place := (· = ·)
  left := { fold := true, warnShadowing := warn }
  right := { fold := false, warnShadowing := warn }
  fold := fun _ => rfl
  warn := id

/-- One tree, with and without warnings about shadowing. -/
def warnRuns (fold : Bool) : Runs where
  place := (· = ·)
  left := { fold := fold, warnShadowing := true }
  right := { fold := fold, warnShadowing := false }
  fold := id
  warn := fun _ => rfl

theorem eq_not_of_iff {a b : Bool} (h : a = false ↔ b = true) : a = !b := by
  cases a <;> cases b <;> simp_all

theorem keeps_foldRuns (warn : Bool) (f : Finding) :
    (foldRuns warn).keeps f = !f.diagnostic.isFoldError := by
  have hmutes : (foldRuns warn).mutes = false := by cases warn <;> rfl
  refine eq_not_of_iff ?_
  rw [Runs.keeps_eq_false_iff, isFoldError_diagnostic, hmutes]
  exact ⟨fun h => (h.resolve_right fun h => Bool.false_ne_true h.1).2, fun h => .inl ⟨rfl, h⟩⟩

theorem keeps_warnRuns (fold : Bool) (f : Finding) :
    (warnRuns fold).keeps f = !f.diagnostic.isShadowWarning := by
  have hloses : (warnRuns fold).loses = false := by cases fold <;> rfl
  refine eq_not_of_iff ?_
  rw [Runs.keeps_eq_false_iff, isShadowWarning_diagnostic, hloses]
  exact ⟨fun h => (h.resolve_left fun h => Bool.false_ne_true h.1).2, fun h => .inr ⟨rfl, h⟩⟩

theorem eq_of_parts {t t' : Table} (hsymbols : t'.symbols = t.symbols)
    (hscopes : t'.scopes = t.scopes) : t' = t := by
  cases t
  cases t'
  rw [Table.mk.injEq]
  exact ⟨hsymbols, hscopes⟩

theorem map_eq_of_forall₂ {α β : Type} {f : α → β} {l l' : List α}
    (h : List.Forall₂ (fun a b => f b = f a) l l') : l'.map f = l.map f := by
  induction h with
  | nil => rfl
  | cons h _ ih => rw [List.map_cons, List.map_cons, h, ih]

/-- **The options change nothing but what they name.** For every program, with or without errors:

* with and without computing constants, the scopes are the same, and so are the symbols, up to what
  is known of the values of variables; without it, no value is known, and the diagnostics are those
  of the other run without the errors about constants that overflow or divide by zero;
* with and without warnings about shadowing, the table is the same, values included, and the
  diagnostics of the run without them are those of the other one without these warnings. -/
theorem options_change_only_what_they_name (p : Program) :
    (∀ warn, let on := (Analyzer.new { fold := true, warnShadowing := warn }).analyze (some p)
      let off := (Analyzer.new { fold := false, warnShadowing := warn }).analyze (some p)
      off.2.table.scopes = on.2.table.scopes ∧
        off.2.table.symbols.map Symbol.blank = on.2.table.symbols.map Symbol.blank ∧
        (∀ s ∈ off.2.table.symbols, s.known? = none) ∧
        off.1.diagnostics = on.1.diagnostics.filter fun d => !d.isFoldError) ∧
      ∀ fold, let on := (Analyzer.new { fold := fold, warnShadowing := true }).analyze (some p)
        let off := (Analyzer.new { fold := fold, warnShadowing := false }).analyze (some p)
        off.2.table = on.2.table ∧
          off.1.diagnostics = on.1.diagnostics.filter fun d => !d.isShadowWarning := by
  refine ⟨fun warn => ?_, fun fold => ?_⟩
  · -- with folding and without: the second run loses values and fold errors
    have hplace : ∀ q r, (foldRuns warn).place q r ↔ q = r := fun _ _ => Iff.rfl
    have htables := (alike_analyze (m := foldRuns warn)
      (Program.Alike.refl (fun q => (hplace q q).mpr rfl) p)).1
    refine ⟨htables.scopes, ?_, fun s' hs' => ?_,
      diagnostics_eq_filter hplace (keeps_foldRuns warn)⟩
    · exact map_eq_of_forall₂ (htables.symbols.imp fun s s' h => (eq_of_symbols hplace h).1)
    · obtain ⟨i, hi, rfl⟩ := List.mem_iff_getElem.mp hs'
      exact (eq_of_symbols hplace (htables.symbols.get (htables.length ▸ hi) hi)).2.1 rfl
  · -- with warnings and without: nothing of the table is lost
    have hplace : ∀ q r, (warnRuns fold).place q r ↔ q = r := fun _ _ => Iff.rfl
    have htables := (alike_analyze (m := warnRuns fold)
      (Program.Alike.refl (fun q => (hplace q q).mpr rfl) p)).1
    have hloses : (warnRuns fold).loses = false := by cases fold <;> rfl
    refine ⟨?_, diagnostics_eq_filter hplace (keeps_warnRuns fold)⟩
    have hsymbols := map_eq_of_forall₂ (f := id)
      (htables.symbols.imp fun s s' h => (eq_of_symbols hplace h).2.2 hloses)
    rw [List.map_id, List.map_id] at hsymbols
    exact eq_of_parts hsymbols htables.scopes

end Analysis
end Slang
