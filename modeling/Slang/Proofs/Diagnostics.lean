import Slang.Proofs.Causes
import Slang.Proofs.Layout

/-!
# Well-formed diagnostics

What is said about a source stands at tokens of the source. To see this without going through all the
places in which something is reported, read the source twice: the errors of both readings stand at
tokens with the same index (`program_alike`, `alike_analyze`), so they stand at tokens.

The diagnostics of a compiled source are sorted, and they are all of one phase
(`wellFormed_ofSource`). An expression without a type is explained by one of them, at a token of its
own (`Analysis.reportedAt_of_readAt`).
-/

namespace Slang

theorem exists_of_samePlace {ts : List Token} {p q : Position} (h : SamePlace ts ts p q) :
    ∃ t ∈ ts, p = t.pos := by
  obtain ⟨i, hp, -⟩ := h
  obtain ⟨t, ht, rfl⟩ := List.mem_map.mp (List.mem_of_getElem? hp)
  exact ⟨t, ht, rfl⟩

section
variable {src : Text}

/-- A source corresponds to itself. -/
theorem parse_alike_self (src : Text) :
    Program.Alike (SamePlace (Lexer.tokens src) (Lexer.tokens src)) (Parser.parse src).program
        (Parser.parse src).program ∧
      ∃ hi, Parser.FaultsIn (Lexer.eof src) (Lexer.eof src) (Lexer.tokens src)
        (Lexer.tokens src) 0 hi (Parser.parse src).faults (Parser.parse src).faults :=
  Parser.program_alike ⟨rfl, rfl, rfl⟩ _ _ (rows_of_map_eq rfl)

/-- Syntax errors stand at tokens, or at the end. -/
theorem exists_token_of_fault {f : Fault} (hf : f ∈ (Parser.parse src).faults) :
    ∃ t ∈ Lexer.sequence src, f.pos = t.pos := by
  obtain ⟨-, hi, hfaults⟩ := parse_alike_self src
  exact exists_of_samePlace (List.forall₂_same.mp (hfaults.forall₂ rfl) f hf).2

/-- What analysis finds stands at tokens. -/
theorem exists_token_of_finding (options : Analysis.Options) {f : Finding}
    (hf : f ∈ ((Analyzer.new options).analyze (some (Parser.parse src).program)).1.findings) :
    ∃ t ∈ Lexer.sequence src, f.pos = t.pos := by
  have hfindings := (Analysis.alike_analyze
    (m := Compiled.layoutRuns options (SamePlace (Lexer.tokens src) (Lexer.tokens src)))
    (parse_alike_self src).1).2
  rw [Analysis.Runs.Findings, Compiled.filter_keeps_layoutRuns] at hfindings
  obtain ⟨t, ht, hpos⟩ := exists_of_samePlace (List.forall₂_same.mp hfindings f hf).pos
  exact ⟨t, List.mem_append_left _ ht, hpos⟩

end

namespace Diagnostic

theorem mem_sort {d : Diagnostic} {l : List Diagnostic} : d ∈ sort l ↔ d ∈ l := List.mem_mergeSort

theorem pairwise_sort (l : List Diagnostic) :
    (sort l).Pairwise fun a b => a.pos.le b.pos = true :=
  List.pairwise_mergeSort before_trans before_total l

end Diagnostic

/-! ### Compiled sources -/

namespace Compiled

/-- **Well-formed diagnostics**: those of a source are in the order of positions, each at one of its
tokens or at its end. Either there are syntax errors and no symbols, or everything is about the
meaning of the program. -/
structure WellFormed (src : Text) (c : Compiled) : Prop where
  sorted : c.diagnostics.Pairwise fun a b => a.pos.le b.pos = true
  placed : ∀ d ∈ c.diagnostics, ∃ t ∈ Lexer.sequence src, d.pos = t.pos
  table : c.table = none ↔ (Parser.parse src).faults ≠ []
  syntactic : c.table = none →
    c.diagnostics ≠ [] ∧ ∀ d ∈ c.diagnostics, d.phase = .syntactic ∧ d.severity = .error
  semantic : c.table ≠ none → ∀ d ∈ c.diagnostics, d.phase = .semantic

section
variable {src : Text}

theorem wellFormed_ofFaults (path : Text) (h : (Parser.parse src).faults ≠ []) :
    WellFormed src (ofFaults path (Parser.parse src)) := by
  have hmem : ∀ d ∈ (ofFaults path (Parser.parse src)).diagnostics,
      ∃ f ∈ (Parser.parse src).faults, f.diagnostic = d := fun d hd =>
    List.mem_map.mp (Diagnostic.mem_sort.mp hd)
  refine ⟨Diagnostic.pairwise_sort _, fun d hd => ?_, ⟨fun _ => h, fun _ => rfl⟩,
    fun _ => ⟨?_, fun d hd => ?_⟩, fun htable => absurd rfl htable⟩
  · obtain ⟨f, hf, rfl⟩ := hmem d hd
    exact exists_token_of_fault hf
  · -- no diagnostic gets lost
    obtain ⟨f, hf⟩ := List.exists_mem_of_ne_nil _ h
    exact List.ne_nil_of_mem (Diagnostic.mem_sort.mpr (List.mem_map_of_mem hf))
  · obtain ⟨f, -, rfl⟩ := hmem d hd
    exact ⟨rfl, rfl⟩

theorem mem_diagnostics_ofProgram {options : Analysis.Options} {path : Text} {p : Program}
    {d : Diagnostic} : d ∈ (ofProgram options path p).diagnostics ↔
      ∃ f ∈ ((Analyzer.new options).analyze (some p)).1.findings, f.diagnostic = d := by
  rw [diagnostics_ofProgram, Diagnostic.mem_sort, List.mem_map]

theorem wellFormed_ofProgram (options : Analysis.Options) (path : Text)
    (h : (Parser.parse src).faults = []) :
    WellFormed src (ofProgram options path (Parser.parse src).program) := by
  have htable : (ofProgram options path (Parser.parse src).program).table ≠ none :=
    Option.some_ne_none _
  refine ⟨?_, fun d hd => ?_, ⟨fun hnone => absurd hnone htable, fun hfaults => absurd h hfaults⟩,
    fun hnone => absurd hnone htable, fun _ d hd => ?_⟩
  · rw [diagnostics_ofProgram]
    exact Diagnostic.pairwise_sort _
  · obtain ⟨f, hf, rfl⟩ := mem_diagnostics_ofProgram.mp hd
    exact exists_token_of_finding options hf
  · obtain ⟨f, -, rfl⟩ := mem_diagnostics_ofProgram.mp hd
    rfl

theorem ofSource_of_faults (options : Analysis.Options) (path : Text)
    (h : (Parser.parse src).faults ≠ []) :
    ofSource options path src = ofFaults path (Parser.parse src) :=
  if_neg fun hempty => h (List.isEmpty_iff.mp hempty)

theorem ofSource_of_no_faults (options : Analysis.Options) (path : Text)
    (h : (Parser.parse src).faults = []) :
    ofSource options path src = ofProgram options path (Parser.parse src).program :=
  if_pos (List.isEmpty_iff.mpr h)

theorem wellFormed_ofSource (options : Analysis.Options) (path src : Text) :
    WellFormed src (ofSource options path src) := by
  by_cases h : (Parser.parse src).faults = []
  · rw [ofSource_of_no_faults options path h]
    exact wellFormed_ofProgram options path h
  · rw [ofSource_of_faults options path h]
    exact wellFormed_ofFaults path h

end

end Compiled

/-! ### Expressions without a type -/

namespace Analysis

/-- **Analysis reads an expression**, at an occurrence in a program, and this is what it finds. -/
def ReadAt (options : Options) (p : Program) (o : Occurrence) (e : Expr) (c : Checked) : Prop :=
  ∃ s, site options p o.place = some s ∧ s.stmt.value?.bind (Expr.part? o.path) = some e ∧
    check s.ctx s.st.table e = c

/-- **An expression without a type is explained**: while it is read, an error is found at one of its
tokens, and whatever is found then is found in the program. -/
theorem reportedAt_of_readAt {options : Options} {p : Program} (hp : ∀ s ∈ p, s.PresentTop)
    {o : Occurrence} {e : Expr} {c : Checked} (h : ReadAt options p o e c)
    (hinvalid : c.ty = .invalid) :
    ReportedAt c.findings e.tokens ∧
      c.findings ⊆ ((Analyzer.new options).analyze (some p)).1.findings := by
  obtain ⟨s, hsite, hexpr, rfl⟩ := h
  obtain ⟨whole, hvalue, hpart⟩ := Option.bind_eq_some_iff.mp hexpr
  have hreads := reads_of_site hp hsite
  refine ⟨reportedAt_of_invalid hreads.valid ((hreads.whole whole hvalue).of_part hpart) hinvalid,
    fun f hf => mem_findings_analyze.mpr (.inr ?_)⟩
  -- from the expression to the expression of its statement, and on to the program
  exact hreads.found whole hvalue (findings_subset_of_part hpart hinvalid hf)

end Analysis

namespace Compiled

/-- **Diagnostics are well-formed, and typing never fails silently.** For every source and all
options:

* the diagnostics of the compiled source are well-formed;
* wherever an expression of the program turns out to have no type, an error is reported while that
  expression is read, at one of its own tokens; and if the source has no syntax errors, so that it
  is analysed when it is compiled, the error is among the diagnostics. -/
theorem diagnostics_wellFormed (options : Analysis.Options) (path src : Text) :
    WellFormed src (ofSource options path src) ∧
    ∀ (o : Occurrence) (e : Expr) (c : Analysis.Checked),
      Analysis.ReadAt options (Parser.parse src).program o e c → c.ty = .invalid →
        ∃ f ∈ c.findings, f.what.severity = .error ∧ (∃ t ∈ e.tokens, f.pos = t.pos) ∧
          f ∈ ((Analyzer.new options).analyze (some (Parser.parse src).program)).1.findings ∧
          ((ofSource options path src).table ≠ none →
            f.diagnostic ∈ (ofSource options path src).diagnostics) := by
  have hwell := wellFormed_ofSource options path src
  refine ⟨hwell, fun o e c hread hinvalid => ?_⟩
  obtain ⟨⟨f, hf, herror, hplace⟩, hfound⟩ :=
    Analysis.reportedAt_of_readAt (Parser.present_parse src).1 hread hinvalid
  refine ⟨f, hf, herror, hplace, hfound hf, fun htable => ?_⟩
  have hfaults : (Parser.parse src).faults = [] :=
    of_not_not fun hfaults => htable (hwell.table.mpr hfaults)
  rw [ofSource_of_no_faults options path hfaults]
  exact mem_diagnostics_ofProgram.mpr ⟨f, hfound hf, rfl⟩

/-- Operations and a declaration around a name that is not there: there is one error, at the name. -/
example : (ofSource {} [] "let x: int = 1; let y = (x + -(z * 2)) == x;").diagnostics =
    [⟨⟨1, 32⟩, .error, .semantic, "Undeclared identifier 'z'"⟩] := by
  decide +kernel

end Compiled
end Slang
