import Slang.Proofs.Diagnostics
import Slang.Proofs.Lines.Findings
import Slang.Proofs.Paths

/-!
# One line for each diagnostic

Rendering puts a line feed after each diagnostic and nothing else between them. So a rendering has
one line for each diagnostic if and only if no message has a line feed of its own.

A message of analysis never has one. A syntax error has one if and only if it shows a string of the
source whose content has one: such a message shows the content as it is, and not in quotes
(`Diagnostic.BreaksLine`). What this comes to for a rendering is `render_one_line_each`.
-/

namespace Slang

/-! ### Cutting a text into lines -/

namespace Text

/-- Lines that end with a line feed each, one after the other. -/
theorem split_lines {lines : List Text} (h : ∀ l ∈ lines, l.OneLine) :
    split lineFeed (lines.flatMap (· ++ [lineFeed])) = lines ++ [[]] := by
  induction lines with
  | nil => rfl
  | cons l ls ih =>
    obtain ⟨hl, hls⟩ := List.forall_mem_cons.mp h
    rw [List.flatMap_cons, List.append_assoc, List.singleton_append, split_append_cons hl, ih hls]
    rfl

/-- There are as many line feeds as lines if and only if each line has only the one at its end. -/
theorem count_lines_eq_length_iff {lines : List Text} :
    (lines.flatMap (· ++ [lineFeed])).count lineFeed = lines.length ↔ ∀ l ∈ lines, l.OneLine := by
  have hcount : (lines.flatMap (· ++ [lineFeed])).count lineFeed =
      lines.length + (lines.map (List.count lineFeed)).sum := by
    induction lines with
    | nil => rfl
    | cons l ls ih =>
      rw [List.flatMap_cons, List.count_append, List.count_append, ih, List.count_singleton_self,
        List.map_cons, List.sum_cons, List.length_cons]
      omega
  rw [hcount, Nat.add_eq_left, List.sum_eq_zero_iff_forall_eq_nat, List.forall_mem_map]
  exact forall₂_congr fun l _ => List.count_eq_zero

end Text

/-! ### Rendering -/

namespace Diagnostic

/-- A diagnostic after the path of its file, without the line feed at its end. -/
def located (path : Text) (d : Diagnostic) : Text := path ++ ":" ++ d.line

theorem render_eq (path : Text) (ds : List Diagnostic) :
    render path ds = (ds.map (located path)).flatMap (· ++ [Text.lineFeed]) := by
  rw [List.flatMap_map]
  rfl

/-- **A syntax error that shows a string of more than one line**, at the place of the string. -/
def BreaksLine (src : Text) (d : Diagnostic) : Prop :=
  d.phase = .syntactic ∧ ∃ t ∈ Lexer.tokens src, t.kind = .string ∧ Text.lineFeed ∈ t.literal ∧
    d.pos = t.pos ∧ SyntaxProblem.shown t.kind t.literal <:+: d.message

/-- A shown string brings its line feeds into the message. -/
theorem BreaksLine.not_oneLine {src : Text} {d : Diagnostic} (h : d.BreaksLine src) :
    ¬d.message.OneLine := by
  obtain ⟨-, t, -, -, hfeed, -, hshown⟩ := h
  intro hline
  refine hline (hshown.subset ?_)
  exact List.mem_append_left _ (List.mem_append_right _ hfeed)

end Diagnostic

namespace Compiled

/-- **Diagnostics of a source** are of one of the two phases, and on one line unless they show a
string that is not. -/
theorem oneLine_or_breaksLine {options : Analysis.Options} {name src : Text} {d : Diagnostic}
    (hd : d ∈ (ofSource options name src).diagnostics) :
    d.phase.name.OneLine ∧ (d.message.OneLine ∨ d.BreaksLine src) := by
  -- semantic messages quote names only; a syntax error may quote any token
  by_cases hfaults : (Parser.parse src).faults = []
  · rw [ofSource_of_no_faults options name hfaults] at hd
    obtain ⟨f, hf, rfl⟩ := mem_diagnostics_ofProgram.mp hd
    have hstate := Analysis.oneLine_checkProgram options
      ([] ++ (Parser.parse src).program.globalWrites) (Parser.oneLine_of_parse hfaults)
    refine ⟨(by decide : Phase.semantic.name.OneLine), .inl (hstate.found f ?_)⟩
    rcases Analysis.mem_findings_analyze.mp hf with hold | hnew
    · cases hold
    · exact hnew
  · rw [ofSource_of_faults options name hfaults] at hd
    obtain ⟨f, hf, rfl⟩ := List.mem_map.mp (Diagnostic.mem_sort.mp hd)
    refine ⟨(by decide : Phase.syntactic.name.OneLine), ?_⟩
    rcases ((Parser.intact_parse src).2 f hf).oneLine_or_shown with hline | hshown
    · exact .inl hline
    · obtain ⟨t, ht, hkind, hliteral, hpos, hshown⟩ := hshown
      exact .inr ⟨rfl, t, ht, hkind, not_not.mp hliteral, hpos, hshown⟩

/-- A rendered diagnostic is on one line if and only if its message is. -/
theorem oneLine_located {options : Analysis.Options} {name src path : Text} (hpath : path.OneLine)
    {d : Diagnostic} (hd : d ∈ (ofSource options name src).diagnostics) :
    (d.located path).OneLine ↔ d.message.OneLine := by
  have hphase := (oneLine_or_breaksLine hd).1
  have hseverity : d.severity.title.OneLine := by
    cases d.severity with
    | error | warning => decide
    | other code => exact (by decide : Severity.error.title.OneLine)
  simp +decide [Diagnostic.located, Diagnostic.line, hpath, hphase, hseverity]

/-- **One line for each diagnostic, unless a string is shown that has more.** For every source, all
options and every path on one line:

* a message has a line feed if and only if it is that of a syntax error that shows a string of the
  source with a line feed;
* the rendering has as many lines as there are diagnostics if and only if there is no such message;
* then the lines are the diagnostics in their order, each after the path, and nothing follows the
  last line feed. -/
theorem render_one_line_each (options : Analysis.Options) (name src : Text) {path : Text}
    (hpath : path.OneLine) :
    let ds := (ofSource options name src).diagnostics
    (∀ d ∈ ds, ¬d.message.OneLine ↔ d.BreaksLine src) ∧
    ((Diagnostic.render path ds).count Text.lineFeed = ds.length ↔
      ∀ d ∈ ds, ¬d.BreaksLine src) ∧
    ((∀ d ∈ ds, ¬d.BreaksLine src) →
      (Diagnostic.render path ds).split Text.lineFeed =
        ds.map (fun d => path ++ ":" ++ d.line) ++ [[]]) := by
  intro ds
  have hmessage : ∀ d ∈ ds, ¬d.message.OneLine ↔ d.BreaksLine src := fun d hd =>
    ⟨(oneLine_or_breaksLine hd).2.resolve_left, Diagnostic.BreaksLine.not_oneLine⟩
  -- a path on one line adds no line feed, so that only messages can
  have hlines : (∀ l ∈ ds.map (Diagnostic.located path), l.OneLine) ↔
      ∀ d ∈ ds, ¬d.BreaksLine src := by
    rw [List.forall_mem_map]
    refine forall₂_congr fun d hd => ?_
    rw [oneLine_located hpath hd, ← hmessage d hd, not_not]
  refine ⟨hmessage, ?_, fun hnone => ?_⟩
  · rw [Diagnostic.render_eq, ← hlines, ← Text.count_lines_eq_length_iff, List.length_map]
  · rw [Diagnostic.render_eq]
    exact Text.split_lines (hlines.mpr hnone)

/-- A declaration without a sign of assignment, before a string with an escaped line feed. -/
def brokenSource : Text := "let s: string \"a\\nb\";\n"

/-- The one diagnostic of this source is rendered on two lines. -/
theorem render_brokenSource :
    Text.OneLine "m.sl" ∧ (ofSource {} "m.sl" brokenSource).diagnostics.length = 1 ∧
      (Diagnostic.render "m.sl" (ofSource {} "m.sl" brokenSource).diagnostics).count
        Text.lineFeed ≠ 1 := by
  have hpath : Text.OneLine "m.sl" := by decide
  have hds : (ofSource {} "m.sl" brokenSource).diagnostics =
      [⟨⟨1, 15⟩, .error, .syntactic, "Expected SEMICOLON, got STRING ('a\nb') instead"⟩] := by
    decide +kernel
  have hrender := render_one_line_each {} "m.sl" brokenSource hpath
  rw [hds] at hrender ⊢
  obtain ⟨hmessage, hcount, -⟩ := hrender
  refine ⟨hpath, rfl, fun hone => ?_⟩
  have hbreaks := (hmessage _ List.mem_cons_self).mp (by decide)
  exact hcount.mp hone _ List.mem_cons_self hbreaks

end Compiled
end Slang
