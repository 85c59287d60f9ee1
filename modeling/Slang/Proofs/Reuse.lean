import Slang.Proofs.Options
import Slang.Proofs.Renamed.Program

/-!
# Analysing one program after another

An analyzer keeps the names that functions of earlier programs write to. A global of such a name is
then not used as a constant, which is all that earlier programs change: the later program has the
same scopes and symbols as in an analyzer of its own, a value that is known is known there as well,
and of the diagnostics at most some about constants are missing. This is two runs on one program of
which the second one may know less (`Reuse`), and earlier findings are only added to.
-/

namespace Slang

/-- An analyzer after some programs. -/
def Analyzer.after (a : Analyzer) (ps : List (Option Program)) : Analyzer :=
  ps.foldl (fun a p => (a.analyze p).1) a

namespace Analysis

/-! ### One program after others -/

/-- Two runs with the same numbers, the second of which may know less. -/
def Reuse : Renaming where
  scope := id
  symbol := id
  swapped := []
  lossy := true
  shown := fun _ => true
  base := 0
  before := []
  before' := []
  scope_injective := Function.injective_id
  symbol_injective := Function.injective_id
  scope_global := id_eq globalScope
  nodup_swapped := List.nodup_nil

/-- More names that functions write to only make less known. -/
theorem reuse_checkProgram (options : Options) {mutated mutated' : List Text}
    (hsub : ∀ x, x ∈ mutated → x ∈ mutated') (p : Program) :
    Reuse.States false (checkProgram options mutated p) (checkProgram options mutated' p) := by
  have hctx : Reuse.Contexts (topContext options mutated) (topContext options mutated') :=
    ⟨rfl, rfl, rfl, rfl, rfl, hsub, fun hfalse => nomatch hfalse⟩
  have hstart : Reuse.States false startState startState :=
    renamed_startState (fun _ => rfl) (fun _ => rfl) (fun _ => rfl) rfl rfl
  have hsc := scope_lt_startState options mutated
  obtain ⟨hhoisted, hall⟩ := renamed_hoistAll hctx hsc hstart p
  rw [checkProgram_eq, checkProgram_eq]
  exact renamed_checkTops hctx ⟨Nat.zero_le _, fun _ hfalse => nomatch hfalse⟩ (fun _ => rfl) rfl
    ((grows_hoistAll _ _ p).scope_lt hsc) hhoisted hall

theorem reuse_names {i : ScopeId} {l l' : List (Text × SymbolId)} (h : Reuse.Names i l l') :
    l' = l := by
  obtain ⟨before, mid, after, rfl, rfl, hmid⟩ := h
  have hnil : mid.map Prod.fst = [] := by
    refine List.sublist_nil.mp (hmid.trans ?_)
    split <;> exact List.Sublist.refl []
  rw [List.map_eq_nil_iff.mp hnil, List.reverse_nil]
  exact List.map_id _

/-- **A reused analyzer makes the same scopes.** -/
theorem reuse_scopes {t t' : Table} (h : Reuse.Tables t t') : t'.scopes = t.scopes := by
  refine List.ext_getElem? fun i => ?_
  cases hs : t.scope? i with
  | none => exact (h.scope?_eq_none hs).trans hs.symm
  | some s =>
    obtain ⟨s', hs', hscope⟩ := h.scopes i s hs
    refine hs'.trans (Eq.trans ?_ hs.symm)
    obtain ⟨number, name, outer, names⟩ := s
    obtain ⟨number', name', outer', names'⟩ := s'
    obtain ⟨hnumber, hnumber', hname, houter, hnames⟩ := hscope
    dsimp only at hnumber hnumber' hname houter hnames
    -- nothing is renumbered and no names change places, so that every field is the same
    rw [hnumber, hnumber', hname, houter, reuse_names hnames]
    exact congrArg (fun o => some (Scope.mk i name o names)) (List.map_id outer)

/-- What the second run knows of a symbol. -/
theorem reuse_symbol {k : SymbolId} {s s' : Symbol} (h : Reuse.Symbols k s s') :
    s'.blank = s.blank ∧ ∀ v, s'.known? = some v → s.known? = some v := by
  obtain ⟨name, line, inferred, augmented, content⟩ := s
  obtain ⟨name', line', inferred', augmented', content'⟩ := s'
  obtain ⟨hname, hline, hinferred, hnumbered, hcontent⟩ := h
  dsimp only at hname hline hinferred hcontent
  -- scopes keep their numbers, and so do augmented names
  have haugmented : augmented' = augmented := by
    rcases hnumbered with ⟨h, h'⟩ | ⟨i, h, h'⟩
    · exact h'.trans h.symm
    · exact h'.trans h.symm
  subst hname hline hinferred haugmented
  cases hcontent with
  | «variable» hty hknown hsame =>
    refine ⟨?_, fun w hw => ?_⟩
    · simp only [Symbol.blank, Value.blank_eq_of_ty hty]
    · -- a value that is known after reuse is known without it, and the same
      unfold Symbol.known? at hw
      split at hw
      · next heq =>
        obtain ⟨rfl, rfl⟩ := Symbol.Content.variable.inj heq
        obtain ⟨rfl, rfl⟩ := hknown rfl
        exact hw
      · cases hw
  | function ps result =>
    have hparams : ps.map Reuse.param = ps := List.map_id ps
    rw [hparams]
    exact ⟨rfl, fun _ hv => hv⟩

theorem reuse_symbol? {t t' : Table} (h : Reuse.Tables t t') (k : SymbolId) :
    (t'.symbol? k).map Symbol.blank = (t.symbol? k).map Symbol.blank ∧
      ∀ s v, t'.symbol? k = some s → s.known? = some v →
        ∃ s', t.symbol? k = some s' ∧ s'.known? = some v := by
  rcases h.symbol? k with ⟨hs, hs'⟩ | ⟨s, s', hs, hs', hsymbol⟩
  · change t'.symbol? k = none at hs'
    rw [hs, hs']
    exact ⟨rfl, fun _ _ h => nomatch h⟩
  · change t'.symbol? k = some s' at hs'
    obtain ⟨hblank, hknown⟩ := reuse_symbol hsymbol
    rw [hs, hs']
    refine ⟨congrArg some hblank, ?_⟩
    rintro _ v ⟨⟩ hv
    exact ⟨s, rfl, hknown v hv⟩

end Analysis

/-! ### All programs -/

namespace Analyzer

open Analysis

theorem options_after (a : Analyzer) (ps : List (Option Program)) :
    (a.after ps).options = a.options := by
  induction ps generalizing a with
  | nil => rfl
  | cons p ps ih =>
    refine (ih (a.analyze p).1).trans ?_
    cases p <;> rfl

/-- What one more program adds to the findings: those of an analyzer of its own, but some of them
about constants may be missing. -/
theorem findings_analyze (a : Analyzer) (p : Option Program) :
    ∃ fs, (a.analyze p).1.findings = a.findings ++ fs ∧
      Without Finding.IsFoldError ((new a.options).analyze p).1.findings fs := by
  cases p with
  | none => exact ⟨[], (List.append_nil _).symm, .nil⟩
  | some p =>
    -- the names that earlier programs assign are added to those of this one
    have hsub : ∀ x, x ∈ p.globalWrites → x ∈ a.mutated ++ p.globalWrites :=
      fun x hx => List.mem_append_right a.mutated hx
    obtain ⟨fs, fs', hfs, hfs', hfound⟩ := (reuse_checkProgram a.options hsub p).found
    refine ⟨_, rfl, ?_⟩
    have hleft : (checkProgram a.options p.globalWrites p).found = fs := hfs
    have hright : (checkProgram a.options (a.mutated ++ p.globalWrites) p).found = fs' := hfs'
    change Without _ ([] ++ (checkProgram a.options ([] ++ p.globalWrites) p).found)
      (checkProgram a.options (a.mutated ++ p.globalWrites) p).found
    rw [List.nil_append, List.nil_append, hleft, hright]
    have hmap := hfound.map id (q := Finding.IsFoldError) fun _ hf => hf.2
    rwa [List.map_id, List.map_id] at hmap

/-- What some programs add to the findings, one list for each of them. -/
theorem findings_after (a : Analyzer) (ps : List (Option Program)) :
    ∃ lists : List (List Finding), (a.after ps).findings = a.findings ++ lists.flatten ∧
      List.Forall₂ (fun p fs =>
        Without Finding.IsFoldError ((new a.options).analyze p).1.findings fs) ps lists := by
  induction ps generalizing a with
  | nil => exact ⟨[], (List.append_nil _).symm, .nil⟩
  | cons p ps ih =>
    obtain ⟨fs, hfs, hfirst⟩ := a.findings_analyze p
    obtain ⟨lists, hlists, hrest⟩ := ih (a.analyze p).1
    have hoptions : (a.analyze p).1.options = a.options := a.options_after [p]
    rw [hoptions] at hrest
    refine ⟨fs :: lists, ?_, .cons hfirst hrest⟩
    rw [List.flatten_cons, ← List.append_assoc, ← hfs]
    exact hlists

/-- Lists of findings as diagnostics, in the order of each list. -/
theorem diagnostics_of_lists {options : Options} {ps : List (Option Program)}
    {lists : List (List Finding)}
    (h : List.Forall₂ (fun p fs =>
      Without Finding.IsFoldError ((new options).analyze p).1.findings fs) ps lists) :
    ∃ parts : List (List Diagnostic),
      (lists.flatten.map Finding.diagnostic).Perm parts.flatten ∧
        List.Forall₂ (fun p ds => Without (fun d => d.isFoldError = true)
          ((new options).analyze p).1.diagnostics ds) ps parts := by
  induction h with
  | nil => exact ⟨[], .nil, .nil⟩
  | @cons p fs ps lists hfirst _ ih =>
    obtain ⟨parts, hperm, hall⟩ := ih
    have hmap : Without (fun d => d.isFoldError = true)
        (((new options).analyze p).1.findings.map Finding.diagnostic)
        (fs.map Finding.diagnostic) :=
      hfirst.map Finding.diagnostic fun f hf => (isFoldError_diagnostic f).mpr hf
    -- a fresh analyzer sorts its diagnostics, and what is missing can be left out before or after
    obtain ⟨ds, hds, hsorted⟩ := hmap.perm (List.mergeSort_perm _ _).symm
    refine ⟨ds :: parts, ?_, .cons hds hall⟩
    rw [List.flatten_cons, List.flatten_cons, List.map_append]
    exact hsorted.append hperm

/-- **An analyzer that is used again finds no more than a new one.** For every sequence of programs
and any options, of what the analyzer returns for the last program:

* the scopes are those that a new analyzer makes, and so are the symbols, up to what is known of the
  values of variables;
* a variable whose value is known has the same value in a new analyzer, and it is known there;
* the diagnostics so far are one list for each program, in some order: the diagnostics of a new
  analyzer for this program, but some errors about constants that overflow or divide by zero may be
  missing. -/
theorem reused_analyzer_is_conservative (options : Options) (ps : List (Option Program))
    (p : Option Program) :
    let reused := ((new options).after ps).analyze p
    let fresh := (new options).analyze p
    reused.2.table.scopes = fresh.2.table.scopes ∧
      reused.2.table.symbols.map Symbol.blank = fresh.2.table.symbols.map Symbol.blank ∧
      (∀ k s v, reused.2.table.symbol? k = some s → s.known? = some v →
        ∃ s', fresh.2.table.symbol? k = some s' ∧ s'.known? = some v) ∧
      ∃ parts : List (List Diagnostic), reused.1.diagnostics.Perm parts.flatten ∧
        List.Forall₂ (fun q ds => Without (fun d => d.isFoldError = true)
          ((new options).analyze q).1.diagnostics ds) (ps ++ [p]) parts := by
  -- the two runs on the last program correspond, with nothing renumbered
  have htable : Reuse.Tables ((new options).analyze p).2.table
      (((new options).after ps).analyze p).2.table := by
    cases p with
    | none => exact (renamed_startState (fun _ => rfl) (fun _ => rfl) (fun _ => rfl) rfl rfl).table
    | some p =>
      unfold Analyzer.analyze
      dsimp only
      rw [options_after]
      exact (reuse_checkProgram options (fun x hx => List.mem_append_right _ hx) p).table
  refine ⟨reuse_scopes htable, ?_, fun k s v hs hv => (reuse_symbol? htable k).2 s v hs hv, ?_⟩
  · refine List.ext_getElem? fun k => ?_
    rw [List.getElem?_map, List.getElem?_map]
    exact (reuse_symbol? htable k).1
  · obtain ⟨lists, hlists, hall⟩ := (new options).findings_after (ps ++ [p])
    obtain ⟨parts, hperm, hparts⟩ := diagnostics_of_lists hall
    refine ⟨parts, ?_, hparts⟩
    -- what is reported are the findings of all programs, this one included
    have hlast : (((new options).after ps).analyze p).1 = (new options).after (ps ++ [p]) := by
      unfold Analyzer.after
      rw [List.foldl_append]
      rfl
    rw [hlast]
    unfold Analyzer.diagnostics
    rw [hlists]
    exact (List.mergeSort_perm _ _).trans hperm

end Analyzer
end Slang
