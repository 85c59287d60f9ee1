import Slang.Compiled
import Slang.Proofs.Alike.Program
import Slang.Proofs.Layout.Statements
import Slang.Proofs.Sorting

/-!
# Layout does not matter

Sources with the same tokens, in kinds and literals, differ in blanks, line breaks and comments
only. Compiling them gives the same program, the same scopes and symbols and the same diagnostics in
the same order; only places differ, and they correspond token by token (`alike_of_same_tokens`).

The order of diagnostics needs an argument, since they are sorted by place and places differ. Tokens
stand one after the other in every source, so two findings at tokens are in the same order in both
sources (`le_of_place`). This fails for the end of a source, which may stand at its last token in
one source and after it in the other: there two syntax errors at different places may move to one.
But syntax errors are found in the order of their tokens, so sorting leaves them as they are.
-/

namespace Slang

namespace Position

/-- Strictly before. -/
def Before (p q : Position) : Prop := q.le p = false

/-- Strictly before, in lines and columns. -/
theorem before_iff {p q : Position} :
    p.Before q ↔ p.line < q.line ∨ p.line = q.line ∧ p.column < q.column := by
  rw [Before, Bool.eq_false_iff, Ne, le_iff]
  omega

theorem Before.le {p q : Position} (h : p.Before q) : p.le q = true := by
  have htotal := le_total p q
  rwa [h, Bool.or_false] at htotal

theorem Before.trans_le {p q r : Position} (h : p.Before q) (h' : q.le r = true) :
    p.Before r := by
  rw [before_iff] at h ⊢
  rw [le_iff] at h'
  omega

/-- Reading a byte leads strictly onward: a line feed to the next line, any other byte to the next
column. -/
theorem before_next (p : Position) (b : UInt8) : p.Before (p.next b) := by
  rw [before_iff]
  unfold next
  split <;> dsimp only <;> omega

/-- Reading never leads back. -/
theorem le_after (p : Position) (t : Text) : p.le (p.after t) = true := by
  induction t generalizing p with
  | nil => exact le_refl p
  | cons b t ih => exact le_trans (before_next p b).le (ih (p.next b))

theorem before_after (p : Position) (b : UInt8) (t : Text) : p.Before (p.after (b :: t)) :=
  (before_next p b).trans_le (le_after (p.next b) t)

/-- Stepping back by one does not go before what was strictly before. -/
theorem Before.le_back {p q : Position} (h : p.Before q) : p.le q.back = true := by
  rw [before_iff] at h
  rw [le_iff, back]
  dsimp only
  omega

end Position

/-! ### Tokens stand one after the other -/

namespace Lexer

/-- Past a piece and then past the rest is past all of it. -/
theorem after_piece (p : Position) (b : UInt8) (rest : Text) (n : Nat) :
    (p.after (b :: rest.take n)).after (rest.drop n) = p.after (b :: rest) := by
  rw [← Position.after_append, List.cons_append, List.take_append_drop]

/-- Tokens stand from the first byte on and before the end. -/
theorem mem_tokensFrom (p : Position) (t : Text) :
    ∀ a ∈ tokensFrom p t, p.le a.pos = true ∧ a.pos.Before (p.after t) := by
  induction p, t using tokensFrom.induct with
  | case1 p =>
    rw [tokensFrom]
    exact List.forall_mem_nil _
  -- blanks and comments move the start forward and give no token
  | case2 p b rest n hpiece ih =>
    rw [tokensFrom, hpiece]
    intro a ha
    obtain ⟨hfrom, hto⟩ := ih a ha
    rw [after_piece] at hto
    exact ⟨Position.le_trans (Position.le_after p _) hfrom, hto⟩
  | case3 p b rest kind literal n hpiece ih =>
    rw [tokensFrom, hpiece]
    intro a ha
    rcases List.mem_cons.mp ha with rfl | ha
    · exact ⟨Position.le_refl p, Position.before_after p b rest⟩
    · obtain ⟨hfrom, hto⟩ := ih a ha
      rw [after_piece] at hto
      exact ⟨Position.le_trans (Position.le_after p _) hfrom, hto⟩

/-- Each token stands strictly after the one before it. -/
theorem pairwise_tokensFrom (p : Position) (t : Text) :
    (tokensFrom p t).Pairwise fun a b => a.pos.Before b.pos := by
  induction p, t using tokensFrom.induct with
  | case1 p =>
    rw [tokensFrom]
    exact .nil
  | case2 p b rest n hpiece ih =>
    rw [tokensFrom, hpiece]
    exact ih
  | case3 p b rest kind literal n hpiece ih =>
    rw [tokensFrom, hpiece]
    -- all later tokens are read past the first byte of this one
    refine .cons (fun a ha => ?_) ih
    exact (Position.before_after p b _).trans_le (mem_tokensFrom _ _ a ha).1

theorem pairwise_tokens (src : Text) : (tokens src).Pairwise fun a b => a.pos.Before b.pos :=
  pairwise_tokensFrom .start (readable src)

/-- All tokens of a source, with the one at its end. -/
def sequence (src : Text) : List Token := tokens src ++ [eof src]

/-- With the end among them, tokens no longer stand strictly one after the other: the end has the place
of the last byte, which may be a token. -/
theorem pairwise_sequence (src : Text) :
    (sequence src).Pairwise fun a b => a.pos.le b.pos = true := by
  refine List.pairwise_append.mpr ⟨(pairwise_tokens src).imp fun h => h.le,
    List.pairwise_singleton _ _, fun a ha b hb => ?_⟩
  obtain rfl := List.mem_singleton.mp hb
  -- the end is one step back from where reading stops
  exact (mem_tokensFrom .start (readable src) a ha).2.le_back

end Lexer

/-! ### Places that correspond -/

/-- The places of the tokens with the same index in two lists. -/
def SamePlace (ts ts' : List Token) (p p' : Position) : Prop :=
  ∃ i : Nat, (ts.map (·.pos))[i]? = some p ∧ (ts'.map (·.pos))[i]? = some p'

section
variable {ts ts' : List Token}

/-- What holds of the places of any two tokens in order holds of those with two indices in order. -/
theorem pos_of_pairwise {R : Position → Position → Prop} (h : ts.Pairwise fun a b => R a.pos b.pos)
    {i j : Nat} {p q : Position} (hij : i < j) (hp : (ts.map (·.pos))[i]? = some p)
    (hq : (ts.map (·.pos))[j]? = some q) : R p q := by
  obtain ⟨hi, rfl⟩ := List.getElem?_eq_some_iff.mp hp
  obtain ⟨hj, rfl⟩ := List.getElem?_eq_some_iff.mp hq
  exact List.pairwise_iff_getElem.mp (List.pairwise_map.mpr h) i j hi hj hij

/-- **Two tokens are in the same order in both lists.** -/
theorem le_of_place (h : ts.Pairwise fun a b => a.pos.Before b.pos)
    (h' : ts'.Pairwise fun a b => a.pos.Before b.pos) {p p' q q' : Position}
    (hp : SamePlace ts ts' p p') (hq : SamePlace ts ts' q q') : p.le q = p'.le q' := by
  obtain ⟨i, hp, hp'⟩ := hp
  obtain ⟨j, hq, hq'⟩ := hq
  -- positions are ordered as indices are, on both sides
  rcases Nat.lt_trichotomy i j with hij | rfl | hij
  · rw [(pos_of_pairwise h hij hp hq).le, (pos_of_pairwise h' hij hp' hq').le]
  · obtain rfl : p = q := Option.some.inj (hp.symm.trans hq)
    obtain rfl : p' = q' := Option.some.inj (hp'.symm.trans hq')
    rw [Position.le_refl, Position.le_refl]
  · exact (pos_of_pairwise h hij hq hp).trans (pos_of_pairwise h' hij hq' hp').symm

/-- Lists of the same tokens correspond. -/
theorem rows_of_map_eq
    (h : ts.map (fun t => (t.kind, t.literal)) = ts'.map fun t => (t.kind, t.literal)) :
    Parser.Rows (SamePlace ts ts') ts ts' := by
  have hlen : ts.length = ts'.length := by simpa using congrArg List.length h
  refine List.forall₂_iff_get.mpr ⟨hlen, fun i hi hi' => ?_⟩
  -- at each index, the two kinds and the two literals are equal
  have hi₂ := congrArg (·[i]?) h
  simp only [List.getElem?_map, List.getElem?_eq_getElem hi, List.getElem?_eq_getElem hi',
    Option.map_some, Option.some.injEq, Prod.mk.injEq] at hi₂
  exact ⟨hi₂.1.symm, hi₂.2.symm, i, by simp [hi], by simp [hi']⟩

/-! ### Syntax errors -/

namespace Parser

variable {eof eof' : Token}

/-- The token with an index, or the end, is in the list with its end. -/
theorem getElem?_headD_drop (eof : Token) (ts : List Token) (i : Nat) :
    ((ts ++ [eof]).map (·.pos))[min i ts.length]? = some ((ts.drop i).headD eof).pos := by
  rcases Nat.lt_or_ge i ts.length with hi | hi
  · rw [Nat.min_eq_left (Nat.le_of_lt hi), List.drop_eq_getElem_cons hi, List.headD_cons,
      List.getElem?_map, List.getElem?_append_left hi, List.getElem?_eq_getElem hi, Option.map_some]
  · rw [Nat.min_eq_right hi, List.drop_eq_nil_of_le hi, List.headD_nil, List.getElem?_map,
      List.getElem?_append_right (Nat.le_refl _), Nat.sub_self]
    rfl

/-- Going on in the tokens does not go back in the source. -/
theorem le_headD_drop (hts : (ts ++ [eof]).Pairwise fun a b => a.pos.le b.pos = true) {i j : Nat}
    (hij : i ≤ j) : ((ts.drop i).headD eof).pos.le ((ts.drop j).headD eof).pos = true := by
  -- indices past the tokens all stand for the end
  have hi := getElem?_headD_drop eof ts i
  have hj := getElem?_headD_drop eof ts j
  -- either two entries of the list, or the end twice
  rcases Nat.lt_or_ge (min i ts.length) (min j ts.length) with hlt | hge
  · exact pos_of_pairwise (R := fun p q => p.le q = true) hts hlt hi hj
  · have hsame : min i ts.length = min j ts.length := by omega
    rw [hsame] at hi
    rw [Option.some.inj (hi.symm.trans hj)]
    exact Position.le_refl _

theorem FaultsIn.symm {lo hi : Nat} {fs fs' : List Fault}
    (h : FaultsIn eof eof' ts ts' lo hi fs fs') : FaultsIn eof' eof ts' ts lo hi fs' fs := by
  induction h with
  | nil h => exact .nil h
  | cons hlo hf _ ih => exact .cons hlo ⟨hf.what.symm, hf.right, hf.left⟩ ih

/-- Both sources have syntax errors, or none has. -/
theorem FaultsIn.isEmpty {lo hi : Nat} {fs fs' : List Fault}
    (h : FaultsIn eof eof' ts ts' lo hi fs fs') : fs'.isEmpty = fs.isEmpty := by
  cases h <;> rfl

/-- **Syntax errors are found in the order of their places.** -/
theorem FaultsIn.pairwise {lo hi : Nat} {fs fs' : List Fault}
    (hts : (ts ++ [eof]).Pairwise fun a b => a.pos.le b.pos = true)
    (h : FaultsIn eof eof' ts ts' lo hi fs fs') :
    (∀ f ∈ fs, ((ts.drop lo).headD eof).pos.le f.pos = true) ∧
      fs.Pairwise fun f g => f.pos.le g.pos = true := by
  induction h with
  | nil h => exact ⟨List.forall_mem_nil _, .nil⟩
  -- later errors have later indices, and by `le_headD_drop` later places
  | cons hlo hf _ ih =>
    refine ⟨fun g hg => ?_, .cons (fun g hg => ?_) ih.2⟩
    · rcases List.mem_cons.mp hg with rfl | hg
      · rw [hf.left]
        exact le_headD_drop hts hlo
      · exact Position.le_trans (le_headD_drop hts hlo) (ih.1 g hg)
    · rw [hf.left]
      exact ih.1 g hg

/-- Errors correspond one by one, at the same indices. Indices past the end are those of the end. -/
theorem FaultsIn.forall₂ (hlen : ts.length = ts'.length) {lo hi : Nat} {fs fs' : List Fault}
    (h : FaultsIn eof eof' ts ts' lo hi fs fs') :
    List.Forall₂ (fun f f' => f'.what = f.what ∧
      SamePlace (ts ++ [eof]) (ts' ++ [eof']) f.pos f'.pos) fs fs' := by
  induction h with
  | nil => exact .nil
  | @cons _ _ i _ _ _ _ _ hf _ ih =>
    refine .cons ⟨hf.what, min i ts.length, ?_, ?_⟩ ih
    · rw [hf.left, getElem?_headD_drop]
    · rw [hf.right, hlen, getElem?_headD_drop]

end Parser

end

/-! ### What comes of compiling -/

/-- The same symbol; the lines of its declaration correspond. -/
structure Symbol.Alike (ρ : Position → Position → Prop) (s s' : Symbol) : Prop where
  line : LinesAlike ρ s.line s'.line
  rest : s' = { s with line := s'.line }

/-- The same scopes, and the same symbols under the same numbers. -/
structure Table.Alike (ρ : Position → Position → Prop) (t t' : Table) : Prop where
  scopes : t'.scopes = t.scopes
  symbols : List.Forall₂ (Symbol.Alike ρ) t.symbols t'.symbols

section
variable (src src' : Text)

/-- **The same diagnostic**, at the token with the same index; lines that it quotes correspond. Only
syntax errors stand at the end of a source. -/
inductive Diagnostic.Alike : Diagnostic → Diagnostic → Prop
  | syntactic {f f' : Fault} (hwhat : f'.what = f.what)
      (hpos : SamePlace (Lexer.sequence src) (Lexer.sequence src') f.pos f'.pos) :
      Alike f.diagnostic f'.diagnostic
  | semantic {f f' : Finding}
      (h : Finding.Alike (SamePlace (Lexer.tokens src) (Lexer.tokens src')) f f') :
      Alike f.diagnostic f'.diagnostic

/-- **Compiled sources that differ in places only.** -/
structure Compiled.Alike (c c' : Compiled) : Prop where
  path : c'.path = c.path
  program : Program.Alike (SamePlace (Lexer.tokens src) (Lexer.tokens src')) c.program c'.program
  table : Option.Rel (Table.Alike (SamePlace (Lexer.tokens src) (Lexer.tokens src')))
    c.table c'.table
  diagnostics : List.Forall₂ (Diagnostic.Alike src src') c.diagnostics c'.diagnostics

end

namespace Compiled

/-- One analysis of two trees. -/
def layoutRuns (options : Analysis.Options) (place : Position → Position → Prop) :
    Analysis.Runs where
  place := place
  left := options
  right := options
  fold := id
  warn := id

section
variable (options : Analysis.Options) {ρ : Position → Position → Prop}

/-- Both analyses compute constants or none does, so no value is lost. -/
theorem loses_layoutRuns : (layoutRuns options ρ).loses = false := Bool.and_not_self _

/-- No finding is left out: the options are the same. -/
theorem filter_keeps_layoutRuns (fs : List Finding) :
    fs.filter (layoutRuns options ρ).keeps = fs := by
  refine List.filter_eq_self.mpr fun f _ => ?_
  rw [← Bool.not_eq_false, Analysis.Runs.keeps_eq_false_iff]
  have hmutes : (layoutRuns options ρ).mutes = false := Bool.and_not_self _
  simp [loses_layoutRuns, hmutes]

/-- Symbols of two runs with the same options differ in their lines only. -/
theorem symbolAlike_of_symbols {s s' : Symbol} (h : (layoutRuns options ρ).Symbols s s') :
    s.Alike ρ s' := by
  obtain ⟨name, line, inferred, augmented, content⟩ := s
  obtain ⟨name', line', inferred', augmented', content'⟩ := s'
  obtain ⟨hname, hline, hinferred, haugmented, hcontent⟩ := h
  dsimp only at hname hline hinferred haugmented hcontent
  subst hname hinferred haugmented
  refine ⟨hline, ?_⟩
  cases hcontent with
  | «variable» hty hlost hsame =>
    -- values are equal as well, since none was lost
    obtain ⟨rfl, rfl⟩ := hsame (loses_layoutRuns options)
    rfl
  | function ps result => rfl

end

section
variable {src src' : Text}

/-- Sources with syntax errors. -/
theorem ofFaults_alike (path : Text) (hlen : (Lexer.tokens src).length = (Lexer.tokens src').length)
    {r r' : Parser.Result} {hi : Nat}
    (hprogram : r.program.Alike (SamePlace (Lexer.tokens src) (Lexer.tokens src')) r'.program)
    (hfaults : Parser.FaultsIn (Lexer.eof src) (Lexer.eof src') (Lexer.tokens src)
      (Lexer.tokens src') 0 hi r.faults r'.faults) :
    Alike src src' (ofFaults path r) (ofFaults path r') := by
  -- neither list changes when it is sorted
  have hsorted := (hfaults.pairwise (Lexer.pairwise_sequence src)).2
  have hsorted' := (hfaults.symm.pairwise (Lexer.pairwise_sequence src')).2
  refine ⟨rfl, hprogram, .none, ?_⟩
  unfold ofFaults
  rw [Diagnostic.sort_of_pairwise (List.pairwise_map.mpr hsorted),
    Diagnostic.sort_of_pairwise (List.pairwise_map.mpr hsorted')]
  rw [List.forall₂_map_left_iff, List.forall₂_map_right_iff]
  exact (hfaults.forall₂ hlen).imp fun f f' h => .syntactic h.1 h.2

/-- Sorting twice is sorting once. -/
theorem diagnostics_ofProgram (options : Analysis.Options) (path : Text) (p : Program) :
    (ofProgram options path p).diagnostics = Diagnostic.sort
      (((Analyzer.new options).analyze (some p)).1.findings.map Finding.diagnostic) :=
  Diagnostic.sort_sort _

/-- Sources without syntax errors. -/
theorem ofProgram_alike (options : Analysis.Options) (path : Text) {p p' : Program}
    (hp : p.Alike (SamePlace (Lexer.tokens src) (Lexer.tokens src')) p') :
    Alike src src' (ofProgram options path p) (ofProgram options path p') := by
  obtain ⟨htables, hfindings⟩ := Analysis.alike_analyze
    (m := layoutRuns options (SamePlace (Lexer.tokens src) (Lexer.tokens src'))) hp
  refine ⟨rfl, hp, .some ⟨htables.scopes, ?_⟩, ?_⟩
  · exact htables.symbols.imp fun s s' => symbolAlike_of_symbols options
  · -- all findings stand at tokens, which are in the same order in both sources
    rw [Analysis.Runs.Findings, filter_keeps_layoutRuns] at hfindings
    rw [diagnostics_ofProgram, diagnostics_ofProgram]
    have hplaces : List.Forall₂ (fun d d' => Diagnostic.Alike src src' d d' ∧
        SamePlace (Lexer.tokens src) (Lexer.tokens src') d.pos d'.pos)
        (((Analyzer.new options).analyze (some p)).1.findings.map Finding.diagnostic)
        (((Analyzer.new options).analyze (some p')).1.findings.map Finding.diagnostic) := by
      rw [List.forall₂_map_left_iff, List.forall₂_map_right_iff]
      exact hfindings.imp fun f f' h => ⟨.semantic h, h.pos⟩
    have hsorted := Diagnostic.forall₂_sort hplaces fun a a' b b' ha hb =>
      le_of_place (Lexer.pairwise_tokens src) (Lexer.pairwise_tokens src') ha.2 hb.2
    exact hsorted.imp fun d d' h => h.1

/-- **Layout does not matter.** Sources with the same tokens, in kinds and literals, compile to the
same program, the same scopes and symbols and the same diagnostics in the same order. Places
correspond token by token, and so do the lines that symbols keep and messages quote. -/
theorem alike_of_same_tokens (options : Analysis.Options) (path : Text)
    (h : (Lexer.tokens src).map (fun t => (t.kind, t.literal)) =
      (Lexer.tokens src').map fun t => (t.kind, t.literal)) :
    Alike src src' (ofSource options path src) (ofSource options path src') := by
  have hlen : (Lexer.tokens src).length = (Lexer.tokens src').length := by
    simpa using congrArg List.length h
  have hend : Parser.SameEnd (Lexer.eof src) (Lexer.eof src') := ⟨rfl, rfl, rfl⟩
  obtain ⟨hprogram, hi, hfaults⟩ := Parser.program_alike hend _ _ (rows_of_map_eq h)
  have hempty : (Parser.parse src').faults.isEmpty = (Parser.parse src).faults.isEmpty :=
    hfaults.isEmpty
  unfold ofSource
  dsimp only
  rw [hempty]
  split
  · exact ofProgram_alike options path hprogram
  · exact ofFaults_alike path hlen hprogram hfaults

end

/-- A source on one line. -/
def denseSource : Text :=
  "let x = 1; fn f(): int { let x = 2; let x = 3; return x; }"

/-- The same tokens on many lines, with comments. -/
def sparseSource : Text :=
  "let x = 1; // outside
fn f(): int {
  let x = 2;
  /* again */ let x
    = 3;
  return x;
}
"

/-- What is found in a source, without its place. -/
def problems (src : Text) : List SemanticProblem :=
  ((Analyzer.new {}).analyze (some (Parser.parse src).program)).1.findings.map (·.what)

/-- Both sources have a warning and an error, and the error quotes a line. -/
theorem alike_denseSource :
    (Lexer.tokens denseSource).map (fun t => (t.kind, t.literal)) =
        (Lexer.tokens sparseSource).map (fun t => (t.kind, t.literal)) ∧
      problems denseSource = [.shadows "x" "x: int" 1, .redeclared "x" (some 1)] ∧
      problems sparseSource = [.shadows "x" "x: int" 1, .redeclared "x" (some 3)] ∧
      Alike denseSource sparseSource (ofSource {} [] denseSource)
        (ofSource {} [] sparseSource) := by
  have htokens : (Lexer.tokens denseSource).map (fun t => (t.kind, t.literal)) =
      (Lexer.tokens sparseSource).map fun t => (t.kind, t.literal) := by
    decide +kernel
  exact ⟨htokens, by decide +kernel, by decide +kernel, alike_of_same_tokens {} [] htokens⟩

end Compiled
end Slang
