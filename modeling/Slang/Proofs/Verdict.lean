import Slang.Command.Run
import Slang.Proofs.Batch
import Slang.Proofs.Diagnostics
import Slang.Proofs.Flags
import Slang.Proofs.Layers.Loaded
import Slang.Proofs.Rendered

/-!
# One verdict on a file

A file can be checked, and its symbols can be listed. Both commands compile it, and they write and fail in
ways of their own. They agree on every file (`check_agrees_with_symbols`):

* words that only set shared flags are read alike by all commands that take them, so both commands load
  the same settings (`parse_of_shared`);
* settings that were loaded name a level and formats that there are (`Settings.exists_of_check`), so nothing
  but the file decides from there on (`exists_session`);
* each command reports what the compiled file says (`Reports`), and what is listed shows every row of the
  symbol table (`Report.rendering_render`).
-/

namespace Slang

/-! ### Settings that can be worked with -/

namespace Settings

/-- **Valid settings can be worked with**: there is a level, and there are formats with their names for
formats. -/
theorem exists_of_check {s : Settings} (h : s.check = .ok ()) :
    (∃ f : Report.Format, f.name = s.output ∧ Report.Format.ofName? s.output = some f) ∧
      (∃ f, Log.Format.ofName? s.logFormat = some f) ∧ ∃ l, s.level = .ok l := by
  obtain ⟨-, houtput, hformat, hlevel, -⟩ := check_eq_ok_iff.mp h
  refine ⟨?_, ?_, level_isOk_iff.mpr hlevel⟩
  · have hmem : s.output ∈ Report.Format.all.map Report.Format.name := houtput
    obtain ⟨f, -, hf⟩ := List.mem_map.mp hmem
    exact ⟨f, hf, hf ▸ by cases f <;> rfl⟩
  · have hmem : s.logFormat ∈ Log.Format.all.map Log.Format.name := hformat
    obtain ⟨f, -, hf⟩ := List.mem_map.mp hmem
    exact ⟨f, hf ▸ by cases f <;> rfl⟩

end Settings

/-! ### Words that only set shared flags -/

namespace Command

variable {t : FileTree} {env : List (Text × Text)} {words words' rest : List Text} {p : Flag.Parsed}

theorem ne_helpFlag_of_shared {f : Flag} (hf : f ∈ sharedFlags) (c : Command) : f ≠ c.helpFlag := by
  have hnames : ∀ f ∈ sharedFlags, f.name ≠ "help" := by decide
  rintro rfl
  exact hnames _ hf rfl

/-- **Words that only set shared flags are read alike**, whatever command they are for. -/
theorem parse_of_shared (c c' : Command) (hparse : Flag.parse (c.helpFlag :: sharedFlags) rest = .ok p)
    (hshared : ∀ s ∈ p.set, s.1 ∈ sharedFlags) :
    Flag.parse (c'.helpFlag :: sharedFlags) rest = .ok p := by
  -- the flags that ask for help only differ in what they are for
  let u (f : Flag) : Text := if f = c.helpFlag then c'.helpFlag.usage else f.usage
  have hkept : ∀ f ∈ sharedFlags, u f = f.usage := fun f hf => if_neg (ne_helpFlag_of_shared hf c)
  have hshared_map : sharedFlags.map (Flag.reword u) = sharedFlags := by
    refine (List.map_congr_left fun f hf => ?_).trans (List.map_id _)
    unfold Flag.reword
    rw [hkept f hf]
    rfl
  have hhelp : c.helpFlag.reword u = c'.helpFlag := by
    unfold Flag.reword
    rw [show u c.helpFlag = c'.helpFlag.usage from if_pos rfl]
    rfl
  have hreword := Flag.parse_reword u _ hparse
  rw [List.map_cons, hhelp, hshared_map,
    Flag.Parsed.reword_eq_self fun s hs => hkept s.1 (hshared s hs)] at hreword
  exact hreword

/-- No help is asked for by shared flags. -/
theorem help_of_shared (hshared : ∀ s ∈ p.set, s.1 ∈ sharedFlags) (c : Command) :
    p.value c.helpFlag ≠ .bool true := by
  have hnone : (p.set.reverse.find? fun s => s.1 == c.helpFlag) = none := by
    rw [List.find?_eq_none]
    intro s hs
    rw [beq_iff_eq]
    exact ne_helpFlag_of_shared (hshared s (List.mem_reverse.mp hs)) c
  unfold Flag.Parsed.value
  rw [hnone]
  exact fun h => nomatch h

/-! ### What the commands do -/

/-- Where a command is found, its flags are read and no help is asked for, it starts if it takes the
arguments. -/
theorem run_eq {c : Command} (hfind : find words = .ok (c, rest)) (hparse : c.parse rest = .ok p)
    (hhelp : p.value c.helpFlag ≠ .bool true) (hrunnable : c.isRunnable = true) (hc : c ≠ help) :
    run env t words =
      match c.checkArgs p.args with
      | .error e => (t, .fail (.usage e))
      | .ok _ => c.start env t p := by
  -- neither help is asked for nor does the command lack an action
  have hgo : (p.value c.helpFlag == .bool true || !c.isRunnable) = false := by
    rw [hrunnable, Bool.not_true, Bool.or_false]
    exact beq_eq_false_iff_ne.mpr hhelp
  unfold run
  rw [hfind]
  dsimp only
  rw [hparse]
  dsimp only
  rw [hgo, if_neg Bool.false_ne_true]
  cases c.checkArgs p.args with
  | error e => rfl
  | ok u =>
    cases c with
    | help => exact absurd rfl hc
    | _ => rfl

/-- With shared flags and nothing else, a command that takes the arguments starts. -/
theorem run_of_shared {c : Command} (hfind : find words = .ok (c, rest)) (hparse : c.parse rest = .ok p)
    (hshared : ∀ s ∈ p.set, s.1 ∈ sharedFlags) (hrunnable : c.isRunnable = true) (hc : c ≠ help)
    (hargs : c.checkArgs p.args = .ok ()) : run env t words = c.start env t p := by
  rw [run_eq hfind hparse (help_of_shared hshared c) hrunnable hc, hargs]

/-- **Settings that were loaded decide how a command starts**, whatever command it is. -/
theorem exists_session {settings : Settings} {used : Text}
    (hload : Settings.load t env (layer p) (askedFile p) = .ok (settings, used)) :
    ∃ s : Session, s.settings = settings ∧ ∀ c : Command,
      c.start env t p = ((c.work s env t p).1, (c.work s env t p).2.afterErr (s.opening used)) := by
  obtain ⟨-, ⟨format, hformat⟩, level, hlevel⟩ :=
    Settings.exists_of_check (Settings.check_of_load hload)
  refine ⟨⟨settings, ⟨level, format⟩⟩, rfl, fun c => ?_⟩
  unfold start
  rw [hload]
  dsimp only
  rw [hlevel, hformat]

end Command

/-! ### What is said about a compiled file -/

/-- A failure because a file that was compiled has errors. -/
def Failure.isFailedCheck : Failure → Bool
  | filesFailed _ _ | syntaxErrors _ | hasErrors _ => true
  | _ => false

theorem Outcome.fail_afterErr (f : Failure) (written : Text) :
    (fail f).afterErr written = ⟨[], written, some f⟩ := by
  unfold fail afterErr
  rw [List.append_nil]

namespace Compiled

theorem hasErrors_iff {c : Compiled} :
    c.hasErrors = true ↔ ∃ d ∈ c.diagnostics, d.severity = .error := by
  unfold hasErrors Diagnostic.hasErrors
  rw [List.any_eq_true]
  exact exists_congr fun d => and_congr_right fun _ => beq_iff_eq

/-- A file that is compiled can be read. -/
theorem exists_content_of_ofFile {t : FileTree} {r : CompileRequest} {path : Text} {c : Compiled}
    (h : ofFile t r path = .ok c) :
    ∃ content, t.read path = .ok content ∧ c = ofSource r.options path content := by
  unfold ofFile at h
  split at h
  · cases h
  · split at h
    · cases h
    · cases hread : t.read path with
      | error e =>
        rw [hread] at h
        cases h
      | ok content =>
        rw [hread] at h
        exact ⟨content, rfl, (Except.ok.inj h).symm⟩

/-- Syntax errors are errors. -/
theorem hasErrors_of_table_eq_none {options : Analysis.Options} {path content : Text}
    (h : (ofSource options path content).table = none) :
    (ofSource options path content).hasErrors = true := by
  obtain ⟨hsome, herrors⟩ := (wellFormed_ofSource options path content).syntactic h
  obtain ⟨d, hd⟩ := List.exists_mem_of_ne_nil _ hsome
  exact hasErrors_iff.mpr ⟨d, hd, (herrors d hd).2⟩

end Compiled

namespace Command

section
variable {s : Session} {t : FileTree} {path used : Text} {c : Compiled}

/-- **What a command says about a compiled file**: its diagnostics, after what is logged, and that it failed if
one of them is an error. -/
structure Reports (s : Session) (used : Text) (c : Compiled) (o : Outcome) : Prop where
  err : o.err = s.opening used ++ (s.log c.log ++ diagnosticLines c)
  fails_iff : o.failure ≠ none ↔ ∃ d ∈ c.diagnostics, d.severity = .error
  failedCheck : ∀ f, o.failure = some f → f.isFailedCheck = true

/-- A file that is not compiled leaves nothing to log. -/
theorem runCheck_of_error {e : SourceError} (hfile : Compiled.ofFile t s.request path = .error e) :
    runCheck s t [path] = .fail (.source e) := by
  have hfiles : Compiled.ofFiles t s.request [path] = ([], some e) := by
    unfold Compiled.ofFiles
    rw [hfile]
  unfold runCheck
  rw [hfiles]
  rfl

/-- Checking a file. -/
theorem reports_runCheck (hfile : Compiled.ofFile t s.request path = .ok c) :
    Reports s used c ((runCheck s t [path]).afterErr (s.opening used)) := by
  have hfiles : Compiled.ofFiles t s.request [path] = ([c], none) := by
    unfold Compiled.ofFiles
    rw [hfile]
    rfl
  unfold runCheck
  rw [hfiles]
  dsimp only
  rw [List.flatMap_singleton, List.flatMap_singleton]
  cases herrors : c.hasErrors with
  | true =>
    -- one file of one has failed
    rw [List.filter_cons_of_pos herrors, List.filter_nil]
    refine ⟨congrArg _ (List.append_nil _), ?_, ?_⟩
    · exact iff_of_true (Option.some_ne_none _) (Compiled.hasErrors_iff.mp herrors)
    · intro f hf
      obtain rfl := Option.some.inj hf
      rfl
  | false =>
    have hnone : ¬∃ d ∈ c.diagnostics, d.severity = .error := fun h =>
      Bool.false_ne_true (herrors.symm.trans (Compiled.hasErrors_iff.mpr h))
    rw [List.filter_cons_of_neg (ne_true_of_eq_false herrors), List.filter_nil]
    dsimp only [List.length_nil]
    rw [if_neg (Nat.lt_irrefl 0)]
    split
    · refine ⟨congrArg _ (List.append_nil _), iff_of_false (fun h => h rfl) hnone, fun f hf => ?_⟩
      cases hf
    · refine ⟨congrArg _ (List.append_nil _), iff_of_false (fun h => h rfl) hnone, fun f hf => ?_⟩
      cases hf

/-- Listing the symbols of a file, in a format that there is. -/
theorem reports_runSymbols {f : Report.Format} (hformat : Report.Format.ofName? s.settings.output = some f)
    {content : Text} (hfile : Compiled.ofFile t s.request path = .ok c)
    (hc : c = Compiled.ofSource s.request.options path content) :
    Reports s used c ((runSymbols s t path).afterErr (s.opening used)) ∧
      (runSymbols s t path).out =
        match c.table with
        | none => []
        | some table => Report.render f (some (Report.rows table Analysis.globalScope)) := by
  unfold runSymbols
  rw [hfile]
  dsimp only
  cases htable : c.table with
  | none =>
    -- without a table nothing is listed, and that happens only after a syntax error
    have herrors : c.hasErrors = true := by
      rw [hc] at htable ⊢
      exact Compiled.hasErrors_of_table_eq_none htable
    refine ⟨⟨congrArg _ (List.append_nil _), ?_, ?_⟩, rfl⟩
    · exact iff_of_true (Option.some_ne_none _) (Compiled.hasErrors_iff.mp herrors)
    · intro g hg
      obtain rfl := Option.some.inj hg
      rfl
  | some table =>
    dsimp only
    unfold report
    rw [hformat]
    refine ⟨⟨congrArg _ (List.append_nil _), ?_, ?_⟩, ?_⟩
    · -- it fails after everything is printed
      change (if c.hasErrors then some (Failure.hasErrors c.path) else none) ≠ none ↔ _
      rw [← Compiled.hasErrors_iff]
      cases c.hasErrors with
      | true => exact iff_of_true (Option.some_ne_none _) rfl
      | false => exact iff_of_false (fun h => h rfl) Bool.false_ne_true
    · intro g hg
      change (if c.hasErrors then some (Failure.hasErrors c.path) else none) = some g at hg
      split at hg
      · obtain rfl := Option.some.inj hg
        rfl
      · cases hg
    · change Report.render f (some (Report.ofCompiled c)) = _
      unfold Report.ofCompiled
      rw [htable]

end

/-- **Any order of steps of a batch of one file** comes to what compiling the file gives. -/
theorem answer_of_single {t : FileTree} {r : CompileRequest} (hlive : r.canceled = false) {jobs : Int}
    {path : Text} {as : List Batch.Action} {b : Batch}
    (hrun : Batch.run t r jobs [path] as (Batch.new r [path]) = some b)
    {res : Except SourceError (List (Option Compiled))} (hres : b.answer = some res) :
    res = (Compiled.ofFile t r path).map ([some ·]) := by
  have hsound : Batch.Sound t r [path] b :=
    Batch.run_induction (fun _ _ _ h hact => h.act hlive hact) (Batch.sound_new hlive) hrun
  rcases hsound.answer res hres with ⟨cs, hmap, rfl⟩ | ⟨path', hpath, e, he, rfl⟩
  · -- one file has one result
    cases cs with
    | nil => cases hmap
    | cons c cs =>
      obtain ⟨hfile, hnil⟩ := List.cons.inj hmap
      obtain rfl := List.map_eq_nil_iff.mp hnil.symm
      rw [hfile]
      rfl
  · obtain rfl := List.mem_singleton.mp hpath
    rw [he]
    rfl

/-- **Checking a file and listing its symbols agree.** For every tree of files, every environment, all shared
flags that are set and every path, if the settings can be loaded, neither command changes the tree, and:

* if the file does not have the extension of sources, or cannot be read, both fail with this error before they
  say anything about the file, and nothing is printed;
* otherwise both write the same diagnostics in the same order after the same log entries, and they fail if
  and only if one of the diagnostics is an error, and for no other reason. So it is never the format that is
  not known. Listing prints nothing if there are syntax errors, and otherwise the whole symbol table in
  the format of the settings: what is printed is a rendering of its rows, an entry for each of them with all
  that the row says.

However many files are compiled at once, and in whatever order the workers take their steps, the file that
is checked gives what it gives by itself. -/
theorem check_agrees_with_symbols (env : List (Text × Text)) (t : FileTree)
    {words words' rest : List Text} {p : Flag.Parsed} {path used : Text} {settings : Settings}
    (hcheck : find words = .ok (check, rest)) (hsymbols : find words' = .ok (symbols, rest))
    (hparse : check.parse rest = .ok p) (hshared : ∀ s ∈ p.set, s.1 ∈ sharedFlags)
    (hargs : p.args = [path])
    (hload : Settings.load t env (layer p) (askedFile p) = .ok (settings, used)) :
    ∃ s : Session, s.settings = settings ∧
      (∀ as b res, Batch.run t s.request settings.jobs [path] as (Batch.new s.request [path]) = some b →
        b.answer = some res → res = (Compiled.ofFile t s.request path).map ([some ·])) ∧
      (run env t words).1 = t ∧ (run env t words').1 = t ∧
      ((∃ e, Compiled.ofFile t s.request path = .error e ∧ e ≠ .canceled ∧
          (run env t words).2 = ⟨[], s.opening used, some (.source e)⟩ ∧
          (run env t words').2 = ⟨[], s.opening used, some (.source e)⟩) ∨
        ∃ content, t.read path = .ok content ∧
          Compiled.ofFile t s.request path =
            .ok (Compiled.ofSource settings.options path content) ∧
          Reports s used (Compiled.ofSource settings.options path content) (run env t words).2 ∧
          Reports s used (Compiled.ofSource settings.options path content) (run env t words').2 ∧
          ((Parser.parse content).faults ≠ [] → (run env t words').2.out = []) ∧
          ((Parser.parse content).faults = [] → ∃ table f,
            (Compiled.ofSource settings.options path content).table = some table ∧
              f.name = settings.output ∧
              (run env t words').2.out =
                Report.render f (some (Report.rows table Analysis.globalScope)) ∧
              Report.Rendering f (Report.rows table Analysis.globalScope) (run env t words').2.out)) := by
  obtain ⟨s, hs, hstart⟩ := exists_session hload
  obtain ⟨⟨f, hname, hformat⟩, -⟩ := Settings.exists_of_check (Settings.check_of_load hload)
  have hlive : s.request.canceled = false := rfl
  have hchecked : run env t words = (t, (runCheck s t [path]).afterErr (s.opening used)) := by
    have hone : check.checkArgs p.args = .ok () := by
      rw [hargs]
      rfl
    rw [run_of_shared hcheck hparse hshared rfl (fun h => nomatch h) hone, hstart]
    unfold work
    rw [hargs]
  have hlisted : run env t words' = (t, (runSymbols s t path).afterErr (s.opening used)) := by
    have hone : symbols.checkArgs p.args = .ok () := by
      rw [hargs]
      rfl
    -- the same words are read alike by the other command
    have hparse' : symbols.parse rest = .ok p := parse_of_shared check symbols hparse hshared
    rw [run_of_shared hsymbols hparse' hshared rfl (fun h => nomatch h) hone, hstart]
    unfold work
    rw [hargs]
  refine ⟨s, hs, fun as b res hrun hres => answer_of_single hlive hrun hres, ?_, ?_, ?_⟩
  · rw [hchecked]
  · rw [hlisted]
  rw [hchecked, hlisted]
  subst hs
  cases hfile : Compiled.ofFile t s.request path with
  | error e =>
    refine .inl ⟨e, rfl, Compiled.ne_canceled_of_ofFile hlive hfile, ?_, ?_⟩
    · rw [runCheck_of_error hfile, Outcome.fail_afterErr]
    · unfold runSymbols
      rw [hfile]
      exact Outcome.fail_afterErr _ _
  | ok c =>
    obtain ⟨content, hread, hc⟩ := Compiled.exists_content_of_ofFile hfile
    obtain ⟨hreports, hout⟩ : Reports s used c _ ∧ _ := reports_runSymbols hformat hfile hc
    have hwell := Compiled.wellFormed_ofSource s.request.options path content
    rw [← hc] at hwell
    refine .inr ⟨content, hread, congrArg _ hc, hc ▸ reports_runCheck hfile, hc ▸ hreports, ?_, ?_⟩
    · intro hfaults
      change (runSymbols s t path).out = []
      rw [hout, hwell.table.mpr hfaults]
    · intro hfaults
      obtain ⟨table, htable⟩ := Option.ne_none_iff_exists'.mp fun h => hwell.table.mp h hfaults
      have hrendered : ((runSymbols s t path).afterErr (s.opening used)).out =
          Report.render f (some (Report.rows table Analysis.globalScope)) := by
        change (runSymbols s t path).out = _
        rw [hout, htable]
      refine ⟨table, f, hc ▸ htable, hname, hrendered, ?_⟩
      rw [hrendered]
      exact Report.rendering_render f _

/-- A project with a source that uses a name that is not there. -/
def undeclaredTree : FileTree :=
  (FileTree.empty "w" "/w").plant ["main.sl"] (.file "let x = 1;\nlet y = z;\n")

/-- The words after the name of the command. -/
def undeclaredWords : List Text := ["--output", "json", "main.sl"]

/-- What is printed of it: the name that is declared, with its value, although the next line is wrong. -/
def undeclaredListing : Text :=
  "[\n  \x7b\n    \"scope\": \"global\",\n    \"scope_id\": 0,\n    \"depth\": 0,\n" ++
  "    \"name\": \"x\",\n    \"augmented_name\": \"x\",\n    \"type\": \"int\",\n    \"line\": 1,\n" ++
  "    \"value\": \"1\",\n    \"calculated\": true,\n    \"signature\": \"x: int\",\n" ++
  ("    \"descriptor\": \"I\",\n    \"inferred\": true\n  \x7d\n]\n" : Text)

/-- The commands find the same error, and the file has symbols nonetheless, which are listed. -/
theorem verdict_on_undeclared :
    ∃ s : Session, s.settings = { Settings.default with output := "json", jobs := 2 } ∧
      Reports s [] (Compiled.ofSource s.settings.options "main.sl" "let x = 1;\nlet y = z;\n")
        (run [] undeclaredTree ("-j2" :: "check" :: undeclaredWords)).2 ∧
      (run [] undeclaredTree ("-j2" :: "check" :: undeclaredWords)).2.failure =
        some (.filesFailed 1 1) ∧
      (run [] undeclaredTree ("-j2" :: "symbols" :: undeclaredWords)).2.failure =
        some (.hasErrors "main.sl") ∧
      (run [] undeclaredTree ("-j2" :: "check" :: undeclaredWords)).2.err =
        (run [] undeclaredTree ("-j2" :: "symbols" :: undeclaredWords)).2.err ∧
      (run [] undeclaredTree ("-j2" :: "symbols" :: undeclaredWords)).2.out = undeclaredListing ∧
      ∃ table, (Compiled.ofSource s.settings.options "main.sl" "let x = 1;\nlet y = z;\n").table =
          some table ∧
        Report.Rendering .json (Report.rows table Analysis.globalScope) undeclaredListing := by
  obtain ⟨s, hs, -, -, -, herror | ⟨content, hread, -, hchecked, hlisted, -, hrendered⟩⟩ :=
    @check_agrees_with_symbols [] undeclaredTree ("-j2" :: "check" :: undeclaredWords)
      ("-j2" :: "symbols" :: undeclaredWords) ("-j2" :: undeclaredWords)
      ⟨[(sharedFlags[1], .int 2), (sharedFlags[5], .text "json")], ["main.sl"]⟩ "main.sl" []
      { Settings.default with output := "json", jobs := 2 } (by decide +kernel) (by decide +kernel)
      (by decide +kernel) (by decide) rfl (by decide +kernel)
  · -- had the file not been read, another failure would be reported
    obtain ⟨e, -, -, hchecked, -⟩ := herror
    have hfailed : (run [] undeclaredTree ("-j2" :: "check" :: undeclaredWords)).2.failure =
        some (.filesFailed 1 1) := by decide +kernel
    rw [hchecked] at hfailed
    cases hfailed
  · have hcontent : undeclaredTree.read "main.sl" = .ok "let x = 1;\nlet y = z;\n" := by
      decide +kernel
    obtain rfl := Except.ok.inj (hread.symm.trans hcontent)
    have hout : (run [] undeclaredTree ("-j2" :: "symbols" :: undeclaredWords)).2.out =
        undeclaredListing := by decide +kernel
    have hfaults : (Parser.parse "let x = 1;\nlet y = z;\n").faults = [] := by decide +kernel
    obtain ⟨table, f, htable, hname, -, hrendering⟩ := hrendered hfaults
    -- the settings name one format
    have hjson : f = .json := by
      revert hname
      cases f <;> decide
    rw [hout, hjson] at hrendering
    rw [← hs] at hchecked hlisted htable
    exact ⟨s, hs, hchecked, by decide +kernel, by decide +kernel, hchecked.err.trans hlisted.err.symm, hout,
      table, htable, hrendering⟩

end Command
end Slang
