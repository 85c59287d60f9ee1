import Slang.Proofs.Layers.Loaded
import Slang.Proofs.Scaffold
import Slang.Proofs.Verdict

/-!
# Making a project twice

A command loads its settings before it does anything. So making a project a second time finds the files of
the first time only if the settings still load (`init_all_or_nothing`). The first time may have put something
into the working directory that is taken for a settings file: a file with the default settings, which hides
another settings file, or a directory, which cannot be read (`init_in_settings_directory`).

Settings load as before when the settings file is the same (`Settings.load_mono`), and also when there was none
and the new one is the one of the project, since default settings count like none
(`Settings.load_defaults`).
-/

namespace Slang

open Slang.Path (join)

/-! ### Loading settings once more -/

namespace Settings

open FileTree (Extends)

variable {t t' : FileTree} {env : List (Text × Text)} {p : Flag.Parsed} {asked used : Text}
  {s : Settings}

/-- The same settings file says the same in a tree with more in it. -/
theorem ChosenHolds.mono {entries : List (Yaml.Datum × Yaml.Data)} (hext : Extends t t')
    (hfile : chosenFile? t' asked = chosenFile? t asked) (h : ChosenHolds t asked entries) :
    ChosenHolds t' asked entries := by
  unfold ChosenHolds at h ⊢
  rw [hfile]
  cases hchosen : chosenFile? t asked with
  | none =>
    rw [hchosen] at h
    exact h
  | some path =>
    rw [hchosen] at h
    obtain ⟨content, document, hread, hdocument, htop⟩ := h
    exact ⟨content, document, hext.read hread, hdocument, htop⟩

/-- **Settings still load** when the same settings file is chosen. -/
theorem load_mono (hext : Extends t t') (hfile : chosenFile? t' asked = chosenFile? t asked)
    (h : load t env (Command.layer p) asked = .ok (s, used)) :
    load t' env (Command.layer p) asked = .ok (s, findFile t' asked) := by
  obtain ⟨entries, hentries⟩ := exists_entries_of_load h
  obtain ⟨-, hs, hcheck⟩ := (load_eq_ok_iff_of_entries hentries).mp h
  exact (load_eq_ok_iff_of_entries (hentries.mono hext hfile)).mpr ⟨rfl, hs, hcheck⟩

/-- **Default settings that were written are read back**, the last one first. -/
theorem ofDocument?_default :
    (Yaml.Node.ofText? default.document).bind Layer.ofDocument? = some default.layer.reverse := by
  decide +kernel

/-- A settings file with the defaults counts like none. -/
theorem ofLayer?_default {entries : List (Yaml.Datum × Yaml.Data)}
    (h : Layer.ofEntries entries = default.layer.reverse) :
    ofLayer? (layers p env entries) = ofLayer? (layers p env []) := by
  refine ofLayer?_congr fun f => ?_
  have hsame : default.layer.reverse.lookup f.key = default.layer.lookup f.key := by
    cases f <;> rfl
  rw [lookup_layers_eq, lookup_layers_eq, h, hsame, lookup_layer]
  rfl

/-- Settings still load where the only settings file is a new one with the defaults. -/
theorem load_defaults (hwork : t'.work = t.work)
    (hsettings : t'.entry? (t.work ++ [("slangc.yaml" : Text)]) = some (.file default.document))
    (hnone : fileHere? t = none) (h : load t env (Command.layer p) [] = .ok (s, used)) :
    load t' env (Command.layer p) [] = .ok (s, findFile t' []) := by
  have hstat : t'.stat "slangc.yaml" = .ok (.file default.document) :=
    FileTree.stat_eq_ok_iff.mpr ⟨_, t'.place_name Path.isFileName_yaml, hwork ▸ hsettings⟩
  obtain ⟨document, hdocument, hlayer⟩ := Option.bind_eq_some_iff.mp ofDocument?_default
  obtain ⟨entries, htop, hentries⟩ := Option.map_eq_some_iff.mp hlayer
  -- the new file is the first one that is looked for, and it holds the defaults
  have hnew : ChosenHolds t' [] entries := by
    have hfile : chosenFile? t' [] = some "slangc.yaml" :=
      List.find?_cons_of_pos (FileTree.has_eq_true_iff.mpr ⟨_, hstat⟩)
    unfold ChosenHolds
    rw [hfile]
    exact ⟨default.document, document, FileTree.read_eq_ok_iff.mpr hstat, hdocument, htop⟩
  -- before, no file said anything
  have hold : ChosenHolds t [] [] := by
    have hfile : chosenFile? t [] = none := hnone
    unfold ChosenHolds
    rw [hfile]
  obtain ⟨-, hs, hcheck⟩ := (load_eq_ok_iff_of_entries hold).mp h
  refine (load_eq_ok_iff_of_entries hnew).mpr ⟨rfl, ?_, hcheck⟩
  rw [ofLayer?_default hentries]
  exact hs

end Settings

namespace Command

open FileTree (Extends Opens)

variable {t t' : FileTree} {env : List (Text × Text)} {words rest : List Text} {p : Flag.Parsed}

/-- Making a project does not change whether the settings load, unless it changes which settings file there
is. -/
theorem Scaffolded.load {dir asked used : Text} {settings : Settings} (h : Scaffolded t dir t')
    (hsame : asked ≠ [] ∨ Settings.fileHere? t' = Settings.fileHere? t ∨
      Settings.fileHere? t = none ∧ t.target dir = t.work)
    (hload : Settings.load t env (layer p) asked = .ok (settings, used)) :
    Settings.load t' env (layer p) asked = .ok (settings, Settings.findFile t' asked) := by
  by_cases hasked : asked = []
  · subst hasked
    -- no other file is meant than before, or there was none and the new one is meant
    rcases hsame with hne | hfile | ⟨hnone, hdir⟩
    · exact absurd rfl hne
    · exact Settings.load_mono h.kept hfile hload
    · have hsettings := h.settings
      unfold FileTree.fileIn at hsettings
      rw [hdir] at hsettings
      exact Settings.load_defaults h.kept.work hsettings hnone hload
  · refine Settings.load_mono h.kept ?_ hload
    unfold Settings.chosenFile?
    rw [if_pos hasked, if_pos hasked]

/-- **The command for new projects**, without force: it starts to make one after the settings are loaded, and
nothing happens before that. -/
theorem run_init (env : List (Text × Text)) (hfind : find words = .ok (init, rest))
    (hparse : init.parse rest = .ok p) (hhelp : p.value init.helpFlag ≠ .bool true)
    (hforce : p.value forceFlag ≠ .bool true) (t : FileTree) :
    (∃ e, init.checkArgs p.args = .error e ∧ run env t words = (t, .fail (.usage e))) ∨
      init.checkArgs p.args = .ok () ∧
        ((∃ e, Settings.load t env (layer p) (askedFile p) = .error e ∧
            run env t words = (t, .fail (.settings e))) ∨
          ∃ settings used s, Settings.load t env (layer p) (askedFile p) = .ok (settings, used) ∧
            run env t words = ((runInit s t false (p.args.head?.getD ".")).1,
              (runInit s t false (p.args.head?.getD ".")).2.afterErr (s.opening used))) := by
  rw [run_eq hfind hparse hhelp rfl fun h => nomatch h]
  cases hargs : init.checkArgs p.args with
  | error e => exact .inl ⟨e, rfl, rfl⟩
  | ok u =>
    refine .inr ⟨rfl, ?_⟩
    dsimp only
    -- settings come before anything else that the command does
    cases hload : Settings.load t env (layer p) (askedFile p) with
    | error e =>
      refine .inl ⟨e, rfl, ?_⟩
      unfold start
      rw [hload]
    | ok loaded =>
      obtain ⟨settings, used⟩ := loaded
      obtain ⟨s, -, hstart⟩ := exists_session hload
      refine .inr ⟨settings, used, s, rfl, ?_⟩
      have hunforced : (p.value forceFlag == .bool true) = false := beq_eq_false_iff_ne.mpr hforce
      rw [hstart]
      unfold work
      dsimp only
      rw [hunforced]

/-- What the command for new projects comes to, without force. -/
theorem run_init_unforced (env : List (Text × Text)) (hwell : t.WellFormed)
    (hfind : find words = .ok (init, rest))
    (hparse : init.parse rest = .ok p) (hhelp : p.value init.helpFlag ≠ .bool true)
    (hforce : p.value forceFlag ≠ .bool true) (hup : (".." : Text) ∉ Path.parts (p.args.head?.getD ".")) :
    (init.checkArgs p.args = .ok () ∧
        (∃ r, Settings.load t env (layer p) (askedFile p) = .ok r) ∧
        Scaffolded t (p.args.head?.getD ".") (run env t words).1 ∧
        (run env t words).2.failure = none) ∨
      ∃ why, (run env t words).2.failure = some why ∧
        Opens (t.target (p.args.head?.getD ".")) t (run env t words).1 ∧
        ∀ path, why = .alreadyExists path → (run env t words).1 = t := by
  rcases run_init env hfind hparse hhelp hforce t with
    ⟨e, -, hrun⟩ | ⟨hargs, ⟨e, -, hrun⟩ | ⟨settings, used, s, hload, hrun⟩⟩
  · rw [hrun]
    exact .inr ⟨_, rfl, Opens.refl _ t, fun path h => nomatch h⟩
  · rw [hrun]
    exact .inr ⟨_, rfl, Opens.refl _ t, fun path h => nomatch h⟩
  · rw [hrun]
    exact (runInit_unforced hwell hup).imp (fun hmade => ⟨hargs, ⟨_, hload⟩, hmade⟩) id

/-- **Once a project is made**, the command for new projects changes nothing when it is given the same words
again. It fails either way: before it starts, if the settings do not load, and otherwise because it finds the
settings file of the project. -/
theorem Scaffolded.run_again (h : Scaffolded t (p.args.head?.getD ".") t') (env : List (Text × Text))
    (hfind : find words = .ok (init, rest)) (hparse : init.parse rest = .ok p)
    (hhelp : p.value init.helpFlag ≠ .bool true) (hforce : p.value forceFlag ≠ .bool true)
    (hargs : init.checkArgs p.args = .ok ()) :
    (run env t' words).1 = t' ∧
      (∀ r, Settings.load t' env (layer p) (askedFile p) = .ok r →
        (run env t' words).2.failure =
          some (.alreadyExists (join (p.args.head?.getD ".") "slangc.yaml"))) ∧
      ∀ e, Settings.load t' env (layer p) (askedFile p) = .error e →
        (run env t' words).2.failure = some (.settings e) := by
  -- the words are the same ones, so only the settings can make a difference
  rcases run_init env hfind hparse hhelp hforce t' with
    ⟨e, hargs', -⟩ | ⟨-, ⟨e, hload, hrun⟩ | ⟨settings, used, s, hload, hrun⟩⟩
  · rw [hargs] at hargs'
    cases hargs'
  · rw [hrun, hload]
    refine ⟨rfl, ?_, ?_⟩
    · intro r hr
      cases hr
    · intro e' he
      rw [Except.error.inj he]
      rfl
  · obtain ⟨htree, hfailure⟩ := h.runInit (s := s)
    rw [hrun, hload]
    refine ⟨htree, fun _ _ => hfailure, ?_⟩
    intro e he
    cases he

/-- **Making a project is all or nothing.** For every tree of files, every environment, and all words that ask
for a new project without force, in a directory whose path has no part of two points:

* when it succeeds, neither file of the project was there, and both are now, with their contents;
* when it fails, neither was made, and no other file: all that is new are directories on the way;
* in both cases every file is what it was before;
* when it fails since a file is there, nothing at all has changed.

After it succeeded, doing it again changes nothing and fails: because the settings file of the project is
there, if the settings still load, and with the error that they do not load with otherwise. They still load if
a settings file is asked for, if the project does not change which one is found in the working directory, and if
there was none and the project is made in the working directory itself. -/
theorem init_all_or_nothing (env : List (Text × Text)) {t : FileTree} (hwell : t.WellFormed)
    {words rest : List Text} {p : Flag.Parsed} (hfind : find words = .ok (init, rest))
    (hparse : init.parse rest = .ok p) (hhelp : p.value init.helpFlag ≠ .bool true)
    (hforce : p.value forceFlag ≠ .bool true) {dir : Text} (hdir : dir = p.args.head?.getD ".")
    (hup : (".." : Text) ∉ Path.parts dir) {t' t'' : FileTree} {o o' : Outcome}
    (hfirst : run env t words = (t', o)) (hsecond : run env t' words = (t'', o')) :
    (o.failure = none →
      (t.entry? (t.fileIn dir "slangc.yaml") = none ∧ t.entry? (t.fileIn dir "main.sl") = none) ∧
        t'.entry? (t.fileIn dir "slangc.yaml") = some (.file Settings.default.document) ∧
        t'.entry? (t.fileIn dir "main.sl") = some (.file mainSource)) ∧
    (o.failure ≠ none →
      (t'.entry? (t.fileIn dir "slangc.yaml") = t.entry? (t.fileIn dir "slangc.yaml") ∧
        t'.entry? (t.fileIn dir "main.sl") = t.entry? (t.fileIn dir "main.sl")) ∧
        ∀ q e, t'.entry? q = some e → t.entry? q = some e ∨ e = .directory ∧ q <+: t.target dir) ∧
    (∀ q content, t.entry? q = some (.file content) → t'.entry? q = some (.file content)) ∧
    (∀ path, o.failure = some (.alreadyExists path) → t' = t) ∧
    (o.failure = none →
      t'' = t' ∧
        (∀ r, Settings.load t' env (layer p) (askedFile p) = .ok r →
          o'.failure = some (.alreadyExists (join dir "slangc.yaml"))) ∧
        (∀ e, Settings.load t' env (layer p) (askedFile p) = .error e →
          o'.failure = some (.settings e)) ∧
        (askedFile p ≠ [] ∨ Settings.fileHere? t' = Settings.fileHere? t ∨
            Settings.fileHere? t = none ∧ t.target dir = t.work →
          ∃ r, Settings.load t' env (layer p) (askedFile p) = .ok r)) := by
  subst hdir
  have hcases := run_init_unforced env hwell hfind hparse hhelp hforce hup
  rw [hfirst] at hcases
  dsimp only at hcases
  rcases hcases with ⟨hargs, ⟨⟨settings, used⟩, hload⟩, hmade, hnone⟩ | ⟨why, hwhy, hopens, hexists⟩
  · -- the project is made, and then it is there
    have hagain := hmade.run_again env hfind hparse hhelp hforce hargs
    rw [hsecond] at hagain
    obtain ⟨htree, hfound, hunloaded⟩ := hagain
    refine ⟨fun _ => ⟨⟨hmade.settingsNew, hmade.mainNew⟩, hmade.settings, hmade.main⟩,
      fun hne => absurd hnone hne, fun q content => hmade.kept.kept q _, ?_, fun _ => ?_⟩
    · intro path hpath
      rw [hnone] at hpath
      cases hpath
    · exact ⟨htree, hfound, hunloaded, fun hsame => ⟨_, hmade.load hsame hload⟩⟩
  · -- no file is made, and the places of the files are not on the way
    have hfailed : o.failure ≠ none := by
      rw [hwhy]
      exact Option.some_ne_none why
    have hsame (file : Text) : t'.entry? (t.fileIn (p.args.head?.getD ".") file) =
        t.entry? (t.fileIn (p.args.head?.getD ".") file) :=
      hopens.entry?_eq (FileTree.fileIn_not_prefix t _ file)
    refine ⟨fun hnone => absurd hnone hfailed, fun _ => ⟨⟨hsame _, hsame _⟩, hopens.new⟩,
      fun q content => hopens.kept q _, ?_, fun hnone => absurd hnone hfailed⟩
    intro path hpath
    rw [hwhy] at hpath
    exact hexists path (Option.some.inj hpath)

/-- An empty working directory. -/
def emptyTree : FileTree := .empty "w" "/w"

/-- The second time, the settings file of the first time is found. -/
theorem init_twice :
    (run [] emptyTree ["-v", "init", "a/b"]).2.failure = none ∧
      (run [] (run [] emptyTree ["-v", "init", "a/b"]).1 ["-v", "init", "a/b"]).1 =
        (run [] emptyTree ["-v", "init", "a/b"]).1 ∧
      (run [] (run [] emptyTree ["-v", "init", "a/b"]).1 ["-v", "init", "a/b"]).2.failure =
        some (.alreadyExists "a/b/slangc.yaml") := by
  have hmade : (run [] emptyTree ["-v", "init", "a/b"]).2.failure = none := by decide +kernel
  have hsame : Settings.fileHere? (run [] emptyTree ["-v", "init", "a/b"]).1 =
      Settings.fileHere? emptyTree := by decide +kernel
  obtain ⟨-, -, -, -, hagain⟩ := @init_all_or_nothing [] emptyTree
    (FileTree.wellFormed_empty "w" "/w") ["-v", "init", "a/b"] ["-v", "a/b"]
    ⟨[(sharedFlags[6], .bool true)], ["a/b"]⟩ (by decide +kernel) (by decide +kernel)
    (by decide +kernel) (by decide +kernel) "a/b" rfl (by decide +kernel) _ _ _ _ rfl rfl
  obtain ⟨htree, hexists, -, hloads⟩ := hagain hmade
  obtain ⟨r, hr⟩ := hloads (.inr (.inl hsame))
  exact ⟨hmade, htree, hexists r hr⟩

/-- **Not every project is found the second time**: in a directory with the name of a settings file, settings do
not load any more, since the directory is taken for a settings file. -/
theorem init_in_settings_directory :
    (run [] emptyTree ["init", "slangc.yaml"]).2.failure = none ∧
      (run [] (run [] emptyTree ["init", "slangc.yaml"]).1 ["init", "slangc.yaml"]).2.failure =
        some (.settings (.unreadable "/w/slangc.yaml")) ∧
      ¬∃ path, (run [] (run [] emptyTree ["init", "slangc.yaml"]).1
        ["init", "slangc.yaml"]).2.failure = some (.alreadyExists path) := by
  have hsecond : (run [] (run [] emptyTree ["init", "slangc.yaml"]).1
      ["init", "slangc.yaml"]).2.failure = some (.settings (.unreadable "/w/slangc.yaml")) := by
    decide +kernel
  refine ⟨by decide +kernel, hsecond, ?_⟩
  rintro ⟨path, hexists⟩
  rw [hsecond] at hexists
  cases hexists

end Command
end Slang
