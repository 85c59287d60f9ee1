import Slang.Command.Run
import Slang.Proofs.Files

/-!
# New projects are made as a whole or not at all

Without force, making a project makes directories, looks whether one of its files is there, and then writes
them. Whatever goes wrong, no file is touched, and either both files are new or neither is written
(`runInit_unforced`):

* what is made before the files are looked for are directories on the way (`FileTree.opens_makeDirs`). A file
  that is found was there before them, and so was its directory; so nothing was made at all (`eq_of_has`);
* when no file is found, nothing can stop the second one from being written once the first one is written,
  since its path is shorter (`writeFiles_of_leads`).

Once a project is made, making it again finds its settings file and changes nothing (`Scaffolded.runInit`).
-/

namespace Slang

open Slang.Path (IsFileName join)

/-! ### Trees as they are -/

namespace FileTree

/-- **A tree as it is**: what stands somewhere stands in a directory, and the working directory is one. -/
structure WellFormed (t : FileTree) : Prop where
  above : ∀ p e, p ≠ [] → t.entry? p = some e → t.entry? p.dropLast = some .directory
  work : t.entry? t.work = some .directory

variable {t t' : FileTree} {dir file : Text}

/-- A working directory and nothing in it. -/
theorem wellFormed_empty (work workPath : Text) : (empty work workPath).WellFormed := by
  have hwork : entry? (empty work workPath) [work] = some .directory := by
    unfold entry? empty
    rw [if_neg (List.cons_ne_nil work []), List.lookup_cons_self]
  refine ⟨fun p e hp hentry => ?_, hwork⟩
  by_cases hplace : p = [work]
  · rw [hplace]
    exact entry?_root _
  · unfold entry? empty at hentry
    rw [if_neg hp, lookup_cons_of_ne hplace] at hentry
    cases hentry

/-- All places above something are directories. -/
theorem WellFormed.directory (h : t.WellFormed) (p : Place) {names : List Text} (hne : names ≠ [])
    {e : FileEntry} (hentry : t.entry? (p ++ names) = some e) : t.entry? p = some .directory := by
  induction names using List.reverseRecOn generalizing e with
  | nil => exact absurd rfl hne
  | append_singleton names name ih =>
    have hlast : t.entry? (p ++ names) = some .directory := by
      rw [← List.append_assoc] at hentry
      have habove := h.above _ _ (List.append_ne_nil_of_right_ne_nil _ (List.cons_ne_nil _ _)) hentry
      rw [List.dropLast_concat] at habove
      exact habove
    by_cases hnil : names = []
    · rw [hnil, List.append_nil] at hlast
      exact hlast
    · exact ih hnil hlast

/-- **A file was there only if its directory was.** -/
theorem WellFormed.leads (h : t.WellFormed) (hleads : t'.Leads dir) {e : FileEntry}
    (hentry : t.entry? (t.fileIn dir file) = some e) : t.Leads dir := by
  refine ⟨hleads.ne_nil, hleads.zero, hleads.short, hleads.notUp, hleads.names, ?_⟩
  rintro q ⟨rest, hq⟩
  have hne : rest ++ [file] ≠ [] := List.append_ne_nil_of_right_ne_nil _ (List.cons_ne_nil _ _)
  refine h.directory _ hne (e := e) ?_
  rw [← List.append_assoc, List.append_assoc _ q, hq]
  exact hentry

end FileTree

namespace Command

open FileTree (Extends Opens)

variable {t t' t₁ : FileTree} {s : Session} {dir : Text}

/-! ### The files of a project -/

theorem isFileName_main : IsFileName "main.sl" :=
  ⟨by decide, by decide, by decide, by decide, by decide⟩

theorem projectPaths_eq (dir : Text) : projectPaths dir =
    [(join dir "slangc.yaml", Settings.default.document), (join dir "main.sl", mainSource)] := rfl

/-- What is looked for is found only where a file of a project is. -/
theorem exists_of_found {f : Text × Text} (h : ((projectPaths dir).find? fun f => t.has f.1) = some f) :
    ∃ file, IsFileName file ∧ t.has (join dir file) = true := by
  have hhas : t.has f.1 = true := List.find?_some (p := fun f : Text × Text => t.has f.1) h
  have hmem := List.mem_of_find?_eq_some h
  rw [projectPaths_eq, List.mem_cons, List.mem_singleton] at hmem
  rcases hmem with rfl | rfl
  · exact ⟨_, Path.isFileName_yaml, hhas⟩
  · exact ⟨_, isFileName_main, hhas⟩

theorem not_has_of_not_found (h : ((projectPaths dir).find? fun f => t.has f.1) = none) :
    t.has (join dir "slangc.yaml") = false ∧ t.has (join dir "main.sl") = false := by
  rw [projectPaths_eq, List.find?_eq_none, List.forall_mem_cons, List.forall_mem_singleton,
    Bool.not_eq_true, Bool.not_eq_true] at h
  exact h

/-- **A project that was made**: its files were not there, and now they have their contents, in a directory
that its path leads to. What was there still is. -/
structure Scaffolded (t : FileTree) (dir : Text) (t' : FileTree) : Prop where
  settingsNew : t.entry? (t.fileIn dir "slangc.yaml") = none
  mainNew : t.entry? (t.fileIn dir "main.sl") = none
  settings : t'.entry? (t.fileIn dir "slangc.yaml") = some (.file Settings.default.document)
  main : t'.entry? (t.fileIn dir "main.sl") = some (.file mainSource)
  kept : Extends t t'
  leads : t'.Leads dir
  short : (join dir "slangc.yaml").length ≤ FileTree.longestPath

/-- A file is found where its path leads, if its path is not too long. -/
theorem has_join_iff (h : t.Leads dir) {file : Text} (hfile : IsFileName file) :
    t.has (join dir file) = true ↔
      (join dir file).length ≤ FileTree.longestPath ∧ ∃ e, t.entry? (t.fileIn dir file) = some e := by
  rw [FileTree.has_eq_true_iff]
  constructor
  · rintro ⟨e, hstat⟩
    obtain ⟨p, hplace, hentry⟩ := FileTree.stat_eq_ok_iff.mp hstat
    obtain ⟨hshort, rfl⟩ := (h.place_join hfile).mp hplace
    exact ⟨hshort, e, hentry⟩
  · rintro ⟨hshort, e, hentry⟩
    exact ⟨e, FileTree.stat_eq_ok_iff.mpr ⟨_, (h.place_join hfile).mpr ⟨hshort, rfl⟩, hentry⟩⟩

/-- Nothing stands where no file is found, if its path is not too long. -/
theorem entry?_of_not_has (h : t.Leads dir) {file : Text} (hfile : IsFileName file)
    (hshort : (join dir file).length ≤ FileTree.longestPath) (hhas : t.has (join dir file) = false) :
    t.entry? (t.fileIn dir file) = none := by
  cases hentry : t.entry? (t.fileIn dir file) with
  | none => rfl
  | some e =>
    rw [(has_join_iff h hfile).mpr ⟨hshort, e, hentry⟩] at hhas
    cases hhas

/-- The path of the first source is the shorter one. -/
theorem length_join_main_le (h : t.Leads dir) :
    (join dir "main.sl").length ≤ (join dir "slangc.yaml").length := by
  rw [Path.join_eq h.ne_nil h.notUp isFileName_main, Path.join_eq h.ne_nil h.notUp Path.isFileName_yaml,
    List.length_append, List.length_append]
  exact Nat.add_le_add_left (by decide) _

/-- A file that is not there can be written in a directory that is. -/
theorem write_new (h : t.Leads dir) {file : Text} (hfile : IsFileName file)
    (hshort : (join dir file).length ≤ FileTree.longestPath)
    (hnew : t.entry? (t.fileIn dir file) = none) (content : Text) :
    t.write (join dir file) content = .ok (t.set (t.fileIn dir file) (.file content)) := by
  refine FileTree.write_eq_ok_iff.mpr ⟨_, (h.place_join hfile).mpr ⟨hshort, rfl⟩, ?_, rfl⟩
  intro hdir
  rw [hnew] at hdir
  cases hdir

theorem writeFiles_cons_of_ok {path content : Text} (h : t.write path content = .ok t')
    (rest : List (Text × Text)) :
    (writeFiles s t ((path, content) :: rest)).1 = (writeFiles s t' rest).1 ∧
      (writeFiles s t ((path, content) :: rest)).2.failure = (writeFiles s t' rest).2.failure := by
  conv => enter [1, 1]; unfold writeFiles
  conv => enter [2, 1]; unfold writeFiles
  rw [h]
  exact ⟨rfl, rfl⟩

/-- Both files written, one after the other, in a directory with neither of them. -/
theorem scaffolded_of_new (hopens : Opens (t.target dir) t t₁) (hleads : t₁.Leads dir)
    (hshort : (join dir "slangc.yaml").length ≤ FileTree.longestPath)
    (hsettings : t₁.entry? (t₁.fileIn dir "slangc.yaml") = none)
    (hmain : t₁.entry? (t₁.fileIn dir "main.sl") = none) :
    Scaffolded t dir (writeFiles s t₁ (projectPaths dir)).1 ∧
      (writeFiles s t₁ (projectPaths dir)).2.failure = none := by
  have hfile (file : Text) : t₁.fileIn dir file = t.fileIn dir file := hopens.toExtends.fileIn dir file
  -- the files were not there before the directories were made, either
  have hbefore {file : Text} (hnew : t₁.entry? (t₁.fileIn dir file) = none) :
      t.entry? (t.fileIn dir file) = none := by
    rw [← hopens.entry?_eq (FileTree.fileIn_not_prefix t dir file), ← hfile]
    exact hnew
  have hfirst := write_new hleads Path.isFileName_yaml hshort hsettings Settings.default.document
  have hext := Extends.set hsettings (.file Settings.default.document)
  generalize ht₂ : t₁.set (t₁.fileIn dir "slangc.yaml") (.file Settings.default.document) = t₂
    at hfirst hext
  have hmain₂ : t₂.entry? (t₂.fileIn dir "main.sl") = none := by
    have hother : t₁.fileIn dir "main.sl" ≠ t₁.fileIn dir "slangc.yaml" := by
      intro h
      exact absurd (List.append_cancel_left h) (by decide)
    rw [hext.fileIn, ← ht₂, FileTree.entry?_set (FileTree.fileIn_ne_root t₁ dir _), if_neg hother, hmain]
  have hshort' := Nat.le_trans (length_join_main_le hleads) hshort
  have hsecond := write_new (hleads.of_extends hext) isFileName_main hshort' hmain₂ mainSource
  have hext' := Extends.set hmain₂ (.file mainSource)
  rw [projectPaths_eq, (writeFiles_cons_of_ok hfirst _).1, (writeFiles_cons_of_ok hfirst _).2,
    (writeFiles_cons_of_ok hsecond _).1, (writeFiles_cons_of_ok hsecond _).2]
  refine ⟨⟨hbefore hsettings, hbefore hmain, ?_, ?_, (hopens.toExtends.trans hext).trans hext',
    hleads.of_extends (hext.trans hext'), hshort⟩, rfl⟩
  · refine hext'.kept _ _ ?_
    rw [← ht₂, ← hfile, FileTree.entry?_set (FileTree.fileIn_ne_root t₁ dir _), if_pos rfl]
  · change FileTree.entry? (t₂.set _ _) _ = _
    rw [← hfile, ← hext.fileIn, FileTree.entry?_set (FileTree.fileIn_ne_root t₂ dir _), if_pos rfl]

/-- **The files of a project are both written or none of them**, where neither is found. -/
theorem writeFiles_of_leads (hopens : Opens (t.target dir) t t₁) (hleads : t₁.Leads dir)
    (hsettings : t₁.has (join dir "slangc.yaml") = false) (hmain : t₁.has (join dir "main.sl") = false) :
    Scaffolded t dir (writeFiles s t₁ (projectPaths dir)).1 ∧
        (writeFiles s t₁ (projectPaths dir)).2.failure = none ∨
      ∃ e, writeFiles s t₁ (projectPaths dir) =
        (t₁, .fail (.cannotWrite (join dir "slangc.yaml") e)) := by
  cases hfirst : t₁.write (join dir "slangc.yaml") Settings.default.document with
  | error e =>
    refine .inr ⟨e, ?_⟩
    rw [projectPaths_eq]
    unfold writeFiles
    rw [hfirst]
  | ok t₂ =>
    -- the path that could be written is not too long, and the other one is shorter
    obtain ⟨p, hplace, -, -⟩ := FileTree.write_eq_ok_iff.mp hfirst
    obtain ⟨hshort, -⟩ := (hleads.place_join Path.isFileName_yaml).mp hplace
    have hshort' := Nat.le_trans (length_join_main_le hleads) hshort
    exact .inl (scaffolded_of_new hopens hleads hshort
      (entry?_of_not_has hleads Path.isFileName_yaml hshort hsettings)
      (entry?_of_not_has hleads isFileName_main hshort' hmain))

/-- A file of a project that is found was there before any directory was made. -/
theorem eq_of_has (hwell : t.WellFormed) (hopens : Opens (t.target dir) t t₁) (hleads : t₁.Leads dir)
    (hmake : t.makeDirs dir = (t₁, none)) {file : Text} (hfile : IsFileName file)
    (hhas : t₁.has (join dir file) = true) : t₁ = t := by
  obtain ⟨-, e, hentry⟩ := (has_join_iff hleads hfile).mp hhas
  have hbefore : t.entry? (t.fileIn dir file) = some e := by
    rw [← hopens.entry?_eq (FileTree.fileIn_not_prefix t dir file), ← hopens.toExtends.fileIn]
    exact hentry
  -- so its directory was there, and there was none to be made
  have hnothing := (hwell.leads hleads hbefore).makeDirs
  rw [hmake] at hnothing
  exact (Prod.mk.inj hnothing).1

/-- **Making a project without force**: either it is made, or no file is, and nothing at all has happened when
a file was there already. -/
theorem runInit_unforced (hwell : t.WellFormed) (hup : (".." : Text) ∉ Path.parts dir) :
    Scaffolded t dir (runInit s t false dir).1 ∧ (runInit s t false dir).2.failure = none ∨
      ∃ why, (runInit s t false dir).2.failure = some why ∧
        Opens (t.target dir) t (runInit s t false dir).1 ∧
        ∀ path, why = .alreadyExists path → (runInit s t false dir).1 = t := by
  have hopens := FileTree.opens_makeDirs (t := t) hup
  unfold runInit
  dsimp only
  cases hmake : t.makeDirs dir with
  | mk t₁ failed =>
    rw [hmake] at hopens
    cases failed with
    | some e =>
      -- directories may have been made before this one
      refine .inr ⟨_, rfl, hopens, ?_⟩
      intro path hwhy
      cases hwhy
    | none =>
      have hleads := FileTree.leads_of_makeDirs hwell.work hup hmake
      dsimp only
      cases hfind : (projectPaths dir).find? fun f => t₁.has f.1 with
      | some f =>
        obtain ⟨file, hfile, hhas⟩ := exists_of_found hfind
        exact .inr ⟨_, rfl, hopens, fun _ _ => eq_of_has hwell hopens hleads hmake hfile hhas⟩
      | none =>
        obtain ⟨hsettings, hmain⟩ := not_has_of_not_found hfind
        rcases writeFiles_of_leads (s := s) hopens hleads hsettings hmain with hmade | ⟨e, hwrite⟩
        · exact .inl hmade
        · dsimp only
          rw [hwrite]
          refine .inr ⟨_, rfl, hopens, ?_⟩
          intro path hwhy
          cases hwhy

/-- **A project is not made again.** -/
theorem Scaffolded.runInit (h : Scaffolded t dir t') :
    (runInit s t' false dir).1 = t' ∧
      (runInit s t' false dir).2.failure = some (.alreadyExists (join dir "slangc.yaml")) := by
  have hhas : t'.has (join dir "slangc.yaml") = true := by
    refine (has_join_iff h.leads Path.isFileName_yaml).mpr
      ⟨h.short, .file Settings.default.document, ?_⟩
    rw [h.kept.fileIn]
    exact h.settings
  have hfind : ((projectPaths dir).find? fun f => t'.has f.1) =
      some (join dir "slangc.yaml", Settings.default.document) := by
    rw [projectPaths_eq]
    exact List.find?_cons_of_pos hhas
  unfold Command.runInit
  rw [h.leads.makeDirs]
  dsimp only
  rw [hfind]
  exact ⟨rfl, rfl⟩

end Command

end Slang
