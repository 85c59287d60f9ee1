import Slang.FileTree
import Slang.Proofs.Paths

/-!
# What making directories does

Making directories adds directories to a tree and nothing else, and only on the way to the place that the
path leads to (`opens_makeDirs`). What was made before a failure stays, so this is all that can be said
when it fails. When it succeeds, the path leads to a directory (`leads_of_makeDirs`), and doing it once more
changes nothing (`Leads.makeDirs`).

A path that leads to a directory leads from there to the files in it (`Leads.place`). In a tree that has
more in it, paths lead where they led before, and files are what they were (`Extends.read`).
-/

namespace Slang.FileTree

open Slang.Path (names isName IsFileName lead slash)

variable {t t' t'' : FileTree} {p q there : Place} {dir path file : Text}

/-! ### What stands at a place -/

theorem entry?_root (t : FileTree) : t.entry? [] = some .directory := if_pos rfl

theorem ne_root_of_none (h : t.entry? p = none) : p ≠ [] := by
  rintro rfl
  rw [entry?_root] at h
  cases h

theorem lookup_cons_of_ne {k : Place} (h : q ≠ k) (e : FileEntry) (l : List (Place × FileEntry)) :
    ((k, e) :: l).lookup q = l.lookup q := by
  rw [List.lookup_cons, beq_eq_false_iff_ne.mpr h]

/-- Replacing the entry at a place changes what is there, and nothing elsewhere. -/
theorem lookup_replace (l : List (Place × FileEntry)) (p q : Place) (e : FileEntry) :
    (l.map fun r => if r.1 = p then (p, e) else r).lookup q =
      if q = p then (l.lookup p).map fun _ => e else l.lookup q := by
  induction l with
  | nil => split <;> rfl
  | cons r l ih =>
    obtain ⟨k, v⟩ := r
    rw [List.map_cons]
    by_cases hk : k = p
    · -- this entry is replaced
      subst hk
      rw [if_pos rfl]
      by_cases hq : q = k
      · rw [hq, List.lookup_cons_self, List.lookup_cons_self, if_pos rfl]
        rfl
      · rw [lookup_cons_of_ne hq, lookup_cons_of_ne hq, ih, if_neg hq, if_neg hq]
    · rw [if_neg hk, lookup_cons_of_ne (Ne.symm hk)]
      by_cases hqk : q = k
      · have hq : ¬q = p := fun heq => hk (hqk.symm.trans heq)
        rw [if_neg hq, hqk, List.lookup_cons_self, List.lookup_cons_self]
      · rw [lookup_cons_of_ne hqk, lookup_cons_of_ne hqk, ih]

theorem any_place_eq (l : List (Place × FileEntry)) (p : Place) :
    (l.any fun r => r.1 == p) = (l.lookup p).isSome := by
  induction l with
  | nil => rfl
  | cons r l ih =>
    obtain ⟨k, v⟩ := r
    rw [List.any_cons, ih]
    by_cases hk : p = k
    · rw [hk, List.lookup_cons_self, beq_self_eq_true]
      rfl
    · rw [lookup_cons_of_ne hk, beq_eq_false_iff_ne.mpr (Ne.symm hk), Bool.false_or]

/-- Putting something at a place changes that place only. Nothing is ever put at the root, which is a directory
in every tree. -/
theorem entry?_set (hp : p ≠ []) (e : FileEntry) (q : Place) :
    entry? (t.set p e) q = if q = p then some e else t.entry? q := by
  by_cases hroot : q = []
  · subst hroot
    rw [entry?_root, if_neg (Ne.symm hp), entry?_root]
  · unfold entry? set
    rw [if_neg hroot, if_neg hroot]
    dsimp only
    rw [any_place_eq]
    cases hlookup : t.entries.lookup p with
    | none =>
      -- a new place comes after the others
      rw [Option.isSome_none, if_neg Bool.false_ne_true, List.lookup_append]
      by_cases hq : q = p
      · rw [hq, hlookup, if_pos rfl, List.lookup_cons_self]
        rfl
      · rw [if_neg hq, lookup_cons_of_ne hq]
        exact Option.or_none
    | some e' =>
      -- a place that is there keeps its position
      rw [Option.isSome_some, if_pos rfl, lookup_replace, hlookup]
      rfl

/-! ### Trees with more in them -/

/-- **A tree with more in it**: what stands in the one stands in the other. -/
structure Extends (t t' : FileTree) : Prop where
  work : t'.work = t.work
  kept : ∀ q e, t.entry? q = some e → t'.entry? q = some e

theorem Extends.refl (t : FileTree) : Extends t t := ⟨rfl, fun _ _ h => h⟩

theorem Extends.trans (h : Extends t t') (h' : Extends t' t'') : Extends t t'' := by
  refine ⟨h'.work.trans h.work, ?_⟩
  intro q e hq
  exact h'.kept q e (h.kept q e hq)

/-- Something at a place where there was nothing. -/
theorem Extends.set (h : t.entry? p = none) (e : FileEntry) : Extends t (t.set p e) := by
  refine ⟨rfl, ?_⟩
  intro q e' hq
  -- what stands somewhere does not stand at the new place
  have hne : q ≠ p := by
    rintro rfl
    rw [h] at hq
    cases hq
  rw [entry?_set (ne_root_of_none h), if_neg hne]
  exact hq

/-- Where a name and others after it lead: a name that is no name leads nowhere, two points lead up, and any
other name leads down, to a directory unless it is the last one. -/
theorem follow_cons_eq_ok_iff {start : Place} {name : Text} {rest : List Text} :
    t.follow start (name :: rest) = .ok p ↔
      isName name = false ∧ t.follow start rest = .ok p ∨
        name = ".." ∧ t.follow start.dropLast rest = .ok p ∨
        isName name = true ∧ name ≠ ".." ∧ name.length ≤ longestName ∧
          (rest = [] ∧ p = start ++ [name] ∨
            t.entry? (start ++ [name]) = some .directory ∧
              t.follow (start ++ [name]) rest = .ok p) := by
  conv_lhs => unfold follow
  rw [Path.leadsNowhere_eq]
  -- two points are a name in this sense, so that the three cases exclude each other
  cases hname : isName name with
  | false =>
    have hup : name ≠ ".." := by
      rintro rfl
      exact absurd hname (by decide)
    simp [hup]
  | true =>
    rw [Bool.not_true, if_neg Bool.false_ne_true]
    by_cases hup : name = ".."
    · simp [hup]
    · rw [if_neg hup]
      by_cases hlong : longestName < name.length
      · simp [hlong, hup, Nat.not_le_of_lt hlong]
      · rw [if_neg hlong]
        -- only a name with others after it has to be a directory
        cases rest with
        | nil => simp [hup, Nat.le_of_not_lt hlong, follow, eq_comm]
        | cons next others =>
          cases t.entry? (start ++ [name]) with
          | none => simp [hup]
          | some e => cases e <;> simp [hup, Nat.le_of_not_lt hlong]

/-- Names lead where they led before. -/
theorem Extends.follow (h : Extends t t') {start : Place} {ns : List Text}
    (hfollow : t.follow start ns = .ok p) : t'.follow start ns = .ok p := by
  -- each step is the same one, since the directories on the way are still there
  induction ns generalizing start with
  | nil => exact hfollow
  | cons name rest ih =>
    rw [follow_cons_eq_ok_iff] at hfollow ⊢
    rcases hfollow with ⟨hname, hrest⟩ | ⟨hup, hrest⟩ | ⟨hname, hup, hshort, hlast | ⟨hentry, hrest⟩⟩
    · exact .inl ⟨hname, ih hrest⟩
    · exact .inr (.inl ⟨hup, ih hrest⟩)
    · exact .inr (.inr ⟨hname, hup, hshort, .inl hlast⟩)
    · exact .inr (.inr ⟨hname, hup, hshort, .inr ⟨h.kept _ _ hentry, ih hrest⟩⟩)

theorem Extends.base (h : Extends t t') (path : Text) : t'.base path = t.base path := by
  unfold FileTree.base
  rw [h.work]

/-- Names are followed only for a path that the system takes. -/
theorem reach_eq_ok_iff {ns : List Text} : t.reach path ns = .ok p ↔
    path ≠ [] ∧ (0 : UInt8) ∉ path ∧ path.length ≤ longestPath ∧
      t.follow (t.base path) ns = .ok p := by
  unfold reach
  -- three kinds of paths lead nowhere before any name of them is followed
  by_cases hempty : path = []
  · rw [if_pos hempty]
    exact iff_of_false (fun h => nomatch h) fun h => h.1 hempty
  · rw [if_neg hempty]
    by_cases hzero : (0 : UInt8) ∈ path
    · rw [if_pos (List.contains_iff_mem.mpr hzero)]
      exact iff_of_false (fun h => nomatch h) fun h => h.2.1 hzero
    · rw [if_neg (List.contains_iff_mem.not.mpr hzero)]
      by_cases hlong : longestPath < path.length
      · rw [if_pos hlong]
        exact iff_of_false (fun h => nomatch h) fun h => Nat.not_le_of_lt hlong h.2.2.1
      · rw [if_neg hlong]
        exact ⟨fun h => ⟨hempty, hzero, Nat.le_of_not_lt hlong, h⟩, fun h => h.2.2.2⟩

/-- A path leads where it led before. -/
theorem Extends.place (h : Extends t t') (hplace : t.place path = .ok p) : t'.place path = .ok p := by
  obtain ⟨hempty, hzero, hshort, hfollow⟩ := reach_eq_ok_iff.mp hplace
  refine reach_eq_ok_iff.mpr ⟨hempty, hzero, hshort, ?_⟩
  rw [h.base]
  exact h.follow hfollow

/-- What is at a path is the entry at the place it leads to. -/
theorem stat_eq_ok_iff {e : FileEntry} :
    t.stat path = .ok e ↔ ∃ p, t.place path = .ok p ∧ t.entry? p = some e := by
  unfold stat
  cases t.place path with
  | error why =>
    refine iff_of_false (fun h => by cases h) ?_
    rintro ⟨p, hp, -⟩
    cases hp
  | ok p =>
    dsimp only [Except.bind]
    cases hentry : t.entry? p with
    | none =>
      refine iff_of_false (fun h => by cases h) ?_
      rintro ⟨p', hp, he⟩
      obtain rfl := Except.ok.inj hp
      rw [hentry] at he
      cases he
    | some e' =>
      constructor
      · intro h
        obtain rfl := Except.ok.inj h
        exact ⟨p, rfl, hentry⟩
      · rintro ⟨p', hp, he⟩
        obtain rfl := Except.ok.inj hp
        rw [hentry] at he
        exact congrArg _ (Option.some.inj he)

theorem read_eq_ok_iff {content : Text} :
    t.read path = .ok content ↔ t.stat path = .ok (.file content) := by
  unfold read
  cases t.stat path with
  | error why => exact iff_of_false (fun h => nomatch h) fun h => nomatch h
  | ok e =>
    cases e with
    | directory => exact iff_of_false (fun h => nomatch h) fun h => nomatch h
    | file content' =>
      dsimp only
      rw [Except.ok.injEq, Except.ok.injEq, FileEntry.file.injEq]

theorem has_eq_true_iff : t.has path = true ↔ ∃ e, t.stat path = .ok e := by
  unfold has
  cases t.stat path with
  | error why => exact iff_of_false Bool.false_ne_true fun ⟨_, h⟩ => nomatch h
  | ok e => exact iff_of_true rfl ⟨e, rfl⟩

/-- **A file can be written** where its path leads somewhere and there is no directory. -/
theorem write_eq_ok_iff {content : Text} :
    t.write path content = .ok t' ↔ ∃ p, t.place path = .ok p ∧ t.entry? p ≠ some .directory ∧
      t' = t.set p (.file content) := by
  unfold write
  cases t.place path with
  | error why => exact iff_of_false (fun h => nomatch h) fun ⟨_, h, _⟩ => nomatch h
  | ok p =>
    dsimp only
    split
    · -- a directory is not overwritten; anything else is
      next hentry =>
      refine iff_of_false (fun h => nomatch h) ?_
      rintro ⟨p', hp, hne, -⟩
      obtain rfl := Except.ok.inj hp
      exact hne hentry
    · next hne =>
      constructor
      · intro h
        exact ⟨p, rfl, hne, (Except.ok.inj h).symm⟩
      · rintro ⟨p', hp, -, rfl⟩
        rw [Except.ok.inj hp]

/-- Files are what they were. -/
theorem Extends.read (h : Extends t t') {content : Text} (hread : t.read path = .ok content) :
    t'.read path = .ok content := by
  obtain ⟨p, hplace, hentry⟩ := stat_eq_ok_iff.mp (read_eq_ok_iff.mp hread)
  exact read_eq_ok_iff.mpr (stat_eq_ok_iff.mpr ⟨p, h.place hplace, h.kept p _ hentry⟩)

/-! ### Names that lead down -/

/-- The place that a path without two points names. -/
def target (t : FileTree) (dir : Text) : Place := t.base dir ++ names dir

/-- The place of a file there. -/
def fileIn (t : FileTree) (dir file : Text) : Place := t.target dir ++ [file]

theorem Extends.target (h : Extends t t') (dir : Text) : t'.target dir = t.target dir := by
  unfold FileTree.target
  rw [h.base]

theorem Extends.fileIn (h : Extends t t') (dir file : Text) : t'.fileIn dir file = t.fileIn dir file := by
  unfold FileTree.fileIn
  rw [h.target]

theorem fileIn_ne_root (t : FileTree) (dir file : Text) : t.fileIn dir file ≠ [] :=
  List.append_ne_nil_of_right_ne_nil _ (List.cons_ne_nil _ _)

/-- A file in a directory is not on the way to the directory. -/
theorem fileIn_not_prefix (t : FileTree) (dir file : Text) : ¬t.fileIn dir file <+: t.target dir := by
  intro h
  have hle := h.length_le
  unfold fileIn at hle
  rw [List.length_append] at hle
  exact Nat.not_succ_le_self _ hle

/-- Without two points, names lead down from where they start: none of them is too long, and there is a
directory after each but perhaps the last. -/
theorem of_follow {start : Place} {ns : List Text} (hup : (".." : Text) ∉ ns)
    (h : t.follow start ns = .ok p) :
    p = start ++ ns.filter isName ∧ (∀ name ∈ ns.filter isName, name.length ≤ longestName) ∧
      ∀ q, q <+: ns.filter isName → q ≠ [] → q ≠ ns.filter isName →
        t.entry? (start ++ q) = some .directory := by
  induction ns generalizing start with
  | nil =>
    obtain rfl := Except.ok.inj h
    refine ⟨(List.append_nil _).symm, fun name hname => absurd hname List.not_mem_nil, ?_⟩
    intro q hq hne
    exact absurd (List.prefix_nil.mp hq) hne
  | cons name rest ih =>
    obtain ⟨hname_up, hrest_up⟩ := not_or.mp (List.mem_cons.not.mp hup)
    rcases follow_cons_eq_ok_iff.mp h with
      ⟨hname, hrest⟩ | ⟨rfl, -⟩ | ⟨hname, -, hshort, ⟨rfl, rfl⟩ | ⟨hentry, hrest⟩⟩
    · rw [List.filter_cons_of_neg (ne_true_of_eq_false hname)]
      exact ih hrest_up hrest
    · exact absurd rfl hname_up
    · -- the last name may be new
      rw [List.filter_cons_of_pos hname, List.filter_nil]
      refine ⟨rfl, List.forall_mem_singleton.mpr hshort, ?_⟩
      intro q hq hne hall
      rcases List.prefix_cons_iff.mp hq with rfl | ⟨q', rfl, hq'⟩
      · exact absurd rfl hne
      · rw [List.prefix_nil.mp hq'] at hall
        exact absurd rfl hall
    · obtain ⟨rfl, hshorts, hdirs⟩ := ih hrest_up hrest
      rw [List.filter_cons_of_pos hname]
      refine ⟨List.append_assoc _ _ _, List.forall_mem_cons.mpr ⟨hshort, hshorts⟩, ?_⟩
      intro q hq hne hall
      -- the directory after this name is the one that was asked for, and the others come after it
      rcases List.prefix_cons_iff.mp hq with rfl | ⟨q', rfl, hq'⟩
      · exact absurd rfl hne
      · by_cases hq'_nil : q' = []
        · rw [hq'_nil]
          exact hentry
        · have hdir := hdirs q' hq' hq'_nil fun heq => hall (congrArg (name :: ·) heq)
          rw [List.append_assoc] at hdir
          exact hdir

/-- The other way round: names lead down through directories, and other names from there. -/
theorem follow_append {start : Place} {ns others : List Text} (hup : (".." : Text) ∉ ns)
    (hshort : ∀ name ∈ ns.filter isName, name.length ≤ longestName)
    (hdirs : ∀ q, q <+: ns.filter isName → q ≠ [] → t.entry? (start ++ q) = some .directory)
    (h : t.follow (start ++ ns.filter isName) others = .ok p) :
    t.follow start (ns ++ others) = .ok p := by
  induction ns generalizing start with
  | nil =>
    rw [List.filter_nil, List.append_nil] at h
    exact h
  | cons name rest ih =>
    obtain ⟨hname_up, hrest_up⟩ := not_or.mp (List.mem_cons.not.mp hup)
    rw [List.cons_append, follow_cons_eq_ok_iff]
    cases hname : isName name with
    | false =>
      rw [List.filter_cons_of_neg (ne_true_of_eq_false hname)] at hshort hdirs h
      exact .inl ⟨rfl, ih hrest_up hshort hdirs h⟩
    | true =>
      rw [List.filter_cons_of_pos hname] at hshort hdirs h
      obtain ⟨hname_short, hrest_short⟩ := List.forall_mem_cons.mp hshort
      -- each way down from here is one from above with this name before it
      have hdirs' : ∀ q, q <+: rest.filter isName → t.entry? (start ++ name :: q) = some .directory := by
        intro q hq
        exact hdirs (name :: q) (List.prefix_cons_iff.mpr (.inr ⟨q, rfl, hq⟩)) (List.cons_ne_nil _ _)
      refine .inr (.inr ⟨rfl, Ne.symm hname_up, hname_short, .inr ⟨hdirs' [] List.nil_prefix, ?_⟩⟩)
      apply ih hrest_up hrest_short
      · intro q hq hne
        rw [List.append_assoc]
        exact hdirs' q hq
      · rw [List.append_assoc]
        exact h

/-- The name of a file leads to it from its directory, whether or not it is there. -/
theorem follow_fileName (t : FileTree) (start : Place) (hfile : IsFileName file) :
    t.follow start [file] = .ok (start ++ [file]) := by
  rw [follow_cons_eq_ok_iff]
  exact .inr (.inr ⟨hfile.isName, hfile.notUp, hfile.short, .inl ⟨rfl, rfl⟩⟩)

/-- A name leads to a place in the working directory. -/
theorem place_name (t : FileTree) (hfile : IsFileName file) : t.place file = .ok (t.work ++ [file]) := by
  have hbase : t.base file = t.work :=
    if_neg (ne_true_of_eq_false (Path.isAbsolute_name hfile.isName hfile.slash))
  have hparts : Path.parts file = [file] := Text.split_of_notMem hfile.slash
  refine reach_eq_ok_iff.mpr ⟨(Path.isName_iff.mp hfile.isName).1, hfile.zero,
    Nat.le_trans hfile.short (by decide), ?_⟩
  rw [hbase, hparts]
  exact follow_fileName t t.work hfile

/-- **A path that leads to a directory**, down through directories. -/
structure Leads (t : FileTree) (dir : Text) : Prop where
  ne_nil : dir ≠ []
  zero : (0 : UInt8) ∉ dir
  short : dir.length ≤ longestPath
  notUp : (".." : Text) ∉ Path.parts dir
  names : ∀ name ∈ names dir, name.length ≤ longestName
  directory : ∀ q, q <+: Path.names dir → t.entry? (t.base dir ++ q) = some .directory

namespace Leads

theorem entry?_target (h : t.Leads dir) : t.entry? (t.target dir) = some .directory :=
  h.directory _ (List.prefix_refl _)

/-- The directory is found. -/
theorem stat (h : t.Leads dir) : t.stat dir = .ok .directory := by
  refine stat_eq_ok_iff.mpr ⟨t.target dir, ?_, h.entry?_target⟩
  refine reach_eq_ok_iff.mpr ⟨h.ne_nil, h.zero, h.short, ?_⟩
  rw [← List.append_nil (Path.parts dir)]
  exact follow_append h.notUp h.names (fun q hq _ => h.directory q hq) rfl

/-- The paths above a path that leads to a directory do so, too. -/
theorem above {rest : Text} (h : t.Leads (path ++ slash :: rest)) (hpath : path ≠ []) :
    t.Leads path := by
  obtain ⟨-, hzero, hshort, hup, hnames, hdirs⟩ := h
  have hbase : t.base (path ++ slash :: rest) = t.base path := by
    unfold base
    rw [Path.isAbsolute_append hpath]
  rw [Path.parts_append, List.mem_append, not_or] at hup
  rw [Path.names_append] at hnames hdirs
  refine ⟨hpath, ?_, ?_, hup.1, ?_, ?_⟩
  · intro hin
    exact hzero (List.mem_append_left _ hin)
  · rw [List.length_append] at hshort
    exact Nat.le_trans (Nat.le_add_right _ _) hshort
  · intro name hname
    exact hnames name (List.mem_append_left _ hname)
  · -- the names of the path above come first, so they lead to the first directories
    intro q hq
    rw [← hbase]
    exact hdirs q (hq.trans (List.prefix_append _ _))

/-- **A file in a directory** is where the path to the directory leads, under its name. -/
theorem place (h : t.Leads dir) (hfile : IsFileName file)
    (hshort : (lead dir ++ file).length ≤ longestPath) :
    t.place (lead dir ++ file) = .ok (t.fileIn dir file) := by
  have hne : lead dir ++ file ≠ [] :=
    List.append_ne_nil_of_right_ne_nil _ (Path.isName_iff.mp hfile.isName).1
  have hzero : (0 : UInt8) ∉ lead dir ++ file := fun hin =>
    (List.mem_append.mp hin).elim (Path.zero_notMem_lead h.zero) hfile.zero
  refine reach_eq_ok_iff.mpr ⟨hne, hzero, hshort, ?_⟩
  have hbase : t.base (lead dir ++ file) = t.base dir := by
    unfold base
    rw [Path.isAbsolute_lead_append dir hfile]
  rw [hbase, Path.parts_lead_append dir hfile, ← List.append_assoc]
  -- before the name of the file there are the names of the directory, and perhaps nothing before a slash
  have hfilter : ((if Path.isAbsolute dir then [[]] else []) ++ Path.names dir).filter isName =
      Path.names dir := by
    have hnames : (Path.names dir).filter isName = Path.names dir := by
      unfold Path.names
      rw [List.filter_filter]
      simp only [Bool.and_self]
    rw [List.filter_append, hnames]
    split <;> rfl
  apply follow_append
  · rw [List.mem_append, not_or]
    refine ⟨?_, fun hin => h.notUp (Path.of_mem_names hin).2.1⟩
    split
    · exact fun hin => absurd (List.mem_singleton.mp hin) (by decide)
    · exact List.not_mem_nil
  · rw [hfilter]
    exact h.names
  · rw [hfilter]
    intro q hq hne
    exact h.directory q hq
  · rw [hfilter]
    exact follow_fileName t _ hfile

/-- What a path to the file has to be: not too long. -/
theorem place_join (h : t.Leads dir) (hfile : IsFileName file) {q : Place} :
    t.place (Path.join dir file) = .ok q ↔
      (Path.join dir file).length ≤ longestPath ∧ q = t.fileIn dir file := by
  rw [Path.join_eq h.ne_nil h.notUp hfile]
  constructor
  · intro hplace
    have hshort := (reach_eq_ok_iff.mp hplace).2.2.1
    exact ⟨hshort, Except.ok.inj (hplace.symm.trans (h.place hfile hshort))⟩
  · rintro ⟨hshort, rfl⟩
    exact h.place hfile hshort

theorem of_extends (h : t.Leads dir) (hext : Extends t t') : t'.Leads dir := by
  refine ⟨h.ne_nil, h.zero, h.short, h.notUp, h.names, ?_⟩
  intro q hq
  rw [hext.base]
  exact hext.kept _ _ (h.directory q hq)

end Leads

/-! ### Making directories -/

/-- **Directories made on the way to a place**, and nothing else. -/
structure Opens (there : Place) (t t' : FileTree) : Prop extends Extends t t' where
  new : ∀ q e, t'.entry? q = some e → t.entry? q = some e ∨ e = .directory ∧ q <+: there

namespace Opens

theorem refl (there : Place) (t : FileTree) : Opens there t t :=
  ⟨Extends.refl t, fun _ _ h => .inl h⟩

theorem trans (h : Opens there t t') (h' : Opens there t' t'') : Opens there t t'' := by
  refine ⟨h.toExtends.trans h'.toExtends, ?_⟩
  intro q e hq
  rcases h'.new q e hq with hmiddle | hnew
  · exact h.new q e hmiddle
  · exact .inr hnew

/-- A directory where there was nothing. -/
theorem set (h : t.entry? p = none) (hp : p <+: there) : Opens there t (t.set p .directory) := by
  refine ⟨Extends.set h .directory, ?_⟩
  intro q e hq
  rw [entry?_set (ne_root_of_none h)] at hq
  split at hq
  · next heq =>
    obtain rfl := Option.some.inj hq
    exact .inr ⟨rfl, heq ▸ hp⟩
  · exact .inl hq

/-- Places that are not on the way are as they were. -/
theorem entry?_eq (h : Opens there t t') (hq : ¬q <+: there) : t'.entry? q = t.entry? q := by
  cases hentry : t.entry? q with
  | some e => exact h.kept q e hentry
  | none =>
    cases hentry' : t'.entry? q with
    | none => rfl
    | some e =>
      rcases h.new q e hentry' with hold | ⟨-, hpre⟩
      · rw [hentry] at hold
        cases hold
      · exact absurd hpre hq

end Opens

/-- What making a directory does when it succeeds. -/
theorem of_makeDir (h : t.makeDir path = .ok t') :
    t.stat path = .ok .directory ∧ t' = t ∨
      ∃ p, t.reach path (Path.parts (Path.dropSlashes path)) = .ok p ∧ t.entry? p = none ∧
        t' = t.set p .directory := by
  unfold makeDir at h
  split at h
  · next hstat => exact .inl ⟨hstat, (Except.ok.inj h).symm⟩
  · cases h
  · split at h
    · cases h
    · next p hreach =>
      split at h
      · cases h
      · next hnone =>
        exact .inr ⟨p, hreach, Option.not_isSome_iff_eq_none.mp hnone, (Except.ok.inj h).symm⟩

/-- Where the parts of a path lead that does not go up, perhaps without the slashes at its end. -/
theorem of_reach {ns : List Text} (hup : (".." : Text) ∉ Path.parts path) (hns : ns ⊆ Path.parts path)
    (hnames : ns.filter isName = names path) (h : t.reach path ns = .ok p) :
    p = t.target path ∧ path ≠ [] ∧ (0 : UInt8) ∉ path ∧ path.length ≤ longestPath ∧
      (∀ name ∈ names path, name.length ≤ longestName) ∧
      ∀ q, q <+: names path → q ≠ [] → q ≠ names path →
        t.entry? (t.base path ++ q) = some .directory := by
  obtain ⟨hne, hzero, hshort, hfollow⟩ := reach_eq_ok_iff.mp h
  obtain ⟨hp, hshorts, hdirs⟩ := of_follow (fun hin => hup (hns hin)) hfollow
  rw [hnames] at hp hshorts hdirs
  exact ⟨hp, hne, hzero, hshort, hshorts, hdirs⟩

/-- Making one directory. -/
theorem Opens.makeDir (hup : (".." : Text) ∉ Path.parts path) (hpath : t.target path <+: there)
    (h : t.makeDir path = .ok t') : Opens there t t' := by
  rcases of_makeDir h with ⟨-, rfl⟩ | ⟨p, hreach, hnone, rfl⟩
  · exact Opens.refl there t'
  · obtain ⟨rfl, -⟩ := of_reach hup (Path.parts_dropSlashes_subset path)
      (Path.names_dropSlashes path) hreach
    exact Opens.set hnone hpath

/-- Directories made one after the other, as far as the first that fails. -/
theorem opens_makeEach {paths : List Text}
    (h : ∀ path ∈ paths, (".." : Text) ∉ Path.parts path ∧ t.target path <+: there) :
    Opens there t (t.makeEach paths).1 := by
  induction paths generalizing t with
  | nil => exact Opens.refl there t
  | cons path rest ih =>
    obtain ⟨⟨hup, hpath⟩, hrest⟩ := List.forall_mem_cons.mp h
    unfold makeEach
    cases hmake : t.makeDir path with
    | error e => exact Opens.refl there t
    | ok t₁ =>
      have hopens := Opens.makeDir hup hpath hmake
      apply hopens.trans
      apply ih
      -- the other paths still lead where they led, since they start where they started
      intro path' hpath'
      rw [hopens.toExtends.target]
      exact hrest path' hpath'

/-- **Making directories adds directories on the way to where the path leads**, whether or not it fails. -/
theorem opens_makeDirs (hup : (".." : Text) ∉ Path.parts dir) :
    Opens (t.target dir) t (t.makeDirs dir).1 := by
  refine opens_makeEach (Path.chain_induction (P := fun path =>
    (".." : Text) ∉ Path.parts path ∧ t.target path <+: t.target dir) ?_
    ⟨hup, List.prefix_refl _⟩)
  rintro q rest hq ⟨hup', hprefix⟩
  rw [Path.parts_append, List.mem_append, not_or] at hup'
  have htarget : t.target (q ++ slash :: rest) = t.target q ++ names rest := by
    unfold target base
    rw [Path.isAbsolute_append hq, Path.names_append, List.append_assoc]
  rw [htarget] at hprefix
  exact ⟨hup'.1, (List.prefix_append _ _).trans hprefix⟩

/-- Nothing is made where all directories are there. -/
theorem makeEach_of_stat {paths : List Text} (h : ∀ path ∈ paths, t.stat path = .ok .directory) :
    t.makeEach paths = (t, none) := by
  induction paths with
  | nil => rfl
  | cons path rest ih =>
    obtain ⟨hpath, hrest⟩ := List.forall_mem_cons.mp h
    have hmake : t.makeDir path = .ok t := by
      unfold makeDir
      rw [hpath]
    unfold makeEach
    rw [hmake]
    exact ih hrest

/-- **Directories that are there are not made again.** -/
theorem Leads.makeDirs (h : t.Leads dir) : t.makeDirs dir = (t, none) := by
  apply makeEach_of_stat
  intro path hpath
  apply Leads.stat
  exact Path.chain_induction (P := t.Leads) (fun q rest hq hlead => hlead.above hq) h path hpath

/-- The last directory is made after the others. -/
theorem of_makeEach_append {above : List Text} (h : t.makeEach (above ++ [dir]) = (t', none)) :
    (t.makeEach above).1.makeDir dir = .ok t' := by
  -- on the directories above: the last one is made where those have been made
  induction above generalizing t with
  | nil =>
    rw [List.nil_append] at h
    unfold makeEach at h
    change t.makeDir dir = .ok t'
    cases hmake : t.makeDir dir with
    | error e =>
      rw [hmake] at h
      cases h
    | ok t₁ =>
      rw [hmake] at h
      exact congrArg _ (Prod.mk.inj h).1
  | cons path rest ih =>
    rw [List.cons_append] at h
    unfold makeEach at h ⊢
    cases hmake : t.makeDir path with
    | error e =>
      rw [hmake] at h
      cases h
    | ok t₁ =>
      rw [hmake] at h
      exact ih h

/-- A path leads to a directory when the last one on the way is there. -/
theorem leads_of_reach {ns : List Text} (hup : (".." : Text) ∉ Path.parts dir)
    (hns : ns ⊆ Path.parts dir) (hnames : ns.filter isName = names dir)
    (hreach : t.reach dir ns = .ok p) (hext : Extends t t')
    (hbase : t'.entry? (t'.base dir) = some .directory) (hlast : t'.entry? p = some .directory) :
    t'.Leads dir := by
  obtain ⟨rfl, hne, hzero, hshort, hshorts, hdirs⟩ := of_reach hup hns hnames hreach
  refine ⟨hne, hzero, hshort, hup, hshorts, ?_⟩
  intro q hq
  -- the first directory is where the path starts, the last one where it leads, and names were followed
  -- through the others
  by_cases hnil : q = []
  · rw [hnil, List.append_nil]
    exact hbase
  · rw [hext.base]
    by_cases hall : q = names dir
    · rw [hall]
      exact hlast
    · exact hext.kept _ _ (hdirs q hq hnil hall)

/-- **When directories were made, the path leads to one.** -/
theorem leads_of_makeDirs (hwork : t.entry? t.work = some .directory)
    (hup : (".." : Text) ∉ Path.parts dir) (h : t.makeDirs dir = (t', none)) : t'.Leads dir := by
  have hopens := opens_makeDirs (t := t) hup
  rw [h] at hopens
  have hbase : t'.entry? (t'.base dir) = some .directory := by
    rw [hopens.toExtends.base]
    unfold base
    split
    · exact entry?_root t'
    · exact hopens.kept _ _ hwork
  obtain ⟨above, hchain⟩ := Path.exists_chain_eq dir
  unfold makeDirs at h
  rw [hchain] at h
  -- the last directory was there by then, or it was made
  rcases of_makeDir (of_makeEach_append h) with ⟨hstat, ht'⟩ | ⟨p, hreach, hnone, ht'⟩
  · obtain ⟨p, hplace, hentry⟩ := stat_eq_ok_iff.mp hstat
    rw [← ht'] at hplace hentry
    exact leads_of_reach hup (List.Subset.refl _) rfl hplace (Extends.refl t') hbase hentry
  · refine leads_of_reach hup (Path.parts_dropSlashes_subset dir) (Path.names_dropSlashes dir) hreach
      ?_ hbase ?_
    · rw [ht']
      exact Extends.set hnone .directory
    · rw [ht', entry?_set (ne_root_of_none hnone), if_pos rfl]

end Slang.FileTree
