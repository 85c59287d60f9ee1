import Mathlib.Data.List.DropRight
import Slang.Path

/-!
# Paths without two points

A path that has no part of two points never goes up, so it leads from where it starts down through its
**names**, the parts that are neither empty nor a point (`Path.names`). This module says which names the
paths have that are made from such a path:

* the paths above it start with the same names (`parent?_eq`, `names_append`), and the path is the last one
  of its chain (`exists_chain_eq`);
* slashes at its end have no names (`names_dropSlashes`);
* a name that is joined to it comes after its names (`join_eq`, `parts_lead_append`).
-/

namespace Slang

/-! ### Pieces -/

namespace Text

variable {sep : UInt8}

/-- A separator ends a piece, and what comes after it is cut by itself. -/
theorem split_append (sep : UInt8) (t u : Text) :
    split sep (t ++ sep :: u) = split sep t ++ split sep u := by
  induction t with
  | nil =>
    rw [List.nil_append]
    conv_lhs => rw [split, if_pos rfl]
    rfl
  | cons b t ih =>
    rw [List.cons_append, split, split, ih]
    -- a separator begins a piece of its own; any other byte joins the first one
    by_cases hb : b = sep
    · rw [if_pos hb, if_pos hb, List.cons_append]
    · rw [if_neg hb, if_neg hb]
      cases hs : split sep t with
      | nil => exact absurd hs (split_ne_nil sep t)
      | cons piece pieces => rfl

theorem split_of_notMem {t : Text} (h : sep ∉ t) : split sep t = [t] := by
  induction t with
  | nil => rfl
  | cons b t ih =>
    obtain ⟨hb, ht⟩ := not_or.mp (List.mem_cons.not.mp h)
    rw [split, if_neg (Ne.symm hb), ih ht]

/-- The first piece ends where the separator stands for the first time. -/
theorem split_append_cons {t : Text} (h : sep ∉ t) (u : Text) :
    split sep (t ++ sep :: u) = t :: split sep u := by
  rw [split_append, split_of_notMem h]
  rfl

/-- What stands before the first separator belongs to the first piece. -/
theorem split_append_of_notMem {t u piece : Text} {pieces : List Text} (h : sep ∉ t)
    (hu : split sep u = piece :: pieces) : split sep (t ++ u) = (t ++ piece) :: pieces := by
  induction t with
  | nil => exact hu
  | cons b t ih =>
    obtain ⟨hb, ht⟩ := not_or.mp (List.mem_cons.not.mp h)
    rw [List.cons_append, split, if_neg (Ne.symm hb), ih ht]
    rfl

/-- A piece is a part of the text without separators. -/
theorem of_mem_split {t piece : Text} (h : piece ∈ split sep t) :
    sep ∉ piece ∧ ∀ b ∈ piece, b ∈ t := by
  induction t generalizing piece with
  | nil =>
    obtain rfl := List.mem_singleton.mp h
    exact ⟨List.not_mem_nil, fun b hb => hb⟩
  | cons a t ih =>
    rw [split] at h
    split at h
    · rcases List.mem_cons.mp h with rfl | hpiece
      · exact ⟨List.not_mem_nil, fun b hb => absurd hb List.not_mem_nil⟩
      · exact ⟨(ih hpiece).1, fun b hb => List.mem_cons_of_mem a ((ih hpiece).2 b hb)⟩
    · next hne =>
      cases hs : split sep t with
      | nil => exact absurd hs (split_ne_nil sep t)
      | cons first pieces =>
        rw [hs] at h ih
        rcases List.mem_cons.mp h with rfl | hpiece
        · -- the first piece gets one byte more
          obtain ⟨hsep, hmem⟩ := ih List.mem_cons_self
          refine ⟨fun hin => ?_, fun b hb => ?_⟩
          · exact (List.mem_cons.mp hin).elim (fun heq => hne heq.symm) hsep
          · exact List.mem_cons.mpr ((List.mem_cons.mp hb).imp_right (hmem b))
        · obtain ⟨hsep, hmem⟩ := ih (List.mem_cons_of_mem first hpiece)
          exact ⟨hsep, fun b hb => List.mem_cons_of_mem a (hmem b hb)⟩

/-- Texts joined are the texts with a separator after each but the last. -/
theorem joinWith_append_singleton (sep : Text) (ts : List Text) (u : Text) :
    joinWith sep (ts ++ [u]) = ts.flatMap (· ++ sep) ++ u := by
  induction ts with
  | nil => rfl
  | cons t ts ih =>
    cases hts : ts ++ [u] with
    | nil => exact absurd hts (List.append_ne_nil_of_right_ne_nil ts (List.cons_ne_nil u []))
    | cons first others =>
      rw [List.cons_append, hts, joinWith, ← hts, ih, List.flatMap_cons, List.append_assoc,
        List.append_assoc, List.append_assoc]
      intro h
      cases h

end Text

namespace Path

/-! ### Names -/

/-- Whether a part is a name: neither empty nor a point. -/
def isName (part : Text) : Bool := part ≠ [] && part ≠ "."

/-- The names in a path. -/
def names (p : Text) : List Text := (parts p).filter isName

variable {p q dir file : Text}

theorem parts_append (q rest : Text) : parts (q ++ slash :: rest) = parts q ++ parts rest :=
  Text.split_append slash q rest

theorem names_append (q rest : Text) : names (q ++ slash :: rest) = names q ++ names rest := by
  unfold names
  rw [parts_append, List.filter_append]

/-- A name is a part of its path and has no slash. -/
theorem of_mem_names {name : Text} (h : name ∈ names p) :
    isName name = true ∧ name ∈ parts p ∧ slash ∉ name ∧ ∀ b ∈ name, b ∈ p := by
  obtain ⟨hpart, hname⟩ := List.mem_filter.mp h
  exact ⟨hname, hpart, Text.of_mem_split hpart⟩

theorem isName_iff {part : Text} : isName part = true ↔ part ≠ [] ∧ part ≠ "." := by
  unfold isName
  rw [Bool.and_eq_true, decide_eq_true_iff, decide_eq_true_iff]

/-- The parts that lead nowhere are those that are no names. -/
theorem leadsNowhere_eq (part : Text) : (part = [] || part = "." : Bool) = !isName part := by
  unfold isName
  simp

/-- Where a path starts is a matter of its first byte. -/
theorem isAbsolute_append (h : q ≠ []) (rest : Text) : isAbsolute (q ++ rest) = isAbsolute q := by
  unfold isAbsolute
  rw [List.head?_append_of_ne_nil q h]

/-! ### The paths above a path -/

/-- What is dropped from the end of a path are slashes. -/
theorem exists_slashes (p : Text) : ∃ slashes, p = dropSlashes p ++ slashes ∧ ∀ b ∈ slashes, b = slash := by
  refine ⟨p.rtakeWhile fun b => b == slash, ?_, fun b hb => ?_⟩
  · exact List.rdropWhile_append_rtakeWhile.symm
  · exact beq_iff_eq.mp (List.mem_rtakeWhile_imp (p := fun b => b == slash) hb)

/-- Slashes at the end have no names. -/
theorem names_append_slashes (q : Text) {slashes : Text} (h : ∀ b ∈ slashes, b = slash) :
    names (q ++ slashes) = names q := by
  induction slashes generalizing q with
  | nil => rw [List.append_nil]
  | cons b rest ih =>
    obtain ⟨rfl, hrest⟩ := List.forall_mem_cons.mp h
    have hnone : names rest = [] := ih [] hrest
    rw [names_append, hnone, List.append_nil]

theorem names_dropSlashes (p : Text) : names (dropSlashes p) = names p := by
  obtain ⟨slashes, hp, hslashes⟩ := exists_slashes p
  conv_rhs => rw [hp, names_append_slashes _ hslashes]

/-- No part is new without the slashes at the end. -/
theorem parts_dropSlashes_subset (p : Text) : parts (dropSlashes p) ⊆ parts p := by
  obtain ⟨slashes, hp, hslashes⟩ := exists_slashes p
  cases slashes with
  | nil =>
    rw [List.append_nil] at hp
    rw [← hp]
    exact List.Subset.refl _
  | cons b rest =>
    obtain rfl := hslashes b List.mem_cons_self
    conv_rhs => rw [hp, parts_append]
    exact List.subset_append_left _ _

/-- A path is its parent, a slash and a rest. -/
theorem parent?_eq (h : parent? p = some q) : q ≠ [] ∧ ∃ rest, p = q ++ slash :: rest := by
  unfold parent? at h
  change (if 1 < ((dropSlashes p).rdropWhile fun b => b != slash).length then
    some (p.take (((dropSlashes p).rdropWhile fun b => b != slash).length - 1)) else none) = some q at h
  -- the start of the path as far as its last part ends with a slash
  have hlast := List.rdropWhile_last_not (fun b => b != slash) (dropSlashes p)
  obtain ⟨tail, htail⟩ : ((dropSlashes p).rdropWhile fun b => b != slash) <+: p := by
    obtain ⟨slashes, hp, -⟩ := exists_slashes p
    exact (List.rdropWhile_prefix _ _).trans ⟨slashes, hp.symm⟩
  generalize ((dropSlashes p).rdropWhile fun b => b != slash) = start at h hlast htail
  split at h
  · next hlong =>
    have hne : start ≠ [] := List.ne_nil_of_length_pos (Nat.lt_trans Nat.zero_lt_one hlong)
    have hslash : start.getLast hne = slash := by
      have hbne := hlast hne
      rw [Bool.not_eq_true, bne_eq_false_iff_eq] at hbne
      exact hbne
    have hstart : start.dropLast ++ [slash] = start := by
      rw [← hslash]
      exact List.dropLast_append_getLast hne
    have hq : start.dropLast = q := by
      rw [← Option.some.inj h, ← htail, List.take_append_of_le_length (Nat.sub_le _ _),
        List.dropLast_eq_take]
    refine ⟨List.ne_nil_of_length_pos ?_, tail, ?_⟩
    · rw [← hq, List.length_dropLast]
      exact Nat.sub_pos_of_lt hlong
    · rw [← htail, ← hq]
      conv_lhs => rw [← hstart]
      rw [List.append_assoc, List.singleton_append]
  · cases h

theorem chain_of_parent?_eq_none (h : parent? p = none) : chain p = [p] := by
  rw [chain]
  split
  · rfl
  · next hq =>
    rw [h] at hq
    cases hq

theorem chain_of_parent?_eq_some (h : parent? p = some q) : chain p = chain q ++ [p] := by
  rw [chain]
  split
  · next hq =>
    rw [h] at hq
    cases hq
  · next q' hq' =>
    rw [h] at hq'
    obtain rfl := Option.some.inj hq'
    rfl

/-- A path is the last one of its chain. -/
theorem exists_chain_eq (p : Text) : ∃ above, chain p = above ++ [p] := by
  cases h : parent? p with
  | none => exact ⟨[], chain_of_parent?_eq_none h⟩
  | some q => exact ⟨chain q, chain_of_parent?_eq_some h⟩

/-- **What is true of a path and goes up to its parent is true of all paths above it.** -/
theorem chain_induction {P : Text → Prop} (hup : ∀ q rest, q ≠ [] → P (q ++ slash :: rest) → P q)
    (h : P p) : ∀ q ∈ chain p, P q := by
  -- on the directories above, from the path up to the root
  induction p using chain.induct with
  | case1 p hnone =>
    rw [chain_of_parent?_eq_none hnone]
    intro q hq
    exact List.mem_singleton.mp hq ▸ h
  | case2 p q hsome _ ih =>
    rw [chain_of_parent?_eq_some hsome]
    intro q' hq'
    rcases List.mem_append.mp hq' with habove | hlast
    · obtain ⟨hne, rest, rfl⟩ := parent?_eq hsome
      exact ih (hup q rest hne h) q' habove
    · exact List.mem_singleton.mp hlast ▸ h

/-! ### Joining a name -/

/-- **A name for a file**: what a part of a path can be that is neither empty nor points, and is not too
long. -/
structure IsFileName (file : Text) : Prop where
  isName : isName file = true
  notUp : file ≠ ".."
  slash : slash ∉ file
  zero : (0 : UInt8) ∉ file
  short : file.length ≤ 255

/-- A settings file may have either of these names. -/
theorem isFileName_yaml : IsFileName "slangc.yaml" :=
  ⟨by decide, by decide, by decide, by decide, by decide⟩

theorem isFileName_yml : IsFileName "slangc.yml" :=
  ⟨by decide, by decide, by decide, by decide, by decide⟩

/-- Without steps upwards, the names of a path are kept in order. -/
theorem foldl_addPart {absolute : Bool} {ps : List Text} (hup : (".." : Text) ∉ ps) (before : List Text) :
    ps.foldl (addPart absolute) before = before ++ ps.filter isName := by
  induction ps generalizing before with
  | nil => exact (List.append_nil before).symm
  | cons part ps ih =>
    obtain ⟨hpart, hps⟩ := not_or.mp (List.mem_cons.not.mp hup)
    rw [List.foldl_cons, ih hps, List.filter_cons]
    unfold addPart
    rw [leadsNowhere_eq]
    -- empty parts and dots lead nowhere and are left out
    cases isName part with
    | true =>
      rw [Bool.not_true, if_neg Bool.false_ne_true, if_neg (Ne.symm hpart), if_pos rfl,
        List.append_assoc, List.singleton_append]
    | false => rw [Bool.not_false, if_pos rfl, if_neg Bool.false_ne_true]

/-- What comes before a name that is joined to a path: its names with a slash after each. -/
def lead (dir : Text) : Text :=
  (if isAbsolute dir then [slash] else []) ++ (names dir).flatMap (· ++ [slash])

/-- **A name joined to a path** comes after what leads to the path. -/
theorem join_eq (hdir : dir ≠ []) (hup : (".." : Text) ∉ parts dir) (hfile : IsFileName file) :
    join dir file = lead dir ++ file := by
  -- the file is one more part, and a name
  have hparts : parts (dir ++ [slash] ++ file) = parts dir ++ [file] := by
    rw [List.append_assoc, List.singleton_append, parts_append]
    exact congrArg _ (Text.split_of_notMem hfile.slash)
  have hnames : (parts dir ++ [file]).filter isName = names dir ++ [file] := by
    rw [List.filter_append, List.filter_cons_of_pos hfile.isName]
    rfl
  have hup' : (".." : Text) ∉ parts dir ++ [file] := by
    rw [List.mem_append, List.mem_singleton, not_or]
    exact ⟨hup, Ne.symm hfile.notUp⟩
  unfold join clean lead
  rw [if_neg hdir, hparts, List.append_assoc, isAbsolute_append hdir]
  dsimp only
  rw [foldl_addPart hup', List.nil_append, hnames, Text.joinWith_append_singleton]
  cases isAbsolute dir with
  | true => rfl
  | false =>
    -- a path that is empty would be written as a dot
    have hne : (names dir).flatMap (· ++ [slash]) ++ file ≠ [] :=
      List.append_ne_nil_of_right_ne_nil _ (isName_iff.mp hfile.isName).1
    rw [if_neg Bool.false_ne_true, if_neg hne]
    rfl

theorem isAbsolute_name {name : Text} (hname : isName name = true) (hslash : slash ∉ name) :
    isAbsolute name = false := by
  cases name with
  | nil => cases hname
  | cons b rest => exact beq_eq_false_iff_ne.mpr fun h => hslash (Option.some.inj h ▸ List.mem_cons_self)

/-- A joined name starts where its path starts. -/
theorem isAbsolute_lead_append (dir : Text) (hfile : IsFileName file) :
    isAbsolute (lead dir ++ file) = isAbsolute dir := by
  unfold lead
  cases isAbsolute dir with
  | true => rfl
  | false =>
    rw [if_neg Bool.false_ne_true, List.nil_append]
    -- a relative path begins with the first name of the directory, or with the file
    cases hnames : names dir with
    | nil => exact isAbsolute_name hfile.isName hfile.slash
    | cons name others =>
      obtain ⟨hname, -, hslash, -⟩ := of_mem_names (hnames ▸ List.mem_cons_self : name ∈ names dir)
      rw [List.flatMap_cons, List.append_assoc, List.append_assoc,
        isAbsolute_append (isName_iff.mp hname).1]
      exact isAbsolute_name hname hslash

/-- The parts of a joined name: nothing before the slash of the root, the names of the path, and the name. -/
theorem parts_lead_append (dir : Text) (hfile : IsFileName file) :
    parts (lead dir ++ file) =
      (if isAbsolute dir then [[]] else []) ++ (names dir ++ [file]) := by
  -- on the names of the directory, each with the slash behind it
  have hnames : ∀ ns : List Text, (∀ name ∈ ns, slash ∉ name) →
      parts (ns.flatMap (· ++ [slash]) ++ file) = ns ++ [file] := by
    intro ns hns
    induction ns with
    | nil => exact Text.split_of_notMem hfile.slash
    | cons name ns ih =>
      obtain ⟨hname, hrest⟩ := List.forall_mem_cons.mp hns
      rw [List.flatMap_cons, List.append_assoc, List.append_assoc, List.singleton_append]
      exact (Text.split_append_cons hname _).trans (congrArg (name :: ·) (ih hrest))
  have hdir := hnames (names dir) fun name h => (of_mem_names h).2.2.1
  unfold lead
  cases isAbsolute dir with
  | true => exact (parts_append [] _).trans (congrArg ([[]] ++ ·) hdir)
  | false => exact hdir

theorem zero_notMem_lead (hzero : (0 : UInt8) ∉ dir) : (0 : UInt8) ∉ lead dir := by
  unfold lead
  rw [List.mem_append, List.mem_flatMap, not_or]
  refine ⟨?_, ?_⟩
  · split
    · decide
    · exact List.not_mem_nil
  · rintro ⟨name, hname, hmem⟩
    rcases List.mem_append.mp hmem with hin | hslash
    · exact hzero ((of_mem_names hname).2.2.2 0 hin)
    · exact absurd (List.mem_singleton.mp hslash) (by decide)

end Path
end Slang
