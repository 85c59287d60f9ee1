import Slang.Command
import Slang.Proofs.Runes

/-!
# What layers give to a setting

A setting has one value in each layer that mentions its key, and what counts is the value in the
highest of these layers (`Layer.lookup_stack`). For each layer this module says, without looking at how
the layer is made, which value that is:

* on the command line, the value that was set last for the flag of the setting, and for the flag against
  constant folding the opposite (`Settings.Field.lookup_commandLine`);
* in the environment, the text of the variable whose name in small letters is the key
  (`Layer.lookup_ofEnvironment`);
* in a settings file, the value of the entry with the key (`Settings.Field.lookup_ofEntries`).

Settings are decoded from what counts for their keys, and from nothing else
(`Settings.ofLayer?_eq_some_iff`).
-/

namespace Slang

/-! ### One layer over the other -/

namespace Layer

/-- Whether an entry is kept is a matter of its key. -/
theorem lookup_filter (p : Text → Bool) (l : Layer) (key : Text) :
    (l.filter fun e => p e.1).lookup key = if p key then l.lookup key else none := by
  induction l with
  | nil => rw [List.filter_nil, List.lookup_nil, ite_self]
  | cons e l ih =>
    obtain ⟨k, v⟩ := e
    rw [List.filter_cons]
    by_cases hkey : key = k
    · subst hkey
      cases hp : p key with
      | true => simp
      | false => simp [ih, hp]
    · -- an entry under another key makes no difference
      have hne : (key == k) = false := beq_eq_false_iff_ne.mpr hkey
      rw [List.lookup_cons, hne, ← ih]
      cases p k with
      | true => rw [if_pos rfl, List.lookup_cons, hne]
      | false => rw [if_neg Bool.false_ne_true]

/-- The first entry under a key, among those that elements of a list give. -/
theorem lookup_filterMap {α : Type} (l : List α) (g : α → Option (Text × Given)) (key : Text) :
    (l.filterMap g).lookup key =
      l.findSome? fun a => (g a).bind fun e => if key = e.1 then some e.2 else none := by
  induction l with
  | nil => rfl
  | cons a l ih =>
    rw [List.findSome?_cons]
    cases hg : g a with
    | none => rw [List.filterMap_cons_none hg, ih]; rfl
    | some e =>
      rw [List.filterMap_cons_some hg, List.lookup_cons]
      by_cases hkey : key = e.1
      · simp [hkey]
      · simp [hkey, beq_eq_false_iff_ne.mpr hkey, ih]

/-- The first element with a property gives what such elements give. -/
theorem findSome?_if {α β : Type} (l : List α) (p : α → Bool) (g : α → β) :
    (l.findSome? fun a => if p a then some (g a) else none) = (l.find? p).map g := by
  induction l with
  | nil => rfl
  | cons a l ih =>
    rw [List.findSome?_cons, List.find?_cons]
    cases p a with
    | true => rfl
    | false => exact ih

/-- The upper layer counts where it mentions a key. -/
theorem lookup_above (upper lower : Layer) (key : Text) :
    (upper.above lower).lookup key = (upper.lookup key).or (lower.lookup key) := by
  rw [above, List.lookup_append, lookup_filter fun k => (upper.lookup k).isNone]
  cases upper.lookup key <;> rfl

/-- **What counts is in the highest layer that mentions a key.** -/
theorem lookup_stack (layers : List Layer) (key : Text) :
    (stack layers).lookup key = layers.reverse.findSome? fun l => l.lookup key := by
  -- what is below the layers counts where none of them mentions the key
  have hfold : ∀ (layers : List Layer) (below : Layer),
      (layers.foldl (fun lower upper => upper.above lower) below).lookup key =
        (layers.reverse.findSome? fun l => l.lookup key).or (below.lookup key) := by
    intro layers
    induction layers with
    | nil => exact fun below => rfl
    | cons l layers ih =>
      intro below
      rw [List.foldl_cons, ih, lookup_above, List.reverse_cons, List.findSome?_append,
        Option.or_assoc]
      congr 1
      simp
  rw [stack, hfold]
  exact Option.or_none

end Layer

/-! ### Settings, one by one -/

namespace Settings

/-- One of the settings. -/
inductive Field where
  | sourceExt
  | output
  | verbose
  | logLevel
  | logFormat
  | foldConstants
  | warnShadowing
  | jobs
  deriving DecidableEq

namespace Field

/-- The key of a setting in files and, in small letters, in the environment. -/
def key : Field → Text
  | sourceExt => "source_ext"
  | output => "output"
  | verbose => "verbose"
  | logLevel => "log_level"
  | logFormat => "log_format"
  | foldConstants => "fold_constants"
  | warnShadowing => "warn_shadowing"
  | jobs => "jobs"

/-- The name of the flag that sets it. The extension of sources has none. -/
def flagName? : Field → Option Text
  | sourceExt => none
  | output => some "output"
  | verbose => some "verbose"
  | logLevel => some "log-level"
  | logFormat => some "log-format"
  | foldConstants => some "no-fold"
  | warnShadowing => some "warn-shadowing"
  | jobs => some "jobs"

/-- The flag that sets it. -/
def flag? (f : Field) : Option Flag := f.flagName?.bind (Flag.named? Command.sharedFlags)

/-- What a value of its flag means for a setting: `--no-fold` is said of the opposite. -/
def meant : Field → Scalar → Scalar
  | foldConstants, .bool b => .bool !b
  | _, v => v

/-- The value of a setting. -/
def value (f : Field) (s : Settings) : Scalar :=
  match f with
  | sourceExt => .text s.sourceExt
  | output => .text s.output
  | verbose => .bool s.verbose
  | logLevel => .text s.logLevel
  | logFormat => .text s.logFormat
  | foldConstants => .bool s.foldConstants
  | warnShadowing => .bool s.warnShadowing
  | jobs => .int s.jobs

/-- What a given value is for a setting, if it fits. -/
def decode? (f : Field) (g : Given) : Option Scalar :=
  match f with
  | sourceExt | output | logLevel | logFormat => g.text?.map .text
  | verbose | foldConstants | warnShadowing => g.bool?.map .bool
  | jobs => g.int?.map .int

end Field

/-- Settings are their values. -/
theorem ext_value {s s' : Settings} (h : ∀ f : Field, f.value s = f.value s') : s = s' := by
  obtain ⟨⟩ := s
  obtain ⟨⟩ := s'
  rw [mk.injEq]
  exact ⟨Scalar.text.inj (h .sourceExt), Scalar.text.inj (h .output), Scalar.bool.inj (h .verbose),
    Scalar.text.inj (h .logLevel), Scalar.text.inj (h .logFormat),
    Scalar.bool.inj (h .foldConstants), Scalar.bool.inj (h .warnShadowing), Scalar.int.inj (h .jobs)⟩

/-- The layer of settings mentions every key. -/
theorem lookup_layer (s : Settings) (f : Field) :
    s.layer.lookup f.key = some (.ofScalar (f.value s)) := by
  cases f <;> rfl

/-- A value is decoded if it is there and fits. -/
theorem bind_map_eq_some_iff {α : Type} {wrap : α → Scalar} (hwrap : ∀ a b, wrap a = wrap b → a = b)
    (given : Option Given) (read : Given → Option α) (a : α) :
    (given.bind fun g => (read g).map wrap) = some (wrap a) ↔ ∃ g, given = some g ∧ read g = some a := by
  rw [Option.bind_eq_some_iff]
  refine exists_congr fun g => and_congr_right fun _ => ?_
  rw [Option.map_eq_some_iff]
  constructor
  · rintro ⟨b, hb, heq⟩
    rw [hb, hwrap b a heq]
  · exact fun h => ⟨a, h, rfl⟩

/-- **Settings are decoded one by one**, and no other key matters. -/
theorem ofLayer?_eq_some_iff {l : Layer} {s : Settings} :
    ofLayer? l = some s ↔ ∀ f : Field, (l.lookup f.key).bind f.decode? = some (f.value s) := by
  have htext := fun {o t} => bind_map_eq_some_iff (fun a b => Scalar.text.inj) o Given.text? t
  have hbool := fun {o b} => bind_map_eq_some_iff (fun a b => Scalar.bool.inj) o Given.bool? b
  have hint := fun {o n} => bind_map_eq_some_iff (fun a b => Scalar.int.inj) o Given.int? n
  conv_lhs => simp only [ofLayer?, bind, pure, Option.bind_eq_some_iff, Option.some.injEq]
  constructor
  · rintro ⟨ext, hext, output, houtput, verbose, hverbose, level, hlevel, format, hformat, fold, hfold,
      shadow, hshadow, jobs, hjobs, rfl⟩ f
    cases f with
    | sourceExt => exact htext.mpr hext
    | output => exact htext.mpr houtput
    | verbose => exact hbool.mpr hverbose
    | logLevel => exact htext.mpr hlevel
    | logFormat => exact htext.mpr hformat
    | foldConstants => exact hbool.mpr hfold
    | warnShadowing => exact hbool.mpr hshadow
    | jobs => exact hint.mpr hjobs
  · intro h
    exact ⟨_, htext.mp (h .sourceExt), _, htext.mp (h .output), _, hbool.mp (h .verbose), _,
      htext.mp (h .logLevel), _, htext.mp (h .logFormat), _, hbool.mp (h .foldConstants), _,
      hbool.mp (h .warnShadowing), _, hint.mp (h .jobs), rfl⟩

end Settings

/-! ### The command line -/

namespace Settings.Field

/-- What the command line says about a setting: the value that was set last for its flag. A flag that was
not set says nothing. -/
def onCommandLine? (p : Flag.Parsed) (f : Field) : Option Scalar :=
  f.flag?.bind fun flag => if p.has flag then some (f.meant (p.value flag)) else none

/-- What the environment says about a setting: the text of the variable with its key. -/
def inEnvironment? (env : List (Text × Text)) (f : Field) : Option Text :=
  (env.find? fun v => Layer.key? v.1 == some f.key).map Prod.snd

/-- What a settings file says about a setting. -/
def inFile? (entries : List (Yaml.Datum × Yaml.Data)) (f : Field) : Option Given :=
  (entries.lookup (.str f.key)).map Layer.givenData

/-- A flag that was set says something about one setting at most, and the settings file is none. -/
theorem entry?_eq (s : Flag.Setting) (f : Field) :
    (Command.entry? s).bind (fun e => if f.key = e.1 then some e.2 else none) =
      if f.flag? = some s.1 then some (.ofScalar (f.meant s.2)) else none := by
  obtain ⟨flag, v⟩ := s
  by_cases hmem : flag ∈ Command.sharedFlags
  · simp only [Command.sharedFlags, List.mem_cons, List.not_mem_nil, or_false] at hmem
    rcases hmem with rfl | rfl | rfl | rfl | rfl | rfl | rfl | rfl
    · cases f <;> rfl
    · cases f <;> rfl
    · cases f <;> rfl
    · cases f <;> rfl
    · cases f <;> cases v <;> rfl
    · cases f <;> rfl
    · cases f <;> rfl
    · cases f <;> rfl
  · -- the flags of settings are among the shared ones
    have hne : f.flag? ≠ some flag := by
      intro h
      obtain ⟨name, -, hnamed⟩ := Option.bind_eq_some_iff.mp h
      exact hmem (List.mem_of_find?_eq_some hnamed)
    have hnone : Command.entry? (flag, v) = none := if_pos (by simp [hmem])
    rw [if_neg hne, hnone]
    rfl

/-- **The layer of the flags that were set** says of each setting what the command line says. -/
theorem lookup_commandLine (p : Flag.Parsed) (f : Field) :
    (Command.layer p).lookup f.key = (f.onCommandLine? p).map Given.ofScalar := by
  rw [Command.layer, Layer.lookup_filterMap, onCommandLine?]
  simp only [entry?_eq]
  cases f.flag? with
  | none => simp
  | some flag =>
    -- the flag was set if and only if it has a last value
    have hlast := Layer.findSome?_if p.set.reverse (fun s => s.1 == flag)
      (fun s => Given.ofScalar (f.meant s.2))
    have hhas : p.has flag = (p.set.reverse.find? fun s => s.1 == flag).isSome := by
      rw [Flag.Parsed.has, Bool.eq_iff_iff, List.any_eq_true, List.find?_isSome]
      simp only [List.mem_reverse]
    simp only [Option.some.injEq, eq_comm (a := flag), ← beq_iff_eq (a := Prod.fst _)]
    rw [hlast, Option.bind_some, Flag.Parsed.value, hhas]
    cases p.set.reverse.find? fun s => s.1 == flag <;> rfl

/-! ### The settings file -/

/-- **The layer of a settings file** says of a key what its entry says. -/
theorem lookup_ofEntries (entries : List (Yaml.Datum × Yaml.Data)) (key : Text) :
    (Layer.ofEntries entries).lookup key = (entries.lookup (.str key)).map Layer.givenData := by
  induction entries with
  | nil => rfl
  | cons e entries ih =>
    obtain ⟨k, d⟩ := e
    by_cases hkey : Yaml.Datum.str key = k
    · subst hkey
      simp [Layer.ofEntries]
    · rw [List.lookup_cons, beq_eq_false_iff_ne.mpr hkey, ← ih]
      cases k with
      | str t =>
        -- an entry under another key
        have hne : key ≠ t := fun h => hkey (congrArg _ h)
        simp [Layer.ofEntries, List.lookup_cons, beq_eq_false_iff_ne.mpr hne]
      | _ => rfl

end Settings.Field

/-! ### The environment -/

namespace Layer

/-- **An environment as it usually is**: of the variables that settings come from, no name has a point,
and no two names have the same key. -/
structure Plain (env : List (Text × Text)) : Prop where
  noDot : ∀ v ∈ env, (key? v.1).isSome → 46 ∉ v.1
  distinct : (env.filterMap fun v => key? v.1).Nodup

/-- What is left of a text is the end of it. -/
theorem eq_append_of_dropStart? {start t rest : Text} (h : Text.dropStart? start t = some rest) :
    t = start ++ rest := by
  induction start generalizing t with
  | nil => exact Option.some.inj h
  | cons a start ih =>
    cases t with
    | nil => cases h
    | cons b t =>
      rw [Text.dropStart?] at h
      split at h
      · next hab => rw [ih h, hab]; rfl
      · cases h

/-- The key of a name without a point has none. -/
theorem dot_notMem_key? {name key : Text} (hname : (46 : UInt8) ∉ name)
    (h : key? name = some key) : (46 : UInt8) ∉ key := by
  unfold key? at h
  split at h
  · cases h
  · cases h
  · next rest _ hrest =>
    obtain rfl := Option.some.inj h
    refine Text.dot_notMem_lower fun hmem => hname ?_
    rw [eq_append_of_dropStart? hrest]
    exact List.mem_append_right _ hmem

theorem cut?_eq_none {sep : UInt8} {t : Text} (h : sep ∉ t) : Text.cut? sep t = none := by
  have hdrop : t.dropWhile (· != sep) = [] := by
    rw [List.dropWhile_eq_nil_iff]
    intro b hb
    rw [bne_iff_ne]
    rintro rfl
    exact h hb
  rw [Text.cut?, hdrop]

/-- Where at most one element has a property, the order does not matter. -/
theorem find?_reverse {α : Type} {l : List α} {p : α → Bool}
    (h : l.Pairwise fun a b => p a → ¬p b) : l.reverse.find? p = l.find? p := by
  induction l with
  | nil => rfl
  | cons a l ih =>
    rw [List.pairwise_cons] at h
    rw [List.reverse_cons, List.find?_append, ih h.2, List.find?_cons, List.find?_cons]
    cases hp : p a with
    | false => simp
    | true =>
      have hnone : l.find? p = none := List.find?_eq_none.mpr fun b hb => h.1 b hb hp
      rw [hnone]
      rfl

/-- Without points in the names, each variable gives its text to its key. -/
theorem ofEnvironment_eq {env : List (Text × Text)} (h : Plain env) :
    ofEnvironment env =
      env.reverse.filterMap fun v => (key? v.1).map fun key => (key, .datum (.str v.2)) := by
  unfold ofEnvironment
  extract_lets keyed plain nested
  have hkeys : ∀ kv ∈ keyed, (46 : UInt8) ∉ kv.1 := by
    intro kv hkv
    obtain ⟨v, hv, heq⟩ := List.mem_filterMap.mp hkv
    obtain ⟨k, hk, rfl⟩ := Option.map_eq_some_iff.mp heq
    refine dot_notMem_key? (h.noDot v (List.mem_reverse.mp hv) ?_) hk
    rw [hk]
    rfl
  have hplain : plain = keyed.map fun kv => (kv.1, Given.datum (.str kv.2)) := by
    rw [← List.filterMap_eq_map']
    refine List.filterMap_congr fun ⟨key, value⟩ hkv => ?_
    exact if_neg (by simpa using hkeys (key, value) hkv)
  have hnested : nested = [] := by
    refine List.filterMap_eq_nil_iff.mpr fun ⟨key, value⟩ hkv => ?_
    exact Option.map_eq_none_iff.mpr (cut?_eq_none (hkeys (key, value) hkv))
  rw [hnested, List.append_nil, hplain, List.map_filterMap]
  simp only [Option.map_map]
  rfl

/-- **The layer of an environment** says of a key what the variable with this key says. -/
theorem lookup_ofEnvironment {env : List (Text × Text)} (h : Plain env) (key : Text) :
    (ofEnvironment env).lookup key =
      (env.find? fun v => key? v.1 == some key).map fun v => .datum (.str v.2) := by
  have hdistinct : env.Pairwise fun v w => key? v.1 == some key → ¬(key? w.1 == some key) := by
    refine (List.pairwise_filterMap.mp h.distinct).imp fun {v w} hvw hv hw => ?_
    exact hvw key (beq_iff_eq.mp hv) key (beq_iff_eq.mp hw) rfl
  rw [ofEnvironment_eq h, lookup_filterMap, ← find?_reverse hdistinct, ← findSome?_if]
  refine congrArg (List.findSome? · _) (funext fun v => ?_)
  cases key? v.1 with
  | none => rfl
  | some k => simp [eq_comm (a := key)]

end Layer
end Slang
