import Slang.Proofs.Files
import Slang.Proofs.Layers

/-!
# Which settings are loaded

Loading gives each setting the value that counts for it, and it succeeds if and only if the settings file
can be read, every value that counts fits its setting, and the settings are valid (`load_key_by_key`). A
value that is hidden by a higher layer is never looked at, and neither is a key that is no setting: sources
with the same values that count load the same settings, or fail in the same way.

Which settings file is meant is written out case by case in `HasEntries`: the one that is asked for, or
else `slangc.yaml` in the working directory, or else `slangc.yml` there, or else none. That loading opens
this file, and says that it did, is `hasEntries_iff`.
-/

namespace Slang.Settings

/-- **What counts for a setting**: what the highest source says that says something about it. -/
def Field.counting (p : Flag.Parsed) (env : List (Text × Text))
    (entries : List (Yaml.Datum × Yaml.Data)) (f : Field) : Given :=
  match f.onCommandLine? p, f.inEnvironment? env, f.inFile? entries with
  | some v, _, _ => .ofScalar v
  | none, some t, _ => .datum (.str t)
  | none, none, some g => g
  | none, none, none => .ofScalar (f.value default)

/-! ### The settings file that is meant -/

/-- Something stands in the working directory under a name. -/
def IsHere (t : FileTree) (name : Text) : Prop := ∃ e, t.entry? (t.work ++ [name]) = some e

/-- A file can be read, and holds a mapping with some entries, or nothing. -/
def Holds (t : FileTree) (path : Text) (entries : List (Yaml.Datum × Yaml.Data)) : Prop :=
  ∃ content document, t.read (Path.clean path) = .ok content ∧
    Yaml.Node.ofText? content = some document ∧ Yaml.Data.topLevel? document = some entries

/-- **The entries of the settings file that is meant**, and the path that is shown for it. Where no file is
meant there are no entries, and a file that cannot be read, or that is no mapping, does not have any either
way. -/
inductive HasEntries (t : FileTree) (asked : Text) : Text → List (Yaml.Datum × Yaml.Data) → Prop where
  /-- A file that is asked for is meant, whatever is in the working directory. -/
  | asked {entries : List (Yaml.Datum × Yaml.Data)} (hasked : asked ≠ []) (holds : Holds t asked entries) :
      HasEntries t asked asked entries
  | yaml {entries : List (Yaml.Datum × Yaml.Data)} (hasked : asked = []) (here : IsHere t "slangc.yaml")
      (holds : Holds t "slangc.yaml" entries) :
      HasEntries t asked (Path.join t.workPath "slangc.yaml") entries
  /-- The short ending is looked for only where the long one is not there. -/
  | yml {entries : List (Yaml.Datum × Yaml.Data)} (hasked : asked = []) (hyaml : ¬IsHere t "slangc.yaml")
      (here : IsHere t "slangc.yml") (holds : Holds t "slangc.yml" entries) :
      HasEntries t asked (Path.join t.workPath "slangc.yml") entries
  | none (hasked : asked = []) (hyaml : ¬IsHere t "slangc.yaml") (hyml : ¬IsHere t "slangc.yml") :
      HasEntries t asked [] []

/-- The entries of the file that is opened. -/
def ChosenHolds (t : FileTree) (asked : Text) (entries : List (Yaml.Datum × Yaml.Data)) : Prop :=
  match chosenFile? t asked with
  | none => entries = []
  | some path => Holds t path entries

section
variable {t : FileTree} {env : List (Text × Text)} {p : Flag.Parsed} {asked : Text}
  {entries : List (Yaml.Datum × Yaml.Data)}

/-- A name of a settings file is found if and only if something stands there. -/
theorem has_iff_isHere {name : Text} (hname : Path.IsFileName name) :
    t.has name = true ↔ IsHere t name := by
  rw [FileTree.has_eq_true_iff]
  refine exists_congr fun e => ?_
  rw [FileTree.stat_eq_ok_iff, t.place_name hname]
  constructor
  · rintro ⟨p, hp, he⟩
    obtain rfl := Except.ok.inj hp
    exact he
  · exact fun he => ⟨_, rfl, he⟩

/-- The long ending comes first. -/
theorem fileHere?_of_yaml (h : IsHere t "slangc.yaml") : fileHere? t = some "slangc.yaml" :=
  List.find?_cons_of_pos ((has_iff_isHere Path.isFileName_yaml).mpr h)

/-- Without the long ending, the short one is taken if it is there. -/
theorem fileHere?_of_not_yaml (h : ¬IsHere t "slangc.yaml") :
    fileHere? t = ([("slangc.yml" : Text)]).find? t.has :=
  List.find?_cons_of_neg ((has_iff_isHere Path.isFileName_yaml).not.mpr h)

theorem fileHere?_of_yml (hyaml : ¬IsHere t "slangc.yaml") (h : IsHere t "slangc.yml") :
    fileHere? t = some "slangc.yml" :=
  (fileHere?_of_not_yaml hyaml).trans (List.find?_cons_of_pos ((has_iff_isHere Path.isFileName_yml).mpr h))

theorem fileHere?_eq_none (hyaml : ¬IsHere t "slangc.yaml") (hyml : ¬IsHere t "slangc.yml") :
    fileHere? t = none :=
  (fileHere?_of_not_yaml hyaml).trans
    ((List.find?_cons_of_neg ((has_iff_isHere Path.isFileName_yml).not.mpr hyml)).trans List.find?_nil)

/-- The file that is meant is opened, and its path is the one that is shown. -/
theorem HasEntries.chosen {used : Text} (h : HasEntries t asked used entries) :
    ChosenHolds t asked entries ∧ used = findFile t asked := by
  unfold ChosenHolds findFile chosenFile?
  cases h with
  | asked hasked holds =>
    rw [if_pos hasked, if_pos hasked]
    exact ⟨holds, rfl⟩
  | yaml hasked here holds =>
    rw [if_neg (not_not_intro hasked), if_neg (not_not_intro hasked), fileHere?_of_yaml here]
    exact ⟨holds, rfl⟩
  | yml hasked hyaml here holds =>
    rw [if_neg (not_not_intro hasked), if_neg (not_not_intro hasked), fileHere?_of_yml hyaml here]
    exact ⟨holds, rfl⟩
  | none hasked hyaml hyml =>
    rw [if_neg (not_not_intro hasked), if_neg (not_not_intro hasked), fileHere?_eq_none hyaml hyml]
    exact ⟨rfl, rfl⟩

/-- The file that is opened is the one that is meant. -/
theorem ChosenHolds.hasEntries (h : ChosenHolds t asked entries) :
    HasEntries t asked (findFile t asked) entries := by
  unfold ChosenHolds chosenFile? at h
  unfold findFile
  by_cases hasked : asked = []
  · rw [if_neg (not_not_intro hasked)] at h ⊢
    -- nothing is asked for: the two names are tried in their order
    by_cases hyaml : IsHere t "slangc.yaml"
    · rw [fileHere?_of_yaml hyaml] at h ⊢
      exact .yaml hasked hyaml h
    by_cases hyml : IsHere t "slangc.yml"
    · rw [fileHere?_of_yml hyaml hyml] at h ⊢
      exact .yml hasked hyaml hyml h
    · rw [fileHere?_eq_none hyaml hyml] at h ⊢
      obtain rfl := h
      exact .none hasked hyaml hyml
  · rw [if_pos hasked] at h ⊢
    exact .asked hasked h

/-- **The file that is opened is the one that is meant**, and its path is the one that is shown. -/
theorem hasEntries_iff {used : Text} :
    HasEntries t asked used entries ↔ ChosenHolds t asked entries ∧ used = findFile t asked := by
  constructor
  · exact HasEntries.chosen
  · rintro ⟨h, rfl⟩
    exact h.hasEntries

/-- **A tree has one settings file at most that is meant**, with one path and one list of entries. -/
theorem HasEntries.unique {used used' : Text} {entries' : List (Yaml.Datum × Yaml.Data)}
    (h : HasEntries t asked used entries) (h' : HasEntries t asked used' entries') :
    used = used' ∧ entries = entries' := by
  obtain ⟨hholds, rfl⟩ := hasEntries_iff.mp h
  obtain ⟨hholds', rfl⟩ := hasEntries_iff.mp h'
  refine ⟨rfl, ?_⟩
  unfold ChosenHolds at hholds hholds'
  -- no file has no entries, and a file has one content, one document and one list of entries
  cases hfile : chosenFile? t asked with
  | none =>
    rw [hfile] at hholds hholds'
    rw [hholds, hholds']
  | some path =>
    rw [hfile] at hholds hholds'
    obtain ⟨content, document, hread, hdocument, htop⟩ := hholds
    obtain ⟨content', document', hread', hdocument', htop'⟩ := hholds'
    obtain rfl := Except.ok.inj (hread.symm.trans hread')
    obtain rfl := Option.some.inj (hdocument.symm.trans hdocument')
    exact Option.some.inj (htop.symm.trans htop')

/-- Opening the settings file gives the layer of its entries. -/
theorem chosenLayer_eq_ok_iff {l : Layer} :
    chosenLayer t asked = .ok l ↔ ∃ entries, ChosenHolds t asked entries ∧ l = .ofEntries entries := by
  unfold chosenLayer ChosenHolds
  -- without a file the layer is empty; with one, every step from its content to its entries has to
  -- succeed
  cases chosenFile? t asked with
  | none =>
    constructor
    · intro h
      exact ⟨[], rfl, (Except.ok.inj h).symm⟩
    · rintro ⟨entries, rfl, rfl⟩
      rfl
  | some path =>
    dsimp only
    unfold fileLayer? Layer.ofDocument?
    constructor
    · intro h
      split at h
      · next l' hl' =>
        obtain rfl := Except.ok.inj h
        split at hl'
        · next content hread =>
          obtain ⟨document, hdocument, hentries⟩ := Option.bind_eq_some_iff.mp hl'
          obtain ⟨entries, htop, rfl⟩ := Option.map_eq_some_iff.mp hentries
          exact ⟨entries, ⟨content, document, hread, hdocument, htop⟩, rfl⟩
        · cases hl'
      · cases h
    · rintro ⟨entries, ⟨content, document, hread, hdocument, htop⟩, rfl⟩
      rw [hread]
      dsimp only
      rw [hdocument, Option.bind_some, htop]
      rfl

/-- The layers that settings are decoded from, one over the other. -/
def layers (p : Flag.Parsed) (env : List (Text × Text)) (entries : List (Yaml.Datum × Yaml.Data)) :
    Layer :=
  Layer.stack [default.layer, .ofEntries entries, .ofEnvironment env, Command.layer p]

/-- What the layers say about a key, from the command line down to the defaults. -/
theorem lookup_layers_eq (key : Text) :
    (layers p env entries).lookup key =
      ((Command.layer p).lookup key).or (((Layer.ofEnvironment env).lookup key).or
        (((Layer.ofEntries entries).lookup key).or (default.layer.lookup key))) := by
  unfold layers
  rw [Layer.lookup_stack]
  simp only [List.reverse_cons, List.reverse_nil, List.nil_append, List.cons_append,
    List.findSome?_cons, List.findSome?_nil]
  -- the first layer that mentions the key settles it
  cases (Command.layer p).lookup key with
  | some g => rfl
  | none =>
    cases (Layer.ofEnvironment env).lookup key with
    | some g => rfl
    | none =>
      cases (Layer.ofEntries entries).lookup key with
      | some g => rfl
      | none => cases default.layer.lookup key <;> rfl

/-- **The layers, one over the other, give each setting the value that counts.** -/
theorem lookup_layers (henv : Layer.Plain env) (f : Field) :
    (layers p env entries).lookup f.key = some (f.counting p env entries) := by
  have hfile : (Layer.ofEntries entries).lookup f.key = f.inFile? entries :=
    Field.lookup_ofEntries entries f.key
  have henvironment : (Layer.ofEnvironment env).lookup f.key =
      (f.inEnvironment? env).map fun t => .datum (.str t) := by
    rw [Layer.lookup_ofEnvironment henv, Field.inEnvironment?, Option.map_map]
    rfl
  rw [lookup_layers_eq, Field.lookup_commandLine, henvironment, hfile, lookup_layer]
  -- the command line, the environment, the file, and then the default
  unfold Field.counting
  cases f.onCommandLine? p with
  | some v => rfl
  | none =>
    cases f.inEnvironment? env with
    | some t => rfl
    | none => cases f.inFile? entries <;> rfl

/-! ### Valid settings -/

/-- **Valid settings**: an ending that is more than its point, formats that there are, a level that has a
name unless everything down to debugging is logged anyway, and a job at least. -/
structure Valid (s : Settings) : Prop where
  sourceExt : s.sourceExt.head? = some 46 ∧ 2 ≤ s.sourceExt.length
  output : s.output ∈ (["table", "json", "yaml"] : List Text)
  logFormat : s.logFormat ∈ (["text", "json"] : List Text)
  logLevel : s.verbose = true ∨ ∃ l, Log.Level.ofName? s.logLevel = some l
  jobs : 1 ≤ s.jobs

/-- One check after the other: a later one is made only if the earlier ones found nothing. -/
theorem guard_eq_ok_iff {ε α : Type} {P : Prop} [Decidable P] {e : ε} {next : PUnit → Except ε α}
    {a : α} : (if P then next () else throw e >>= next) = .ok a ↔ P ∧ next () = .ok a := by
  by_cases h : P
  · rw [if_pos h]
    exact (and_iff_right h).symm
  · rw [if_neg h]
    exact iff_of_false (fun hthrow => nomatch hthrow) fun hboth => h hboth.1

/-- One of a list of formats has a name if and only if the name is on the list of their names. -/
theorem any_name_iff {α : Type} {name : α → Text} {l : List α} {n : Text} :
    (l.any fun f => name f == n) = true ↔ n ∈ l.map name := by
  rw [List.any_eq_true, List.mem_map]
  exact exists_congr fun f => and_congr_right fun _ => beq_iff_eq

/-- There is a level if everything is logged, or else if the text names one. -/
theorem level_isOk_iff {s : Settings} :
    (∃ l, s.level = .ok l) ↔ s.verbose = true ∨ ∃ l, Log.Level.ofName? s.logLevel = some l := by
  unfold level
  cases s.verbose with
  | true => exact iff_of_true ⟨_, rfl⟩ (.inl rfl)
  | false =>
    rw [if_neg Bool.false_ne_true]
    cases Log.Level.ofName? s.logLevel with
    | none => exact iff_of_false (fun ⟨_, h⟩ => nomatch h) (by rintro (h | ⟨_, h⟩) <;> cases h)
    | some l => exact iff_of_true ⟨l, rfl⟩ (.inr ⟨l, rfl⟩)

/-- The last two checks. -/
theorem level_jobs_eq_ok_iff {s : Settings} :
    (do discard s.level
        if s.jobs < 1 then throw (.jobs s.jobs) : Except InvalidSetting PUnit) = .ok () ↔
      (∃ l, s.level = .ok l) ∧ 1 ≤ s.jobs := by
  cases s.level with
  | error i => exact iff_of_false (fun h => nomatch h) fun ⟨⟨_, h⟩, _⟩ => nomatch h
  | ok l =>
    change (do if s.jobs < 1 then throw (.jobs s.jobs) : Except InvalidSetting PUnit) = .ok () ↔ _
    by_cases hjobs : s.jobs < 1
    · rw [if_pos hjobs]
      exact iff_of_false (fun h => nomatch h) fun h => absurd h.2 (Int.not_le.mpr hjobs)
    · rw [if_neg hjobs]
      exact iff_of_true rfl ⟨⟨l, rfl⟩, Int.not_lt.mp hjobs⟩

/-- **The check of settings passes if and only if they are valid.** -/
theorem check_eq_ok_iff {s : Settings} : s.check = .ok () ↔ s.Valid := by
  unfold check
  refine guard_eq_ok_iff.trans ?_
  refine (and_congr_right fun _ => guard_eq_ok_iff.trans <|
    and_congr_right fun _ => guard_eq_ok_iff.trans <|
      and_congr_right fun _ => level_jobs_eq_ok_iff).trans ?_
  rw [any_name_iff, any_name_iff, level_isOk_iff]
  exact ⟨fun ⟨hext, houtput, hformat, hlevel, hjobs⟩ => ⟨hext, houtput, hformat, hlevel, hjobs⟩,
    fun ⟨hext, houtput, hformat, hlevel, hjobs⟩ => ⟨hext, houtput, hformat, hlevel, hjobs⟩⟩

/-! ### Decoding -/

/-- Layers that give the settings the same values are decoded alike. -/
theorem ofLayer?_congr {l l' : Layer} (h : ∀ f : Field, l.lookup f.key = l'.lookup f.key) :
    ofLayer? l = ofLayer? l' := by
  refine Option.ext fun s => ?_
  rw [ofLayer?_eq_some_iff, ofLayer?_eq_some_iff]
  exact forall_congr' fun f => by rw [h f]

/-- A layer whose values all fit their settings gives settings. -/
theorem exists_ofLayer? {l : Layer} (h : ∀ f : Field, ((l.lookup f.key).bind f.decode?).isSome) :
    ∃ s, ofLayer? l = some s := by
  -- a value that fits its key is one that can be read, whatever it is wrapped in
  have hfits : ∀ {α : Type} {wrap : α → Scalar} {given : Option Given} {read : Given → Option α},
      (given.bind fun g => (read g).map wrap).isSome → ∃ a, given.bind read = some a := by
    intro α wrap given read hsome
    obtain ⟨v, hv⟩ := Option.isSome_iff_exists.mp hsome
    obtain ⟨g, hg, hread⟩ := Option.bind_eq_some_iff.mp hv
    obtain ⟨a, ha, -⟩ := Option.map_eq_some_iff.mp hread
    exact ⟨a, Option.bind_eq_some_iff.mpr ⟨g, hg, ha⟩⟩
  obtain ⟨ext, hext⟩ := hfits (h .sourceExt)
  obtain ⟨output, houtput⟩ := hfits (h .output)
  obtain ⟨verbose, hverbose⟩ := hfits (h .verbose)
  obtain ⟨level, hlevel⟩ := hfits (h .logLevel)
  obtain ⟨format, hformat⟩ := hfits (h .logFormat)
  obtain ⟨fold, hfold⟩ := hfits (h .foldConstants)
  obtain ⟨shadow, hshadow⟩ := hfits (h .warnShadowing)
  obtain ⟨jobs, hjobs⟩ := hfits (h .jobs)
  refine ⟨⟨ext, output, verbose, level, format, fold, shadow, jobs⟩, ?_⟩
  simp only [ofLayer?, bind, pure, Option.bind_eq_some_iff, Option.some.injEq]
  exact ⟨_, Option.bind_eq_some_iff.mp hext, _, Option.bind_eq_some_iff.mp houtput, _,
    Option.bind_eq_some_iff.mp hverbose, _, Option.bind_eq_some_iff.mp hlevel, _,
    Option.bind_eq_some_iff.mp hformat, _, Option.bind_eq_some_iff.mp hfold, _,
    Option.bind_eq_some_iff.mp hshadow, _, Option.bind_eq_some_iff.mp hjobs, rfl⟩

/-- **The settings of the values that count** are the only ones that they decode to. -/
theorem ofLayers_eq_some_iff (henv : Layer.Plain env) {s : Settings} :
    ofLayer? (layers p env entries) = some s ↔
      ∀ f : Field, f.decode? (f.counting p env entries) = some (f.value s) := by
  rw [ofLayer?_eq_some_iff]
  refine forall_congr' fun f => ?_
  rw [lookup_layers henv, Option.bind_some]

/-! ### Loading -/

/-- Settings that are valid, or what is wrong with them. -/
def validated (o : Option Settings) : Except LoadError Settings :=
  match o with
  | none => .error .undecodable
  | some s =>
    match s.check with
    | .ok _ => .ok s
    | .error i => .error (.invalid i)

/-- Settings are valid if they could be read and pass the check. -/
theorem validated_eq_ok_iff {o : Option Settings} {s : Settings} :
    validated o = .ok s ↔ o = some s ∧ s.check = .ok () := by
  unfold validated
  cases o with
  | none => simp
  | some s' =>
    dsimp only
    cases hcheck : s'.check with
    | error i =>
      refine iff_of_false (fun h => nomatch h) ?_
      rintro ⟨heq, hok⟩
      obtain rfl := Option.some.inj heq
      rw [hcheck] at hok
      cases hok
    | ok u =>
      constructor
      · intro h
        obtain rfl := Except.ok.inj h
        exact ⟨rfl, hcheck⟩
      · rintro ⟨heq, -⟩
        obtain rfl := Option.some.inj heq
        rfl

/-- Loading reads the file, puts the layers one over the other, decodes and validates. -/
theorem load_of_entries (h : ChosenHolds t asked entries) :
    load t env (Command.layer p) asked =
      (validated (ofLayer? (layers p env entries))).map (·, findFile t asked) := by
  have hchosen : chosenLayer t asked = .ok (.ofEntries entries) :=
    chosenLayer_eq_ok_iff.mpr ⟨entries, h, rfl⟩
  unfold load
  rw [hchosen]
  change (match ofLayer? (layers p env entries) with | none => _ | some s => _) = _
  cases ofLayer? (layers p env entries) with
  | none => rfl
  | some s =>
    unfold validated
    dsimp only
    cases s.check <;> rfl

/-- Nothing is loaded where there is a settings file that cannot be read. -/
theorem exists_entries_of_load {flags : Layer} {r : Settings × Text}
    (h : load t env flags asked = .ok r) : ∃ entries, ChosenHolds t asked entries := by
  unfold load at h
  cases hchosen : chosenLayer t asked with
  | error e =>
    rw [hchosen] at h
    cases h
  | ok file =>
    obtain ⟨entries, hentries, -⟩ := chosenLayer_eq_ok_iff.mp hchosen
    exact ⟨entries, hentries⟩

/-- What is loaded are valid settings that the layers decode to. -/
theorem load_eq_ok_iff_of_entries (h : ChosenHolds t asked entries) {s : Settings} {used : Text} :
    load t env (Command.layer p) asked = .ok (s, used) ↔
      used = findFile t asked ∧ ofLayer? (layers p env entries) = some s ∧ s.check = .ok () := by
  rw [load_of_entries h, ← validated_eq_ok_iff]
  cases validated (ofLayer? (layers p env entries)) with
  | error e => exact iff_of_false (fun h => nomatch h) fun h => nomatch h.2
  | ok s' =>
    constructor
    · intro hload
      obtain ⟨rfl, rfl⟩ := Prod.mk.inj (Except.ok.inj hload)
      exact ⟨rfl, rfl⟩
    · rintro ⟨rfl, hs⟩
      obtain rfl := Except.ok.inj hs
      rfl

/-- Settings are loaded only if they are valid. -/
theorem check_of_load {used : Text} {s : Settings}
    (h : load t env (Command.layer p) asked = .ok (s, used)) : s.check = .ok () := by
  obtain ⟨entries, hentries⟩ := exists_entries_of_load h
  exact ((load_eq_ok_iff_of_entries hentries).mp h).2.2

/-- What is loaded, in terms of the values that count. -/
theorem load_eq_ok_iff (henv : Layer.Plain env) (h : ChosenHolds t asked entries) {s : Settings}
    {used : Text} :
    load t env (Command.layer p) asked = .ok (s, used) ↔
      used = findFile t asked ∧ s.check = .ok () ∧
        ∀ f : Field, f.decode? (f.counting p env entries) = some (f.value s) := by
  rw [load_eq_ok_iff_of_entries h, ofLayers_eq_some_iff henv, and_comm (b := s.check = .ok ())]

end

/-- **Settings are loaded key by key.** For every tree of files, every environment whose names have no
point and no key twice, all flags that were set and every settings file that is asked for or not:

* what is loaded are the settings whose values are decoded from the values that count, if they are valid,
  and the entries of the settings file that is meant are there; its path is shown with them;
* something is loaded if and only if the settings file can be read, if one is meant, every value that counts
  fits its setting, and the settings are valid;
* nothing but the values that count makes a difference: where they are the same, the same settings are
  loaded, or loading fails for the same reason. So neither a key that is no setting nor a value that is
  hidden by a higher layer has any effect. -/
theorem load_key_by_key (t : FileTree) {env : List (Text × Text)} (henv : Layer.Plain env)
    (p : Flag.Parsed) (asked : Text) :
    (∀ s used, load t env (Command.layer p) asked = .ok (s, used) ↔
      ∃ entries, HasEntries t asked used entries ∧
        (∀ f : Field, f.decode? (f.counting p env entries) = some (f.value s)) ∧ s.Valid) ∧
    ((∃ r, load t env (Command.layer p) asked = .ok r) ↔
      ∃ used entries, HasEntries t asked used entries ∧
        (∀ f : Field, (f.decode? (f.counting p env entries)).isSome) ∧
        ∀ s : Settings, (∀ f : Field, f.decode? (f.counting p env entries) = some (f.value s)) →
          s.Valid) ∧
    ∀ (t' : FileTree) (env' : List (Text × Text)) (p' : Flag.Parsed) (asked' used used' : Text)
      (entries entries' : List (Yaml.Datum × Yaml.Data)), Layer.Plain env' →
      HasEntries t asked used entries → HasEntries t' asked' used' entries' →
      (∀ f : Field, f.counting p env entries = f.counting p' env' entries') →
      (load t' env' (Command.layer p') asked').map Prod.fst =
        (load t env (Command.layer p) asked).map Prod.fst := by
  -- the first part, from which the other two follow
  have hload : ∀ s used, load t env (Command.layer p) asked = .ok (s, used) ↔
      ∃ entries, HasEntries t asked used entries ∧
        (∀ f : Field, f.decode? (f.counting p env entries) = some (f.value s)) ∧ s.Valid := by
    intro s used
    constructor
    · intro h
      obtain ⟨entries, hentries⟩ := exists_entries_of_load h
      obtain ⟨hused, hcheck, hfields⟩ := (load_eq_ok_iff henv hentries).mp h
      exact ⟨entries, hasEntries_iff.mpr ⟨hentries, hused⟩, hfields, check_eq_ok_iff.mp hcheck⟩
    · rintro ⟨entries, hmeant, hfields, hvalid⟩
      obtain ⟨hentries, hused⟩ := hasEntries_iff.mp hmeant
      exact (load_eq_ok_iff henv hentries).mpr ⟨hused, check_eq_ok_iff.mpr hvalid, hfields⟩
  refine ⟨hload, ⟨?_, ?_⟩, ?_⟩
  · rintro ⟨⟨s, used⟩, h⟩
    obtain ⟨entries, hmeant, hfields, hvalid⟩ := (hload s used).mp h
    refine ⟨used, entries, hmeant, fun f => ?_, fun s' hfields' => ?_⟩
    · rw [hfields f]
      rfl
    · -- the values that count decode to one list of settings only
      have hsame : s' = s := ext_value fun f => Option.some.inj ((hfields' f).symm.trans (hfields f))
      rw [hsame]
      exact hvalid
  · -- every key fits, so that there are settings with these values, and they are valid
    rintro ⟨used, entries, hmeant, hfits, hvalid⟩
    obtain ⟨s, hs⟩ : ∃ s, ofLayer? (layers p env entries) = some s := exists_ofLayer? fun f => by
      rw [lookup_layers henv, Option.bind_some]
      exact hfits f
    have hfields := (ofLayers_eq_some_iff henv).mp hs
    exact ⟨(s, used), (hload _ _).mpr ⟨entries, hmeant, hfields, hvalid s hfields⟩⟩
  · intro t' env' p' asked' used used' entries entries' henv' hmeant hmeant' hsame
    -- what loading reads of the layers is the value that counts for each key
    have hlayers : ofLayer? (layers p' env' entries') = ofLayer? (layers p env entries) :=
      ofLayer?_congr fun f => by rw [lookup_layers henv', lookup_layers henv, hsame f]
    rw [load_of_entries (hasEntries_iff.mp hmeant').1, load_of_entries (hasEntries_iff.mp hmeant).1,
      hlayers]
    generalize validated _ = r
    cases r <;> rfl

/-- Two settings files. The one in the working directory is not the one that is asked for, which has a list
where a number should be. -/
def hiddenTree : FileTree :=
  ((FileTree.empty "w" "/w").plant ["slangc.yaml"] (.file "log_format: json\nverbose: true\n")).plant
    ["conf", "mine.yaml"]
    (.file "jobs: [1]\noutput: json\nfold_constants: false\nlog_level: debug\nsource_ext: .src\n")

/-- An environment that hides the list. -/
def hidingEnvironment : List (Text × Text) := [("SLANGC_JOBS", "0x10"), ("SLANGC_OUTPUT", "yaml")]

/-- A command line that folds, although the file does not. -/
def foldingFlags : Flag.Parsed := ⟨[(Command.noFoldFlag, .bool false)], []⟩

/-- The list in the file that is asked for is never decoded, since the environment hides it, while the level
of the log and the ending of sources are what this file says. The file in the working directory counts only
where no file is asked for. -/
theorem load_hiddenTree :
    Layer.Plain hidingEnvironment ∧
      load hiddenTree hidingEnvironment (Command.layer foldingFlags) "conf/mine.yaml" =
        .ok ({ default with
          output := "yaml", jobs := 16, logLevel := "debug", sourceExt := ".src" },
          "conf/mine.yaml") ∧
      load hiddenTree hidingEnvironment (Command.layer foldingFlags) [] =
        .ok ({ default with output := "yaml", jobs := 16, logFormat := "json", verbose := true },
          "/w/slangc.yaml") ∧
      ∃ entries, HasEntries hiddenTree "conf/mine.yaml" "conf/mine.yaml" entries ∧
        Field.jobs.decode? (Field.jobs.counting foldingFlags hidingEnvironment entries) =
          some (.int 16) ∧
        Field.logLevel.decode? (Field.logLevel.counting foldingFlags hidingEnvironment entries) =
          some (.text "debug") := by
  have henv : Layer.Plain hidingEnvironment := ⟨by decide +kernel, by decide +kernel⟩
  have hload : load hiddenTree hidingEnvironment (Command.layer foldingFlags) "conf/mine.yaml" =
      .ok ({ default with
        output := "yaml", jobs := 16, logLevel := "debug", sourceExt := ".src" },
        "conf/mine.yaml") := by decide +kernel
  obtain ⟨hkeys, -, -⟩ := load_key_by_key hiddenTree henv foldingFlags "conf/mine.yaml"
  obtain ⟨entries, hmeant, hfields, -⟩ := (hkeys _ _).mp hload
  exact ⟨henv, hload, by decide +kernel, entries, hmeant, hfields .jobs, hfields .logLevel⟩

end Slang.Settings
