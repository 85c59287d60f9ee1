import Slang.Command

/-!
# Flags with other usage texts

Words are read by the names, the letters and the defaults of flags. What the flags are for makes no
difference (`parse_reword`), except in the flags that are given back.
-/

namespace Slang.Flag

/-- A flag that is explained in other words. -/
def reword (u : Flag → Text) (f : Flag) : Flag := { f with usage := u f }

/-- A setting of a flag that is explained in other words. -/
def Setting.reword (u : Flag → Text) (s : Setting) : Setting := (s.1.reword u, s.2)

/-- A command line whose flags are explained in other words. -/
def Parsed.reword (u : Flag → Text) (p : Parsed) : Parsed :=
  { p with set := p.set.map (Setting.reword u) }

/-- A word whose flags are explained in other words. -/
def Word.reword (u : Flag → Text) : Word → Word
  | argument => argument
  | endOfFlags => endOfFlags
  | flags set tookNext => flags (set.map (Setting.reword u)) tookNext

section
variable {α α' β β' : Type}

/-- **A result that carries over**: where the one succeeds, so does the other, with the image of what the
one gives. Their errors have nothing to do with each other, since an error may quote a flag. -/
def CarriesTo (g : α → α') (x : Except Error α) (y : Except Error α') : Prop :=
  ∀ a, x = .ok a → y = .ok (g a)

theorem CarriesTo.ok {g : α → α'} (a : α) : CarriesTo g (.ok a) (.ok (g a)) := by
  intro a' h
  obtain rfl := Except.ok.inj h
  rfl

theorem CarriesTo.error {g : α → α'} (e : Error) (y : Except Error α') :
    CarriesTo g (.error e) y := by
  intro a h
  cases h

/-- What is done next is done to what was carried over. -/
theorem CarriesTo.bind {g : α → α'} {g' : β → β'} {x : Except Error α} {y : Except Error α'}
    {next : α → Except Error β} {next' : α' → Except Error β'} (h : CarriesTo g x y)
    (hnext : ∀ a, CarriesTo g' (next a) (next' (g a))) : CarriesTo g' (x >>= next) (y >>= next') := by
  intro b hb
  cases x with
  | error e => cases hb
  | ok a =>
    rw [h a rfl]
    exact hnext a b hb

theorem CarriesTo.map {g : α → α'} {g' : β → β'} {x : Except Error α} {y : Except Error α'}
    {f : α → β} {f' : α' → β'} (h : CarriesTo g x y) (hf : ∀ a, g' (f a) = f' (g a)) :
    CarriesTo g' (x.map f) (y.map f') := by
  intro b hb
  cases x with
  | error e => cases hb
  | ok a =>
    rw [h a rfl]
    obtain rfl := Except.ok.inj hb
    exact congrArg _ (hf a).symm

end

section
variable (u : Flag → Text) (fs : List Flag)

theorem named?_reword (name : Text) :
    named? (fs.map (reword u)) name = (named? fs name).map (reword u) := List.find?_map

theorem lettered?_reword (letter : UInt8) :
    lettered? (fs.map (reword u)) letter = (lettered? fs letter).map (reword u) := List.find?_map

theorem set_reword (f : Flag) (value : Text) :
    CarriesTo (Setting.reword u) (f.set value) ((f.reword u).set value) := by
  obtain ⟨name, letter, default, usage⟩ := f
  unfold reword set
  cases default with
  | text d => exact .ok _
  | bool d =>
    dsimp only
    cases Scalar.truth? value with
    | none => exact .error _ _
    | some b => exact .ok _
  | int d =>
    dsimp only
    cases Text.Numeral.int64 value with
    | error e => exact .error _ _
    | ok n => exact .ok _

/-- Flags by their names. -/
theorem long_reword (word : Text) (next : Option Text) :
    CarriesTo (Prod.map (Setting.reword u) id) (long fs word next)
      (long (fs.map (reword u)) word next) := by
  unfold long
  dsimp only
  split
  · exact .error _ _
  · rw [named?_reword]
    cases named? fs _ with
    | none => exact .error _ _
    | some f =>
      have hset (value : Text) (took : Bool) : CarriesTo (Prod.map (Setting.reword u) id)
          ((f.set value).map (·, took)) (((f.reword u).set value).map (·, took)) :=
        (set_reword u f value).map fun _ => rfl
      dsimp only [Option.map_some]
      -- a flag takes the value after the equality sign, its own, or the next word
      cases Text.cut? 61 (word.drop 2) with
      | some cut => exact hset cut.2 false
      | none =>
        cases next with
        | none =>
          change CarriesTo _ (if f.isSwitch then _ else _) (if f.isSwitch then _ else _)
          split
          · exact hset _ false
          · exact .error _ _
        | some value =>
          change CarriesTo _ (if f.isSwitch then _ else _) (if f.isSwitch then _ else _)
          split
          · exact hset _ false
          · exact hset value true

/-- Flags by their letters. -/
theorem letters_reword (next : Option Text) (word : Text) :
    CarriesTo (Prod.map (List.map (Setting.reword u)) id) (letters fs next word)
      (letters (fs.map (reword u)) next word) := by
  induction word with
  | nil => exact .ok _
  | cons l rest ih =>
    unfold letters
    split
    · exact .ok _
    · rw [lettered?_reword]
      cases lettered? fs l with
      | none => exact .error _ _
      | some f =>
        have hset (value : Text) (took : Bool) :
            CarriesTo (Prod.map (List.map (Setting.reword u)) id)
              ((f.set value).map fun s => ([s], took))
              (((f.reword u).set value).map fun s => ([s], took)) :=
          (set_reword u f value).map fun _ => rfl
        dsimp only [Option.map_some]
        split
        · exact hset _ false
        · change CarriesTo _ (if f.isSwitch then _ else _) (if f.isSwitch then _ else _)
          split
          · -- a switch leaves the other letters to themselves
            refine (set_reword u f "true").bind fun s => ih.bind fun more => ?_
            exact .ok (s :: more.1, more.2)
          · split
            · exact hset _ false
            · exact hset _ true
            · exact .error _ _

theorem word_reword (w : Text) (next : Option Text) :
    CarriesTo (Word.reword u) (word fs w next) (word (fs.map (reword u)) w next) := by
  unfold word
  split
  · exact .ok _
  · exact (long_reword u fs _ next).map fun _ => rfl
  · exact (letters_reword u fs next _).map fun _ => rfl
  · exact .ok _

/-- Words one after the other. -/
theorem parseFrom_reword (taken : Bool) (words : List Text) :
    CarriesTo (Parsed.reword u) (parseFrom fs taken words)
      (parseFrom (fs.map (reword u)) taken words) := by
  induction words generalizing taken with
  | nil => cases taken <;> exact .ok _
  | cons w rest ih =>
    cases taken with
    | true => exact ih false
    | false =>
      have hword := word_reword u fs w rest.head?
      unfold parseFrom
      cases hw : word fs w rest.head? with
      | error e => exact .error _ _
      | ok what =>
        rw [hword what hw]
        cases what with
        | argument => exact (ih false).map fun _ => rfl
        | endOfFlags => exact .ok _
        | flags s took =>
          refine (ih took).map fun p => ?_
          unfold Parsed.reword Parsed.addSet
          rw [List.map_append]

/-- **What flags are for makes no difference to how words are read.** -/
theorem parse_reword {words : List Text} {p : Parsed} (h : parse fs words = .ok p) :
    parse (fs.map (reword u)) words = .ok (p.reword u) := parseFrom_reword u fs false words p h

variable {u}

/-- Only the flags that were set come back with another text. -/
theorem Parsed.reword_eq_self {p : Parsed} (h : ∀ s ∈ p.set, u s.1 = s.1.usage) : p.reword u = p := by
  have hself : ∀ s ∈ p.set, Setting.reword u s = s := by
    intro s hs
    unfold Setting.reword Flag.reword
    rw [h s hs]
  have hset : p.set.map (Setting.reword u) = p.set := (List.map_congr_left hself).trans (List.map_id _)
  unfold Parsed.reword
  rw [hset]

end

end Slang.Flag
