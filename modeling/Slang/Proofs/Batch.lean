import Slang.Compiled.Batch

/-!
# Compiling files at once or one after another

Whatever order the steps of a batch come in, it answers what compiling its files one after another
gives (`parallel_eq_sequential`). Three things are kept by every step:

* the workers do what compiling one file does (`Sound`): a worker that has left has filled its cell,
  unless there is an error. The first error is never that the work was called off, since it is there
  before the work is called off;
* no more workers are active than there are jobs (`active_le_act`);
* there is less left to do (`remaining_act`), and as long as there is no answer, something is possible
  (`Sound.exists_act`). So every batch comes to an answer.
-/

namespace Slang

namespace Compiled

section
variable {t : FileTree} {r : CompileRequest} {path : Text}

/-- A file with another extension is refused before it is read. -/
theorem ofFile_of_bad (h : hasExtension r path = false) :
    ofFile t r path = .error (.badExtension path r.extension) := by
  unfold ofFile
  rw [h]
  rfl

/-- A file with the right name is compiled if it can be read. -/
theorem ofFile_of_named (hlive : r.canceled = false) (h : hasExtension r path = true) :
    ofFile t r path =
      match t.read path with
      | .ok content => .ok (ofSource r.options path content)
      | .error e => .error (.unreadable e) := by
  unfold ofFile
  rw [h, hlive]
  rfl

/-- A file by itself is never called off. -/
theorem ne_canceled_of_ofFile (hlive : r.canceled = false) {e : SourceError}
    (h : ofFile t r path = .error e) : e ≠ .canceled := by
  rintro rfl
  -- the three ways to an error: a bad extension, no content, a bad content; none of them is a stop
  cases hname : hasExtension r path with
  | false =>
    rw [ofFile_of_bad hname] at h
    cases h
  | true =>
    rw [ofFile_of_named hlive hname] at h
    cases hread : t.read path with
    | ok content =>
      rw [hread] at h
      cases h
    | error e =>
      rw [hread] at h
      cases h

/-- Files that all compile, one after another. -/
theorem ofFiles_of_ok {paths : List Text} (h : ∀ path ∈ paths, ∃ c, ofFile t r path = .ok c) :
    ∃ cs : List Compiled, paths.map (ofFile t r) = cs.map .ok ∧ ofFiles t r paths = (cs, none) := by
  induction paths with
  | nil => exact ⟨[], rfl, rfl⟩
  | cons path paths ih =>
    rw [List.forall_mem_cons] at h
    obtain ⟨⟨c, hc⟩, hrest⟩ := h
    obtain ⟨cs, hmap, hfiles⟩ := ih hrest
    refine ⟨c :: cs, ?_, ?_⟩
    · rw [List.map_cons, List.map_cons, hc, hmap]
    · rw [ofFiles, hc]
      dsimp only
      rw [hfiles]

end

end Compiled

/-- How many steps a worker has before it, at most. -/
def Worker.remaining : Worker → Nat
  | started => 6
  | named => 5
  | allowed => 4
  | loaded _ | failed _ => 3
  | compiled _ | recorded => 2
  | leaving => 1
  | left => 0

/-- How many steps workers have before them, at most. -/
def Worker.remainingAll : List Worker → Nat
  | [] => 0
  | w :: ws => w.remaining + remainingAll ws

/-- A worker that starts has six steps to take. -/
theorem Worker.remainingAll_start (ws : List Worker) :
    remainingAll (ws ++ [started]) = remainingAll ws + 6 := by
  induction ws with
  | nil => rfl
  | cons w ws ih => rw [List.cons_append, remainingAll, ih, remainingAll, Nat.add_assoc]

/-- One worker has less to do, and the others as much as before. -/
theorem Worker.remainingAll_set {ws : List Worker} {i : Nat} {w w' : Worker} (h : ws[i]? = some w)
    (hlt : w'.remaining < w.remaining) : remainingAll (ws.set i w') < remainingAll ws := by
  induction ws generalizing i with
  | nil => cases h
  | cons v ws ih =>
    cases i with
    | zero =>
      obtain rfl := Option.some.inj h
      exact Nat.add_lt_add_right hlt _
    | succ i => exact Nat.add_lt_add_left (ih h) _

namespace Batch

open Compiled (ofFile ofFiles ofSource hasExtension)

variable {t : FileTree} {r : CompileRequest} {jobs : Int} {paths : List Text} {b b' : Batch}

/-! ### What the workers know -/

/-- **What is true of a worker**, by how far it is: `error` is the error of the batch, and `cell` the
cell of the worker's file. -/
def Fits (t : FileTree) (r : CompileRequest) (path : Text) (error : Option SourceError)
    (cell : Option (Option Compiled)) : Worker → Prop
  | .started => True
  | .named | .allowed => hasExtension r path = true
  | .loaded content => hasExtension r path = true ∧ t.read path = .ok content
  | .compiled c => ofFile t r path = .ok c
  | .failed e => ofFile t r path = .error e ∨ error ≠ none
  | .recorded => error ≠ none
  | .leaving | .left => error ≠ none ∨ ∃ c, cell = some (some c)

/-- **An answer that compiling each file by itself gives**: all the files, or why one of them is not
compiled. -/
def Agrees (t : FileTree) (r : CompileRequest) (paths : List Text)
    (res : Except SourceError (List (Option Compiled))) : Prop :=
  (∃ cs : List Compiled, paths.map (ofFile t r) = cs.map .ok ∧ res = .ok (cs.map some)) ∨
    ∃ path ∈ paths, ∃ e, ofFile t r path = .error e ∧ res = .error e

/-- **Batches that do what compiling one file does**, for each of the files. -/
structure Sound (t : FileTree) (r : CompileRequest) (paths : List Text) (b : Batch) : Prop where
  length_cells : b.cells.length = paths.length
  length_workers : b.workers.length ≤ paths.length
  worker : ∀ (i : Nat) path w, paths[i]? = some path → b.workers[i]? = some w →
    Fits t r path b.error b.cells[i]? w
  cell : ∀ (i : Nat) path c, paths[i]? = some path → b.cells[i]? = some (some c) →
    ofFile t r path = .ok c
  /-- The error is one that some file gives by itself. -/
  error : ∀ e, b.error = some e → ∃ path ∈ paths, ofFile t r path = .error e
  canceled : b.canceled = true → b.error ≠ none
  answer : ∀ res, b.answer = some res → Agrees t r paths res

/-- Nothing has been stored, and nobody works. -/
theorem sound_new (hlive : r.canceled = false) : Sound t r paths (new r paths) where
  length_cells := List.length_replicate
  length_workers := Nat.zero_le _
  worker _ _ _ _ hw := by cases hw
  cell i path c _ hc := by
    have hmem : some c ∈ List.replicate paths.length none := List.mem_of_getElem? hc
    cases List.eq_of_mem_replicate hmem
  error _ he := by cases he
  canceled hcanceled := by
    change r.canceled = true at hcanceled
    rw [hlive] at hcanceled
    cases hcanceled
  answer _ hres := by cases hres

/-- More is true of a worker when there is an error, and when its cell is filled. -/
theorem Fits.mono {path : Text} {error error' : Option SourceError}
    {cell cell' : Option (Option Compiled)} {w : Worker} (h : Fits t r path error cell w)
    (herror : error ≠ none → error' ≠ none)
    (hcell : (∃ c, cell = some (some c)) → ∃ c, cell' = some (some c)) :
    Fits t r path error' cell' w := by
  cases w with
  | started | named | allowed | loaded | compiled => exact h
  | failed e => exact h.imp_right herror
  | recorded => exact herror h
  | leaving | left => exact h.imp herror hcell

namespace Sound

variable (h : Sound t r paths b) {i : Nat} {path : Text}
include h

/-- A worker that starts. -/
theorem start (hlt : b.workers.length < paths.length) :
    Sound t r paths { b with workers := b.workers ++ [.started] } where
  length_cells := h.length_cells
  length_workers := by
    rw [List.length_append]
    exact hlt
  worker i path w hpath hw := by
    -- the workers from before, and the new one, which has done nothing
    rcases Nat.lt_or_ge i b.workers.length with hi | hi
    · exact h.worker i path w hpath ((List.getElem?_append_left hi).symm.trans hw)
    · have hnew : [Worker.started][i - b.workers.length]? = some w :=
        (List.getElem?_append_right hi).symm.trans hw
      obtain rfl := List.mem_singleton.mp (List.mem_of_getElem? hnew)
      trivial
  cell := h.cell
  error := h.error
  canceled := h.canceled
  answer := h.answer

/-- A worker that comes to another stage. -/
theorem move (hpath : paths[i]? = some path) {w : Worker}
    (hw : Fits t r path b.error b.cells[i]? w) : Sound t r paths (b.move i w) where
  length_cells := h.length_cells
  length_workers := by
    unfold Batch.move
    rw [List.length_set]
    exact h.length_workers
  worker j path' w' hpath' hw' := by
    change (b.workers.set i w)[j]? = some w' at hw'
    -- only one worker moves
    by_cases hij : i = j
    · subst hij
      obtain rfl : path = path' := Option.some.inj (hpath.symm.trans hpath')
      obtain ⟨hi, rfl⟩ := List.getElem?_eq_some_iff.mp hw'
      rw [List.getElem_set_self]
      exact hw
    · rw [List.getElem?_set_ne hij] at hw'
      exact h.worker j path' w' hpath' hw'
  cell := h.cell
  error := h.error
  canceled := h.canceled
  answer := h.answer

/-- A file that is compiled fills its cell. -/
theorem store (hpath : paths[i]? = some path) {c : Compiled} (hc : ofFile t r path = .ok c) :
    Sound t r paths { b with cells := b.cells.set i (some c) } where
  length_cells := List.length_set.trans h.length_cells
  length_workers := h.length_workers
  worker j path' w hpath' hw := by
    -- a worker that had stored its file still has: no other cell is written to
    refine (h.worker j path' w hpath' hw).mono id fun ⟨c', hc'⟩ => ?_
    by_cases hij : i = j
    · subst hij
      exact ⟨c, List.getElem?_set_self (List.getElem?_eq_some_iff.mp hc').1⟩
    · exact ⟨c', (List.getElem?_set_ne hij).trans hc'⟩
  cell j path' c' hpath' hc' := by
    change (b.cells.set i (some c))[j]? = some (some c') at hc'
    by_cases hij : i = j
    · subst hij
      obtain rfl : path = path' := Option.some.inj (hpath.symm.trans hpath')
      obtain ⟨hi, heq⟩ := List.getElem?_eq_some_iff.mp hc'
      rw [List.getElem_set_self] at heq
      obtain rfl := Option.some.inj heq
      exact hc
    · rw [List.getElem?_set_ne hij] at hc'
      exact h.cell j path' c' hpath' hc'
  error := h.error
  canceled := h.canceled
  answer := h.answer

/-- The first worker that fails leaves its error. -/
theorem record (hpath : paths[i]? = some path) {e : SourceError}
    (he : ofFile t r path = .error e) : Sound t r paths { b with error := some e } where
  length_cells := h.length_cells
  length_workers := h.length_workers
  worker j path' w hpath' hw :=
    (h.worker j path' w hpath' hw).mono (fun _ => Option.some_ne_none e) id
  cell := h.cell
  error e' he' := by
    obtain rfl := Option.some.inj he'
    exact ⟨path, List.mem_of_getElem? hpath, he⟩
  canceled _ := Option.some_ne_none e
  answer := h.answer

/-- There is an error before the work is called off. -/
theorem callOff (herror : b.error ≠ none) : Sound t r paths { b with canceled := true } where
  length_cells := h.length_cells
  length_workers := h.length_workers
  worker := h.worker
  cell := h.cell
  error := h.error
  canceled _ := herror
  answer := h.answer

/-- **A worker keeps a batch sound.** -/
theorem step (hlive : r.canceled = false) (hpath : paths[i]? = some path) {w : Worker}
    (hw : b.workers[i]? = some w) (hstep : Batch.step t r path i b w = some b') :
    Sound t r paths b' := by
  have hfits := h.worker i path w hpath hw
  cases w with
  | started =>
    obtain rfl := Option.some.inj hstep
    refine h.move hpath ?_
    cases hname : hasExtension r path with
    | false => exact .inl (Compiled.ofFile_of_bad hname)
    | true => exact hname
  | named =>
    obtain rfl := Option.some.inj hstep
    refine h.move hpath ?_
    cases hcanceled : b.canceled with
    | false => exact hfits
    | true => exact .inr (h.canceled hcanceled)
  | allowed =>
    have hfile := Compiled.ofFile_of_named (t := t) hlive hfits
    revert hstep
    unfold Batch.step
    dsimp only
    cases hread : t.read path with
    | ok content =>
      intro hstep
      obtain rfl := Option.some.inj hstep
      exact h.move hpath ⟨hfits, hread⟩
    | error e =>
      intro hstep
      obtain rfl := Option.some.inj hstep
      rw [hread] at hfile
      exact h.move hpath (.inl hfile)
  | loaded content =>
    obtain rfl := Option.some.inj hstep
    have hfile := Compiled.ofFile_of_named (t := t) hlive hfits.1
    rw [hfits.2] at hfile
    exact h.move hpath hfile
  | compiled c =>
    obtain rfl := Option.some.inj hstep
    have hi : i < b.cells.length := by
      rw [h.length_cells]
      exact (List.getElem?_eq_some_iff.mp hpath).1
    exact (h.store hpath hfits).move hpath (.inr ⟨c, List.getElem?_set_self hi⟩)
  | failed e =>
    revert hstep
    unfold Batch.step
    dsimp only
    cases herror : b.error with
    | none =>
      intro hstep
      obtain rfl := Option.some.inj hstep
      -- an error that is not the file's own comes after another one
      have hown : ofFile t r path = .error e := hfits.resolve_right fun hne => hne herror
      exact (h.record hpath hown).move hpath (Option.some_ne_none e)
    | some e' =>
      intro hstep
      obtain rfl := Option.some.inj hstep
      refine h.move hpath (.inl ?_)
      rw [herror]
      exact Option.some_ne_none e'
  | recorded =>
    obtain rfl := Option.some.inj hstep
    exact (h.callOff hfits).move hpath (.inl hfits)
  | leaving =>
    obtain rfl := Option.some.inj hstep
    exact h.move hpath hfits
  | left => cases hstep

/-- When all workers have left without an error, all cells are filled. -/
theorem cells_of_left (hlen : b.workers.length = paths.length) (hleft : ∀ w ∈ b.workers, w = .left)
    (herror : b.error = none) :
    ∃ cs : List Compiled, paths.map (ofFile t r) = cs.map .ok ∧ b.cells = cs.map some := by
  have hcells : ∀ (i : Nat) path, paths[i]? = some path →
      ∃ c, b.cells[i]? = some (some c) ∧ ofFile t r path = .ok c := by
    intro i path hpath
    have hi : i < b.workers.length := by
      rw [hlen]
      exact (List.getElem?_eq_some_iff.mp hpath).1
    have hfits := h.worker i path _ hpath (List.getElem?_eq_getElem hi)
    rw [hleft _ (List.getElem_mem hi)] at hfits
    obtain ⟨c, hc⟩ := hfits.resolve_left fun hne => hne herror
    exact ⟨c, hc, h.cell i path c hpath hc⟩
  have hall : ∀ path ∈ paths, ∃ c, ofFile t r path = .ok c := by
    intro path hmem
    obtain ⟨i, hpath⟩ := List.mem_iff_getElem?.mp hmem
    obtain ⟨c, -, hc⟩ := hcells i path hpath
    exact ⟨c, hc⟩
  obtain ⟨cs, hmap, -⟩ := Compiled.ofFiles_of_ok hall
  refine ⟨cs, hmap, ?_⟩
  have hlength : paths.length = cs.length := by simpa using congrArg List.length hmap
  refine List.ext_getElem (by rw [h.length_cells, List.length_map, hlength]) fun i hi hi' => ?_
  -- the cell and the list have what the file compiles to
  have hpath : i < paths.length := h.length_cells ▸ hi
  have hi₁ : i < cs.length := hlength ▸ hpath
  obtain ⟨c, hc, hfile⟩ := hcells i _ (List.getElem?_eq_getElem hpath)
  have hcs : ofFile t r paths[i] = .ok cs[i] := by
    have heq := congrArg (·[i]?) hmap
    simpa [hpath, hi₁] using heq
  rw [List.getElem_map, Option.some.inj ((List.getElem?_eq_getElem hi).symm.trans hc)]
  exact congrArg some (Except.ok.inj (hfile.symm.trans hcs))

end Sound

/-! ### What a step does -/

/-- When a worker may start, and what comes of it. -/
theorem act_start (h : act t r jobs paths b .start = some b') :
    b.workers.length < paths.length ∧ (b.active : Int) < max jobs 1 ∧
      b' = { b with workers := b.workers ++ [.started] } := by
  rw [act] at h
  by_cases hcond : b.workers.length < paths.length ∧ (b.active : Int) < max jobs 1
  · rw [if_pos hcond] at h
    exact ⟨hcond.1, hcond.2, (Option.some.inj h).symm⟩
  · rw [if_neg hcond] at h
    cases h

/-- A worker takes a step on its own file. -/
theorem act_work {i : Nat} (h : act t r jobs paths b (.work i) = some b') :
    ∃ path w, paths[i]? = some path ∧ b.workers[i]? = some w ∧ step t r path i b w = some b' := by
  revert h
  rw [act]
  cases paths[i]? with
  | none => exact fun h => by cases h
  | some path =>
    cases b.workers[i]? with
    | none => exact fun h => by cases h
    | some w => exact fun h => ⟨path, w, rfl, rfl, h⟩

/-- An answer is given once, after all workers have left, and it is the first error if there is one. -/
theorem act_answer (h : act t r jobs paths b .answer = some b') :
    b.answer = none ∧ b.workers.length = paths.length ∧ b.active = 0 ∧
      ∃ res, b' = { b with answer := some res } ∧ (∀ e, b.error = some e → res = .error e) ∧
        (b.error = none → res = .ok b.cells) := by
  rw [act] at h
  by_cases hcond : b.answer.isNone ∧ b.workers.length = paths.length ∧ b.active = 0
  · rw [if_pos hcond] at h
    refine ⟨Option.isNone_iff_eq_none.mp hcond.1, hcond.2.1, hcond.2.2, _,
      (Option.some.inj h).symm, fun e he => ?_, fun he => ?_⟩
    · rw [he]
    · rw [he]
  · rw [if_neg hcond] at h
    cases h

/-- One step of a worker only moves that worker, towards its end. -/
theorem workers_step {i : Nat} {path : Text} {w : Worker} (h : step t r path i b w = some b') :
    w.isActive = true ∧ b'.answer = b.answer ∧
      ∃ w', w'.remaining < w.remaining ∧ b'.workers = b.workers.set i w' := by
  -- what is left to do falls with the state of the worker; two ways through it have different lengths
  cases w with
  | started =>
    obtain rfl := Option.some.inj h
    refine ⟨rfl, rfl, _, ?_, rfl⟩
    split
    · show 5 < 6
      decide
    · show 3 < 6
      decide
  | named =>
    obtain rfl := Option.some.inj h
    refine ⟨rfl, rfl, _, ?_, rfl⟩
    split
    · show 3 < 5
      decide
    · show 4 < 5
      decide
  | allowed =>
    revert h
    unfold step
    dsimp only
    cases t.read path with
    | ok content =>
      intro h
      obtain rfl := Option.some.inj h
      exact ⟨rfl, rfl, .loaded content, Nat.lt_succ_self 3, rfl⟩
    | error e =>
      intro h
      obtain rfl := Option.some.inj h
      exact ⟨rfl, rfl, .failed _, Nat.lt_succ_self 3, rfl⟩
  | failed e =>
    revert h
    unfold step
    dsimp only
    cases b.error with
    | none =>
      intro h
      obtain rfl := Option.some.inj h
      exact ⟨rfl, rfl, .recorded, Nat.lt_succ_self 2, rfl⟩
    | some e' =>
      intro h
      obtain rfl := Option.some.inj h
      refine ⟨rfl, rfl, .leaving, ?_, rfl⟩
      show 1 < 3
      decide
  | loaded | compiled | recorded | leaving =>
    obtain rfl := Option.some.inj h
    exact ⟨rfl, rfl, _, Nat.lt_succ_self _, rfl⟩
  | left => cases h

/-- A worker that is active is never stuck. -/
theorem exists_step (path : Text) {i : Nat} {w : Worker} (h : w.isActive = true) :
    ∃ b', step t r path i b w = some b' := by
  cases w with
  | left => cases h
  | allowed =>
    unfold step
    dsimp only
    cases t.read path with
    | ok content => exact ⟨_, rfl⟩
    | error e => exact ⟨_, rfl⟩
  | failed e =>
    unfold step
    dsimp only
    cases b.error with
    | none => exact ⟨_, rfl⟩
    | some e' => exact ⟨_, rfl⟩
  | _ => exact ⟨_, rfl⟩

/-! ### Any order of steps -/

/-- Where nobody is active, everybody has left. -/
theorem all_left_of_active (h : b.active = 0) : ∀ w ∈ b.workers, w = .left := by
  intro w hw
  have hactive := List.countP_eq_zero.mp h w hw
  cases w with
  | left => rfl
  | _ => exact absurd rfl hactive

/-- **Every step keeps a batch sound.** -/
theorem Sound.act (h : Sound t r paths b) (hlive : r.canceled = false) {a : Action}
    (hact : act t r jobs paths b a = some b') : Sound t r paths b' := by
  cases a with
  | start =>
    obtain ⟨hlt, -, rfl⟩ := act_start hact
    exact h.start hlt
  | work i =>
    obtain ⟨path, w, hpath, hw, hstep⟩ := act_work hact
    exact h.step hlive hpath hw hstep
  | answer =>
    obtain ⟨-, hlen, hactive, res, rfl, herror, hok⟩ := act_answer hact
    refine ⟨h.length_cells, h.length_workers, h.worker, h.cell, h.error, h.canceled, ?_⟩
    intro res' hres'
    obtain rfl := Option.some.inj hres'
    -- the error that was recorded first, or else the cells, which are all full
    cases hb : b.error with
    | some e =>
      obtain ⟨path, hmem, he⟩ := h.error e hb
      exact .inr ⟨path, hmem, e, he, herror e hb⟩
    | none =>
      obtain ⟨cs, hmap, hcells⟩ := h.cells_of_left hlen (all_left_of_active hactive) hb
      exact .inl ⟨cs, hmap, (hok hb).trans (congrArg _ hcells)⟩

/-- **As long as there is no answer, something is possible.** -/
theorem Sound.exists_act (h : Sound t r paths b) (hanswer : b.answer = none) :
    ∃ a b', Batch.act t r jobs paths b a = some b' := by
  by_cases hactive : b.active = 0
  · by_cases hlen : b.workers.length = paths.length
    · exact ⟨.answer, _, if_pos ⟨Option.isNone_iff_eq_none.mpr hanswer, hlen, hactive⟩⟩
    · have hlimit : (b.active : Int) < max jobs 1 := by omega
      exact ⟨.start, _, if_pos ⟨Nat.lt_of_le_of_ne h.length_workers hlen, hlimit⟩⟩
  · -- a worker that is active can take a step
    obtain ⟨w, hw, hwactive⟩ := List.countP_pos_iff.mp (Nat.pos_of_ne_zero hactive)
    obtain ⟨i, hi⟩ := List.mem_iff_getElem?.mp hw
    have hpath : i < paths.length :=
      Nat.lt_of_lt_of_le (List.getElem?_eq_some_iff.mp hi).1 h.length_workers
    obtain ⟨b', hstep⟩ := exists_step (t := t) (r := r) (b := b) (i := i) paths[i] hwactive
    refine ⟨.work i, b', ?_⟩
    rw [Batch.act, List.getElem?_eq_getElem hpath, hi]
    exact hstep

/-- **No more workers are active than there are jobs.** -/
theorem active_le_act {a : Action} (h : (b.active : Int) ≤ max jobs 1)
    (hact : act t r jobs paths b a = some b') : (b'.active : Int) ≤ max jobs 1 := by
  cases a with
  | start =>
    obtain ⟨-, hlt, rfl⟩ := act_start hact
    have hone : ({ b with workers := b.workers ++ [Worker.started] } : Batch).active = b.active + 1 :=
      List.countP_append
    omega
  | work i =>
    obtain ⟨path, w, -, hw, hstep⟩ := act_work hact
    obtain ⟨hactive, -, w', -, hworkers⟩ := workers_step hstep
    obtain ⟨hi, rfl⟩ := List.getElem?_eq_some_iff.mp hw
    -- the place of the worker was counted before
    have hle : b'.active ≤ b.active := by
      have hpos : 0 < b.workers.countP Worker.isActive :=
        List.countP_pos_iff.mpr ⟨_, List.getElem_mem hi, hactive⟩
      unfold active
      rw [hworkers, List.countP_set hi, hactive, if_pos rfl]
      split <;> omega
    omega
  | answer =>
    obtain ⟨-, -, -, res, rfl, -⟩ := act_answer hact
    exact h

/-- How many steps a batch has before it, at most. -/
def remaining (paths : List Text) (b : Batch) : Nat :=
  7 * (paths.length - b.workers.length) + Worker.remainingAll b.workers +
    if b.answer.isNone then 1 else 0

/-- At most seven steps for a file, and one for the answer. -/
theorem remaining_new : (new r paths).remaining paths = 7 * paths.length + 1 := rfl

/-- **Every step leaves less to do.** -/
theorem remaining_act {a : Action} (hact : act t r jobs paths b a = some b') :
    b'.remaining paths < b.remaining paths := by
  unfold remaining
  cases a with
  | start =>
    obtain ⟨hlt, -, rfl⟩ := act_start hact
    -- a file that waits counts seven: starting takes one, and leaves six
    rw [List.length_append, List.length_singleton, Worker.remainingAll_start]
    refine Nat.add_lt_add_right ?_ _
    omega
  | work i =>
    obtain ⟨path, w, -, hw, hstep⟩ := act_work hact
    obtain ⟨-, hanswer, w', hlt, hworkers⟩ := workers_step hstep
    rw [hworkers, hanswer, List.length_set]
    exact Nat.add_lt_add_right (Nat.add_lt_add_left (Worker.remainingAll_set hw hlt) _) _
  | answer =>
    obtain ⟨hanswer, -, -, res, rfl, -⟩ := act_answer hact
    rw [hanswer]
    exact Nat.lt_succ_self _

/-- What every step keeps, any steps keep. -/
theorem run_induction {P : Batch → Prop}
    (hact : ∀ b b' a, P b → act t r jobs paths b a = some b' → P b') {as : List Action} (h : P b)
    (hrun : run t r jobs paths as b = some b') : P b' := by
  induction as generalizing b with
  | nil =>
    obtain rfl := Option.some.inj hrun
    exact h
  | cons a as ih =>
    obtain ⟨b₁, ha, hrest⟩ := Option.bind_eq_some_iff.mp hrun
    exact ih (hact b b₁ a h ha) hrest

/-- No run is longer than what there is to do. -/
theorem length_run {as : List Action} (h : run t r jobs paths as b = some b') :
    as.length + b'.remaining paths ≤ b.remaining paths := by
  induction as generalizing b with
  | nil =>
    obtain rfl := Option.some.inj h
    exact Nat.le_of_eq (Nat.zero_add _)
  | cons a as ih =>
    obtain ⟨b₁, ha, hrest⟩ := Option.bind_eq_some_iff.mp h
    have hless := remaining_act ha
    have hle := ih hrest
    rw [List.length_cons]
    omega

/-- **Compiling files at once is compiling them one after another.** However many jobs there are, and
in whatever order the steps of a batch come, if the work is not called off from outside:

* the batch comes to an end: there are at most seven steps for each file and one more, and as long as
  there is no answer, a next step is possible;
* never more workers are active than there are jobs, and one if that number makes no sense;
* if each file compiles by itself, every answer is the list of what they compile to, in the order of
  their paths;
* otherwise every answer is an error that a file gives by itself, and not that the work was called
  off. -/
theorem parallel_eq_sequential (t : FileTree) (r : CompileRequest) (hlive : r.canceled = false)
    (jobs : Int) (paths : List Text) (as : List Action) (b : Batch)
    (hrun : run t r jobs paths as (new r paths) = some b) :
    as.length ≤ 7 * paths.length + 1 ∧
    (b.answer = none → ∃ a b', act t r jobs paths b a = some b') ∧
    (b.active : Int) ≤ max jobs 1 ∧
    ∀ res, b.answer = some res →
      ((∀ path ∈ paths, ∃ c, ofFile t r path = .ok c) →
        ∃ cs : List Compiled, paths.map (ofFile t r) = cs.map .ok ∧
          ofFiles t r paths = (cs, none) ∧ res = .ok (cs.map some)) ∧
      ((∃ path ∈ paths, ∃ e, ofFile t r path = .error e) →
        ∃ path ∈ paths, ∃ e, ofFile t r path = .error e ∧ e ≠ .canceled ∧ res = .error e) := by
  -- the invariant, at the end of the run
  have hsound : Sound t r paths b :=
    run_induction (fun _ _ _ h hact => h.act hlive hact) (sound_new hlive) hrun
  have hactive : (b.active : Int) ≤ max jobs 1 := by
    refine run_induction (P := fun b => (b.active : Int) ≤ max jobs 1)
      (fun _ _ _ h hact => active_le_act h hact) ?_ hrun
    change (0 : Int) ≤ max jobs 1
    omega
  refine ⟨?_, hsound.exists_act, hactive, fun res hres => ⟨fun hall => ?_, ?_⟩⟩
  · have hlength := length_run hrun
    rw [remaining_new] at hlength
    omega
  · obtain ⟨cs, hmap, hfiles⟩ := Compiled.ofFiles_of_ok hall
    refine ⟨cs, hmap, hfiles, ?_⟩
    rcases hsound.answer res hres with ⟨cs', hmap', rfl⟩ | ⟨path, hmem, e, he, -⟩
    · rw [(List.map_inj_right fun _ _ => Except.ok.inj).mp (hmap.symm.trans hmap')]
    · -- a file that compiles gives no error
      obtain ⟨c, hc⟩ := hall path hmem
      rw [hc] at he
      cases he
  · rintro ⟨path, hmem, e, he⟩
    rcases hsound.answer res hres with ⟨cs, hmap, -⟩ | ⟨path', hmem', e', he', rfl⟩
    · -- if every file were there, the bad one would be, too
      have hok : ofFile t r path ∈ cs.map Except.ok := hmap ▸ List.mem_map_of_mem hmem
      obtain ⟨c, -, hc⟩ := List.mem_map.mp hok
      rw [he] at hc
      cases hc
    · exact ⟨path', hmem', e', he', Compiled.ne_canceled_of_ofFile hlive he', rfl⟩

/-- Every source has a name that ends in `.sl`. -/
def sources : CompileRequest := ⟨{}, ".sl", false⟩

/-- Two files, the first with a wrong name. -/
def misnamed : List Text := ["a.txt", "b.sl"]

/-- Both workers are at work when the first fails, and the second finds the work called off. -/
def calledOff : List Action :=
  [.start, .start, .work 1, .work 0, .work 0, .work 0, .work 1, .work 1, .work 1, .work 0, .answer]

/-- What comes of it. -/
def stopped : Batch :=
  ⟨[.left, .left], [none, none], some (.badExtension "a.txt" ".sl"), true,
    some (.error (.badExtension "a.txt" ".sl"))⟩

/-- The second worker has an error of its own, and the answer is that of the first. -/
theorem run_calledOff :
    sources.canceled = false ∧
      run (.empty "w" "/w") sources 2 misnamed calledOff (new sources misnamed) = some stopped ∧
      ∃ path ∈ misnamed, ∃ e, ofFile (.empty "w" "/w") sources path = .error e ∧ e ≠ .canceled ∧
        stopped.answer = some (.error e) := by
  have hrun : run (.empty "w" "/w") sources 2 misnamed calledOff (new sources misnamed) =
      some stopped :=
    rfl
  obtain ⟨-, -, -, hanswer⟩ := parallel_eq_sequential _ sources rfl 2 misnamed calledOff stopped hrun
  obtain ⟨path, hmem, e, he, hne, hres⟩ :=
    (hanswer _ rfl).2 ⟨"a.txt", List.mem_cons_self, _, rfl⟩
  exact ⟨rfl, hrun, path, hmem, e, he, hne, congrArg some hres⟩

end Batch
end Slang
