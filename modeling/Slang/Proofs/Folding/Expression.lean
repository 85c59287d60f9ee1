import Slang.Proofs.Constants
import Slang.Proofs.Execution

/-!
# Constant expressions

An expression for which analysis finds a constant gives this constant whenever its evaluation
completes, and so do all expressions inside it (`ensures_eval`). What this takes is said by
`Reading`: the names that are known hold what is known of them, also after the calls in between.

`Ensures` says what a run leaves behind: evaluations that are right so far, whether or not the run
stops, and something about the globals if it does not. It comes with one rule for each way in which
runs are put together, so that the proofs about programs never look at worlds.
-/

namespace Slang.Execution

open Analysis

/-! ### Runs that are right -/

/-- The evaluations so far are **right**: those with a known constant gave it. -/
def World.Right (known : Occurrence → Option Value) (w : World) : Prop :=
  ∀ o v c, (o, v) ∈ w.log → known o = some c → v = some c

/-- **What a run ensures** if it begins with right evaluations and with globals for which `P` holds:
its evaluations are right, and if it does not stop, then `Q` holds of its result and the globals. -/
def Ensures {α : Type} (known : Occurrence → Option Value) (P : Globals → Prop) (r : Run α)
    (Q : α → Globals → Prop) : Prop :=
  ∀ w, w.Right known → P w.globals →
    (r.run w).2.Right known ∧ ∀ a, (r.run w).1 = some a → Q a (r.run w).2.globals

/-- A run whose first part stops is stopped, in the world where that part left it. -/
theorem run_bind_of_none {α β : Type} {r : Run α} (f : α → Run β) {w w' : World}
    (h : r.run w = (none, w')) : (r >>= f).run w = (none, w') := by
  unfold OptionT.run at h
  simp only [bind, OptionT.bind, OptionT.mk, OptionT.run, StateT.bind, h]
  rfl

theorem run_bind_of_some {α β : Type} {r : Run α} (f : α → Run β) {w w' : World} {a : α}
    (h : r.run w = (some a, w')) : (r >>= f).run w = (f a).run w' := by
  unfold OptionT.run at h
  simp only [bind, OptionT.bind, OptionT.mk, OptionT.run, StateT.bind, h]

section
variable {α β : Type} {known : Occurrence → Option Value} {P P' : Globals → Prop}
  {Q Q' : α → Globals → Prop} {R : β → Globals → Prop}

theorem ensures_pure {a : α} (h : ∀ g, P g → Q a g) : Ensures known P (pure a) Q := by
  intro w hw hP
  refine ⟨hw, fun b hb => ?_⟩
  obtain rfl : a = b := Option.some.inj hb
  exact h _ hP

theorem ensures_failure : Ensures known P (failure : Run α) Q :=
  fun _ hw _ => ⟨hw, fun _ h => nomatch h⟩

/-- One run after the other. -/
theorem Ensures.bind {r : Run α} {f : α → Run β} (h : Ensures known P r Q)
    (hf : ∀ a, Ensures known (Q a) (f a) R) : Ensures known P (r >>= f) R := by
  intro w hw hP
  have hr := h w hw hP
  -- if the first run stops, the second one never begins
  rcases hrun : r.run w with ⟨_ | a, w'⟩
  · rw [hrun] at hr
    rw [run_bind_of_none f hrun]
    exact ⟨hr.1, fun _ h => nomatch h⟩
  · rw [hrun] at hr
    rw [run_bind_of_some f hrun]
    exact hf a w' hr.1 (hr.2 a rfl)

/-- One run after the other, with a fact about the result of the first one. -/
theorem Ensures.bind_of {r : Run α} {f : α → Run β} {F : α → Prop}
    (h : Ensures known P r fun a g => P' g ∧ F a)
    (hf : ∀ a, F a → Ensures known P' (f a) R) : Ensures known P (r >>= f) R :=
  h.bind fun a w hw hP => hf a hP.2 w hw hP.1

theorem Ensures.mono {r : Run α} (h : Ensures known P r Q) (hQ : ∀ a g, Q a g → Q' a g) :
    Ensures known P r Q' :=
  fun w hw hP => (h w hw hP).imp_right fun h' a ha => hQ a _ (h' a ha)

theorem ensures_demand {o : Option α} :
    Ensures known P (demand o) fun a g => P g ∧ o = some a := by
  cases o with
  | none => exact ensures_failure
  | some a => exact ensures_pure fun _ hP => ⟨hP, rfl⟩

/-- A right evaluation completes. -/
theorem ensures_complete {o : Occurrence} {v : Option Value}
    (hv : ∀ c, known o = some c → v = some c) :
    Ensures known P (complete o v) fun a g => P g ∧ a = v := by
  intro w hw hP
  refine ⟨?_, fun a ha => ⟨hP, (Option.some.inj ha).symm⟩⟩
  -- the log has this evaluation and the ones from before
  intro o' v' c hmem hknown
  rcases List.mem_cons.mp hmem with heq | hmem
  · obtain ⟨rfl, rfl⟩ := Prod.mk.inj heq
    exact hv c hknown
  · exact hw o' v' c hmem hknown

theorem ensures_store {x : Text} {v : Value} {Q : Unit → Globals → Prop}
    (h : ∀ g, P g → Q () (g.set x v)) : Ensures known P (store x v) Q :=
  fun _ hw hP => ⟨hw, fun _ _ => h _ hP⟩

end

/-! ### Operators -/

theorem fit_of_ofInt? {n : Int} {c : Value} (h : Value.ofInt? n = .ok c)
    (otherwise : Option Int32) : Machine.fit n otherwise = some c := by
  unfold Value.ofInt? at h
  split at h
  · cases h
  · next hn =>
    obtain rfl := Except.ok.inj h
    rw [not_or, Int.not_lt, Int.not_lt] at hn
    exact if_pos hn

/-- Where a constant folds, every machine computes the same. -/
theorem unary_of_fold (m : Machine) {op : UnaryOp} {v c : Value} (h : op.fold v = .ok c) :
    m.unary op v = some c := by
  cases op with
  | neg =>
    cases v with
    | int n => exact fit_of_ofInt? ((UnaryOp.fold_neg n).symm.trans h) _
    | _ => cases h
  | not =>
    cases v with
    | bool b => exact congrArg some (Except.ok.inj h)
    | _ => cases h
  | other s => cases v <;> cases h

theorem binary_of_fold (m : Machine) {op : BinaryOp} {l r c : Value} (h : op.fold l r = .ok c) :
    m.binary op l r = some c := by
  cases l <;> cases r
  case int.int l r =>
    cases op with
    | add => exact fit_of_ofInt? ((BinaryOp.foldInt_add l r).symm.trans h) _
    | sub => exact fit_of_ofInt? ((BinaryOp.foldInt_sub l r).symm.trans h) _
    | mul => exact fit_of_ofInt? ((BinaryOp.foldInt_mul l r).symm.trans h) _
    | div =>
      -- a division by zero does not fold, so the machine is not asked about it
      by_cases hr : r = 0
      · subst hr
        cases h
      · exact (if_neg hr).trans (fit_of_ofInt? ((BinaryOp.foldInt_div hr).symm.trans h) _)
    | eq | ne => exact congrArg some (Except.ok.inj h)
    | and | or | other => cases h
  case bool.bool l r =>
    cases op with
    | and | or | eq | ne => exact congrArg some (Except.ok.inj h)
    | add | sub | mul | div | other => cases h
  case str.str l r =>
    cases op with
    | add | eq | ne => exact congrArg some (Except.ok.inj h)
    | sub | mul | div | and | or | other => cases h
  all_goals cases h

/-- Where the left operand decides, it is the result. -/
theorem eq_of_skips {m : Machine} {op : BinaryOp} {l r c : Value} (hskips : m.skips op l = true)
    (h : op.fold l r = .ok c) : l = c := by
  simp only [Machine.skips, Bool.and_eq_true, Bool.or_eq_true, beq_iff_eq] at hskips
  rcases hskips.2 with ⟨rfl, rfl⟩ | ⟨rfl, rfl⟩
  · cases r with
    | bool b => exact Except.ok.inj h
    | _ => cases h
  · cases r with
    | bool b => exact Except.ok.inj h
    | _ => cases h

/-! ### Expressions -/

/-- What is known of an expression is what it gives. -/
def Agrees (known v : Option Value) : Prop := ∀ c, known = some c → v = some c

/-- The occurrences inside an expression at `o` are known as analysis finds them. -/
def Marked (known : Occurrence → Option Value) (ctx : Context) (t : Table) (o : Occurrence)
    (e : Expr) : Prop :=
  ∀ path e', e.part? path = some e' →
    known ⟨o.place, o.path ++ path⟩ = (check ctx t e').value

section
variable {known : Occurrence → Option Value} {ctx : Context} {t : Table} {o : Occurrence}
  {e e' : Expr}

theorem Marked.here (h : Marked known ctx t o e) : known o = (check ctx t e).value := by
  have := h [] e rfl
  rwa [List.append_nil] at this

theorem Marked.part (h : Marked known ctx t o e) {i : Nat} (hi : e.parts[i]? = some e') :
    Marked known ctx t (o.part i) e' := by
  intro path e'' hpath
  have hwhole : e.part? (i :: path) = some e'' := by
    rw [Expr.part?, hi]
    exact hpath
  rw [← h (i :: path) e'' hwhole, Occurrence.part, List.append_assoc]
  rfl

end

/-- **Where expressions are evaluated**: a name that is known holds what is known, and calls leave
what is assumed of the globals as it is. -/
structure Reading (known : Occurrence → Option Value) (ctx : Context) (t : Table) (env : Locals)
    (call : Text → List Value → Run (Option Value)) (P : Globals → Prop) : Prop where
  name : ∀ id c, (checkName ctx t id).value = some c → ∀ g, P g →
    (env.find? id.name).or (g id.name) = some c
  call : ∀ f args, Ensures known P (call f args) fun _ => P

section
variable {known : Occurrence → Option Value} {ctx : Context} {t : Table} {env : Locals}
  {m : Machine} {call : Text → List Value → Run (Option Value)} {P : Globals → Prop}

/-- An evaluation that agrees with what is known completes. -/
theorem ensures_agrees {o : Occurrence} {e : Expr} (hmark : Marked known ctx t o e)
    {v : Option Value} (hv : Agrees (check ctx t e).value v) :
    Ensures known P (complete o v) fun a g => P g ∧ Agrees (check ctx t e).value a := by
  refine (ensures_complete fun c hc => hv c ?_).mono fun a g h => ⟨h.1, h.2 ▸ hv⟩
  rw [← hmark.here]
  exact hc

/-- A name gives what is known of it. -/
theorem ensures_read (hreading : Reading known ctx t env call P) (id : Ident) :
    Ensures known P (read env id.name) fun v g =>
      P g ∧ Agrees (checkName ctx t id).value v := by
  intro w hw hP
  have hread : (read env id.name).run w =
      ((((env.find? id.name).or (w.globals id.name))).map some, w) := by
    unfold read
    rw [run_bind_of_some _ (show (get : Run World).run w = (some w, w) from rfl)]
    cases (env.find? id.name).or (w.globals id.name) <;> rfl
  rw [hread]
  refine ⟨hw, fun v hv => ⟨hP, fun c hc => ?_⟩⟩
  dsimp only at hv
  rw [hreading.name id c hc w.globals hP] at hv
  exact (Option.some.inj hv).symm

/-- The arguments of a call leave what is assumed of the globals as it is. -/
theorem ensures_evalArgs {o : Occurrence} {args : List Expr}
    (hargs : ∀ a ∈ args, ∀ o, Marked known ctx t o a →
      Ensures known P (eval m call env o a) fun v g => P g ∧ Agrees (check ctx t a).value v)
    (i : Nat) (hmark : ∀ j a, args[j]? = some a → Marked known ctx t (o.part (i + j)) a) :
    Ensures known P (evalArgs m call env o i args) fun _ => P := by
  induction args generalizing i with
  | nil =>
    rw [evalArgs]
    exact ensures_pure fun _ hP => hP
  | cons a args ih =>
    rw [evalArgs]
    have hhead := hargs a List.mem_cons_self (o.part i) (hmark 0 a rfl)
    have htail := ih (fun b hb => hargs b (List.mem_cons_of_mem a hb)) (i + 1) fun j b hb => by
      rw [Nat.add_assoc, Nat.add_comm 1 j]
      exact hmark (j + 1) b hb
    -- the argument, whether it has a value, and then the others
    refine hhead.bind_of fun v _ => ensures_demand.bind_of fun w _ => ?_
    exact htail.bind fun ws => ensures_pure fun _ hP => hP

/-- **Expressions give the constants that analysis finds**, at every occurrence inside them. -/
theorem ensures_eval (hreading : Reading known ctx t env call P) {e : Expr} (hw : e.Whole)
    {o : Occurrence} (hmark : Marked known ctx t o e) :
    Ensures known P (eval m call env o e) fun v g => P g ∧ Agrees (check ctx t e).value v := by
  induction hw generalizing o with
  | @ident id =>
    rw [eval]
    refine (ensures_read hreading id).bind_of fun v hv => ensures_agrees hmark ?_
    rw [check]
    exact hv
  | @int tok n =>
    rw [eval]
    split
    · exact ensures_failure
    · next hn =>
      refine ensures_agrees hmark fun c hc => ?_
      rw [check, if_neg hn] at hc
      rw [constant_value hc]
  | str | bool =>
    rw [eval]
    refine ensures_agrees hmark fun c hc => ?_
    rw [check] at hc
    rw [constant_value hc]
  | @unary tok op e he ih =>
    rw [eval]
    split
    · next hleast =>
      refine ensures_agrees hmark fun c hc => ?_
      rw [check, if_pos hleast] at hc
      rw [constant_value hc]
    · next hleast =>
      refine (ih (hmark.part rfl)).bind_of fun v hv => ensures_demand.bind_of fun w hvw => ?_
      refine ensures_demand.bind_of fun u hu => ensures_agrees hmark fun c hc => ?_
      rw [check, if_neg hleast] at hc
      -- the operand is a constant that folds, so the machine computes the same
      obtain ⟨k, hk, hfold, -⟩ := checkUnary_value hc
      obtain rfl : w = k := Option.some.inj (hvw.symm.trans (hv k hk))
      rw [← hu, unary_of_fold m hfold]
  | @binary tok op l r hl hr ihl ihr =>
    rw [eval]
    refine (ihl (hmark.part rfl)).bind_of fun v hv => ensures_demand.bind_of fun w hvw => ?_
    split
    · -- the right operand is not evaluated, and does not change the result
      next hskips =>
      refine ensures_agrees hmark fun c hc => ?_
      rw [check] at hc
      obtain ⟨kl, kr, hkl, -, hfold, -⟩ := checkBinary_value hc
      obtain rfl : w = kl := Option.some.inj (hvw.symm.trans (hv kl hkl))
      rw [eq_of_skips hskips hfold]
    · refine (ihr (hmark.part rfl)).bind_of fun v' hv' => ensures_demand.bind_of fun w' hvw' => ?_
      refine ensures_demand.bind_of fun u hu => ensures_agrees hmark fun c hc => ?_
      rw [check] at hc
      obtain ⟨kl, kr, hkl, hkr, hfold, -⟩ := checkBinary_value hc
      obtain rfl : w = kl := Option.some.inj (hvw.symm.trans (hv kl hkl))
      obtain rfl : w' = kr := Option.some.inj (hvw'.symm.trans (hv' kr hkr))
      rw [← hu, binary_of_fold m hfold]
  | group he ih =>
    rw [eval]
    refine (ih (hmark.part rfl)).bind_of fun v hv => ensures_agrees hmark ?_
    rw [check]
    exact hv
  | @call tok callee args hargs ih =>
    rw [eval]
    refine (ensures_evalArgs ih 0 fun j a ha => hmark.part ?_).bind fun vs => ?_
    · rw [Nat.zero_add]
      exact ha
    · -- a call is no constant, so any value agrees
      refine (hreading.call callee.name vs).bind fun v => ensures_agrees hmark fun c hc => ?_
      rw [check, checkCall_value] at hc
      cases hc

end

end Slang.Execution
