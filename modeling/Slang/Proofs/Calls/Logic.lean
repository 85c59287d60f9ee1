import Slang.Proofs.Calls.Ends

/-!
# Reasoning about answers

What every call answers can be shown one reader at a time: if the calls that a reader makes have good
answers, so has the reader (`answer_of_gives`). The induction on the order of calls is done once, and
a proof about a reader follows its script.

* `Reply.Holds` and `Parsed.Holds` say something about a result and about each error;
* `Script.Gives` is the judgement about a script, with a rule for each way to put scripts together.
-/

namespace Slang.Parser

variable {α β : Type} {eof : Token} {ts : List Token}

/-- A reply with a good result, or with a good error. -/
def Reply.Holds (F : Fault → Prop) (P : α → Prop) : Reply α → Prop
  | .ok a _ => P a
  | .fail f _ => F f

namespace Reply.Holds

variable {F : Fault → Prop} {P : α → Prop} {r : Reply α}

theorem shift {n : Nat} (h : r.Holds F P) : (r.shift n).Holds F P := by
  cases r with
  | ok a k => exact h
  | fail f k => exact h

theorem map {Q : β → Prop} {g : α → β} (h : r.Holds F P) (hg : ∀ a, P a → Q (g a)) :
    (r.map g).Holds F Q := by
  cases r with
  | ok a k => exact hg a h
  | fail f k => exact h

theorem andThen {Q : β → Prop} {next : α → List Token → Reply β} (h : r.Holds F P)
    (hnext : ∀ a us, us <:+ ts → P a → (next a us).Holds F Q) : (r.andThen ts next).Holds F Q := by
  cases r with
  | ok a k => exact (hnext a _ (List.drop_suffix k ts) h).shift
  | fail f k => exact h

end Reply.Holds

/-- A statement that is good unless it is dropped, with good errors. -/
structure Parsed.Holds (F : Fault → Prop) (P : Stmt → Prop) (p : Parsed Stmt) : Prop where
  node : ∀ s ∈ p.node, P s
  faults : ∀ f ∈ p.faults, F f

/-- Of a statement that is dropped only the errors count. -/
theorem Parsed.Holds.of_none {F : Fault → Prop} {P : Stmt → Prop} {p : Parsed Stmt}
    (hnode : p.node = none) (hfaults : ∀ f ∈ p.faults, F f) : p.Holds F P where
  node := by
    intro s hs
    rw [hnode] at hs
    cases hs
  faults := hfaults

/-! ### Rules for scripts -/

namespace Script

variable (eof) (Good : (c : AnyCall) → c.1 → Prop)

/-- **If all calls of a script have good answers, `P` holds of what it comes to.** -/
def Gives (s : Script α) (P : α → Prop) : Prop :=
  s.Only eof (fun c => Good c (c.2.answer eof)) → P (s.eval eof)

variable {eof Good}

theorem Gives.done {P : α → Prop} {a : α} (h : P a) : (done a).Gives eof Good P := fun _ => h

theorem Gives.ask {P : α → Prop} {c : Call α} (h : ∀ a, Good ⟨α, c⟩ a → P a) :
    (ask c).Gives eof Good P :=
  fun hc => h _ ((only_ask eof c).mp hc)

theorem Gives.bind {Q : α → Prop} {P : β → Prop} {s : Script α} {f : α → Script β}
    (hs : s.Gives eof Good Q) (hf : ∀ a, Q a → (f a).Gives eof Good P) :
    (s.bind f).Gives eof Good P := by
  intro hcalls
  obtain ⟨hcalls, hcalls'⟩ := (only_bind eof s f).mp hcalls
  rw [eval_bind]
  exact hf _ (hs hcalls) hcalls'

theorem Gives.map {Q : α → Prop} {P : β → Prop} {s : Script α} {f : α → β}
    (hs : s.Gives eof Good Q) (hf : ∀ a, Q a → P (f a)) : (s.map f).Gives eof Good P :=
  hs.bind fun a ha => .done (hf a ha)

theorem Gives.shift {F : Fault → Prop} {P : α → Prop} {s : Script (Reply α)} {n : Nat}
    (hs : s.Gives eof Good (Reply.Holds F P)) :
    (s.map (Reply.shift n)).Gives eof Good (Reply.Holds F P) :=
  hs.map fun _ hr => hr.shift

/-- One reader after another: the second one reads what the first one has left. -/
theorem Gives.andThen {F : Fault → Prop} {Q : α → Prop} {P : β → Prop} {s : Script (Reply α)}
    {next : α → List Token → Script (Reply β)} (hs : s.Gives eof Good (Reply.Holds F Q))
    (hnext : ∀ a us, us <:+ ts → Q a → (next a us).Gives eof Good (Reply.Holds F P)) :
    (s.andThen ts next).Gives eof Good (Reply.Holds F P) := by
  refine hs.bind fun r hr => ?_
  cases r with
  | ok a k => exact (hnext a _ (List.drop_suffix k ts) hr).shift
  | fail f k => exact .done hr

end Script

/-- **Every call has a good answer**, by induction on the order of calls. -/
theorem answer_of_gives (heof : eof.kind = .eof) {Good : (c : AnyCall) → c.1 → Prop}
    (hts : Distinct eof ts)
    (h : ∀ c : AnyCall, c.tokens <:+ ts → (c.2.script eof).Gives eof Good (Good c))
    (c : AnyCall) (hc : c.tokens <:+ ts) : Good c (c.2.answer eof) := by
  have hdistinct := hts.of_suffix hc
  have hcalls := (only_script heof c.2 hdistinct).mono eof fun c' hc' =>
    answer_of_gives heof hts h c' (hc'.part.trans hc)
  rw [← eval_script heof c.2 hdistinct]
  exact h c hc hcalls
termination_by c.size
decreasing_by exact hc'.size_lt

end Slang.Parser
