import Mathlib.Data.List.Forall2
import Slang.Diagnostic

/-!
# Diagnostics in the order of positions

Sorting diagnostics is stable: those at one position stay in the order in which they were found. So
sorting commutes with leaving some out (`filter_sort`), sorted lists stay as they are
(`sort_of_pairwise`), and two lists that correspond, with positions in the same order, correspond
after sorting as well (`forall₂_sort`).
-/

namespace Slang

namespace Position

theorem le_iff {p q : Position} :
    p.le q = true ↔ p.line < q.line ∨ p.line = q.line ∧ p.column ≤ q.column := by
  simp [le]

theorem le_refl (p : Position) : p.le p = true := le_iff.mpr (.inr ⟨rfl, Int.le_refl _⟩)

theorem le_trans {p q r : Position} (h : p.le q = true) (h' : q.le r = true) : p.le r = true := by
  rw [le_iff] at h h' ⊢
  omega

theorem le_total (p q : Position) : (p.le q || q.le p) = true := by
  rw [Bool.or_eq_true, le_iff, le_iff]
  omega

end Position

/-! ### Stable sorting -/

section
variable {α : Type} {le : α → α → Bool}
  (trans : ∀ a b c, le a b = true → le b c = true → le a c = true)
  (total : ∀ a b, (le a b || le b a) = true)

include trans total in
/-- Sorting puts the first of a list after all that are strictly below it, and before all others. -/
theorem mergeSort_cons_eq_filter (a : α) (l : List α) :
    (a :: l).mergeSort le =
      (l.mergeSort le).filter (fun b => !le a b) ++ a :: (l.mergeSort le).filter (le a) := by
  obtain ⟨l₁, l₂, hcons, hl, hbelow⟩ := List.mergeSort_cons trans total a l
  have habove : ∀ b ∈ l₂, le a b = true := by
    have hsorted := List.pairwise_mergeSort trans total (a :: l)
    rw [hcons, List.pairwise_append] at hsorted
    exact fun b hb => List.rel_of_pairwise_cons hsorted.2.1 hb
  have h₁ : (l₁ ++ l₂).filter (fun b => !le a b) = l₁ := by
    rw [List.filter_append, List.filter_eq_self.mpr hbelow,
      List.filter_eq_nil_iff.mpr fun b hb => by simp [habove b hb], List.append_nil]
  have h₂ : (l₁ ++ l₂).filter (le a) = l₂ := by
    rw [List.filter_append, List.filter_eq_self.mpr habove,
      List.filter_eq_nil_iff.mpr fun b hb => by simpa using hbelow b hb, List.nil_append]
  rw [hcons, hl, h₁, h₂]

include trans total in
/-- **Sorting commutes with leaving some out.** -/
theorem filter_mergeSort (p : α → Bool) (l : List α) :
    (l.mergeSort le).filter p = (l.filter p).mergeSort le := by
  induction l with
  | nil => simp
  | cons a l ih =>
    by_cases ha : p a = true
    · rw [List.filter_cons_of_pos ha, mergeSort_cons_eq_filter trans total,
        mergeSort_cons_eq_filter trans total, List.filter_append, List.filter_cons_of_pos ha, ← ih]
      simp only [List.filter_filter, Bool.and_comm]
    · obtain ⟨l₁, l₂, hcons, hl, -⟩ := List.mergeSort_cons trans total a l
      rw [List.filter_cons_of_neg ha, ← ih, hcons, hl, List.filter_append, List.filter_append,
        List.filter_cons_of_neg ha]

end

/-- Lists that correspond, with the same order, correspond after sorting. -/
theorem forall₂_mergeSort {α β : Type} {R : α → β → Prop} {r : α → α → Bool} {s : β → β → Bool}
    {l : List α} {l' : List β} (h : List.Forall₂ R l l')
    (horder : ∀ a a' b b', R a a' → R b b' → r a b = s a' b') :
    List.Forall₂ R (l.mergeSort r) (l'.mergeSort s) := by
  obtain ⟨hlen, hrel⟩ := List.forall₂_iff_zip.mp h
  -- the pairs are sorted by their first parts, which is sorting them by their second parts
  have hfst : ((l.zip l').mergeSort fun x y => r x.1 y.1).map Prod.fst = l.mergeSort r := by
    rw [List.map_mergeSort (s := r) fun _ _ _ _ => rfl, List.map_fst_zip (Nat.le_of_eq hlen)]
  have hsnd : ((l.zip l').mergeSort fun x y => r x.1 y.1).map Prod.snd = l'.mergeSort s := by
    rw [List.map_mergeSort (s := s) fun x hx y hy => horder _ _ _ _ (hrel hx) (hrel hy),
      List.map_snd_zip (Nat.le_of_eq hlen.symm)]
  rw [← hfst, ← hsnd, List.forall₂_map_left_iff, List.forall₂_map_right_iff, List.forall₂_same]
  intro x hx
  exact hrel (List.mem_mergeSort.mp hx)

/-! ### Diagnostics -/

namespace Diagnostic

/-- The order in which diagnostics are shown. -/
def before (a b : Diagnostic) : Bool := a.pos.le b.pos

theorem before_trans (a b c : Diagnostic) (h : before a b = true) (h' : before b c = true) :
    before a c = true :=
  Position.le_trans h h'

theorem before_total (a b : Diagnostic) : (before a b || before b a) = true :=
  Position.le_total a.pos b.pos

theorem filter_sort (p : Diagnostic → Bool) (l : List Diagnostic) :
    (sort l).filter p = sort (l.filter p) :=
  filter_mergeSort before_trans before_total p l

theorem sort_of_pairwise {l : List Diagnostic} (h : l.Pairwise fun a b => a.pos.le b.pos = true) :
    sort l = l :=
  List.mergeSort_of_pairwise h

theorem sort_sort (l : List Diagnostic) : sort (sort l) = sort l :=
  sort_of_pairwise (List.pairwise_mergeSort before_trans before_total l)

theorem forall₂_sort {R : Diagnostic → Diagnostic → Prop} {l l' : List Diagnostic}
    (h : List.Forall₂ R l l')
    (horder : ∀ a a' b b', R a a' → R b b' → a.pos.le b.pos = a'.pos.le b'.pos) :
    List.Forall₂ R (sort l) (sort l') :=
  forall₂_mergeSort h horder

end Diagnostic
end Slang
