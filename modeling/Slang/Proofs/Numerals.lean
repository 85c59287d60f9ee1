import Slang.Text.Basic

/-!
# Decimal numerals

A natural number is written with at least one digit and nothing else, and reading its numeral gives
the number back (`toNat?_ofNat`). So a name that ends in an underscore and a number can be taken
apart (`numbered_inj`).
-/

namespace Slang.Text

theorem ofInt_natCast (n : Nat) : ofInt n = ofNat n := by
  rw [ofInt, if_neg (Int.not_lt.mpr (Int.natCast_nonneg n)), Int.natAbs_natCast]

theorem ofNat_ne_nil (n : Nat) : ofNat n ≠ [] := by
  rw [ofNat]
  split <;> simp

theorem toNat_digit (n : Nat) : (digit n).toNat = 48 + n % 10 := by
  simp only [digit, Nat.toUInt8, UInt8.toNat_ofNat']
  omega

theorem isDigit_digit (n : Nat) : isDigit (digit n) = true := by
  have h := toNat_digit n
  rw [isDigit, Bool.and_eq_true_iff, decide_eq_true_eq, decide_eq_true_eq, UInt8.le_iff_toNat_le,
    UInt8.le_iff_toNat_le, h]
  change 48 ≤ _ ∧ _ ≤ 57
  omega

theorem isDigit_ofNat (n : Nat) : ∀ b ∈ ofNat n, isDigit b = true := by
  induction n using Nat.strongRecOn with
  | ind n ih =>
    rw [ofNat]
    split
    · simpa using isDigit_digit n
    · next hn =>
      intro b hb
      rcases List.mem_append.mp hb with hb | hb
      · exact ih (n / 10) (by omega) b hb
      · obtain rfl := List.mem_singleton.mp hb
        exact isDigit_digit n

/-- The value of digits, from left to right. -/
theorem foldl_ofNat (n : Nat) :
    (ofNat n).foldl (fun m b => 10 * m + (b.toNat - 48)) 0 = n := by
  induction n using Nat.strongRecOn with
  | ind n ih =>
    rw [ofNat]
    split
    · next hn =>
      rw [List.foldl_cons, List.foldl_nil, toNat_digit]
      omega
    · next hn =>
      rw [List.foldl_append, ih (n / 10) (by omega), List.foldl_cons, List.foldl_nil, toNat_digit]
      omega

/-- **A numeral is read as the number that was written.** -/
theorem toNat?_ofNat (n : Nat) : (ofNat n).toNat? = some n := by
  have hempty : (ofNat n).isEmpty = false := by
    rw [List.isEmpty_eq_false_iff]
    exact ofNat_ne_nil n
  have hall : (ofNat n).all isDigit = true := List.all_eq_true.mpr (isDigit_ofNat n)
  rw [toNat?, hempty, hall, foldl_ofNat]
  rfl

/-- Different numbers have different numerals. -/
theorem ofNat_inj {m n : Nat} (h : ofNat m = ofNat n) : m = n := by
  have hread := toNat?_ofNat m
  rw [h, toNat?_ofNat] at hread
  exact (Option.some.inj hread).symm

/-! ### Numerals at the end of a name -/

theorem underscore_notMem_ofNat (n : Nat) : 95 ∉ ofNat n := fun h =>
  absurd (isDigit_ofNat n 95 h) (by decide)

/-- **A name with a number can be taken apart.** Whatever the name is, the number is what follows
the last underscore. -/
theorem numbered_inj {a b : Text} {m n : Nat} (h : a ++ "_" ++ ofNat m = b ++ "_" ++ ofNat n) :
    a = b ∧ m = n := by
  have hlast : ∀ (c : Text) (k : Nat),
      (c ++ "_" ++ ofNat k).reverse.takeWhile (· ≠ 95) = (ofNat k).reverse := by
    intro c k
    have hdigits : ∀ x ∈ (ofNat k).reverse, decide (x ≠ 95) = true := by
      rintro x hx
      refine decide_eq_true fun heq => underscore_notMem_ofNat k ?_
      exact heq ▸ List.mem_reverse.mp hx
    rw [List.reverse_append, List.takeWhile_append_of_pos hdigits, List.reverse_append]
    exact List.append_nil _
  have hnumeral := (hlast a m).symm.trans (h ▸ hlast b n)
  have hmn : m = n := ofNat_inj (List.reverse_inj.mp hnumeral)
  rw [hmn] at h
  exact ⟨List.append_cancel_right (List.append_cancel_right h), hmn⟩

/-- A name is not its own numbered name. -/
theorem ne_numbered (a b : Text) : a ≠ a ++ "_" ++ b := by
  intro h
  have hlength := congrArg List.length h
  rw [List.append_assoc, List.length_append, List.length_append] at hlength
  have hpos : 0 < (Text.ofString "_").length := by decide
  omega

end Slang.Text
