import Slang.Proofs.Pieces
import Slang.Text.Lower

/-!
# Characters and their bytes

A character of ASCII is written as the byte with its number, and no other character has this byte
among its own (`toNat_of_mem_ofChar`). Reading goes the other way: a text in which such a character
is read has its byte (`mem_of_mem_runes`). So a text keeps out of its small form what it does not have
itself, unless it is a letter (`dot_notMem_lower`).
-/

namespace Slang

namespace Text

/-- All bytes of a character beyond ASCII are at least 128. -/
theorem toNat_of_mem_ofChar {b : UInt8} (hb : b.toNat < 128) {c : Char} (h : b ∈ ofChar c) :
    c.toNat = b.toNat := by
  -- the bytes of longer characters are all above 127
  have hlong {n k m : Nat} (hk : 0 < k) (hn : 128 ≤ n ∧ n + k ≤ 256) :
      b ≠ UInt8.ofNat (m % k + n) := by
    rintro rfl
    have hlt : m % k < k := Nat.mod_lt m hk
    rw [UInt8.toNat_ofNat'] at hb
    omega
  have hv : c.toNat = c.val.toNat := rfl
  rw [hv]
  unfold ofChar String.utf8EncodeChar at h
  generalize c.val.toNat = v at h ⊢
  dsimp only at h
  -- one byte, two, three or four
  split at h
  · obtain rfl := List.mem_singleton.mp h
    rw [UInt8.toNat_ofNat']
    omega
  · split at h
    · simp only [List.mem_cons, List.not_mem_nil, or_false] at h
      rcases h with h | h
      · exact absurd h (hlong (by omega) (by omega))
      · exact absurd h (hlong (by omega) (by omega))
    · split at h
      · simp only [List.mem_cons, List.not_mem_nil, or_false] at h
        rcases h with h | h | h
        · exact absurd h (hlong (by omega) (by omega))
        · exact absurd h (hlong (by omega) (by omega))
        · exact absurd h (hlong (by omega) (by omega))
      · simp only [List.mem_cons, List.not_mem_nil, or_false] at h
        rcases h with h | h | h | h
        · exact absurd h (hlong (by omega) (by omega))
        · exact absurd h (hlong (by omega) (by omega))
        · exact absurd h (hlong (by omega) (by omega))
        · exact absurd h (hlong (by omega) (by omega))

end Text

/-! ### Reading characters -/

namespace Rune

/-- What a number counts before bytes that each add six bits to it. -/
def weight : Nat → Nat
  | 0 => 1
  | n + 1 => 64 * weight n

/-- Each byte after the first makes the number larger. -/
theorem mul_weight_le_codePoint (lead : Nat) (tail : Text) :
    lead * weight tail.length ≤ codePoint lead tail := by
  unfold codePoint
  induction tail generalizing lead with
  | nil => exact Nat.le_of_eq (Nat.mul_one lead)
  | cons b tail ih =>
    rw [List.foldl_cons, List.length_cons, weight]
    refine Nat.le_trans ?_ (ih _)
    calc lead * (64 * weight tail.length)
        = 64 * lead * weight tail.length := by
          rw [← Nat.mul_assoc, Nat.mul_comm lead 64]
      _ ≤ (64 * lead + (b.toNat - 0x80)) * weight tail.length :=
        Nat.mul_le_mul_right _ (Nat.le_add_right _ _)

/-- A leading byte leaves out the overlong forms: with the least second byte that it allows the number
is not one of ASCII. -/
theorem le_of_leading (b : UInt8) : ∀ n low high, leading b = some (n, low, high) →
    0 < n ∧ 128 ≤ (64 * leadBits n b + (low.toNat - 0x80)) * weight (n - 1) := by
  have hall := Lexer.forall_byte
    (p := fun b => (leading b).all fun (n, low, _) =>
      decide (0 < n ∧ 128 ≤ (64 * leadBits n b + (low.toNat - 0x80)) * weight (n - 1)))
    (by decide +kernel) b
  intro n low high h
  rw [h] at hall
  exact of_decide_eq_true hall

/-- A character of more than one byte is not one of ASCII. -/
theorem le_codePoint_of_leading {b second low high : UInt8} {more : Text} {n : Nat}
    (h : leading b = some (n, low, high)) (hlow : low ≤ second)
    (hlength : ((second :: more).take n).length = n) :
    128 ≤ codePoint (leadBits n b) ((second :: more).take n) := by
  obtain ⟨hpos, hbound⟩ := le_of_leading b n low high h
  cases n with
  | zero => exact absurd hpos (Nat.lt_irrefl 0)
  | succ k =>
    rw [List.take_succ_cons, List.length_cons, Nat.succ.injEq] at hlength
    have hsecond : low.toNat ≤ second.toNat := UInt8.le_iff_toNat_le.mp hlow
    calc 128
        ≤ (64 * leadBits (k + 1) b + (low.toNat - 0x80)) * weight k := hbound
      _ ≤ (64 * leadBits (k + 1) b + (second.toNat - 0x80)) * weight (more.take k).length := by
          rw [hlength]
          exact Nat.mul_le_mul_right _ (by omega)
      _ ≤ codePoint (64 * leadBits (k + 1) b + (second.toNat - 0x80)) (more.take k) :=
          mul_weight_le_codePoint _ _
      _ = codePoint (leadBits (k + 1) b) ((second :: more).take (k + 1)) := by
          rw [List.take_succ_cons, codePoint, codePoint, List.foldl_cons]

/-- A number that belongs to no character stands for the null. -/
theorem toNat_ofNat {n : Nat} (h : 0 < (Char.ofNat n).toNat) : (Char.ofNat n).toNat = n := by
  unfold Char.ofNat at h ⊢
  by_cases hvalid : n.isValidChar
  · rw [dif_pos hvalid]
    rfl
  · rw [dif_neg hvalid] at h
    exact absurd h (by decide)

/-- A character of ASCII other than the null is read from its byte alone. -/
theorem toNat_of_first {b : UInt8} {rest : Text} {c : Char} (hc : 0 < c.toNat ∧ c.toNat < 128)
    (h : (first b rest).1 = .char c) : b.toNat = c.toNat := by
  unfold first at h
  split at h
  · obtain rfl := Rune.char.inj h
    exact (toNat_ofNat hc.1).symm
  · split at h
    · cases h
    · next n low high hleading =>
      split at h
      · cases h
      · next second more =>
        dsimp only at h
        split at h
        · next hbytes =>
          obtain rfl := Rune.char.inj h
          simp only [Bool.and_eq_true, decide_eq_true_eq] at hbytes
          obtain ⟨⟨⟨hlength, hlow⟩, -⟩, -⟩ := hbytes
          -- several bytes make a character above 127, as shorter forms are refused
          have hlarge := le_codePoint_of_leading hleading hlow hlength
          rw [← toNat_ofNat hc.1] at hlarge
          omega
        · cases h

end Rune

namespace Text

/-- A character of ASCII other than the null is read only where its byte stands. -/
theorem mem_of_mem_runes {c : Char} (hc : 0 < c.toNat ∧ c.toNat < 128) {t : Text}
    (h : Rune.char c ∈ t.runes) : UInt8.ofNat c.toNat ∈ t := by
  induction t using runes.induct with
  | case1 =>
    rw [runes] at h
    cases h
  | case2 b rest ih =>
    rw [runes] at h
    rcases List.mem_cons.mp h with hfirst | hrest
    · rw [← Rune.toNat_of_first hc hfirst.symm, UInt8.ofNat_toNat]
      exact List.mem_cons_self
    · exact List.mem_cons_of_mem _ (List.mem_of_mem_drop (ih hrest))

/-! ### Small forms -/

/-- No capital letter has the point as its small form. -/
theorem toNat_of_lowerChar {c : Char} (h : (lowerChar c).toNat = 46) : c.toNat = 46 := by
  unfold lowerChar at h
  split at h
  · next n hn =>
    -- none of the small letters in the list is a point
    have hforms : ∀ f ∈ smallForms, (Char.ofNat f.2).toNat ≠ 46 := by decide
    obtain ⟨before, after, happend, -⟩ := List.lookup_eq_some_iff.mp hn
    refine absurd h (hforms (c.toNat, n) ?_)
    rw [happend]
    exact List.mem_append_right _ List.mem_cons_self
  · unfold Char.toLower at h
    split at h
    · -- the small letters come after the point
      next hcapital =>
      have hlow : 65 ≤ c.val.toNat := UInt32.le_iff_toNat_le.mp hcapital.1
      have hhigh : c.val.toNat ≤ 90 := UInt32.le_iff_toNat_le.mp hcapital.2
      have hsum : (c.val + 32).toNat = 46 := h
      rw [UInt32.toNat_add, Nat.mod_eq_of_lt (by change _ + 32 < 2 ^ 32; omega)] at hsum
      change _ + 32 = 46 at hsum
      omega
    · exact h

/-- A text without a point has a small form without one. -/
theorem dot_notMem_lower {t : Text} (h : (46 : UInt8) ∉ t) : (46 : UInt8) ∉ t.lower := by
  intro hmem
  obtain ⟨r, hr, hb⟩ := List.mem_flatMap.mp hmem
  cases r with
  | stray b =>
    change (46 : UInt8) ∈ ofChar replacement at hb
    exact absurd hb (by decide)
  | char c =>
    have hdot : c.toNat = 46 := toNat_of_lowerChar (toNat_of_mem_ofChar (by decide) hb)
    have hbyte := mem_of_mem_runes (by omega) hr
    rw [hdot] at hbyte
    exact h hbyte

end Text
end Slang
