import Mathlib.Algebra.Group.Nat.Defs
import Slang.Text.Base64
import Slang.Text.Utf8

/-!
# Numerals in escapes, and base 64

Listings write characters that cannot be shown by their numbers in hexadecimal digits, and bytes that are no
characters in base 64. Both are read back: the digits of a number spell that number (`spellsHex_hex`), and
the bytes of digits in base 64 are those that they were made from (`Base64.decode?_encode`).
-/

namespace Slang

/-! ### Hexadecimal numerals -/

namespace Text

/-- The value of a hexadecimal digit, small or capital. -/
def hexValue? (b : UInt8) : Option Nat :=
  if isDigit b then some (b.toNat - 48)
  else if 97 ≤ b && b ≤ 102 then some (b.toNat - 87)
  else if 65 ≤ b && b ≤ 70 then some (b.toNat - 55)
  else none

/-- **Some number of hexadecimal digits spell a number**, from the first digit to the last. -/
inductive SpellsHex : (width : Nat) → Nat → Text → Prop where
  | nil : SpellsHex 0 0 []
  | digit {width n d : Nat} {t : Text} {b : UInt8} (before : SpellsHex width n t)
      (value : hexValue? b = some d) : SpellsHex (width + 1) (16 * n + d) (t ++ [b])

theorem hexValue?_hexDigit (n : Nat) :
    hexValue? (hexDigit n) = some (n % 16) ∧ hexValue? (upperByte (hexDigit n)) = some (n % 16) := by
  have hall : ∀ k : Fin 16, hexValue? (hexDigit k) = some k.val ∧
      hexValue? (upperByte (hexDigit k)) = some k.val := by decide
  have hsame : hexDigit n = hexDigit (n % 16) := by
    unfold hexDigit
    rw [Nat.mod_mod]
  rw [hsame]
  exact hall ⟨n % 16, Nat.mod_lt n (by decide)⟩

/-- **The digits of a number spell it**, if there are enough of them. -/
theorem spellsHex_hex {width n : Nat} (h : n < 16 ^ width) :
    SpellsHex width n (hex width n) ∧ SpellsHex width n ((hex width n).map upperByte) := by
  induction width generalizing n with
  | zero =>
    obtain rfl : n = 0 := by omega
    exact ⟨.nil, .nil⟩
  | succ width ih =>
    have hlt : n / 16 < 16 ^ width := by
      rw [Nat.pow_succ] at h
      omega
    obtain ⟨hsmall, hcapital⟩ := ih hlt
    -- the last digit, behind those of a sixteenth of the number
    obtain ⟨hdigit, hupper⟩ := hexValue?_hexDigit n
    have hlast := SpellsHex.digit hsmall hdigit
    have hlastUpper := SpellsHex.digit hcapital hupper
    rw [Nat.div_add_mod] at hlast hlastUpper
    unfold hex
    rw [List.map_append]
    exact ⟨hlast, hlastUpper⟩

/-! ### Base 64 -/

namespace Base64

theorem digit_mod (n : Nat) : digit (n % 64) = digit n := by
  unfold digit
  rw [Nat.mod_mod]

theorem value?_digit (n : Nat) : value? (digit n) = some (n % 64) := by
  have hall : ∀ k : Fin 64, value? (digit k) = some k.val := by decide +kernel
  rw [← digit_mod]
  exact hall ⟨n % 64, Nat.mod_lt n (by decide)⟩

/-- Digits are characters of ASCII and no line breaks, and none of them is the sign that fills a group up. -/
theorem digit_shown (n : Nat) : digit n < 0x80 ∧ digit n ≠ 10 ∧ digit n ≠ 13 ∧ digit n ≠ 61 := by
  have hall : ∀ k : Fin 64, digit k < 0x80 ∧ digit k ≠ 10 ∧ digit k ≠ 13 ∧ digit k ≠ 61 := by
    decide +kernel
  rw [← digit_mod]
  exact hall ⟨n % 64, Nat.mod_lt n (by decide)⟩

/-- What is true of every digit and of the sign that fills a group up is true of everything that is
written. -/
theorem forall_mem_encode {p : UInt8 → Prop} (hdigit : ∀ n, p (digit n)) (hfill : p 61) (t : Text) :
    ∀ b ∈ encode t, p b := by
  have hgroup : ∀ n k, ∀ b ∈ (group n).take k, p b := by
    intro n k b hb
    have hmem : b ∈ group n := List.mem_of_mem_take hb
    simp only [group, List.mem_cons, List.not_mem_nil, or_false] at hmem
    rcases hmem with rfl | rfl | rfl | rfl <;> exact hdigit _
  have hfilled : ∀ b ∈ ("==" : Text), p b := by
    have htwo : ("==" : Text) = [61, 61] := by decide
    rw [htwo]
    exact List.forall_mem_cons.mpr ⟨hfill, List.forall_mem_singleton.mpr hfill⟩
  -- groups of four digits, and one with one or two signs to fill it
  fun_induction encode t with
  | case1 => exact List.forall_mem_nil _
  | case2 a => exact List.forall_mem_append.mpr ⟨hgroup _ 2, hfilled⟩
  | case3 a b =>
    refine List.forall_mem_append.mpr ⟨hgroup _ 3, fun b hb => hfilled b ?_⟩
    exact List.mem_cons_of_mem 61 hb
  | case4 a b c rest ih => exact List.forall_mem_append.mpr ⟨hgroup _ 4, ih⟩

/-- A group whose last sign is a digit is read with what follows it. -/
theorem groups?_cons {d : UInt8} (hd : d ≠ 61) (a b c : UInt8) (rest : Text) :
    groups? (a :: b :: c :: d :: rest) = do return (← groupBytes? [a, b, c, d]) ++ (← groups? rest) := by
  rw [groups?]
  · intro _ hlast
    exact absurd hlast hd
  · intro hlast
    exact absurd hlast hd

theorem groups?_three {c : UInt8} (hc : c ≠ 61) (a b : UInt8) :
    groups? [a, b, c, 61] = groupBytes? [a, b, c] := by
  rw [groups?]
  intro hlast
  exact absurd hlast hc

/-- A number below 256 is the number of its byte. -/
theorem toUInt8_eq {m : Nat} {b : UInt8} (h : m % 256 = b.toNat) : (m % 256).toUInt8 = b := by
  rw [h]
  exact UInt8.ofNat_toNat

/-- **Groups of digits stand for the bytes that they were made from.** -/
theorem groups?_encode (t : Text) : groups? (encode t) = some t := by
  fun_induction encode t with
  | case1 => rfl
  | case2 a =>
    -- one byte: two digits, and two signs
    have ha := a.toNat_lt
    change groupBytes? [digit (a.toNat * 65536 / 262144), digit (a.toNat * 65536 / 4096)] = some [a]
    simp only [groupBytes?, List.mapM_cons, List.mapM_nil, value?_digit, Option.bind_some, Option.pure_def,
      Option.bind_eq_bind, Option.some.injEq, List.cons.injEq, and_true]
    exact toUInt8_eq (by omega)
  | case3 a b =>
    have ha := a.toNat_lt
    have hb := b.toNat_lt
    change groups? [digit ((a.toNat * 65536 + b.toNat * 256) / 262144),
      digit ((a.toNat * 65536 + b.toNat * 256) / 4096),
      digit ((a.toNat * 65536 + b.toNat * 256) / 64), 61] = some [a, b]
    -- two bytes: three digits, and one sign
    rw [groups?_three (digit_shown _).2.2.2]
    simp only [groupBytes?, List.mapM_cons, List.mapM_nil, value?_digit, Option.bind_some, Option.pure_def,
      Option.bind_eq_bind, Option.some.injEq, List.cons.injEq, and_true]
    exact ⟨toUInt8_eq (by omega), toUInt8_eq (by omega)⟩
  | case4 a b c rest ih =>
    have ha := a.toNat_lt
    have hb := b.toNat_lt
    have hc := c.toNat_lt
    unfold group
    -- three bytes: four digits, and the rest by itself
    rw [List.cons_append, List.cons_append, List.cons_append, List.cons_append, List.nil_append,
      groups?_cons (digit_shown _).2.2.2, ih]
    simp only [groupBytes?, List.mapM_cons, List.mapM_nil, value?_digit, Option.bind_some, Option.pure_def,
      Option.bind_eq_bind, Option.some.injEq, List.cons.injEq, and_true, List.cons_append, List.nil_append]
    exact ⟨toUInt8_eq (by omega), toUInt8_eq (by omega), toUInt8_eq (by omega)⟩

/-- **Bytes in base 64 are read back.** -/
theorem decode?_encode (t : Text) : decode? (encode t) = some t := by
  have hkept : ((encode t).filter fun b => b != 10 && b != 13) = encode t := by
    rw [List.filter_eq_self]
    exact forall_mem_encode (fun n => by simp [(digit_shown n).2.1, (digit_shown n).2.2.1]) (by decide) t
  unfold decode?
  rw [hkept, groups?_encode]

end Base64

end Text
end Slang
