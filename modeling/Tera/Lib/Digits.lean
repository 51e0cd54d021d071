import Mathlib
import Tera.Lib.ByteOrder

/-! # Big-endian numbers in base 256: sum and half

Two byte strings of one length are added digit by digit from the last, with a carry into each
digit; a digit string is halved from the first digit, the remainder of each digit passed down to
the next. The digits of a sum or a half are kept as natural numbers, as the unsigned arrays of a
program keep them, and `digitsValue` reads the number they spell. Byte strings of one length
compare as the numbers they spell, and trailing zero bytes scale a number by a power of 256.
Nothing here names a particular program.
-/

namespace Tera.Lib

/-- The number a big-endian digit string spells in base 256. -/
def digitsValue : List Nat → Nat
  | [] => 0
  | digit :: rest => digit * 256 ^ rest.length + digitsValue rest

/-- The sum of two byte strings from the last byte to the first: the digits of the sum and the
carry out of the first digit. -/
def addDigits : List UInt8 → List UInt8 → List Nat × Nat
  | left :: lefts, right :: rights =>
    let rest := addDigits lefts rights
    let total := left.toNat + right.toNat + rest.2
    (total % 256 :: rest.1, total / 256)
  | _, _ => ([], 0)

/-- Half of `carry * 256 ^ n` plus the number of the `n` digits, from the first digit to the last;
the last remainder is dropped. -/
def halveDigits (carry : Nat) : List Nat → List Nat
  | [] => []
  | digit :: rest =>
    let value := digit + carry * 256
    value / 2 :: halveDigits (value % 2) rest

/-- The bytes of half the sum of two byte strings of one length, the carry out of the sum kept. -/
def halfSum (left right : List UInt8) : List UInt8 :=
  let sum := addDigits left right
  (halveDigits sum.2 sum.1).map UInt8.ofNat

/-! ## Reading byte strings as numbers -/

private theorem foldl_decode (bytes : List UInt8) (acc : Nat) :
    bytes.foldl (fun acc byte => acc * 256 + byte.toNat) acc =
      acc * 256 ^ bytes.length + bytes.foldl (fun acc byte => acc * 256 + byte.toNat) 0 := by
  induction bytes generalizing acc with
  | nil => simp
  | cons byte rest ih =>
    rw [List.foldl_cons, List.foldl_cons, ih (acc * 256 + byte.toNat), ih (0 * 256 + byte.toNat),
      List.length_cons, Nat.pow_succ, Nat.add_mul, Nat.add_mul, Nat.mul_assoc, Nat.mul_comm 256]
    omega

theorem decodeBigEndian_cons (byte : UInt8) (rest : List UInt8) :
    decodeBigEndian (byte :: rest) = byte.toNat * 256 ^ rest.length + decodeBigEndian rest := by
  rw [decodeBigEndian, List.foldl_cons, foldl_decode]
  simp [decodeBigEndian]

theorem decodeBigEndian_append_zeros (bytes : List UInt8) (count : Nat) :
    decodeBigEndian (bytes ++ List.replicate count 0) = decodeBigEndian bytes * 256 ^ count := by
  induction count with
  | zero => simp
  | succ count ih =>
    rw [List.replicate_succ', ← List.append_assoc, decodeBigEndian_append_single, ih]
    simp [Nat.pow_succ, Nat.mul_assoc]

/-- Digits below 256 spell, as bytes, the number they spell as digits. -/
theorem decodeBigEndian_map_ofNat {digits : List Nat} (small : ∀ digit ∈ digits, digit < 256) :
    decodeBigEndian (digits.map UInt8.ofNat) = digitsValue digits := by
  induction digits with
  | nil => rfl
  | cons digit rest ih =>
    have byte : (UInt8.ofNat digit).toNat = digit := by
      simpa using Nat.mod_eq_of_lt (small digit (List.mem_cons_self ..))
    rw [List.map_cons, decodeBigEndian_cons, byte, List.length_map,
      ih fun other member => small other (List.mem_cons_of_mem _ member), digitsValue]

/-- Two-digit numbers compare by their high digits first. -/
theorem mul_add_lt_mul_add_iff {base low otherLow : Nat} (lowBound : low < base)
    (otherBound : otherLow < base) (high otherHigh : Nat) :
    high * base + low < otherHigh * base + otherLow ↔
      high < otherHigh ∨ high = otherHigh ∧ low < otherLow := by
  rcases Nat.lt_trichotomy high otherHigh with below | same | above
  · have step : (high + 1) * base ≤ otherHigh * base := Nat.mul_le_mul_right base below
    simp only [below, true_or, iff_true]
    rw [Nat.succ_mul] at step
    omega
  · subst same
    simp
  · have step : (otherHigh + 1) * base ≤ high * base := Nat.mul_le_mul_right base above
    rw [Nat.succ_mul] at step
    simp only [Nat.lt_asymm above, false_or, Nat.ne_of_gt above, false_and, iff_false]
    omega

/-- Byte strings of one length are ordered as the numbers they spell. -/
theorem lt_iff_decodeBigEndian_lt {left right : List UInt8} (same : left.length = right.length) :
    left < right ↔ decodeBigEndian left < decodeBigEndian right := by
  induction left generalizing right with
  | nil =>
    cases right with
    | nil => simp [decodeBigEndian]
    | cons _ _ => simp at same
  | cons head rest ih =>
    cases right with
    | nil => simp at same
    | cons other others =>
      simp only [List.length_cons, Nat.add_right_cancel_iff] at same
      have restBound := decodeBigEndian_lt rest
      have othersBound := decodeBigEndian_lt others
      rw [← same] at othersBound
      rw [List.cons_lt_cons_iff, ih same, decodeBigEndian_cons, decodeBigEndian_cons, ← same,
        mul_add_lt_mul_add_iff restBound othersBound, UInt8.lt_iff_toNat_lt, UInt8.toNat_inj]

/-! ## Sum and half -/

theorem length_addDigits {left right : List UInt8} (same : left.length = right.length) :
    (addDigits left right).1.length = left.length := by
  induction left generalizing right with
  | nil => rfl
  | cons head rest ih =>
    cases right with
    | nil => simp at same
    | cons other others =>
      simp only [List.length_cons, Nat.add_right_cancel_iff] at same
      simp [addDigits, ih same]

theorem addDigits_carry_le (left right : List UInt8) : (addDigits left right).2 ≤ 1 := by
  induction left generalizing right with
  | nil => simp [addDigits]
  | cons head rest ih =>
    cases right with
    | nil => simp [addDigits]
    | cons other others =>
      have carry := ih others
      have headBound := head.toNat_lt
      have otherBound := other.toNat_lt
      simp only [addDigits]
      omega

theorem addDigits_digit_lt (left right : List UInt8) :
    ∀ digit ∈ (addDigits left right).1, digit < 256 := by
  induction left generalizing right with
  | nil => simp [addDigits]
  | cons head rest ih =>
    cases right with
    | nil => simp [addDigits]
    | cons other others =>
      simp only [addDigits, List.mem_cons, forall_eq_or_imp]
      exact ⟨Nat.mod_lt _ (by decide), ih others⟩

/-- The digits of the sum, with the carry out of the first one, spell the sum of the numbers. -/
theorem addDigits_value {left right : List UInt8} (same : left.length = right.length) :
    (addDigits left right).2 * 256 ^ left.length + digitsValue (addDigits left right).1 =
      decodeBigEndian left + decodeBigEndian right := by
  induction left generalizing right with
  | nil =>
    cases right with
    | nil => rfl
    | cons _ _ => simp at same
  | cons head rest ih =>
    cases right with
    | nil => simp at same
    | cons other others =>
      simp only [List.length_cons, Nat.add_right_cancel_iff] at same
      have tail := ih same
      have total := Nat.div_add_mod' (head.toNat + other.toNat + (addDigits rest others).2) 256
      simp only [addDigits, digitsValue, decodeBigEndian_cons, length_addDigits same, ← same,
        List.length_cons, Nat.pow_succ]
      -- the carry out and the digit put back together are the digit's whole sum
      rw [Nat.mul_comm (256 ^ rest.length) 256, ← Nat.mul_assoc, ← Nat.add_assoc, ← Nat.add_mul,
        total, Nat.add_mul, Nat.add_mul]
      omega

theorem length_halveDigits (carry : Nat) (digits : List Nat) :
    (halveDigits carry digits).length = digits.length := by
  induction digits generalizing carry with
  | nil => rfl
  | cons digit rest ih => simp [halveDigits, ih]

theorem halveDigits_digit_lt {carry : Nat} (carryBound : carry ≤ 1) {digits : List Nat}
    (small : ∀ digit ∈ digits, digit < 256) : ∀ digit ∈ halveDigits carry digits, digit < 256 := by
  induction digits generalizing carry with
  | nil => simp [halveDigits]
  | cons digit rest ih =>
    simp only [List.mem_cons, forall_eq_or_imp] at small
    simp only [halveDigits, List.mem_cons, forall_eq_or_imp]
    exact ⟨by omega, ih (Nat.le_of_lt_succ (Nat.mod_lt _ (by decide))) small.2⟩

/-- The digits of the half spell half the number, a carry in of at most one counted above the
first digit. -/
theorem halveDigits_value {carry : Nat} (carryBound : carry ≤ 1) (digits : List Nat) :
    digitsValue (halveDigits carry digits) = (carry * 256 ^ digits.length + digitsValue digits) / 2 := by
  induction digits generalizing carry with
  | nil => simp [halveDigits, digitsValue]; omega
  | cons digit rest ih =>
    simp only [halveDigits, digitsValue, ih (Nat.le_of_lt_succ (Nat.mod_lt _ (by decide))),
      length_halveDigits, List.length_cons]
    have halves := Nat.div_add_mod (digit + carry * 256) 2
    have whole : carry * 256 ^ (rest.length + 1) + (digit * 256 ^ rest.length + digitsValue rest) =
        2 * ((digit + carry * 256) / 2 * 256 ^ rest.length) +
          ((digit + carry * 256) % 2 * 256 ^ rest.length + digitsValue rest) :=
      calc _ = (digit + carry * 256) * 256 ^ rest.length + digitsValue rest := by ring
        _ = (2 * ((digit + carry * 256) / 2) + (digit + carry * 256) % 2) * 256 ^ rest.length +
            digitsValue rest := by rw [halves]
        _ = _ := by ring
    rw [whole, Nat.mul_add_div (by decide)]

/-! ## Padding -/

/-- A byte string is the encoding, at its own length, of the number it spells. -/
theorem encodeBigEndian_decodeBigEndian (bytes : List UInt8) :
    encodeBigEndian bytes.length (decodeBigEndian bytes) = bytes := by
  induction bytes using List.reverseRecOn with
  | nil => rfl
  | append_singleton front byte ih =>
    have low : (decodeBigEndian front * 256 + byte.toNat) % 256 = byte.toNat := by
      have := byte.toNat_lt; omega
    have high : (decodeBigEndian front * 256 + byte.toNat) / 256 = decodeBigEndian front := by
      have := byte.toNat_lt; omega
    rw [List.length_append, List.length_singleton, encodeBigEndian, decodeBigEndian_append_single,
      high, low, ih, UInt8.ofNat_toNat]

/-- A string of zero bytes is the least of its length. -/
theorem replicate_zero_le {bytes : List UInt8} : List.replicate bytes.length 0 ≤ bytes := by
  induction bytes with
  | nil => exact List.le_refl _
  | cons byte rest ih =>
    rw [List.length_cons, List.replicate_succ, List.cons_le_cons_iff]
    rcases Nat.eq_zero_or_pos byte.toNat with zero | pos
    · exact .inr ⟨UInt8.toNat_inj.mp (by simpa using zero.symm), ih⟩
    · exact .inl (UInt8.lt_iff_toNat_lt.mpr (by simpa using pos))

/-- Padding two ordered strings with zero bytes to one length keeps them ordered, ties allowed. -/
theorem append_zeros_le_of_lt {left right : List UInt8} (below : left < right) {count other : Nat}
    (same : (left ++ List.replicate count 0).length = (right ++ List.replicate other 0).length) :
    left ++ List.replicate count 0 ≤ right ++ List.replicate other 0 := by
  induction left generalizing right with
  | nil =>
    simp only [List.nil_append, List.length_replicate] at same ⊢
    rw [same]
    exact replicate_zero_le
  | cons head rest ih =>
    cases right with
    | nil => exact absurd below (List.not_lt_nil _)
    | cons other' others =>
      simp only [List.cons_append, List.length_cons, Nat.add_right_cancel_iff] at same ⊢
      rcases List.cons_lt_cons_iff.mp below with lower | ⟨rfl, tail⟩
      · exact List.le_of_lt (List.cons_lt_cons_iff.mpr (.inl lower))
      · exact List.cons_le_cons_iff.mpr (.inr ⟨rfl, ih tail same⟩)

/-- A string below another padded with zero bytes to its own length is below the unpadded one. -/
theorem lt_of_lt_append_zeros {key bound : List UInt8} {count : Nat}
    (same : key.length = (bound ++ List.replicate count 0).length)
    (below : key < bound ++ List.replicate count 0) : key < bound := by
  induction bound generalizing key with
  | nil =>
    simp only [List.nil_append, List.length_replicate] at same below
    exact absurd below (Std.not_lt.mpr (same ▸ replicate_zero_le))
  | cons head rest ih =>
    cases key with
    | nil => exact List.nil_lt_cons _ _
    | cons byte bytes =>
      simp only [List.cons_append, List.length_cons, Nat.add_right_cancel_iff] at same below
      rcases List.cons_lt_cons_iff.mp below with lower | ⟨rfl, tail⟩
      · exact List.cons_lt_cons_iff.mpr (.inl lower)
      · exact List.cons_lt_cons_iff.mpr (.inr ⟨rfl, ih same tail⟩)

/-- Every string shorter than `count` is below `count` bytes `0xFF`. -/
theorem lt_replicate_255 {key : List UInt8} {count : Nat} (shorter : key.length < count) :
    key < List.replicate count 255 := by
  induction key generalizing count with
  | nil =>
    cases count with
    | zero => simp at shorter
    | succ count => exact List.nil_lt_cons _ _
  | cons byte rest ih =>
    cases count with
    | zero => simp at shorter
    | succ count =>
      rw [List.replicate_succ, List.cons_lt_cons_iff]
      rcases Nat.lt_or_ge byte.toNat 255 with lower | top
      · exact .inl (UInt8.lt_iff_toNat_lt.mpr (by simpa using lower))
      · have full : byte = 255 := UInt8.toNat_inj.mp (by have := byte.toNat_lt; simp; omega)
        exact .inr ⟨full, ih (by simpa using shorter)⟩

/-! ## Half the sum -/

section HalfSum

variable {left right : List UInt8} (same : left.length = right.length)
include same

theorem length_halfSum : (halfSum left right).length = left.length := by
  simp [halfSum, length_halveDigits, length_addDigits same]

/-- Half the sum spells half the sum of the two numbers. -/
theorem decodeBigEndian_halfSum :
    decodeBigEndian (halfSum left right) = (decodeBigEndian left + decodeBigEndian right) / 2 := by
  have small := halveDigits_digit_lt (addDigits_carry_le left right) (addDigits_digit_lt left right)
  rw [halfSum, decodeBigEndian_map_ofNat small, halveDigits_value (addDigits_carry_le left right),
    length_addDigits same, addDigits_value same]

theorem halfSum_eq_encodeBigEndian :
    halfSum left right =
      encodeBigEndian left.length ((decodeBigEndian left + decodeBigEndian right) / 2) := by
  rw [← decodeBigEndian_halfSum same, ← length_halfSum same, encodeBigEndian_decodeBigEndian]

/-- Half the sum of two numbers at least two apart lies strictly between them. -/
theorem halfSum_between (apart : decodeBigEndian left + 2 ≤ decodeBigEndian right) :
    left < halfSum left right ∧ halfSum left right < right := by
  have leftLength : left.length = (halfSum left right).length := (length_halfSum same).symm
  have rightLength : (halfSum left right).length = right.length := (length_halfSum same).trans same
  rw [lt_iff_decodeBigEndian_lt leftLength, lt_iff_decodeBigEndian_lt rightLength,
    decodeBigEndian_halfSum same]
  omega

end HalfSum

end Tera.Lib
