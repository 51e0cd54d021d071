import Mathlib
import Tera.Lib.ByteOrder

/-! # Base-128 varints

A varint stores a number in groups of seven bits, least significant group first; every byte but
the last carries the continuation bit `0x80`. The encoder here writes at most a given number of
bytes, and the decoder reads at most a given number of bytes into a word bounded by a modulus,
OR-ing each payload in at its shift, as a fixed-width decoder does. The round trip holds whenever
the number fits both the encoder's width and the decoder's word. Nothing here names a particular
storage format.
-/

namespace Tera.Lib

/-- The base-128 groups of a number, continuation bit on every byte but the last; at most `width`
bytes are written, so a number that needs more loses its high groups. -/
def encodeVarint : Nat → Nat → List UInt8
  | 0, _ => []
  | width + 1, value =>
    if value < 128 then [UInt8.ofNat value]
    else UInt8.ofNat (value ||| 128) :: encodeVarint width (value >>> 7)

/-- Read a varint of at most `passes` bytes, OR-ing each payload in at `shift` into a word taken
modulo `modulus`; `none` when the input ends first or the last byte read still continues. -/
def decodeVarint (modulus : Nat) : Nat → Nat → Nat → List UInt8 → Option (Nat × List UInt8)
  | 0, _, _, _ => none
  | _ + 1, _, _, [] => none
  | passes + 1, shift, result, byte :: rest =>
    if byte.toNat &&& 128 ≠ 0 then
      decodeVarint modulus passes (shift + 7)
        ((result ||| ((byte.toNat &&& 127) <<< shift)) % modulus) rest
    else some ((result ||| (byte.toNat <<< shift)) % modulus, rest)

/-- The encoder writes at most `width` bytes. -/
theorem length_encodeVarint_le : ∀ (width value : Nat), (encodeVarint width value).length ≤ width
  | 0, _ => le_rfl
  | width + 1, value => by
    unfold encodeVarint
    split_ifs
    · simp
    · simpa using length_encodeVarint_le width (value >>> 7)

/-- With room for one byte the encoder writes at least one. -/
theorem encodeVarint_ne_nil {width : Nat} (room : 0 < width) (value : Nat) :
    encodeVarint width value ≠ [] := by
  obtain ⟨width, rfl⟩ : ∃ fewer, width = fewer + 1 := Nat.exists_eq_add_one.mpr room
  unfold encodeVarint
  split_ifs <;> simp

/-- OR-ing a number in above the bits of a smaller one adds it. -/
theorem or_shiftLeft_of_lt {low shift : Nat} (bound : low < 2 ^ shift) (high : Nat) :
    low ||| (high <<< shift) = low + high * 2 ^ shift := by
  rw [Nat.shiftLeft_eq, Nat.or_comm, mul_two_pow_or_of_lt bound, Nat.add_comm]

/-- The byte of a continued group: its payload and the continuation bit. -/
theorem toNat_continued (value : Nat) : (UInt8.ofNat (value ||| 128)).toNat = value % 128 + 128 := by
  rw [UInt8.toNat_ofNat']
  apply Nat.eq_of_testBit_eq
  intro i
  have asOr : value % 128 + 128 = 2 ^ 7 * 1 + value % 2 ^ 7 := by omega
  rw [asOr, Nat.two_pow_add_eq_or_of_lt (Nat.mod_lt _ (by norm_num))]
  simp only [Nat.testBit_mod_two_pow, Nat.testBit_or, mul_one, Nat.testBit_two_pow,
    show (128 : Nat) = 2 ^ 7 by norm_num]
  -- the payload bits, the continuation bit, and the bits above the byte
  by_cases low : i < 7
  · simp [low, show i < 8 by omega, show 7 ≠ i by omega]
  · by_cases seven : i = 7
    · subst seven
      simp
    · simp [low, show ¬ i < 8 by omega, Ne.symm seven]

theorem continued_and_128 (value : Nat) : (value % 128 + 128) &&& 128 = 128 := by
  have asOr : value % 128 + 128 = 2 ^ 7 * 1 + value % 2 ^ 7 := by omega
  rw [asOr, Nat.two_pow_add_eq_or_of_lt (Nat.mod_lt _ (by norm_num))]
  apply Nat.eq_of_testBit_eq
  intro i
  simp only [Nat.testBit_and, Nat.testBit_or, mul_one, show (128 : Nat) = 2 ^ 7 by norm_num,
    Nat.testBit_two_pow, Nat.testBit_mod_two_pow]
  by_cases seven : i = 7
  · subst seven
    simp
  · simp [Ne.symm seven]

theorem continued_and_127 (value : Nat) : (value % 128 + 128) &&& 127 = value % 128 := by
  rw [show (127 : Nat) = 2 ^ 7 - 1 by norm_num, Nat.and_two_pow_sub_one_eq_mod]
  omega

theorem last_and_128 {value : Nat} (small : value < 128) : value &&& 128 = 0 := by
  apply Nat.eq_of_testBit_eq
  intro i
  simp only [Nat.testBit_and, Nat.zero_testBit, show (128 : Nat) = 2 ^ 7 by norm_num,
    Nat.testBit_two_pow]
  by_cases seven : i = 7
  · subst seven
    simp [Nat.testBit_lt_two_pow (show value < 2 ^ 7 by omega)]
  · simp [Ne.symm seven]

/-- Splitting off the low group of a number, as the encoder does. -/
theorem mul_two_pow_split (value shift : Nat) :
    value * 2 ^ shift = value % 128 * 2 ^ shift + (value >>> 7) * 2 ^ (shift + 7) := by
  rw [Nat.shiftRight_eq_div_pow, show (128 : Nat) = 2 ^ 7 by decide]
  have whole := Nat.mod_add_div value (2 ^ 7)
  calc value * 2 ^ shift = (value % 2 ^ 7 + 2 ^ 7 * (value / 2 ^ 7)) * 2 ^ shift := by rw [whole]
    _ = value % 2 ^ 7 * 2 ^ shift + value / 2 ^ 7 * 2 ^ (shift + 7) := by ring

/-- Round trip: a number that fits `width` groups, read with at least as many passes into a word
it fits, decodes to itself and leaves the bytes after it. -/
theorem decodeVarint_encodeVarint (modulus : Nat) :
    ∀ (width passes shift result value : Nat) (rest : List UInt8), 0 < width →
      width ≤ passes → value < 2 ^ (7 * width) → result < 2 ^ shift →
      result + value * 2 ^ shift < modulus →
      decodeVarint modulus passes shift result (encodeVarint width value ++ rest) =
        some (result + value * 2 ^ shift, rest) := by
  intro width
  induction width with
  | zero => intro _ _ _ _ _ positive; omega
  | succ width ih =>
    intro passes shift result value rest _ enough fits below word
    obtain ⟨passes, rfl⟩ : ∃ fewer, passes = fewer + 1 := Nat.exists_eq_add_one.mpr (by omega)
    by_cases small : value < 128
    · -- the last group
      have byte : (UInt8.ofNat value).toNat = value := by
        rw [UInt8.toNat_ofNat']
        omega
      simp only [encodeVarint, if_pos small, List.singleton_append, decodeVarint, byte,
        last_and_128 small, ne_eq, not_true_eq_false, if_false, or_shiftLeft_of_lt below,
        Nat.mod_eq_of_lt word]
    · -- a continued group: the rest of the number is read from the next shift on
      have more : 0 < width := Nat.pos_of_ne_zero (by rintro rfl; omega)
      have split := mul_two_pow_split value shift
      have payload : value % 128 * 2 ^ shift ≤ 127 * 2 ^ shift :=
        Nat.mul_le_mul_right _ (by omega)
      have step : (result ||| ((value % 128) <<< shift)) % modulus =
          result + value % 128 * 2 ^ shift := by
        rw [or_shiftLeft_of_lt below, Nat.mod_eq_of_lt (by omega)]
      have high : value >>> 7 < 2 ^ (7 * width) := by
        rw [Nat.shiftRight_eq_div_pow, Nat.div_lt_iff_lt_mul (by norm_num), ← Nat.pow_add]
        rwa [Nat.mul_succ] at fits
      have grown : result + value % 128 * 2 ^ shift < 2 ^ (shift + 7) := by
        rw [Nat.pow_add]
        omega
      simp only [encodeVarint, if_neg small, List.cons_append, decodeVarint, toNat_continued,
        continued_and_128, continued_and_127, ne_eq, OfNat.ofNat_ne_zero, not_false_eq_true,
        if_true, step]
      rw [ih passes (shift + 7) _ (value >>> 7) rest more (by omega) high grown (by omega)]
      rw [split, Nat.add_assoc]

/-- The decoder only moves forward over its input. -/
theorem decodeVarint_suffix {modulus passes shift result value : Nat} {input rest : List UInt8}
    (read : decodeVarint modulus passes shift result input = some (value, rest)) : rest <:+ input := by
  induction passes generalizing shift result input with
  | zero => simp [decodeVarint] at read
  | succ passes ih =>
    cases input with
    | nil => simp [decodeVarint] at read
    | cons byte more =>
      simp only [decodeVarint] at read
      split_ifs at read
      · exact (ih read).trans (List.suffix_cons byte more)
      · simp only [Option.some.injEq, Prod.mk.injEq] at read
        rw [← read.2]
        exact List.suffix_cons byte more

end Tera.Lib
