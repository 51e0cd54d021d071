import Mathlib

/-! # Unsigned byte strings, their order and fixed-width big-endian words

Byte strings are lists of `UInt8`, compared lexicographically with a proper prefix first; this is
the order of a `memcmp` over the shared length followed by a length comparison. A fixed-width
big-endian word keeps the order of the numbers it encodes, which is what lets a storage format
compare packed integers as raw bytes. Nothing here names a particular storage format.
-/

namespace Tera.Lib

/-- Big-endian encoding of `value` modulo `256 ^ width`, most significant byte first. -/
def encodeBigEndian : Nat → Nat → List UInt8
  | 0, _ => []
  | width + 1, value => encodeBigEndian width (value / 256) ++ [UInt8.ofNat (value % 256)]

/-- Read a big-endian number from all the given bytes. -/
def decodeBigEndian (bytes : List UInt8) : Nat :=
  bytes.foldl (fun acc byte => acc * 256 + byte.toNat) 0

/-- A byte range `[offset, offset + length)` of a buffer, clipped to the buffer's end. -/
def slice (data : List UInt8) (offset length : Nat) : List UInt8 :=
  (data.drop offset).take length

@[simp] theorem length_encodeBigEndian (width value : Nat) :
    (encodeBigEndian width value).length = width := by
  induction width generalizing value with
  | zero => rfl
  | succ width ih => simp [encodeBigEndian, ih]

theorem decodeBigEndian_append_single (bytes : List UInt8) (byte : UInt8) :
    decodeBigEndian (bytes ++ [byte]) = decodeBigEndian bytes * 256 + byte.toNat := by
  simp [decodeBigEndian, List.foldl_append]

/-- Decoding a width-`w` encoding recovers the value modulo `256 ^ w`. -/
theorem decodeBigEndian_encodeBigEndian (width value : Nat) :
    decodeBigEndian (encodeBigEndian width value) = value % 256 ^ width := by
  induction width generalizing value with
  | zero => simp [encodeBigEndian, decodeBigEndian, Nat.mod_one]
  | succ width ih =>
    have lowDigit : (UInt8.ofNat (value % 256)).toNat = value % 256 := by simp
    have digits : value % (256 * 256 ^ width) = value % 256 + 256 * (value / 256 % 256 ^ width) :=
      Nat.mod_mul
    rw [encodeBigEndian, decodeBigEndian_append_single, ih, lowDigit, Nat.pow_succ,
      Nat.mul_comm (256 ^ width) 256, digits]
    omega

/-- A big-endian number read from `n` bytes is below `256 ^ n`. -/
theorem decodeBigEndian_lt (bytes : List UInt8) : decodeBigEndian bytes < 256 ^ bytes.length := by
  induction bytes using List.reverseRecOn with
  | nil => simp [decodeBigEndian]
  | append_singleton front byte ih =>
    have digit : byte.toNat < 256 := byte.toNat_lt
    have scaled : (decodeBigEndian front + 1) * 256 ≤ 256 ^ front.length * 256 :=
      Nat.mul_le_mul_right 256 ih
    rw [decodeBigEndian_append_single, List.length_append, List.length_singleton, Nat.pow_succ]
    omega

/-- Only the value modulo `256 ^ width` reaches the encoding. -/
theorem encodeBigEndian_mod (width value : Nat) :
    encodeBigEndian width (value % 256 ^ width) = encodeBigEndian width value := by
  induction width generalizing value with
  | zero => rfl
  | succ width ih =>
    have high : value % 256 ^ (width + 1) / 256 = value / 256 % 256 ^ width := by
      rw [Nat.pow_succ, Nat.mod_mul_left_div_self]
    have low : value % 256 ^ (width + 1) % 256 = value % 256 := by
      rw [Nat.pow_succ, Nat.mod_mul_left_mod]
    rw [encodeBigEndian, encodeBigEndian, high, low, ih]

/-- Little-endian encoding modulo `256 ^ width`, least significant byte first: the in-memory bytes
of an integer on a little-endian host. -/
def encodeLittleEndian (width value : Nat) : List UInt8 :=
  (encodeBigEndian width value).reverse

/-- Read a little-endian number from all the given bytes. -/
def decodeLittleEndian (bytes : List UInt8) : Nat :=
  decodeBigEndian bytes.reverse

@[simp] theorem length_encodeLittleEndian (width value : Nat) :
    (encodeLittleEndian width value).length = width := by
  simp [encodeLittleEndian]

theorem encodeLittleEndian_mod (width value : Nat) :
    encodeLittleEndian width (value % 256 ^ width) = encodeLittleEndian width value := by
  rw [encodeLittleEndian, encodeLittleEndian, encodeBigEndian_mod]

theorem decodeLittleEndian_lt (bytes : List UInt8) : decodeLittleEndian bytes < 256 ^ bytes.length := by
  simpa [decodeLittleEndian] using decodeBigEndian_lt bytes.reverse

theorem decodeLittleEndian_encodeLittleEndian (width value : Nat) :
    decodeLittleEndian (encodeLittleEndian width value) = value % 256 ^ width := by
  rw [decodeLittleEndian, encodeLittleEndian, List.reverse_reverse, decodeBigEndian_encodeBigEndian]

/-- The bytes sitting right behind a front part of known length. -/
theorem slice_append_of_length {front middle back : List UInt8} {offset : Nat}
    (position : front.length = offset) :
    slice (front ++ (middle ++ back)) offset middle.length = middle := by
  rw [slice, List.drop_left' position, List.take_left' rfl]

/-- A low field below `2 ^ width` and a high field shifted above it do not overlap. -/
theorem mul_two_pow_or_of_lt {low width : Nat} (bound : low < 2 ^ width) (high : Nat) :
    high * 2 ^ width ||| low = high * 2 ^ width + low := by
  rw [Nat.mul_comm, Nat.two_pow_add_eq_or_of_lt bound]

/-- Byte order on `UInt8` is the order of the unsigned values. -/
theorem compare_toNat (left right : UInt8) :
    compare left right = compare left.toNat right.toNat := by
  simp only [compare, compareOfLessAndEq, UInt8.lt_iff_toNat_lt, UInt8.toNat_inj]

/-- Two lists of equal length compare as their first parts, ties broken by what follows. -/
theorem compare_append_of_length_eq {α : Type} [Ord α] {left right : List α}
    (same : left.length = right.length) (leftTail rightTail : List α) :
    compare (left ++ leftTail) (right ++ rightTail) =
      (compare left right).then (compare leftTail rightTail) := by
  induction left generalizing right with
  | nil =>
    cases right with
    | nil => simp
    | cons _ _ => simp at same
  | cons head rest ih =>
    cases right with
    | nil => simp at same
    | cons other others =>
      simp only [List.cons_append, List.compare_cons_cons, List.length_cons] at same ⊢
      rw [ih (by omega), Ordering.then_assoc]

/-- Comparing the high digits, then the low base-256 digit, compares the numbers. -/
theorem compare_then_mod (left right : Nat) :
    (compare (left / 256) (right / 256)).then (compare (left % 256) (right % 256)) =
      compare left right := by
  rcases Nat.lt_trichotomy (left / 256) (right / 256) with lower | same | higher
  · have whole : compare left right = .lt := Nat.compare_eq_lt.mpr (by omega)
    rw [whole, Nat.compare_eq_lt.mpr lower]
    rfl
  · rw [same, Nat.compare_eq_eq.mpr rfl, Ordering.eq_then]
    rcases Nat.lt_trichotomy (left % 256) (right % 256) with below | equal | above
    · rw [Nat.compare_eq_lt.mpr below, Nat.compare_eq_lt.mpr (by omega)]
    · rw [Nat.compare_eq_eq.mpr equal, Nat.compare_eq_eq.mpr (by omega)]
    · rw [Nat.compare_eq_gt.mpr above, Nat.compare_eq_gt.mpr (by omega)]
  · have whole : compare left right = .gt := Nat.compare_eq_gt.mpr (by omega)
    rw [whole, Nat.compare_eq_gt.mpr higher]
    rfl

/-- Fixed-width big-endian encoding is an order embedding of the values below `256 ^ width`. -/
theorem compare_encodeBigEndian (width left right : Nat) (leftBound : left < 256 ^ width)
    (rightBound : right < 256 ^ width) :
    compare (encodeBigEndian width left) (encodeBigEndian width right) = compare left right := by
  induction width generalizing left right with
  | zero =>
    have leftZero : left = 0 := by simpa using leftBound
    have rightZero : right = 0 := by simpa using rightBound
    subst leftZero rightZero
    rfl
  | succ width ih =>
    rw [Nat.pow_succ] at leftBound rightBound
    rw [encodeBigEndian, encodeBigEndian, compare_append_of_length_eq (by simp),
      ih _ _ (by omega) (by omega)]
    simp only [List.compare_cons_cons, List.compare_nil_nil, Ordering.then_eq]
    have leftByte : (UInt8.ofNat (left % 256)).toNat = left % 256 := by simp
    have rightByte : (UInt8.ofNat (right % 256)).toNat = right % 256 := by simp
    rw [compare_toNat, leftByte, rightByte, compare_then_mod]

section PrefixRange

/-! Ranges over the `<` of lists: a shared front leaves the comparison to what follows, and the
keys between `front ++ [low]` and `front ++ [high]`, for adjacent `low < high`, are the keys that
start with `front ++ [low]`. -/

variable {α : Type} [LT α] [Std.Asymm (α := α) (· < ·)] [Std.Trichotomous (α := α) (· < ·)]

omit [Std.Trichotomous (α := α) (· < ·)] in
theorem append_left_lt_iff (front : List α) {left right : List α} :
    front ++ left < front ++ right ↔ left < right := by
  induction front with
  | nil => rfl
  | cons head rest ih =>
    simp only [List.cons_append, List.cons_lt_cons_iff, ih]
    constructor
    · rintro (lower | ⟨-, below⟩)
      · exact absurd lower (Std.Asymm.asymm _ _ lower)
      · exact below
    · exact fun below => .inr ⟨trivial, below⟩

omit [Std.Trichotomous (α := α) (· < ·)] in
theorem append_left_le_iff (front : List α) {left right : List α} :
    front ++ left ≤ front ++ right ↔ left ≤ right :=
  not_congr (append_left_lt_iff front)

/-- With nothing strictly between `low` and `high`, the half-open range from `front ++ [low]` to
`front ++ [high]` holds exactly the lists that start with `front ++ [low]`. -/
theorem prefixRange_iff {low high : α} (below : low < high)
    (adjacent : ∀ a, ¬ (low < a ∧ a < high)) (front key : List α) :
    front ++ [low] ≤ key ∧ key < front ++ [high] ↔ front ++ [low] <+: key := by
  induction front generalizing key with
  | nil =>
    cases key with
    | nil => simp [List.le_iff_lt_or_eq]
    | cons head rest =>
      simp only [List.nil_append, List.cons_le_cons_iff, List.cons_lt_cons_iff,
        List.cons_prefix_cons, List.nil_le, List.not_lt_nil, List.nil_prefix, and_true, and_false,
        or_false]
      constructor
      · rintro ⟨lower | same, upper⟩
        · exact absurd ⟨lower, upper⟩ (adjacent head)
        · exact same
      · rintro rfl
        exact ⟨.inr rfl, below⟩
  | cons first front ih =>
    cases key with
    | nil => simp [List.le_iff_lt_or_eq]
    | cons head rest =>
      -- the heads must agree: a smaller head is below the range, a larger one above it
      simp only [List.cons_append, List.cons_le_cons_iff, List.cons_lt_cons_iff,
        List.cons_prefix_cons, ← ih]
      constructor
      · rintro ⟨lower | ⟨same, atLeast⟩, upper | ⟨same', atMost⟩⟩
        · exact absurd upper (Std.Asymm.asymm _ _ lower)
        · subst same'
          exact absurd lower (Std.Asymm.asymm _ _ lower)
        · subst same
          exact absurd upper (Std.Asymm.asymm _ _ upper)
        · exact ⟨same, atLeast, atMost⟩
      · rintro ⟨rfl, atLeast, atMost⟩
        exact ⟨.inr ⟨rfl, atLeast⟩, .inr ⟨rfl, atMost⟩⟩

end PrefixRange

/-! ## Comparing byte strings, and the NUL byte

`compare` on byte strings decides their order. The NUL byte is the least byte: `row ++ [0]` is the
least string above `row`, and a NUL with anything behind it, put after a string below a string
without NUL, stays below that string. -/

/-- A comparison decided after a tie on a first part that cannot be `.gt` is `.gt` exactly when
the first part is. -/
theorem then_eq_gt_iff_of_ne_gt (first : Ordering) {rest : Ordering} (notAbove : rest ≠ .gt) :
    first.then rest = .gt ↔ first = .gt := by
  simp only [Ordering.then_eq_gt, notAbove, and_false, or_false]

theorem then_ne_gt {first rest : Ordering} (firstNotAbove : first ≠ .gt) (restNotAbove : rest ≠ .gt) :
    first.then rest ≠ .gt := by
  rw [Ne, then_eq_gt_iff_of_ne_gt first restNotAbove]
  exact firstNotAbove

/-- `compare` on byte strings is their lexicographic order. -/
theorem compare_eq_lt_iff : ∀ {left right : List UInt8}, compare left right = .lt ↔ left < right
  | [], [] => by simp
  | [], _ :: _ => by simp [List.compare_nil_cons, List.nil_lt_cons]
  | _ :: _, [] => by simp [List.compare_cons_nil, List.not_lt_nil]
  | byte :: left, other :: right => by
    rw [List.compare_cons_cons, Ordering.then_eq_lt, List.cons_lt_cons_iff, compare_eq_lt_iff,
      Std.compare_eq_lt, Std.compare_eq_iff_eq]

theorem compare_eq_gt_iff {left right : List UInt8} : compare left right = .gt ↔ right < left := by
  rw [Std.OrientedCmp.gt_iff_lt, compare_eq_lt_iff]

theorem compare_ne_gt_iff {left right : List UInt8} : compare left right ≠ .gt ↔ left ≤ right := by
  rw [Ne, compare_eq_gt_iff, Std.not_lt]

/-- `row + '\0'` is above `row`. -/
theorem lt_append_zero (row : List UInt8) : row < row ++ [0] := by
  induction row with
  | nil => exact List.nil_lt_cons _ _
  | cons byte row ih => exact List.cons_lt_cons_iff.mpr (.inr ⟨rfl, ih⟩)

/-- `row + '\0'` is at or below every string above `row`: it is the least string above `row`, and
`[row, row + '\0')` holds `row` alone. -/
theorem append_zero_le_of_lt : ∀ {row key : List UInt8}, row < key → row ++ [0] ≤ key
  | [], [], below => absurd below (List.not_lt_nil _)
  | [], byte :: key, _ => by
    rw [List.nil_append, List.cons_le_cons_iff]
    by_cases zero : byte = 0
    · exact .inr ⟨zero.symm, List.nil_le _⟩
    · exact .inl (UInt8.pos_iff_ne_zero.mpr zero)
  | _ :: _, [], below => absurd below (List.not_lt_nil _)
  | first :: row, byte :: key, below => by
    rw [List.cons_append, List.cons_le_cons_iff]
    rcases List.cons_lt_cons_iff.mp below with smaller | ⟨rfl, rest⟩
    · exact .inl smaller
    · exact .inr ⟨rfl, append_zero_le_of_lt rest⟩

/-- The strings below `row + '\0'` are the strings at or below `row`. -/
theorem lt_append_zero_iff {row key : List UInt8} : key < row ++ [0] ↔ key ≤ row :=
  ⟨fun below => Std.not_lt.mp fun above => Std.not_le.mpr below (append_zero_le_of_lt above),
    fun atMost => Std.lt_of_le_of_lt atMost (lt_append_zero row)⟩

/-- A NUL, and anything behind it, put after a string below a string without NUL leaves it below. -/
theorem append_zero_lt_of_lt (tail : List UInt8) :
    ∀ {front key : List UInt8}, 0 ∉ key → front < key → front ++ 0 :: tail < key
  | _, [], _, below => absurd below (List.not_lt_nil _)
  | [], byte :: _, noNul, _ => by
    rw [List.nil_append, List.cons_lt_cons_iff]
    exact .inl (UInt8.pos_iff_ne_zero.mpr fun zero => noNul (List.mem_cons.mpr (.inl zero.symm)))
  | first :: front, byte :: key, noNul, below => by
    rw [List.cons_append, List.cons_lt_cons_iff]
    rcases List.cons_lt_cons_iff.mp below with smaller | ⟨rfl, rest⟩
    · exact .inl smaller
    · exact .inr ⟨rfl, append_zero_lt_of_lt tail (fun member => noNul (List.mem_cons_of_mem _ member)) rest⟩

end Tera.Lib
