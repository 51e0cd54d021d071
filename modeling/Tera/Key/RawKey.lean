import Tera.Lib.ByteOrder

/-! # Binary tera keys

`BinaryRawKeyOperatorImpl` lays a cell out as `[rowkey|family\0|qualifier|ts&type|rlen|qlen]`: the
row key, the family with a terminating NUL, the qualifier, an eight-byte big-endian word holding
the inverted timestamp above the type byte, and a four-byte trailer holding the row length above
the qualifier length. The comparator LevelDB is given never decodes a key: it re-derives the row,
family and qualifier slices from the trailer and the total size with its own arithmetic, and reads
the qualifier length through the mask `0x00FF` where the encoder stored it under `0xFFFF`.
-/

namespace Tera.RawKey

open Tera.Lib

abbrev Bytes := List UInt8

/-- `TeraKeyType` (`leveldb/tera_key.h`): the byte stored below the inverted timestamp. -/
abbrev TeraKeyType := UInt8

namespace TeraKeyType

def forSeek : TeraKeyType := 0
def del : TeraKeyType := 1
def delColumn : TeraKeyType := 2
def delQualifiers : TeraKeyType := 3
def delQualifier : TeraKeyType := 4
def value : TeraKeyType := 5
def add : TeraKeyType := 7
def putIfAbsent : TeraKeyType := 8
def append : TeraKeyType := 9
def addInt64 : TeraKeyType := 10

end TeraKeyType

/-- The decoded parts of a key, as `ExtractTeraKey` returns them through its out-parameters. -/
structure TeraKey where
  rowKey : Bytes
  family : Bytes
  qualifier : Bytes
  timestamp : Int
  type : TeraKeyType
deriving DecidableEq, Repr

/-- `((1UL << 56) - 1 - timestamp) << 8 | (type & 0xFF)`, computed in `uint64_t`. -/
def tsTypeWord (timestamp : Int) (type : TeraKeyType) : Nat :=
  ((((2 ^ 56 - 1 - timestamp) % 2 ^ 64).toNat <<< 8) % 2 ^ 64) ||| (type.toNat &&& 0xFF)

/-- `(rlen << 16) | (qlen & 0xFFFF)`, computed in `uint32_t` from the two sizes. -/
def lengthWord (rlen qlen : Nat) : Nat :=
  (((rlen % 2 ^ 32) <<< 16) % 2 ^ 32) ||| (qlen % 2 ^ 32 &&& 0xFFFF)

/-- `EncodeBigEndian`: the eight bytes of a `uint64_t`, most significant first. -/
def encodeBigEndian (value : Nat) : Bytes := Lib.encodeBigEndian 8 value

/-- `EncodeBigEndian32`: the four bytes of a `uint32_t`, most significant first. -/
def encodeBigEndian32 (value : Nat) : Bytes := Lib.encodeBigEndian 4 value

/-- `DecodeBigEndain32` (the source's spelling): the `uint32_t` in the first four bytes. -/
def decodeBigEndain32 (bytes : Bytes) : Nat := decodeBigEndian (bytes.take 4)

/-- `DecodeBigEndain`: the `uint64_t` in the first eight bytes. -/
def decodeBigEndain (bytes : Bytes) : Nat := decodeBigEndian (bytes.take 8)

/-- `strlen`: the bytes before the first NUL. -/
def strlen (bytes : Bytes) : Nat := (bytes.takeWhile (· != 0)).length

/-- `BinaryRawKeyOperatorImpl::EncodeTeraKey`. -/
def encodeTeraKey (rowKey family qualifier : Bytes) (timestamp : Int) (type : TeraKeyType) :
    Bytes :=
  rowKey ++ family ++ [0] ++ qualifier ++ encodeBigEndian (tsTypeWord timestamp type) ++
    encodeBigEndian32 (lengthWord rowKey.length qualifier.length)

/-- `ExtractTsAndType` on the key without its trailer: the type is the low byte of the word and
the timestamp is `(1L << 56) - 1 - (n >> 8)`. -/
def extractTsAndType (internalKey : Bytes) : Int × TeraKeyType :=
  let n := decodeBigEndain (internalKey.drop (internalKey.length - 8))
  (2 ^ 56 - 1 - ((n >>> 8 : Nat) : Int), UInt8.ofNat (((n <<< 56) % 2 ^ 64) >>> 56))

/-- `BinaryRawKeyOperatorImpl::ExtractTeraKey`: the family ends at the first NUL after the row,
and the key is rejected when the recorded lengths do not add up to its size. -/
def extractTeraKey (teraKey : Bytes) : Option TeraKey :=
  let size := teraKey.length
  let len := decodeBigEndain32 (teraKey.drop (size - 4))
  let keyLen := len >>> 16
  let familyLen := strlen (teraKey.drop keyLen)
  let qualifierLen := len &&& 0xFFFF
  if keyLen + familyLen + qualifierLen + 1 + 8 + 4 ≠ size then none
  else
    let (timestamp, type) := extractTsAndType (teraKey.take (size - 4))
    some { rowKey := slice teraKey 0 keyLen
           family := slice teraKey keyLen familyLen
           qualifier := slice teraKey (keyLen + familyLen + 1) qualifierLen
           timestamp := timestamp
           type := type }

/-- `BinaryRawKeyOperatorImpl::Compare`, with `Slice::compare` as byte-lexicographic order. The
family length is `size - rlen - qlen - 13` in `uint32_t`, the qualifier is the `qlen` bytes before
the last twelve, and the timestamp and type are compared together as the eight bytes after it. -/
def binaryCompare (key1 key2 : Bytes) : Ordering :=
  let size1 := key1.length
  let size2 := key2.length
  let len1 := decodeBigEndain32 (key1.drop (size1 - 4))
  let len2 := decodeBigEndain32 (key2.drop (size2 - 4))
  let rlen1 := len1 >>> 16
  let rlen2 := len2 >>> 16
  let qlen1 := len1 &&& 0x00FF
  let qlen2 := len2 &&& 0x00FF
  let clen1 := (((size1 : Int) - rlen1 - qlen1 - 13) % 2 ^ 32).toNat
  let clen2 := (((size2 : Int) - rlen2 - qlen2 - 13) % 2 ^ 32).toNat
  (compare (slice key1 0 rlen1) (slice key2 0 rlen2)).then <|
    (compare (slice key1 rlen1 clen1) (slice key2 rlen2 clen2)).then <|
      (compare (slice key1 (size1 - qlen1 - 12) qlen1) (slice key2 (size2 - qlen2 - 12) qlen2)).then <|
        compare (slice key1 (size1 - 12) 8) (slice key2 (size2 - 12) 8)

/-- For timestamps in `[0, 2 ^ 56)` the word is the inverted timestamp above the type byte. -/
theorem tsTypeWord_eq (timestamp : Int) (type : TeraKeyType) (nonneg : 0 ≤ timestamp)
    (bound : timestamp < 2 ^ 56) :
    tsTypeWord timestamp type = (2 ^ 56 - 1 - timestamp).toNat * 2 ^ 8 + type.toNat := by
  have inverted : (2 ^ 56 - 1 - timestamp) % 2 ^ 64 = 2 ^ 56 - 1 - timestamp :=
    Int.emod_eq_of_lt (by omega) (by omega)
  have byte : type.toNat &&& 0xFF = type.toNat := by
    rw [show (0xFF : Nat) = 2 ^ 8 - 1 by rfl, Nat.and_two_pow_sub_one_eq_mod,
      Nat.mod_eq_of_lt type.toNat_lt]
  rw [tsTypeWord, inverted, byte, Nat.shiftLeft_eq, Nat.mod_eq_of_lt (by omega),
    mul_two_pow_or_of_lt type.toNat_lt]

/-- For lengths below `2 ^ 16` the trailer is the row length above the qualifier length. -/
theorem lengthWord_eq (rlen qlen : Nat) (rowBound : rlen < 2 ^ 16) (qualifierBound : qlen < 2 ^ 16) :
    lengthWord rlen qlen = rlen * 2 ^ 16 + qlen := by
  have low : qlen % 2 ^ 32 &&& 0xFFFF = qlen := by
    rw [show (0xFFFF : Nat) = 2 ^ 16 - 1 by rfl, Nat.and_two_pow_sub_one_eq_mod,
      Nat.mod_eq_of_lt (show qlen < 2 ^ 32 by omega), Nat.mod_eq_of_lt qualifierBound]
  rw [lengthWord, low, Nat.mod_eq_of_lt (by omega : rlen < 2 ^ 32), Nat.shiftLeft_eq,
    Nat.mod_eq_of_lt (by omega), mul_two_pow_or_of_lt qualifierBound]

section Layout

variable (rowKey family qualifier : Bytes) (timestamp : Int) (type : TeraKeyType)

private theorem encodeTeraKey_eq_append :
    encodeTeraKey rowKey family qualifier timestamp type =
      (rowKey ++ family ++ [0]) ++ (qualifier ++ (encodeBigEndian (tsTypeWord timestamp type) ++
        encodeBigEndian32 (lengthWord rowKey.length qualifier.length))) := by
  simp [encodeTeraKey]

@[simp] theorem length_encodeTeraKey :
    (encodeTeraKey rowKey family qualifier timestamp type).length =
      rowKey.length + family.length + qualifier.length + 13 := by
  simp [encodeTeraKey, encodeBigEndian, encodeBigEndian32]
  omega

theorem slice_encodeTeraKey_rowKey :
    slice (encodeTeraKey rowKey family qualifier timestamp type) 0 rowKey.length = rowKey := by
  simp [encodeTeraKey, slice]

theorem slice_encodeTeraKey_family :
    slice (encodeTeraKey rowKey family qualifier timestamp type) rowKey.length family.length =
      family := by
  simp [encodeTeraKey, slice]

theorem slice_encodeTeraKey_qualifier {offset : Nat}
    (position : offset = rowKey.length + family.length + 1) :
    slice (encodeTeraKey rowKey family qualifier timestamp type) offset qualifier.length =
      qualifier := by
  rw [encodeTeraKey_eq_append, slice_append_of_length (by simp [position]; omega)]

theorem slice_encodeTeraKey_tsType {offset : Nat}
    (position : offset = rowKey.length + family.length + qualifier.length + 1) :
    slice (encodeTeraKey rowKey family qualifier timestamp type) offset 8 =
      encodeBigEndian (tsTypeWord timestamp type) := by
  have shape : encodeTeraKey rowKey family qualifier timestamp type =
      (rowKey ++ family ++ [0] ++ qualifier) ++ (encodeBigEndian (tsTypeWord timestamp type) ++
        encodeBigEndian32 (lengthWord rowKey.length qualifier.length)) := by
    simp [encodeTeraKey]
  rw [shape, show 8 = (encodeBigEndian (tsTypeWord timestamp type)).length by simp [encodeBigEndian],
    slice_append_of_length (by simp [position]; omega)]

theorem drop_encodeTeraKey_trailer {offset : Nat}
    (position : offset = rowKey.length + family.length + qualifier.length + 9) :
    (encodeTeraKey rowKey family qualifier timestamp type).drop offset =
      encodeBigEndian32 (lengthWord rowKey.length qualifier.length) := by
  rw [encodeTeraKey, List.drop_left' (by simp [encodeBigEndian, position]; omega)]


/-- The trailer decodes to both lengths when each fits its sixteen bits. -/
theorem decodeBigEndain32_trailer (rowBound : rowKey.length < 2 ^ 16)
    (qualifierBound : qualifier.length < 2 ^ 16) :
    decodeBigEndain32 ((encodeTeraKey rowKey family qualifier timestamp type).drop
        ((encodeTeraKey rowKey family qualifier timestamp type).length - 4)) =
      rowKey.length * 2 ^ 16 + qualifier.length := by
  rw [drop_encodeTeraKey_trailer _ _ _ _ _ (by simp), decodeBigEndain32, encodeBigEndian32,
    List.take_of_length_le (by simp), decodeBigEndian_encodeBigEndian,
    lengthWord_eq _ _ rowBound qualifierBound, Nat.mod_eq_of_lt (by omega)]

end Layout

private theorem compare_inverted (first second : Int) (firstNonneg : 0 ≤ first)
    (firstBound : first < 2 ^ 56) (secondNonneg : 0 ≤ second) (secondBound : second < 2 ^ 56) :
    compare (2 ^ 56 - 1 - first).toNat (2 ^ 56 - 1 - second).toNat = compare second first := by
  rcases Int.lt_trichotomy first second with before | same | after
  · rw [Nat.compare_eq_gt.mpr (by omega), Int.compare_eq_gt.mpr before]
  · rw [same, Nat.compare_eq_eq.mpr rfl, Int.compare_eq_eq.mpr rfl]
  · rw [Nat.compare_eq_lt.mpr (by omega), Int.compare_eq_lt.mpr after]

/-- Comparing two words as bytes puts the newer timestamp first, then the smaller type. -/
theorem compare_encodeBigEndian_tsTypeWord (timestamp1 timestamp2 : Int) (type1 type2 : TeraKeyType)
    (nonneg1 : 0 ≤ timestamp1) (bound1 : timestamp1 < 2 ^ 56)
    (nonneg2 : 0 ≤ timestamp2) (bound2 : timestamp2 < 2 ^ 56) :
    compare (encodeBigEndian (tsTypeWord timestamp1 type1)) (encodeBigEndian (tsTypeWord timestamp2 type2)) =
      (compare timestamp2 timestamp1).then (compare type1 type2) := by
  have word1 := tsTypeWord_eq timestamp1 type1 nonneg1 bound1
  have word2 := tsTypeWord_eq timestamp2 type2 nonneg2 bound2
  have typeBound1 := type1.toNat_lt
  have typeBound2 := type2.toNat_lt
  rw [encodeBigEndian, encodeBigEndian, compare_encodeBigEndian _ _ _ (by omega) (by omega),
    ← compare_then_mod, word1, word2, compare_toNat type1 type2,
    ← compare_inverted timestamp1 timestamp2 nonneg1 bound1 nonneg2 bound2]
  congr 2 <;> omega

/-- The four slices `Compare` cuts from an encoded key whose qualifier is shorter than 256 bytes:
its row key, its family, its qualifier and its timestamp-and-type word. -/
private theorem compare_slices {key rowKey family qualifier : Bytes} {timestamp : Int}
    {type : TeraKeyType} (encoded : key = encodeTeraKey rowKey family qualifier timestamp type)
    (rowBound : rowKey.length < 2 ^ 16) (familyBound : family.length < 2 ^ 32)
    (qualifierBound : qualifier.length < 2 ^ 8) :
    slice key 0 (decodeBigEndain32 (key.drop (key.length - 4)) >>> 16) = rowKey ∧
    slice key (decodeBigEndain32 (key.drop (key.length - 4)) >>> 16)
        ((((key.length : Int) - ((decodeBigEndain32 (key.drop (key.length - 4)) >>> 16 : Nat) : Int) -
          ((decodeBigEndain32 (key.drop (key.length - 4)) &&& 0x00FF : Nat) : Int) - 13) % 2 ^ 32).toNat) =
        family ∧
    slice key (key.length - (decodeBigEndain32 (key.drop (key.length - 4)) &&& 0x00FF) - 12)
        (decodeBigEndain32 (key.drop (key.length - 4)) &&& 0x00FF) = qualifier ∧
    slice key (key.length - 12) 8 = encodeBigEndian (tsTypeWord timestamp type) := by
  subst encoded
  rw [decodeBigEndain32_trailer _ _ _ _ _ rowBound (by omega)]
  have rows : (rowKey.length * 2 ^ 16 + qualifier.length) >>> 16 = rowKey.length := by
    rw [Nat.shiftRight_eq_div_pow]
    omega
  have qualifiers : (rowKey.length * 2 ^ 16 + qualifier.length) &&& 0x00FF = qualifier.length := by
    rw [show (0x00FF : Nat) = 2 ^ 8 - 1 by rfl, Nat.and_two_pow_sub_one_eq_mod]
    omega
  have families : (((rowKey.length + family.length + qualifier.length + 13 : Nat) : Int) -
      (rowKey.length : Int) - (qualifier.length : Int) - 13) % 2 ^ 32 = family.length := by
    rw [Int.emod_eq_of_lt (by omega) (by omega)]
    omega
  rw [rows, qualifiers, length_encodeTeraKey, families, Int.toNat_natCast]
  refine ⟨slice_encodeTeraKey_rowKey .., slice_encodeTeraKey_family .., ?_, ?_⟩
  · exact slice_encodeTeraKey_qualifier _ _ _ _ _ (by omega)
  · exact slice_encodeTeraKey_tsType _ _ _ _ _ (by omega)

/-- On keys whose qualifiers are shorter than 256 bytes, `Compare` orders encoded keys by row,
family, qualifier, newest timestamp first, then type. -/
theorem binaryCompare_encodeTeraKey (rowKey1 family1 qualifier1 rowKey2 family2 qualifier2 : Bytes)
    (timestamp1 timestamp2 : Int) (type1 type2 : TeraKeyType)
    (rowBound1 : rowKey1.length < 2 ^ 16) (rowBound2 : rowKey2.length < 2 ^ 16)
    (familyBound1 : family1.length < 2 ^ 32) (familyBound2 : family2.length < 2 ^ 32)
    (qualifierBound1 : qualifier1.length < 2 ^ 8) (qualifierBound2 : qualifier2.length < 2 ^ 8)
    (nonneg1 : 0 ≤ timestamp1) (bound1 : timestamp1 < 2 ^ 56)
    (nonneg2 : 0 ≤ timestamp2) (bound2 : timestamp2 < 2 ^ 56) :
    binaryCompare (encodeTeraKey rowKey1 family1 qualifier1 timestamp1 type1)
        (encodeTeraKey rowKey2 family2 qualifier2 timestamp2 type2) =
      (compare rowKey1 rowKey2).then ((compare family1 family2).then ((compare qualifier1 qualifier2).then
        ((compare timestamp2 timestamp1).then (compare type1 type2)))) := by
  obtain ⟨row1, column1, qual1, word1⟩ := compare_slices rfl rowBound1 familyBound1 qualifierBound1
  obtain ⟨row2, column2, qual2, word2⟩ := compare_slices rfl rowBound2 familyBound2 qualifierBound2
  unfold binaryCompare
  dsimp only
  rw [row1, row2, column1, column2, qual1, qual2, word1, word2,
    compare_encodeBigEndian_tsTypeWord _ _ _ _ nonneg1 bound1 nonneg2 bound2]

theorem lowByte_of_shifts (word : Nat) : ((word <<< 56) % 2 ^ 64) >>> 56 = word % 2 ^ 8 := by
  rw [Nat.shiftLeft_eq, Nat.shiftRight_eq_div_pow, show (2 : Nat) ^ 64 = 2 ^ 8 * 2 ^ 56 by rfl,
    Nat.mul_mod_mul_right, Nat.mul_div_cancel _ (Nat.two_pow_pos 56)]

theorem extractTsAndType_encodeBigEndian (front : Bytes) (timestamp : Int) (type : TeraKeyType)
    (nonneg : 0 ≤ timestamp) (bound : timestamp < 2 ^ 56) :
    extractTsAndType (front ++ encodeBigEndian (tsTypeWord timestamp type)) = (timestamp, type) := by
  have word := tsTypeWord_eq timestamp type nonneg bound
  have typeBound := type.toNat_lt
  have decoded : decodeBigEndain ((front ++ encodeBigEndian (tsTypeWord timestamp type)).drop
      ((front ++ encodeBigEndian (tsTypeWord timestamp type)).length - 8)) = tsTypeWord timestamp type := by
    rw [List.drop_left' (by simp [encodeBigEndian]), decodeBigEndain, encodeBigEndian,
      List.take_of_length_le (by simp), decodeBigEndian_encodeBigEndian, Nat.mod_eq_of_lt (by omega)]
  have high : tsTypeWord timestamp type >>> 8 = (2 ^ 56 - 1 - timestamp).toNat := by
    rw [Nat.shiftRight_eq_div_pow, word]
    omega
  have low : tsTypeWord timestamp type % 2 ^ 8 = type.toNat := by
    rw [word]
    omega
  simp only [extractTsAndType, decoded, high, lowByte_of_shifts, low, UInt8.ofNat_toNat,
    Prod.mk.injEq, and_true]
  omega

/-- Extracting an encoded key gives back its parts when the lengths fit the trailer's fields, the
family has no NUL, and the timestamp fits the 56 bits the word keeps. -/
theorem extractTeraKey_encodeTeraKey (rowKey family qualifier : Bytes) (timestamp : Int)
    (type : TeraKeyType) (rowBound : rowKey.length < 2 ^ 16)
    (qualifierBound : qualifier.length < 2 ^ 16) (noNul : 0 ∉ family) (nonneg : 0 ≤ timestamp)
    (bound : timestamp < 2 ^ 56) :
    extractTeraKey (encodeTeraKey rowKey family qualifier timestamp type) =
      some ⟨rowKey, family, qualifier, timestamp, type⟩ := by
  have rows : (rowKey.length * 2 ^ 16 + qualifier.length) >>> 16 = rowKey.length := by
    rw [Nat.shiftRight_eq_div_pow]
    omega
  have qualifiers : (rowKey.length * 2 ^ 16 + qualifier.length) &&& 0xFFFF = qualifier.length := by
    rw [show (0xFFFF : Nat) = 2 ^ 16 - 1 by rfl, Nat.and_two_pow_sub_one_eq_mod]
    omega
  have families : strlen ((encodeTeraKey rowKey family qualifier timestamp type).drop rowKey.length) =
      family.length := by
    have nonzero : ∀ byte ∈ family, (byte != 0) = true := by
      intro byte member
      simpa using (fun zero : byte = 0 => noNul (zero ▸ member))
    simp [encodeTeraKey, strlen, List.takeWhile_append_of_pos nonzero]
  have internal : (encodeTeraKey rowKey family qualifier timestamp type).take
      ((encodeTeraKey rowKey family qualifier timestamp type).length - 4) =
      (rowKey ++ family ++ [0] ++ qualifier) ++ encodeBigEndian (tsTypeWord timestamp type) := by
    rw [length_encodeTeraKey, encodeTeraKey, List.take_left' (by simp [encodeBigEndian]; omega)]
  unfold extractTeraKey
  dsimp only
  rw [decodeBigEndain32_trailer _ _ _ _ _ rowBound qualifierBound, rows, qualifiers, families,
    if_neg (by simp), internal, extractTsAndType_encodeBigEndian _ _ _ nonneg bound,
    slice_encodeTeraKey_rowKey, slice_encodeTeraKey_family, slice_encodeTeraKey_qualifier _ _ _ _ _ rfl]

/-- The binary key of decoded parts, as `EncodeTeraKey` builds it. -/
def TeraKey.encode (cell : TeraKey) : Bytes :=
  encodeTeraKey cell.rowKey cell.family cell.qualifier cell.timestamp cell.type

/-- The parts a binary key carries back unchanged: row and qualifier lengths that fit the trailer's
16-bit fields, a family without NUL, and a timestamp in the 56 bits the word keeps. -/
def TeraKey.Encodable (cell : TeraKey) : Prop :=
  cell.rowKey.length < 2 ^ 16 ∧ cell.qualifier.length < 2 ^ 16 ∧ 0 ∉ cell.family ∧
    0 ≤ cell.timestamp ∧ cell.timestamp < 2 ^ 56

instance (cell : TeraKey) : Decidable cell.Encodable :=
  inferInstanceAs (Decidable (_ ∧ _ ∧ _ ∧ _ ∧ _))

theorem extractTeraKey_encode {cell : TeraKey} (encodable : cell.Encodable) :
    extractTeraKey cell.encode = some cell := by
  obtain ⟨rowBound, qualifierBound, noNul, nonneg, bound⟩ := encodable
  exact extractTeraKey_encodeTeraKey _ _ _ _ _ rowBound qualifierBound noNul nonneg bound

/-- The cells `TabletWriter::CheckIllegalRowArg` lets through with a family that
`IsValidColumnFamilyName` accepts: encodable cells whose family is shorter than 64 KiB. -/
def TeraKey.WellFormed (cell : TeraKey) : Prop :=
  cell.Encodable ∧ cell.family.length < 2 ^ 16

instance (cell : TeraKey) : Decidable cell.WellFormed :=
  inferInstanceAs (Decidable (_ ∧ _))

/-! ## `Compare` as an order

Each slice `Compare` reads is cut from one key alone, so `Compare` is the lexicographic order of
the lists of the keys' slices: a total preorder on all byte strings, whatever their trailers say.
On an encoded key whose qualifier is 256 bytes or longer, the mask `0x00FF` moves the qualifier's
front, behind a NUL, into the family `Compare` reads. -/

/-- The slices `Compare` cuts from a key, in the order it compares them: the row, the family, the
qualifier and the timestamp-and-type word. -/
def comparedSlices (key : Bytes) : List Bytes :=
  let size := key.length
  let len := decodeBigEndain32 (key.drop (size - 4))
  let rlen := len >>> 16
  let qlen := len &&& 0x00FF
  let clen := (((size : Int) - rlen - qlen - 13) % 2 ^ 32).toNat
  [slice key 0 rlen, slice key rlen clen, slice key (size - qlen - 12) qlen, slice key (size - 12) 8]

/-- The family `Compare` reads from an encoded key: the family, then the NUL and the qualifier's
bytes before its last `length % 256` when the qualifier is 256 bytes or longer. -/
def comparedFamily (family qualifier : Bytes) : Bytes :=
  family ++ (0 :: qualifier).take (qualifier.length - qualifier.length % 2 ^ 8)

/-- The qualifier `Compare` reads from an encoded key: its last `length % 256` bytes. -/
def comparedQualifier (qualifier : Bytes) : Bytes :=
  qualifier.drop (qualifier.length - qualifier.length % 2 ^ 8)

theorem binaryCompare_eq_compare (key1 key2 : Bytes) :
    binaryCompare key1 key2 = compare (comparedSlices key1) (comparedSlices key2) := by
  simp only [binaryCompare, comparedSlices, List.compare_cons_cons, List.compare_nil_nil,
    Ordering.then_eq]

theorem binaryCompare_swap (key1 key2 : Bytes) :
    binaryCompare key2 key1 = (binaryCompare key1 key2).swap := by
  rw [binaryCompare_eq_compare, binaryCompare_eq_compare]
  exact Std.OrientedCmp.eq_swap

theorem binaryCompare_lt_of_le_of_lt {key1 key2 key3 : Bytes} (first : binaryCompare key1 key2 ≠ .gt)
    (second : binaryCompare key2 key3 = .lt) : binaryCompare key1 key3 = .lt := by
  rw [binaryCompare_eq_compare] at first second ⊢
  exact Std.TransCmp.lt_of_le_of_lt first second

section Masked

variable (rowKey family qualifier : Bytes) (timestamp : Int) (type : TeraKeyType)

theorem slice_encodeTeraKey_comparedFamily {length : Nat}
    (position : length = family.length + (qualifier.length - qualifier.length % 2 ^ 8)) :
    slice (encodeTeraKey rowKey family qualifier timestamp type) rowKey.length length =
      comparedFamily family qualifier := by
  have shape : (encodeTeraKey rowKey family qualifier timestamp type).drop rowKey.length =
      family ++ ((0 :: qualifier) ++ (encodeBigEndian (tsTypeWord timestamp type) ++
        encodeBigEndian32 (lengthWord rowKey.length qualifier.length))) := by
    simp [encodeTeraKey]
  have within : qualifier.length - qualifier.length % 2 ^ 8 ≤ (0 :: qualifier).length := by
    simp only [List.length_cons]
    omega
  rw [slice, shape, position, List.take_length_add_append, List.take_append_of_le_length within,
    comparedFamily]

theorem slice_encodeTeraKey_comparedQualifier {offset : Nat}
    (position : offset =
      rowKey.length + family.length + 1 + (qualifier.length - qualifier.length % 2 ^ 8)) :
    slice (encodeTeraKey rowKey family qualifier timestamp type) offset (qualifier.length % 2 ^ 8) =
      comparedQualifier qualifier := by
  have shape : encodeTeraKey rowKey family qualifier timestamp type =
      (rowKey ++ family ++ [0]) ++ (qualifier ++ (encodeBigEndian (tsTypeWord timestamp type) ++
        encodeBigEndian32 (lengthWord rowKey.length qualifier.length))) := by
    simp [encodeTeraKey]
  have front : offset =
      (rowKey ++ family ++ [0]).length + (qualifier.length - qualifier.length % 2 ^ 8) := by
    simp only [position, List.length_append, List.length_singleton]
  have kept : (comparedQualifier qualifier).length = qualifier.length % 2 ^ 8 := by
    simp [comparedQualifier]
    omega
  rw [slice, shape, front, List.drop_length_add_append, List.drop_append_of_le_length (by omega),
    ← comparedQualifier, List.take_left' kept]

/-- What `Compare` reads of a key whose row, family and qualifier are shorter than 64 KiB. -/
theorem comparedSlices_encodeTeraKey (rowBound : rowKey.length < 2 ^ 16)
    (familyBound : family.length < 2 ^ 16) (qualifierBound : qualifier.length < 2 ^ 16) :
    comparedSlices (encodeTeraKey rowKey family qualifier timestamp type) =
      [rowKey, comparedFamily family qualifier, comparedQualifier qualifier,
        encodeBigEndian (tsTypeWord timestamp type)] := by
  have rows : (rowKey.length * 2 ^ 16 + qualifier.length) >>> 16 = rowKey.length := by
    rw [Nat.shiftRight_eq_div_pow]
    omega
  have qualifiers : (rowKey.length * 2 ^ 16 + qualifier.length) &&& 0x00FF =
      qualifier.length % 2 ^ 8 := by
    rw [show (0x00FF : Nat) = 2 ^ 8 - 1 by rfl, Nat.and_two_pow_sub_one_eq_mod]
    omega
  have families : (((rowKey.length + family.length + qualifier.length + 13 : Nat) : Int) -
      (rowKey.length : Int) - ((qualifier.length % 2 ^ 8 : Nat) : Int) - 13) % 2 ^ 32 =
      ((family.length + (qualifier.length - qualifier.length % 2 ^ 8) : Nat) : Int) := by
    rw [Int.emod_eq_of_lt (by omega) (by omega)]
    omega
  unfold comparedSlices
  dsimp only
  rw [decodeBigEndain32_trailer _ _ _ _ _ rowBound qualifierBound, rows, qualifiers,
    length_encodeTeraKey, families, Int.toNat_natCast, slice_encodeTeraKey_rowKey,
    slice_encodeTeraKey_comparedFamily _ _ _ _ _ rfl,
    slice_encodeTeraKey_comparedQualifier _ _ _ _ _ (by omega),
    slice_encodeTeraKey_tsType _ _ _ _ _ (by omega)]

end Masked

/-- Against a family without NUL, the family `Compare` reads is below it exactly when the key's
own family is: the NUL that may follow is below every byte of the other family. -/
theorem comparedFamily_lt_iff {key : Bytes} (noNul : 0 ∉ key) (family qualifier : Bytes) :
    comparedFamily family qualifier < key ↔ family < key := by
  unfold comparedFamily
  cases qualifier.length - qualifier.length % 2 ^ 8 with
  | zero => rw [List.take_zero, List.append_nil]
  | succ count =>
    rw [List.take_succ_cons]
    exact ⟨Std.lt_of_le_of_lt List.le_append_left, append_zero_lt_of_lt _ noNul⟩

set_option maxRecDepth 8000 in
/-- A 256-byte qualifier: the mask `0x00FF` reads its length as zero, so `Compare` takes the
qualifier for part of the family and orders the key after one whose qualifier it precedes. -/
theorem binaryCompare_qualifier256 :
    binaryCompare (encodeTeraKey [114] [99, 102] (List.replicate 256 97) 0 TeraKeyType.value)
        (encodeTeraKey [114] [99, 102] [98] 0 TeraKeyType.value) = .gt ∧
      (compare [114] ([114] : Bytes)).then ((compare [99, 102] ([99, 102] : Bytes)).then
        ((compare (List.replicate 256 97) ([98] : Bytes)).then ((compare (0 : Int) 0).then
          (compare TeraKeyType.value TeraKeyType.value)))) = .lt := by
  decide +kernel

end Tera.RawKey
