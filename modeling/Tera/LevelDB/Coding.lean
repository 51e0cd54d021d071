import Tera.Lib.Varint
import Tera.Key.RawKey

/-! # leveldb's encodings: fixed words, varints, length-prefixed slices, locality-group keys

`util/coding.cc` writes fixed-width words in host order (little-endian here), `uint32_t` varints
and slices prefixed by their length; `util/lg_coding.cc` wraps a key of a table with locality
groups as the length-prefixed marker `"//LG_ID//"`, the group's id as a varint and the
length-prefixed key. The readers return the value read and the input after it, or `none` where the
source returns `false` or `NULL`. The round trips below say that what the writers produce is read
back whole.
-/

namespace Tera.LevelDB

open Tera.Lib Tera.RawKey

/-- `EncodeFixed32` on a little-endian host: the four bytes of a `uint32_t`. -/
def encodeFixed32 (value : Nat) : Bytes := encodeLittleEndian 4 value

/-- `EncodeFixed64` on a little-endian host. -/
def encodeFixed64 (value : Nat) : Bytes := encodeLittleEndian 8 value

/-- `DecodeFixed32`: the `uint32_t` in the first four bytes. -/
def decodeFixed32 (bytes : Bytes) : Nat := decodeLittleEndian (bytes.take 4)

/-- `DecodeFixed64`: the `uint64_t` in the first eight bytes. -/
def decodeFixed64 (bytes : Bytes) : Nat := decodeLittleEndian (bytes.take 8)

/-- `EncodeVarint32`, one branch per encoded length; each store keeps the low byte. -/
def encodeVarint32 (v : Nat) : Bytes :=
  if v < 2 ^ 7 then [UInt8.ofNat v]
  else if v < 2 ^ 14 then [UInt8.ofNat (v ||| 128), UInt8.ofNat (v >>> 7)]
  else if v < 2 ^ 21 then
    [UInt8.ofNat (v ||| 128), UInt8.ofNat ((v >>> 7) ||| 128), UInt8.ofNat (v >>> 14)]
  else if v < 2 ^ 28 then
    [UInt8.ofNat (v ||| 128), UInt8.ofNat ((v >>> 7) ||| 128), UInt8.ofNat ((v >>> 14) ||| 128),
      UInt8.ofNat (v >>> 21)]
  else
    [UInt8.ofNat (v ||| 128), UInt8.ofNat ((v >>> 7) ||| 128), UInt8.ofNat ((v >>> 14) ||| 128),
      UInt8.ofNat ((v >>> 21) ||| 128), UInt8.ofNat (v >>> 28)]

/-- `PutVarint32`; the argument is converted to `uint32_t`. -/
def putVarint32 (dst : Bytes) (v : Nat) : Bytes := dst ++ encodeVarint32 (v % 2 ^ 32)

/-- `GetVarint32PtrFallback`: five passes, at shifts 0 to 28, into a `uint32_t`. -/
def getVarint32PtrFallback (input : Bytes) : Option (Nat × Bytes) :=
  decodeVarint (2 ^ 32) 5 0 0 input

/-- `GetVarint32` through `GetVarint32Ptr`, whose inline fast path reads a one-byte varint. -/
def getVarint32 (input : Bytes) : Option (Nat × Bytes) :=
  match input with
  | byte :: rest =>
    if byte.toNat &&& 128 = 0 then some (byte.toNat, rest) else getVarint32PtrFallback input
  | [] => getVarint32PtrFallback input

/-- `PutVarint64` through `EncodeVarint64`, whose loop writes at most ten groups of a `uint64_t`. -/
def putVarint64 (dst : Bytes) (v : Nat) : Bytes := dst ++ encodeVarint 10 (v % 2 ^ 64)

/-- `GetVarint64` through `GetVarint64Ptr`: at most ten passes, at shifts 0 to 63, into a
`uint64_t`. -/
def getVarint64 (input : Bytes) : Option (Nat × Bytes) :=
  decodeVarint (2 ^ 64) 10 0 0 input

/-- `PutLengthPrefixedSlice`. -/
def putLengthPrefixedSlice (dst value : Bytes) : Bytes := putVarint32 dst value.length ++ value

/-- `GetLengthPrefixedSlice(Slice*, Slice*)`: the slice and the input after it. -/
def getLengthPrefixedSlice (input : Bytes) : Option (Bytes × Bytes) :=
  match getVarint32 input with
  | some (len, rest) => if rest.length ≥ len then some (rest.take len, rest.drop len) else none
  | none => none

/-- `KG_PREFIX`, the marker `"//LG_ID//"`. -/
def kgPrefix : Bytes := [47, 47, 76, 71, 95, 73, 68, 47, 47]

/-- `PutFixed32LGId`: the key of a locality group's entry. -/
def putFixed32LGId (dst : Bytes) (lgId : Nat) : Bytes :=
  putLengthPrefixedSlice (putVarint32 (putLengthPrefixedSlice [] kgPrefix) lgId) dst

/-- `GetFixed32LGId`: the group's id and the key inside, or `none` for a key without the marker;
bytes after the inner key are ignored. -/
def getFixed32LGId (input : Bytes) : Option (Nat × Bytes) :=
  match getLengthPrefixedSlice input with
  | none => none
  | some (str, lgStr) =>
    if str ≠ kgPrefix then none
    else
      match getVarint32 lgStr with
      | none => none
      | some (lgId, lgStr) =>
        match getLengthPrefixedSlice lgStr with
        | none => none
        | some (key, _) => some (lgId, key)

theorem decodeFixed32_encodeFixed32 (value : Nat) (rest : Bytes) :
    decodeFixed32 (encodeFixed32 value ++ rest) = value % 2 ^ 32 := by
  rw [decodeFixed32, encodeFixed32, List.take_left' (length_encodeLittleEndian 4 value),
    decodeLittleEndian_encodeLittleEndian]
  norm_num

theorem decodeFixed64_encodeFixed64 (value : Nat) (rest : Bytes) :
    decodeFixed64 (encodeFixed64 value ++ rest) = value % 2 ^ 64 := by
  rw [decodeFixed64, encodeFixed64, List.take_left' (length_encodeLittleEndian 8 value),
    decodeLittleEndian_encodeLittleEndian]
  norm_num

@[simp] theorem length_encodeFixed32 (value : Nat) : (encodeFixed32 value).length = 4 :=
  length_encodeLittleEndian 4 value

@[simp] theorem length_encodeFixed64 (value : Nat) : (encodeFixed64 value).length = 8 :=
  length_encodeLittleEndian 8 value

/-- The branches of `EncodeVarint32` are the varint of at most five groups. -/
theorem encodeVarint32_eq {v : Nat} (bound : v < 2 ^ 32) : encodeVarint32 v = encodeVarint 5 v := by
  simp only [encodeVarint32, encodeVarint]
  -- each branch of the source is decided by the same bound as the encoder's test
  split_ifs <;> simp_all [Nat.shiftRight_eq_div_pow, Nat.div_div_eq_div_mul] <;> omega

theorem getVarint32_encodeVarint32 {v : Nat} (bound : v < 2 ^ 32) (rest : Bytes) :
    getVarint32 (encodeVarint32 v ++ rest) = some (v, rest) := by
  by_cases small : v < 128
  · have byte : (UInt8.ofNat v).toNat = v := by
      rw [UInt8.toNat_ofNat']
      omega
    rw [encodeVarint32, if_pos (show v < 2 ^ 7 by omega)]
    simp [getVarint32, byte, last_and_128 small]
  · have read := decodeVarint_encodeVarint (2 ^ 32) 5 5 0 0 v rest (by norm_num) le_rfl
      (by omega) (by norm_num) (by omega)
    simp only [Nat.zero_add, pow_zero, Nat.mul_one] at read
    rw [encodeVarint32_eq bound]
    -- the fast path declines a continued first byte
    cases encoded : encodeVarint 5 v with
    | nil => simp [encodeVarint, small] at encoded
    | cons first later =>
      rw [encoded] at read
      have continued : first.toNat &&& 128 ≠ 0 := by
        simp only [encodeVarint, if_neg small, List.cons.injEq] at encoded
        rw [← encoded.1, toNat_continued, continued_and_128]
        norm_num
      simp only [List.cons_append, getVarint32, if_neg continued]
      exact read

theorem getLengthPrefixedSlice_putLengthPrefixedSlice {value : Bytes} (short : value.length < 2 ^ 32)
    (rest : Bytes) :
    getLengthPrefixedSlice (putLengthPrefixedSlice [] value ++ rest) = some (value, rest) := by
  rw [putLengthPrefixedSlice, putVarint32, List.nil_append, Nat.mod_eq_of_lt short,
    List.append_assoc, getLengthPrefixedSlice, getVarint32_encodeVarint32 short]
  simp

theorem getVarint32_suffix {input rest : Bytes} {value : Nat}
    (read : getVarint32 input = some (value, rest)) : rest <:+ input := by
  unfold getVarint32 getVarint32PtrFallback at read
  split at read
  · split_ifs at read
    · simp only [Option.some.injEq, Prod.mk.injEq] at read
      rw [← read.2]
      exact List.suffix_cons _ _
    · exact decodeVarint_suffix read
  · exact decodeVarint_suffix read

theorem getVarint64_putVarint64 {v : Nat} (bound : v < 2 ^ 64) (rest : Bytes) :
    getVarint64 (putVarint64 [] v ++ rest) = some (v, rest) := by
  have read := decodeVarint_encodeVarint (2 ^ 64) 10 10 0 0 v rest (by norm_num) le_rfl
    (lt_trans bound (by norm_num)) (by norm_num) (by omega)
  simp only [Nat.zero_add, pow_zero, Nat.mul_one] at read
  rw [putVarint64, List.nil_append, Nat.mod_eq_of_lt bound, getVarint64, read]

/-- A length-prefixed slice and what follows it lie within the input. -/
theorem getLengthPrefixedSlice_suffix {input slice rest : Bytes}
    (read : getLengthPrefixedSlice input = some (slice, rest)) : slice ++ rest <:+ input := by
  unfold getLengthPrefixedSlice at read
  split at read
  · rename_i len after lengthRead
    split_ifs at read
    simp only [Option.some.injEq, Prod.mk.injEq] at read
    rw [← read.1, ← read.2, List.take_append_drop]
    exact getVarint32_suffix lengthRead
  · cases read

/-- The key inside a locality-group key is no longer than the whole key. -/
theorem getFixed32LGId_length {input key : Bytes} {lgId : Nat}
    (read : getFixed32LGId input = some (lgId, key)) : key.length ≤ input.length := by
  unfold getFixed32LGId at read
  split at read
  · cases read
  · rename_i str lgStr marker
    split_ifs at read
    split at read
    · cases read
    · rename_i id idRest idRead
      split at read
      · cases read
      · rename_i inner tail innerRead
        simp only [Option.some.injEq, Prod.mk.injEq] at read
        rw [← read.2]
        have outer := (getLengthPrefixedSlice_suffix marker).length_le
        have middle := (getVarint32_suffix idRead).length_le
        have last := (getLengthPrefixedSlice_suffix innerRead).length_le
        simp only [List.length_append] at outer last
        omega

/-! ### Writers as appends, and the lengths they write -/

theorem putVarint32_eq_append (dst : Bytes) (v : Nat) : putVarint32 dst v = dst ++ putVarint32 [] v :=
  rfl

theorem putVarint64_eq_append (dst : Bytes) (v : Nat) : putVarint64 dst v = dst ++ putVarint64 [] v :=
  rfl

theorem putLengthPrefixedSlice_eq_append (dst value : Bytes) :
    putLengthPrefixedSlice dst value = dst ++ putLengthPrefixedSlice [] value := by
  simp [putLengthPrefixedSlice, putVarint32]

theorem length_encodeVarint32_le (v : Nat) : (encodeVarint32 v).length ≤ 5 := by
  unfold encodeVarint32
  split_ifs <;> simp

theorem encodeVarint32_ne_nil (v : Nat) : encodeVarint32 v ≠ [] := by
  unfold encodeVarint32
  split_ifs <;> simp

theorem length_putVarint32 (dst : Bytes) (v : Nat) :
    dst.length < (putVarint32 dst v).length ∧ (putVarint32 dst v).length ≤ dst.length + 5 := by
  have written := length_encodeVarint32_le (v % 2 ^ 32)
  have some := List.length_pos_of_ne_nil (encodeVarint32_ne_nil (v % 2 ^ 32))
  simp only [putVarint32, List.length_append]
  omega

theorem length_putVarint64 (dst : Bytes) (v : Nat) :
    dst.length < (putVarint64 dst v).length ∧ (putVarint64 dst v).length ≤ dst.length + 10 := by
  have written := length_encodeVarint_le 10 (v % 2 ^ 64)
  have some := List.length_pos_of_ne_nil (encodeVarint_ne_nil (show 0 < 10 by norm_num) (v % 2 ^ 64))
  simp only [putVarint64, List.length_append]
  omega

theorem length_putLengthPrefixedSlice (dst value : Bytes) :
    dst.length + value.length < (putLengthPrefixedSlice dst value).length ∧
      (putLengthPrefixedSlice dst value).length ≤ dst.length + 5 + value.length := by
  have prefixed := length_putVarint32 dst value.length
  simp only [putLengthPrefixedSlice, List.length_append]
  omega

end Tera.LevelDB
