import Mathlib
import Tera.Key.RawKey
import Tera.Lib.Digits

/-! # Keys `ExtractTeraKey` accepts

`ReadableRawKeyOperatorImpl` lays a cell out as `[rowkey\0|family\0|qualifier\0|ts&type]`, each
part ended by a NUL and found again with `strlen`. Both operators' `ExtractTeraKey` accept a key
only when the lengths they find add up to its size, and then the key is the encoding of the parts
they return: the NULs sit where the encoder puts them, the word before the binary trailer (or at the
readable key's end) is the word the returned timestamp and type give, and the binary trailer is the
one the returned lengths give. So extraction inverts encoding on every key it accepts, as encoding
inverts extraction on the parts that fit the layout.
-/

namespace Tera.RawKey

open Tera.Lib

/-- `ReadableRawKeyOperatorImpl::EncodeTeraKey`. `AppendTsAndType` first keeps the low 56 bits of
the timestamp (`timestamp &= 0x00FFFFFFFFFFFFFF`, the residue modulo `2 ^ 56`). -/
def readableEncodeTeraKey (rowKey family qualifier : Bytes) (timestamp : Int) (type : TeraKeyType) :
    Bytes :=
  rowKey ++ [0] ++ family ++ [0] ++ qualifier ++ [0] ++
    encodeBigEndian (tsTypeWord (timestamp % 2 ^ 56) type)

/-- `ReadableRawKeyOperatorImpl::ExtractTeraKey`: each part ends at its first NUL, and the key is
rejected when the parts, their NULs and the word do not add up to its size. -/
def readableExtractTeraKey (teraKey : Bytes) : Option TeraKey :=
  let keyLen := strlen teraKey
  let familyLen := strlen (teraKey.drop (keyLen + 1))
  let qualifierLen := strlen (teraKey.drop (keyLen + 1 + familyLen + 1))
  if keyLen + familyLen + qualifierLen + 3 + 8 ≠ teraKey.length then none
  else
    let (timestamp, type) := extractTsAndType teraKey
    some { rowKey := slice teraKey 0 keyLen
           family := slice teraKey (keyLen + 1) familyLen
           qualifier := slice teraKey (keyLen + 1 + familyLen + 1) qualifierLen
           timestamp := timestamp
           type := type }

/-! ## `strlen` -/

/-- `strlen` of a NUL-free front followed by a NUL is the front's length. -/
theorem strlen_append_zero {front : Bytes} (noNul : 0 ∉ front) (rest : Bytes) :
    strlen (front ++ 0 :: rest) = front.length := by
  have nonzero : ∀ byte ∈ front, (byte != 0) = true := fun byte member => by
    simpa using fun zero : byte = 0 => noNul (zero ▸ member)
  rw [strlen, List.takeWhile_append_of_pos nonzero]
  simp

/-- A string with a NUL is its NUL-free front, that NUL, and the rest. -/
theorem strlen_split {bytes : Bytes} (short : strlen bytes < bytes.length) :
    ∃ front rest, bytes = front ++ 0 :: rest ∧ 0 ∉ front ∧ front.length = strlen bytes := by
  have nonempty : bytes.dropWhile (· != 0) ≠ [] := by
    intro empty
    have whole := List.takeWhile_append_dropWhile (p := (· != 0)) (l := bytes)
    rw [empty, List.append_nil] at whole
    rw [strlen, whole] at short
    exact Nat.lt_irrefl _ short
  obtain ⟨head, rest, found⟩ := List.exists_cons_of_ne_nil nonempty
  have stopped := List.head_dropWhile_not (· != 0) nonempty
  simp only [found, List.head_cons, bne_eq_false_iff_eq] at stopped
  rw [stopped] at found
  refine ⟨bytes.takeWhile (· != 0), rest, ?_, fun member => ?_, rfl⟩
  · rw [← found, List.takeWhile_append_dropWhile]
  · simpa using List.mem_takeWhile_imp member

/-- A NUL within a front hides what follows it from `strlen`. -/
theorem strlen_append_of_lt {front : Bytes} (back : Bytes) (short : strlen (front ++ back) < front.length) :
    strlen (front ++ back) = strlen front := by
  unfold strlen at short ⊢
  rw [List.takeWhile_append] at short ⊢
  split_ifs at short ⊢ with whole
  · rw [List.length_append] at short
    omega
  · rfl

/-! ## The timestamp-and-type word -/

/-- The last eight bytes are the word of the timestamp and type `ExtractTsAndType` reads from them,
and that timestamp lies in `[0, 2 ^ 56)`. -/
theorem extractTsAndType_word (front word : Bytes) (eight : word.length = 8) :
    0 ≤ (extractTsAndType (front ++ word)).1 ∧ (extractTsAndType (front ++ word)).1 < 2 ^ 56 ∧
      encodeBigEndian (tsTypeWord (extractTsAndType (front ++ word)).1 (extractTsAndType (front ++ word)).2) =
        word := by
  have bound : decodeBigEndian word < 2 ^ 64 := by
    have := decodeBigEndian_lt word
    rw [eight] at this
    exact this
  have decoded : decodeBigEndain ((front ++ word).drop ((front ++ word).length - 8)) = decodeBigEndian word := by
    rw [List.drop_left' (by simp [eight]), decodeBigEndain, List.take_of_length_le (by omega)]
  have timestamp : (extractTsAndType (front ++ word)).1 = 2 ^ 56 - 1 - ((decodeBigEndian word >>> 8 : Nat) : Int) := by
    simp only [extractTsAndType, decoded]
  have type : (extractTsAndType (front ++ word)).2 = UInt8.ofNat (decodeBigEndian word % 2 ^ 8) := by
    simp only [extractTsAndType, decoded, lowByte_of_shifts]
  have high : decodeBigEndian word >>> 8 < 2 ^ 56 := by
    rw [Nat.shiftRight_eq_div_pow]
    omega
  have inverted : ((2 : Int) ^ 56 - 1 - (extractTsAndType (front ++ word)).1).toNat = decodeBigEndian word >>> 8 := by
    rw [timestamp]
    simp only [Nat.cast_ofNat, Nat.cast_one]
    omega
  have whole : (decodeBigEndian word >>> 8) * 2 ^ 8 + decodeBigEndian word % 2 ^ 8 = decodeBigEndian word := by
    rw [Nat.shiftRight_eq_div_pow]
    omega
  have nonneg : 0 ≤ (extractTsAndType (front ++ word)).1 := by
    rw [timestamp]
    simp only [Nat.cast_ofNat, Nat.cast_one]
    omega
  have below : (extractTsAndType (front ++ word)).1 < 2 ^ 56 := by
    rw [timestamp]
    simp only [Nat.cast_ofNat, Nat.cast_one]
    omega
  refine ⟨nonneg, below, ?_⟩
  rw [tsTypeWord_eq _ _ nonneg below, inverted, type, UInt8.toNat_ofNat',
    Nat.mod_mod_of_dvd _ (by norm_num), whole, encodeBigEndian]
  conv_rhs => rw [← encodeBigEndian_decodeBigEndian word, eight]

/-! ## The readable layout -/

/-- The readable key of decoded parts. -/
def TeraKey.readableEncode (cell : TeraKey) : Bytes :=
  readableEncodeTeraKey cell.rowKey cell.family cell.qualifier cell.timestamp cell.type

/-- Extracting a readable key gives back its parts when none of them holds a NUL and the timestamp
fits the 56 bits the word keeps. -/
theorem readableExtractTeraKey_readableEncodeTeraKey (rowKey family qualifier : Bytes) (timestamp : Int)
    (type : TeraKeyType) (rowNoNul : 0 ∉ rowKey) (familyNoNul : 0 ∉ family) (qualifierNoNul : 0 ∉ qualifier)
    (nonneg : 0 ≤ timestamp) (bound : timestamp < 2 ^ 56) :
    readableExtractTeraKey (readableEncodeTeraKey rowKey family qualifier timestamp type) =
      some ⟨rowKey, family, qualifier, timestamp, type⟩ := by
  have masked : timestamp % 2 ^ 56 = timestamp := Int.emod_eq_of_lt nonneg bound
  have shape : readableEncodeTeraKey rowKey family qualifier timestamp type =
      rowKey ++ 0 :: (family ++ 0 :: (qualifier ++ 0 :: encodeBigEndian (tsTypeWord timestamp type))) := by
    rw [readableEncodeTeraKey, masked]
    simp
  have front : readableEncodeTeraKey rowKey family qualifier timestamp type =
      (rowKey ++ 0 :: (family ++ 0 :: (qualifier ++ [0]))) ++ encodeBigEndian (tsTypeWord timestamp type) := by
    rw [readableEncodeTeraKey, masked]
    simp
  have rows : strlen (readableEncodeTeraKey rowKey family qualifier timestamp type) = rowKey.length := by
    rw [shape, strlen_append_zero rowNoNul]
  have afterRow : (readableEncodeTeraKey rowKey family qualifier timestamp type).drop (rowKey.length + 1) =
      family ++ 0 :: (qualifier ++ 0 :: encodeBigEndian (tsTypeWord timestamp type)) := by
    rw [shape]
    simp
  have afterFamily : (readableEncodeTeraKey rowKey family qualifier timestamp type).drop
      (rowKey.length + 1 + family.length + 1) = qualifier ++ 0 :: encodeBigEndian (tsTypeWord timestamp type) := by
    rw [show rowKey.length + 1 + family.length + 1 = (rowKey.length + 1) + (family.length + 1) by omega,
      ← List.drop_drop, afterRow]
    simp
  have size : (readableEncodeTeraKey rowKey family qualifier timestamp type).length =
      rowKey.length + family.length + qualifier.length + 3 + 8 := by
    simp [shape, encodeBigEndian]
    omega
  unfold readableExtractTeraKey
  dsimp only
  rw [rows, afterRow, strlen_append_zero familyNoNul, afterFamily, strlen_append_zero qualifierNoNul,
    if_neg (by omega), front, extractTsAndType_encodeBigEndian _ _ _ nonneg bound, ← front]
  simp only [slice, List.drop_zero, afterRow, afterFamily]
  rw [shape]
  simp

/-! ## Every accepted key is an encoding -/

/-- A key the binary `ExtractTeraKey` accepts is the encoding of the parts it returns, and those
parts fit the layout: the family ends at the NUL `strlen` found, and the word and the trailer are
those of the returned timestamp, type and lengths. -/
theorem extractTeraKey_eq_some {key : Bytes} {cell : TeraKey} (found : extractTeraKey key = some cell) :
    cell.Encodable ∧ cell.encode = key := by
  have fits : (decodeBigEndain32 (key.drop (key.length - 4)) >>> 16) +
      strlen (key.drop (decodeBigEndain32 (key.drop (key.length - 4)) >>> 16)) +
      (decodeBigEndain32 (key.drop (key.length - 4)) &&& 0xFFFF) + 1 + 8 + 4 = key.length := by
    by_contra misfit
    simp [extractTeraKey, misfit] at found
  -- the trailer: the last four bytes, the two lengths
  obtain ⟨internal, trailer, keyShape, trailerLength⟩ :
      ∃ internal trailer, key = internal ++ trailer ∧ trailer.length = 4 :=
    ⟨_, _, (List.take_append_drop (key.length - 4) key).symm, by simp; omega⟩
  have atTrailer : key.drop (key.length - 4) = trailer := by
    rw [keyShape]
    exact List.drop_left' (by simp [trailerLength])
  have lenBound : decodeBigEndian trailer < 2 ^ 32 := by
    have := decodeBigEndian_lt trailer
    rw [trailerLength] at this
    exact this
  rw [atTrailer, decodeBigEndain32, List.take_of_length_le (by omega)] at fits
  generalize lenDef : decodeBigEndian trailer = len at fits lenBound
  -- the word: the eight bytes before the trailer
  obtain ⟨front, word, internalShape, wordLength⟩ :
      ∃ front word, internal = front ++ word ∧ word.length = 8 :=
    ⟨_, _, (List.take_append_drop (internal.length - 8) internal).symm, by
      simp [keyShape, trailerLength] at fits
      simp
      omega⟩
  have keySize : key.length = front.length + 12 := by
    simp [keyShape, internalShape, wordLength, trailerLength]
  -- the row key: the first `len >>> 16` bytes
  obtain ⟨rowKey, rest, frontShape, rowLength⟩ :
      ∃ rowKey rest, front = rowKey ++ rest ∧ rowKey.length = len >>> 16 :=
    ⟨_, _, (List.take_append_drop (len >>> 16) front).symm, List.length_take_of_le (by omega)⟩
  have restSize : front.length = rowKey.length + rest.length := by simp [frontShape]
  have afterRow : key.drop (len >>> 16) = rest ++ (word ++ trailer) := by
    rw [keyShape, internalShape, frontShape, List.append_assoc, List.append_assoc, List.drop_left' rowLength]
  rw [afterRow] at fits
  rw [strlen_append_of_lt _ (by omega)] at fits
  -- the family: the bytes before the first NUL of the rest, then the qualifier
  obtain ⟨family, qualifier, restShape, noNul, familyLength⟩ := strlen_split (show strlen rest < rest.length by omega)
  have qualifierLength : qualifier.length = len &&& 0xFFFF := by
    have := congrArg List.length restShape
    simp at this
    omega
  have rowBound : rowKey.length < 2 ^ 16 := by
    rw [rowLength, Nat.shiftRight_eq_div_pow]
    omega
  have qualifierBound : qualifier.length < 2 ^ 16 := by
    rw [qualifierLength, show (0xFFFF : Nat) = 2 ^ 16 - 1 by rfl, Nat.and_two_pow_sub_one_eq_mod]
    exact Nat.mod_lt _ (by norm_num)
  have lengths : lengthWord rowKey.length qualifier.length = len := by
    rw [lengthWord_eq _ _ rowBound qualifierBound, rowLength, qualifierLength, Nat.shiftRight_eq_div_pow,
      show (0xFFFF : Nat) = 2 ^ 16 - 1 by rfl, Nat.and_two_pow_sub_one_eq_mod]
    omega
  have trailerIs : encodeBigEndian32 (lengthWord rowKey.length qualifier.length) = trailer := by
    have whole := encodeBigEndian_decodeBigEndian trailer
    rw [trailerLength, lenDef] at whole
    rw [lengths, encodeBigEndian32, whole]
  obtain ⟨nonneg, below, wordIs⟩ := extractTsAndType_word (rowKey ++ rest) word wordLength
  have encoded : key = encodeTeraKey rowKey family qualifier (extractTsAndType (rowKey ++ rest ++ word)).1
      (extractTsAndType (rowKey ++ rest ++ word)).2 := by
    rw [encodeTeraKey, wordIs, trailerIs, keyShape, internalShape, frontShape, restShape]
    simp
  have extracted := extractTeraKey_encodeTeraKey rowKey family qualifier _
    (extractTsAndType (rowKey ++ rest ++ word)).2 rowBound qualifierBound noNul nonneg below
  rw [← encoded, found] at extracted
  obtain rfl := Option.some_inj.mp extracted
  exact ⟨⟨rowBound, qualifierBound, noNul, nonneg, below⟩, encoded.symm⟩

/-- A key the readable `ExtractTeraKey` accepts is the readable encoding of the parts it returns:
its three NULs end the row key, the family and the qualifier, and its last eight bytes are the word
of the returned timestamp and type. -/
theorem readableExtractTeraKey_eq_some {key : Bytes} {cell : TeraKey}
    (found : readableExtractTeraKey key = some cell) : cell.readableEncode = key := by
  have fits : strlen key + strlen (key.drop (strlen key + 1)) +
      strlen (key.drop (strlen key + 1 + strlen (key.drop (strlen key + 1)) + 1)) + 3 + 8 = key.length := by
    by_contra misfit
    simp [readableExtractTeraKey, misfit] at found
  -- the row key ends at the first NUL, the family at the next, the qualifier at the one after
  obtain ⟨rowKey, rest, keyShape, rowNoNul, rowLength⟩ := strlen_split (show strlen key < key.length by omega)
  have afterRow : key.drop (strlen key + 1) = rest := by
    rw [← rowLength, keyShape]
    simp
  have keySize : key.length = rowKey.length + 1 + rest.length := by
    rw [keyShape]
    simp
    omega
  rw [afterRow] at fits
  obtain ⟨family, tail, restShape, familyNoNul, familyLength⟩ :=
    strlen_split (show strlen rest < rest.length by omega)
  have afterFamily : key.drop (strlen key + 1 + strlen rest + 1) = tail := by
    rw [show strlen key + 1 + strlen rest + 1 = (strlen key + 1) + (strlen rest + 1) by omega, ← List.drop_drop,
      afterRow, ← familyLength, restShape]
    simp
  have restSize : rest.length = family.length + 1 + tail.length := by
    rw [restShape]
    simp
    omega
  rw [afterFamily] at fits
  obtain ⟨qualifier, word, tailShape, qualifierNoNul, qualifierLength⟩ :=
    strlen_split (show strlen tail < tail.length by omega)
  have wordLength : word.length = 8 := by
    have tailSize := congrArg List.length tailShape
    simp at tailSize
    omega
  -- the last eight bytes are the word of the returned timestamp and type
  have front : key = (rowKey ++ 0 :: (family ++ 0 :: (qualifier ++ [0]))) ++ word := by
    rw [keyShape, restShape, tailShape]
    simp
  obtain ⟨nonneg, below, wordIs⟩ :=
    extractTsAndType_word (rowKey ++ 0 :: (family ++ 0 :: (qualifier ++ [0]))) word wordLength
  rw [← front] at nonneg below wordIs
  have encoded : key = readableEncodeTeraKey rowKey family qualifier (extractTsAndType key).1
      (extractTsAndType key).2 := by
    rw [readableEncodeTeraKey, Int.emod_eq_of_lt nonneg below, wordIs]
    conv_lhs => rw [front]
    simp
  have extracted := readableExtractTeraKey_readableEncodeTeraKey rowKey family qualifier _
    (extractTsAndType key).2 rowNoNul familyNoNul qualifierNoNul nonneg below
  rw [← encoded, found] at extracted
  obtain rfl := Option.some_inj.mp extracted
  exact encoded.symm

/-- Both layouts round-trip. Extraction gives back the parts of every key encoded from parts that
fit the layout (binary: row key and qualifier shorter than 65536 bytes and a family without NUL;
readable: row key, family and qualifier without NUL; both: a timestamp in `[0, 2 ^ 56)`), and every
key either operator's `ExtractTeraKey` accepts re-encodes to itself. -/
theorem extractTeraKey_round_trips :
    (∀ (rowKey family qualifier : Bytes) (timestamp : Int) (type : TeraKeyType),
      rowKey.length < 2 ^ 16 → qualifier.length < 2 ^ 16 → 0 ∉ family → 0 ≤ timestamp →
        timestamp < 2 ^ 56 →
          extractTeraKey (encodeTeraKey rowKey family qualifier timestamp type) =
            some ⟨rowKey, family, qualifier, timestamp, type⟩) ∧
    (∀ (rowKey family qualifier : Bytes) (timestamp : Int) (type : TeraKeyType),
      0 ∉ rowKey → 0 ∉ family → 0 ∉ qualifier → 0 ≤ timestamp → timestamp < 2 ^ 56 →
        readableExtractTeraKey (readableEncodeTeraKey rowKey family qualifier timestamp type) =
          some ⟨rowKey, family, qualifier, timestamp, type⟩) ∧
    (∀ (key : Bytes) (cell : TeraKey), extractTeraKey key = some cell →
      encodeTeraKey cell.rowKey cell.family cell.qualifier cell.timestamp cell.type = key) ∧
    (∀ (key : Bytes) (cell : TeraKey), readableExtractTeraKey key = some cell →
      readableEncodeTeraKey cell.rowKey cell.family cell.qualifier cell.timestamp cell.type = key) :=
  ⟨extractTeraKey_encodeTeraKey, readableExtractTeraKey_readableEncodeTeraKey,
    fun _ _ found => (extractTeraKey_eq_some found).2, fun _ _ found => readableExtractTeraKey_eq_some found⟩

end Tera.RawKey
