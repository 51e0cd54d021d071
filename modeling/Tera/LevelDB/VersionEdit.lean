import Tera.LevelDB.WriteBatch

/-! # Version edits: the records of the manifest

A `VersionEdit` is what one manifest record says about the next version of the tree: the scalar
settings it carries (comparator name, log numbers, next file number, last sequence, a tablet's start
and end key), the compaction pointers it moves, and the files it deletes and adds. `EncodeTo` writes
each setting and each list entry as one record framed by Tera as `varint(len + kMaxTag)`,
`varint(tag)` and `len` payload bytes; a new file is followed by two statistics records,
`kNewFileInfo` and `kSstFileDataSize`. `DecodeFrom` reads both framed records and LevelDB's bare
`varint(tag)` records, reads each payload with the checked readers of `util/coding.cc`, and skips a
record whose tag it does not know by its length. After a `kNewFile` record, `DecodeNewFileInfo`
looks ahead for the statistics records and reads them, ignoring the results of its reads, into the
one `FileMetaData` temporary that every file record of the edit reuses.

The decoder is modelled as the source writes it, over `Lib.iterate` with one pass per record. The
meaning of a record is `DecodeState.apply`, and the main result, `decodeFrom_flatMap_encode`, says
that the decoder reads any sequence of well-formed records as the fold of their meanings. The round
trip of `EncodeTo` and the skipping of unknown records are its two cases.
-/

namespace Tera.LevelDB

open Tera.Lib Tera.RawKey

/-- `kMaxTag`: a first varint above it is a record's length plus `kMaxTag`, and the tag follows. -/
def kMaxTag : Nat := 2 ^ 20

/-- `config::kNumLevels`. -/
def kNumLevels : Nat := 7

/-- The tags of a serialized `VersionEdit`. -/
inductive Tag where
  | comparator
  | logNumber
  | nextFileNumber
  | lastSequence
  | compactPointer
  | deletedFileForCompat
  | newFileForCompat
  | prevLogNumber
  | newFile
  | deletedFile
  | newFileInfo
  | sstFileDataSize
  | startKey
  | endKey
deriving DecidableEq, Repr

namespace Tag

/-- The number a tag is written as. -/
def number : Tag → Nat
  | comparator => 1
  | logNumber => 2
  | nextFileNumber => 3
  | lastSequence => 4
  | compactPointer => 5
  | deletedFileForCompat => 6
  | newFileForCompat => 7
  | prevLogNumber => 9
  | newFile => 10
  | deletedFile => 11
  | newFileInfo => 12
  | sstFileDataSize => 13
  | startKey => 14
  | endKey => 15

/-- The tag a number names; 8 was used for large value refs and names none now. -/
def ofNumber : Nat → Option Tag
  | 1 => some comparator
  | 2 => some logNumber
  | 3 => some nextFileNumber
  | 4 => some lastSequence
  | 5 => some compactPointer
  | 6 => some deletedFileForCompat
  | 7 => some newFileForCompat
  | 9 => some prevLogNumber
  | 10 => some newFile
  | 11 => some deletedFile
  | 12 => some newFileInfo
  | 13 => some sstFileDataSize
  | 14 => some startKey
  | 15 => some endKey
  | _ => none

@[simp] theorem ofNumber_number (tag : Tag) : ofNumber tag.number = some tag := by
  cases tag <;> rfl

theorem number_lt (tag : Tag) : tag.number < 16 := by
  cases tag <;> decide

end Tag

/-- `FileMetaData`, with the fields the edit's codec writes and reads. -/
structure FileMetaData where
  checkTtlTs : Nat := 0
  ttlPercentage : Nat := 0
  delPercentage : Nat := 0
  number : Nat := 0
  fileSize : Nat := 0
  dataSize : Nat := 0
  smallest : Bytes := []
  largest : Bytes := []
  smallestFake : Bool := false
  largestFake : Bool := false
deriving DecidableEq, Repr

/-- `VersionEdit`; `VersionEdit()` is `{}`. -/
structure VersionEdit where
  comparator : Bytes := []
  logNumber : Nat := 0
  prevLogNumber : Nat := 0
  nextFileNumber : Nat := 0
  lastSequence : Nat := 0
  startKey : Bytes := []
  endKey : Bytes := []
  hasComparator : Bool := false
  hasLogNumber : Bool := false
  hasPrevLogNumber : Bool := false
  hasNextFileNumber : Bool := false
  hasLastSequence : Bool := false
  hasStartKey : Bool := false
  hasEndKey : Bool := false
  compactPointers : List (Nat × Bytes) := []
  deletedFiles : List (Nat × FileMetaData) := []
  newFiles : List (Nat × FileMetaData) := []
deriving DecidableEq, Repr

/-- `PackSequenceAndType`. -/
def packSequenceAndType (seq : Nat) (t : UInt8) : Nat := (seq <<< 8) ||| t.toNat

/-- `AppendInternalKey`: the user key and the packed sequence and type. -/
def appendInternalKey (result userKey : Bytes) (seq : Nat) (t : UInt8) : Bytes :=
  result ++ userKey ++ encodeFixed64 (packSequenceAndType seq t)

namespace VersionEdit

/-- `Clear()`: the compaction pointers and the start and end keys' strings are kept. -/
def clear (e : VersionEdit) : VersionEdit :=
  { e with
    comparator := [], logNumber := 0, prevLogNumber := 0, lastSequence := 0, nextFileNumber := 0,
    hasComparator := false, hasLogNumber := false, hasPrevLogNumber := false,
    hasNextFileNumber := false, hasLastSequence := false, hasStartKey := false, hasEndKey := false,
    deletedFiles := [], newFiles := [] }

/-- `DeleteFile(level, number)`: a fresh `FileMetaData` whose keys are
`InternalKey("", 0, kValueTypeForSeek)`. -/
def deleteFile (e : VersionEdit) (level number : Nat) : VersionEdit :=
  let key := appendInternalKey [] [] 0 kTypeValue
  { e with deletedFiles := e.deletedFiles ++ [(level, { number, smallest := key, largest := key })] }

end VersionEdit

/-! ## `EncodeTo` -/

/-- One framed record of `EncodeTo`: the payload's length plus `kMaxTag`, the tag, the payload. -/
def putRecord (dst : Bytes) (tag : Nat) (str : Bytes) : Bytes :=
  putVarint32 (putVarint32 dst (str.length + kMaxTag)) tag ++ str

/-- The payload `EncodeTo` writes for a deleted and for a new file up to the keys. -/
def putFileFields (level : Nat) (f : FileMetaData) : Bytes :=
  putLengthPrefixedSlice
    (putLengthPrefixedSlice (putVarint64 (putVarint64 (putVarint32 [] level) f.number) f.fileSize)
      f.smallest)
    f.largest

/-- The three records of a new file: `kNewFile` with the fake flags, `kNewFileInfo` with the
statistics, `kSstFileDataSize`. -/
def putNewFile (dst : Bytes) (level : Nat) (f : FileMetaData) : Bytes :=
  let dst := putRecord dst Tag.newFile.number
    (putVarint32 (putVarint32 (putFileFields level f) (if f.smallestFake then 1 else 0))
      (if f.largestFake then 1 else 0))
  let dst := putRecord dst Tag.newFileInfo.number
    (putVarint64 (putVarint64 (putVarint64 [] f.delPercentage) f.ttlPercentage) f.checkTtlTs)
  putRecord dst Tag.sstFileDataSize.number (putVarint64 [] f.dataSize)

namespace VersionEdit

/-- `VersionEdit::EncodeTo`. -/
def encodeTo (e : VersionEdit) (dst : Bytes) : Bytes :=
  let dst := if e.hasComparator then
    putRecord dst Tag.comparator.number (putLengthPrefixedSlice [] e.comparator) else dst
  let dst := if e.hasLogNumber then
    putRecord dst Tag.logNumber.number (putVarint64 [] e.logNumber) else dst
  let dst := if e.hasPrevLogNumber then
    putRecord dst Tag.prevLogNumber.number (putVarint64 [] e.prevLogNumber) else dst
  let dst := if e.hasNextFileNumber then
    putRecord dst Tag.nextFileNumber.number (putVarint64 [] e.nextFileNumber) else dst
  let dst := if e.hasLastSequence then
    putRecord dst Tag.lastSequence.number (putVarint64 [] e.lastSequence) else dst
  let dst := if e.hasStartKey then
    putRecord dst Tag.startKey.number (putLengthPrefixedSlice [] e.startKey) else dst
  let dst := if e.hasEndKey then
    putRecord dst Tag.endKey.number (putLengthPrefixedSlice [] e.endKey) else dst
  let dst := e.compactPointers.foldl (fun dst pointer =>
    putRecord dst Tag.compactPointer.number
      (putLengthPrefixedSlice (putVarint32 [] pointer.1) pointer.2)) dst
  let dst := e.deletedFiles.foldl (fun dst file =>
    putRecord dst Tag.deletedFile.number (putFileFields file.1 file.2)) dst
  e.newFiles.foldl (fun dst file => putNewFile dst file.1 file.2) dst

end VersionEdit

/-! ## `DecodeFrom` -/

/-- `GetLevel`: a varint below `kNumLevels`. -/
def getLevel (input : Bytes) : Option (Nat × Bytes) :=
  match getVarint32 input with
  | some (v, input) => if v < kNumLevels then some (v, input) else none
  | none => none

/-- `GetInternalKey`: `InternalKey::DecodeFrom` keeps the slice's bytes. -/
def getInternalKey (input : Bytes) : Option (Bytes × Bytes) := getLengthPrefixedSlice input

/-- The chain `GetLevel && GetVarint64(&f.number) && GetVarint64(&f.file_size) &&
GetInternalKey(&f.smallest) && GetInternalKey(&f.largest)` of the file records, into the
temporary `f`. -/
def getFile (input : Bytes) (f : FileMetaData) : Option (Nat × FileMetaData × Bytes) := do
  let (level, input) ← getLevel input
  let (number, input) ← getVarint64 input
  let (fileSize, input) ← getVarint64 input
  let (smallest, input) ← getInternalKey input
  let (largest, input) ← getInternalKey input
  return (level, { f with number, fileSize, smallest, largest }, input)

/-- A `GetVarint64` whose result is ignored: a failed read leaves the field and the input. -/
def readVarint64 (input : Bytes) (field : Nat) : Nat × Bytes :=
  (getVarint64 input).getD (field, input)

/-- One pass of `DecodeNewFileInfo`'s loop, over the temporary file and the input where the loop
broke. The look-ahead reads `len` and `tag` from a copy of the input, each left 0 by a failed
read; the statistics branches read both again from the input itself, which leaves it where the
copy stands, before their own reads. -/
def newFileInfoPass (state : FileMetaData × Bytes) (byte : UInt8) (rest : Bytes) :
    Pass (FileMetaData × Bytes) UInt8 :=
  let f := state.1
  match getVarint32 (byte :: rest) with
  | none => .stop (f, byte :: rest)
  | some (len, fileInput) =>
    if len ≤ kMaxTag then .stop (f, byte :: rest)
    else
      match getVarint32 fileInput with
      | none => .stop (f, byte :: rest)
      | some (tag, input) =>
        match Tag.ofNumber tag with
        | some .newFileInfo =>
          let (delPercentage, input) := readVarint64 input f.delPercentage
          let (ttlPercentage, input) := readVarint64 input f.ttlPercentage
          let (checkTtlTs, input) := readVarint64 input f.checkTtlTs
          .next ({ f with delPercentage, ttlPercentage, checkTtlTs }, state.2) input
        | some .sstFileDataSize =>
          let (dataSize, input) := readVarint64 input f.dataSize
          .next ({ f with dataSize }, state.2) input
        -- `kNewFile` and every other tag end the look-ahead
        | _ => .stop (f, byte :: rest)

/-- `VersionEdit::DecodeNewFileInfo`: the file with its statistics, and the input after them. -/
def decodeNewFileInfo (input : Bytes) (f : FileMetaData) : FileMetaData × Bytes :=
  Lib.iterate newFileInfoPass input.length (f, []) input

/-- What `DecodeFrom`'s loop has done so far: the edit, the temporary `f`, the error message, the
input left where the loop broke without one, and whether `remove_prefix` went past the end. -/
structure DecodeState where
  edit : VersionEdit
  file : FileMetaData := {}
  msg : Option String := none
  left : Bytes := []
  pastEnd : Bool := false
deriving DecidableEq, Repr

/-- A pass that sets `msg`, which ends the loop. -/
def DecodeState.fail (state : DecodeState) (msg : String) : Pass DecodeState UInt8 :=
  .stop { state with msg := some msg }

/-- The `switch` of `DecodeFrom` on a record's tag, at the record's payload; `len` is 0 for a bare
tag. -/
def decodeRecord (state : DecodeState) (tag len : Nat) (input : Bytes) : Pass DecodeState UInt8 :=
  let edit := state.edit
  match Tag.ofNumber tag with
  | some .comparator =>
    match getLengthPrefixedSlice input with
    | some (str, input) =>
      .next { state with edit := { edit with comparator := str, hasComparator := true } } input
    | none => state.fail "comparator name"
  | some .logNumber =>
    match getVarint64 input with
    | some (n, input) =>
      .next { state with edit := { edit with logNumber := n, hasLogNumber := true } } input
    | none => state.fail "log number"
  | some .prevLogNumber =>
    match getVarint64 input with
    | some (n, input) =>
      .next { state with edit := { edit with prevLogNumber := n, hasPrevLogNumber := true } } input
    | none => state.fail "previous log number"
  | some .nextFileNumber =>
    match getVarint64 input with
    | some (n, input) =>
      .next { state with edit := { edit with nextFileNumber := n, hasNextFileNumber := true } }
        input
    | none => state.fail "next file number"
  | some .lastSequence =>
    match getVarint64 input with
    | some (n, input) =>
      .next { state with edit := { edit with lastSequence := n, hasLastSequence := true } } input
    | none => state.fail "last sequence number"
  | some .compactPointer =>
    match getLevel input with
    | some (level, input) =>
      match getInternalKey input with
      | some (key, input) =>
        .next { state with
          edit := { edit with compactPointers := edit.compactPointers ++ [(level, key)] } } input
      | none => state.fail "compaction pointer"
    | none => state.fail "compaction pointer"
  | some .deletedFileForCompat =>
    match getLevel input with
    | some (level, input) =>
      match getVarint64 input with
      | some (number, input) => .next { state with edit := edit.deleteFile level number } input
      | none => state.fail "deleted file"
    | none => state.fail "deleted file"
  | some .newFileForCompat =>
    match getFile input state.file with
    | some (level, f, input) =>
      .next { state with file := f, edit := { edit with newFiles := edit.newFiles ++ [(level, f)] } }
        input
    | none => state.fail "new-file entry for compat"
  | some .newFile =>
    match getFile input state.file with
    | some (level, f, input) =>
      match getVarint32 input with
      | some (smallestFake, input) =>
        match getVarint32 input with
        | some (largestFake, input) =>
          let f := { f with smallestFake := smallestFake != 0, largestFake := largestFake != 0 }
          let (f, input) := decodeNewFileInfo input f
          .next { state with file := f, edit := { edit with newFiles := edit.newFiles ++ [(level, f)] } }
            input
        | none => state.fail "new-file entry 1"
      | none => state.fail "new-file entry 1"
    | none => state.fail "new-file entry 2"
  | some .deletedFile =>
    match getFile input state.file with
    | some (level, f, input) =>
      .next { state with
        file := f, edit := { edit with deletedFiles := edit.deletedFiles ++ [(level, f)] } } input
    | none => state.fail "deleted file"
  | some .startKey =>
    match getLengthPrefixedSlice input with
    | some (str, input) =>
      .next { state with edit := { edit with startKey := str, hasStartKey := true } } input
    | none => state.fail "start key name"
  | some .endKey =>
    match getLengthPrefixedSlice input with
    | some (str, input) =>
      .next { state with edit := { edit with endKey := str, hasEndKey := true } } input
    | none => state.fail "end key name"
  -- the `default` branch, `kNewFileInfo` and `kSstFileDataSize` among it: `remove_prefix(len)`,
  -- which asserts `len <= size()`; past the end the model stops with `pastEnd`
  | _ => if len ≤ input.length then .next state (input.drop len) else .stop { state with pastEnd := true }

/-- One pass of `DecodeFrom`'s loop: the tag, or a length above `kMaxTag` and then the tag; a
failed second read breaks the loop. -/
def decodePass (state : DecodeState) (byte : UInt8) (rest : Bytes) : Pass DecodeState UInt8 :=
  match getVarint32 (byte :: rest) with
  | none => .stop { state with left := byte :: rest }
  | some (tag, input) =>
    if tag > kMaxTag then
      match getVarint32 input with
      | some (tag', input') => decodeRecord state tag' (tag - kMaxTag) input'
      | none => .stop { state with left := input }
    else decodeRecord state tag 0 input

namespace VersionEdit

/-- `VersionEdit::DecodeFrom` on the edit `e`: the status and the edit, or `none` where
`remove_prefix` would pass the end of the input. -/
def decodeFrom (e : VersionEdit) (src : Bytes) : Option (Status × VersionEdit) :=
  let state := Lib.iterate decodePass src.length { edit := e.clear } src
  if state.pastEnd then none
  else
    match state.msg with
    | some msg => some (.corruption ("VersionEdit: " ++ msg), state.edit)
    | none =>
      if state.left ≠ [] then some (.corruption "VersionEdit: invalid tag", state.edit)
      else some (.ok, state.edit)

end VersionEdit

/-! ## The records of an edit

The grammar of what `EncodeTo` writes and `DecodeFrom` reads back: a record is one frame, except
a new file, whose frame is followed by its two statistics frames; and `unknown` is a framed record
of a tag the enum does not name, which the decoder skips. `DecodeState.apply` is what reading a
record does to the edit and to the temporary `f`.
-/

/-- The number, size and keys of a file fit their varints and frames. -/
def FileMetaData.KeysFit (f : FileMetaData) : Prop :=
  f.number < 2 ^ 64 ∧ f.fileSize < 2 ^ 64 ∧ f.smallest.length < 2 ^ 30 ∧ f.largest.length < 2 ^ 30

instance (f : FileMetaData) : Decidable f.KeysFit :=
  inferInstanceAs (Decidable (_ ∧ _ ∧ _ ∧ _))

/-- The statistics of a file fit their `uint64_t` varints. -/
def FileMetaData.StatsFit (f : FileMetaData) : Prop :=
  f.delPercentage < 2 ^ 64 ∧ f.ttlPercentage < 2 ^ 64 ∧ f.checkTtlTs < 2 ^ 64 ∧ f.dataSize < 2 ^ 64

instance (f : FileMetaData) : Decidable f.StatsFit :=
  inferInstanceAs (Decidable (_ ∧ _ ∧ _ ∧ _))

/-- The temporary `f` after a deleted-file record: its number, size and keys are the record's. -/
def FileMetaData.withKeys (base f : FileMetaData) : FileMetaData :=
  { base with number := f.number, fileSize := f.fileSize, smallest := f.smallest, largest := f.largest }

/-- A record of an edit. -/
inductive EditRecord where
  | comparator (name : Bytes)
  | logNumber (number : Nat)
  | prevLogNumber (number : Nat)
  | nextFileNumber (number : Nat)
  | lastSequence (sequence : Nat)
  | startKey (key : Bytes)
  | endKey (key : Bytes)
  | compactPointer (level : Nat) (key : Bytes)
  | deletedFile (level : Nat) (f : FileMetaData)
  | newFile (level : Nat) (f : FileMetaData)
  | unknown (tag : Nat) (payload : Bytes)
deriving DecidableEq, Repr

namespace EditRecord

/-- The tag and the payload of a record's frame, as `EncodeTo` writes them. -/
def frame : EditRecord → Nat × Bytes
  | comparator name => (Tag.comparator.number, putLengthPrefixedSlice [] name)
  | logNumber n => (Tag.logNumber.number, putVarint64 [] n)
  | prevLogNumber n => (Tag.prevLogNumber.number, putVarint64 [] n)
  | nextFileNumber n => (Tag.nextFileNumber.number, putVarint64 [] n)
  | lastSequence n => (Tag.lastSequence.number, putVarint64 [] n)
  | startKey key => (Tag.startKey.number, putLengthPrefixedSlice [] key)
  | endKey key => (Tag.endKey.number, putLengthPrefixedSlice [] key)
  | compactPointer level key =>
    (Tag.compactPointer.number, putLengthPrefixedSlice (putVarint32 [] level) key)
  | deletedFile level f => (Tag.deletedFile.number, putFileFields level f)
  | newFile level f =>
    (Tag.newFile.number, putVarint32 (putVarint32 (putFileFields level f)
      (if f.smallestFake then 1 else 0)) (if f.largestFake then 1 else 0))
  | unknown tag payload => (tag, payload)

/-- The statistics frames after a new file's frame. -/
def trailer : EditRecord → Bytes
  | newFile _ f =>
    putRecord (putRecord [] Tag.newFileInfo.number
        (putVarint64 (putVarint64 (putVarint64 [] f.delPercentage) f.ttlPercentage) f.checkTtlTs))
      Tag.sstFileDataSize.number (putVarint64 [] f.dataSize)
  | _ => []

/-- The bytes of a record. -/
def encode (r : EditRecord) : Bytes := putRecord [] r.frame.1 r.frame.2 ++ r.trailer

/-- Whether the record's tag is one `EncodeTo` writes. -/
def known : EditRecord → Bool
  | unknown _ _ => false
  | _ => true

/-- The values of a record fit what its frame and fields can hold; an unknown record has a tag
the enum does not name and a payload. -/
def Valid : EditRecord → Prop
  | comparator name => name.length < 2 ^ 30
  | logNumber n => n < 2 ^ 64
  | prevLogNumber n => n < 2 ^ 64
  | nextFileNumber n => n < 2 ^ 64
  | lastSequence n => n < 2 ^ 64
  | startKey key => key.length < 2 ^ 30
  | endKey key => key.length < 2 ^ 30
  | compactPointer level key => level < kNumLevels ∧ key.length < 2 ^ 30
  | deletedFile level f => level < kNumLevels ∧ f.KeysFit
  | newFile level f => level < kNumLevels ∧ f.KeysFit ∧ f.StatsFit
  | unknown tag payload => Tag.ofNumber tag = none ∧ tag < 2 ^ 32 ∧ payload ≠ [] ∧
      payload.length < 2 ^ 30

instance (r : EditRecord) : Decidable r.Valid :=
  match r with
  | comparator name => inferInstanceAs (Decidable (name.length < 2 ^ 30))
  | logNumber n => inferInstanceAs (Decidable (n < 2 ^ 64))
  | prevLogNumber n => inferInstanceAs (Decidable (n < 2 ^ 64))
  | nextFileNumber n => inferInstanceAs (Decidable (n < 2 ^ 64))
  | lastSequence n => inferInstanceAs (Decidable (n < 2 ^ 64))
  | startKey key => inferInstanceAs (Decidable (key.length < 2 ^ 30))
  | endKey key => inferInstanceAs (Decidable (key.length < 2 ^ 30))
  | compactPointer level key => inferInstanceAs (Decidable (level < kNumLevels ∧ key.length < 2 ^ 30))
  | deletedFile level f => inferInstanceAs (Decidable (level < kNumLevels ∧ f.KeysFit))
  | newFile level f => inferInstanceAs (Decidable (level < kNumLevels ∧ f.KeysFit ∧ f.StatsFit))
  | unknown tag payload => inferInstanceAs
      (Decidable (Tag.ofNumber tag = none ∧ tag < 2 ^ 32 ∧ payload ≠ [] ∧ payload.length < 2 ^ 30))

end EditRecord

/-- What reading a record does: a setting is set, a compaction pointer or a file is appended.
A deleted file is the temporary `f` with the record's number, size and keys, so it keeps the
statistics and fake flags of the file read before it. -/
def DecodeState.apply (state : DecodeState) : EditRecord → DecodeState
  | .comparator name => { state with edit := { state.edit with comparator := name, hasComparator := true } }
  | .logNumber n => { state with edit := { state.edit with logNumber := n, hasLogNumber := true } }
  | .prevLogNumber n =>
    { state with edit := { state.edit with prevLogNumber := n, hasPrevLogNumber := true } }
  | .nextFileNumber n =>
    { state with edit := { state.edit with nextFileNumber := n, hasNextFileNumber := true } }
  | .lastSequence n =>
    { state with edit := { state.edit with lastSequence := n, hasLastSequence := true } }
  | .startKey key => { state with edit := { state.edit with startKey := key, hasStartKey := true } }
  | .endKey key => { state with edit := { state.edit with endKey := key, hasEndKey := true } }
  | .compactPointer level key =>
    { state with edit := { state.edit with compactPointers := state.edit.compactPointers ++ [(level, key)] } }
  | .deletedFile level f =>
    { state with
      file := state.file.withKeys f
      edit := { state.edit with deletedFiles := state.edit.deletedFiles ++ [(level, state.file.withKeys f)] } }
  | .newFile level f =>
    { state with file := f, edit := { state.edit with newFiles := state.edit.newFiles ++ [(level, f)] } }
  | .unknown _ _ => state

namespace VersionEdit

/-- The records `EncodeTo` writes, in its order. -/
def records (e : VersionEdit) : List EditRecord :=
  (if e.hasComparator then [EditRecord.comparator e.comparator] else []) ++
  (if e.hasLogNumber then [EditRecord.logNumber e.logNumber] else []) ++
  (if e.hasPrevLogNumber then [EditRecord.prevLogNumber e.prevLogNumber] else []) ++
  (if e.hasNextFileNumber then [EditRecord.nextFileNumber e.nextFileNumber] else []) ++
  (if e.hasLastSequence then [EditRecord.lastSequence e.lastSequence] else []) ++
  (if e.hasStartKey then [EditRecord.startKey e.startKey] else []) ++
  (if e.hasEndKey then [EditRecord.endKey e.endKey] else []) ++
  e.compactPointers.map (fun pointer => EditRecord.compactPointer pointer.1 pointer.2) ++
  e.deletedFiles.map (fun file => EditRecord.deletedFile file.1 file.2) ++
  e.newFiles.map (fun file => EditRecord.newFile file.1 file.2)

/-- Every record of the edit fits its frame. -/
def Encodable (e : VersionEdit) : Prop := ∀ r ∈ e.records, r.Valid

instance (e : VersionEdit) : Decidable e.Encodable :=
  inferInstanceAs (Decidable (∀ r ∈ e.records, r.Valid))

/-- What `EncodeTo` keeps of an edit: the settings it has, the compaction pointers and the new
files whole, and of each deleted file its level, number, size and keys. -/
def written (e : VersionEdit) : VersionEdit where
  comparator := if e.hasComparator then e.comparator else []
  logNumber := if e.hasLogNumber then e.logNumber else 0
  prevLogNumber := if e.hasPrevLogNumber then e.prevLogNumber else 0
  nextFileNumber := if e.hasNextFileNumber then e.nextFileNumber else 0
  lastSequence := if e.hasLastSequence then e.lastSequence else 0
  startKey := if e.hasStartKey then e.startKey else []
  endKey := if e.hasEndKey then e.endKey else []
  hasComparator := e.hasComparator
  hasLogNumber := e.hasLogNumber
  hasPrevLogNumber := e.hasPrevLogNumber
  hasNextFileNumber := e.hasNextFileNumber
  hasLastSequence := e.hasLastSequence
  hasStartKey := e.hasStartKey
  hasEndKey := e.hasEndKey
  compactPointers := e.compactPointers
  deletedFiles := e.deletedFiles.map fun file => (file.1, ({} : FileMetaData).withKeys file.2)
  newFiles := e.newFiles

end VersionEdit

/-! ## Reading one record back -/

-- `simp` must not unfold `putVarint32` at `len + kMaxTag`: its `% 2 ^ 32` sends the arithmetic
-- simprocs into a blow-up, so the frames are taken apart by rewriting
theorem putRecord_eq_append (dst : Bytes) (tag : Nat) (str : Bytes) :
    putRecord dst tag str = dst ++ putRecord [] tag str := by
  rw [putRecord, putRecord, putVarint32_eq_append (putVarint32 dst _), putVarint32_eq_append dst,
    putVarint32_eq_append (putVarint32 [] _)]
  simp only [List.append_assoc]

theorem putRecord_ne_nil (dst : Bytes) (tag : Nat) (str : Bytes) : putRecord dst tag str ≠ [] := by
  have written := (length_putVarint32 (putVarint32 dst (str.length + kMaxTag)) tag).1
  simp only [putRecord]
  exact List.ne_nil_of_length_pos (by simp only [List.length_append]; omega)

theorem putFileFields_eq (level : Nat) (f : FileMetaData) :
    putFileFields level f = putVarint32 [] level ++ (putVarint64 [] f.number ++
      (putVarint64 [] f.fileSize ++
        (putLengthPrefixedSlice [] f.smallest ++ putLengthPrefixedSlice [] f.largest))) := by
  simp only [putFileFields, putLengthPrefixedSlice, putVarint32, putVarint64, List.append_assoc,
    List.nil_append]

theorem getVarint32_putVarint32 {v : Nat} (fits : v < 2 ^ 32) (more : Bytes) :
    getVarint32 (putVarint32 [] v ++ more) = some (v, more) := by
  rw [putVarint32, List.nil_append, Nat.mod_eq_of_lt fits, getVarint32_encodeVarint32 fits]

theorem getLevel_putVarint32 {level : Nat} (fits : level < kNumLevels) (more : Bytes) :
    getLevel (putVarint32 [] level ++ more) = some (level, more) := by
  rw [getLevel, getVarint32_putVarint32 (lt_trans fits (by decide))]
  simp [fits]

theorem getFile_putFileFields {level : Nat} {f : FileMetaData} (fits : level < kNumLevels)
    (keys : f.KeysFit) (temp : FileMetaData) (more : Bytes) :
    getFile (putFileFields level f ++ more) temp = some (level, temp.withKeys f, more) := by
  obtain ⟨number, fileSize, smallest, largest⟩ := keys
  rw [putFileFields_eq]
  simp only [List.append_assoc, getFile, getLevel_putVarint32 fits, getVarint64_putVarint64 number,
    getVarint64_putVarint64 fileSize, getInternalKey,
    getLengthPrefixedSlice_putLengthPrefixedSlice (lt_trans smallest (by norm_num)),
    getLengthPrefixedSlice_putLengthPrefixedSlice (lt_trans largest (by norm_num)),
    Option.bind_eq_bind, Option.bind_some]
  rfl

/-- The two varints of a frame read back as the payload's length plus `kMaxTag` and the tag. -/
theorem getVarint32_putRecord (tag : Nat) {str : Bytes} (fits : str.length + kMaxTag < 2 ^ 32)
    (more : Bytes) :
    getVarint32 (putRecord [] tag str ++ more) =
      some (str.length + kMaxTag, putVarint32 [] tag ++ (str ++ more)) := by
  rw [putRecord, putVarint32_eq_append, List.append_assoc, List.append_assoc,
    getVarint32_putVarint32 fits]

theorem decodePass_putRecord (state : DecodeState) {tag : Nat} {str more rest : Bytes}
    {first : UInt8} (tagFits : tag < 2 ^ 32) (nonempty : str ≠ [])
    (fits : str.length + kMaxTag < 2 ^ 32) (split : putRecord [] tag str ++ more = first :: rest) :
    decodePass state first rest = decodeRecord state tag str.length (str ++ more) := by
  have long : str.length + kMaxTag > kMaxTag := by
    have := List.length_pos_of_ne_nil nonempty
    omega
  unfold decodePass
  rw [← split, getVarint32_putRecord tag fits]
  simp only [if_pos long]
  rw [getVarint32_putVarint32 tagFits, Nat.add_sub_cancel]

theorem readVarint64_putVarint64 {v : Nat} (fits : v < 2 ^ 64) (field : Nat) (more : Bytes) :
    readVarint64 (putVarint64 [] v ++ more) field = (v, more) := by
  rw [readVarint64, getVarint64_putVarint64 fits]
  rfl

/-- The look-ahead stops at a frame of any tag but the two statistics tags. -/
theorem newFileInfoPass_stop (state : FileMetaData × Bytes) {tag : Nat} {str more rest : Bytes}
    {first : UInt8} (tagFits : tag < 2 ^ 32) (fits : str.length + kMaxTag < 2 ^ 32)
    (info : Tag.ofNumber tag ≠ some .newFileInfo) (size : Tag.ofNumber tag ≠ some .sstFileDataSize)
    (split : putRecord [] tag str ++ more = first :: rest) :
    newFileInfoPass state first rest = .stop (state.1, first :: rest) := by
  unfold newFileInfoPass
  rw [← split, getVarint32_putRecord tag fits]
  dsimp only
  split_ifs with short
  · rfl
  · rw [getVarint32_putVarint32 tagFits]
    split <;> simp_all

/-- A `kNewFileInfo` frame reads the three statistics. -/
theorem newFileInfoPass_info (state : FileMetaData × Bytes) {f : FileMetaData} (stats : f.StatsFit)
    {more rest : Bytes} {first : UInt8}
    (split : putRecord [] Tag.newFileInfo.number
      (putVarint64 (putVarint64 (putVarint64 [] f.delPercentage) f.ttlPercentage) f.checkTtlTs) ++
        more = first :: rest) :
    newFileInfoPass state first rest =
      .next ({ state.1 with
        delPercentage := f.delPercentage, ttlPercentage := f.ttlPercentage,
        checkTtlTs := f.checkTtlTs }, state.2) more := by
  obtain ⟨del, ttl, check, _⟩ := stats
  have payload := length_putVarint64 (putVarint64 (putVarint64 [] f.delPercentage) f.ttlPercentage)
    f.checkTtlTs
  have middle := (length_putVarint64 (putVarint64 [] f.delPercentage) f.ttlPercentage).2
  have inner := (length_putVarint64 [] f.delPercentage).2
  have fits : (putVarint64 (putVarint64 (putVarint64 [] f.delPercentage) f.ttlPercentage)
      f.checkTtlTs).length + kMaxTag < 2 ^ 32 := by
    simp only [List.length_nil] at inner
    unfold kMaxTag
    omega
  unfold newFileInfoPass
  rw [← split, getVarint32_putRecord _ fits]
  dsimp only
  rw [if_neg (by omega),
    getVarint32_putVarint32 (by decide), putVarint64_eq_append (putVarint64 _ _),
    putVarint64_eq_append (putVarint64 [] _)]
  simp only [Tag.ofNumber_number, List.append_assoc, readVarint64_putVarint64 del,
    readVarint64_putVarint64 ttl, readVarint64_putVarint64 check]

/-- A `kSstFileDataSize` frame reads the data size. -/
theorem newFileInfoPass_dataSize (state : FileMetaData × Bytes) {f : FileMetaData}
    (stats : f.StatsFit) {more rest : Bytes} {first : UInt8}
    (split : putRecord [] Tag.sstFileDataSize.number (putVarint64 [] f.dataSize) ++ more =
      first :: rest) :
    newFileInfoPass state first rest = .next ({ state.1 with dataSize := f.dataSize }, state.2) more := by
  have payload := length_putVarint64 [] f.dataSize
  have fits : (putVarint64 [] f.dataSize).length + kMaxTag < 2 ^ 32 := by
    simp only [List.length_nil] at payload
    unfold kMaxTag
    omega
  unfold newFileInfoPass
  rw [← split, getVarint32_putRecord _ fits]
  dsimp only
  rw [if_neg (by omega),
    getVarint32_putVarint32 (by decide)]
  simp only [Tag.ofNumber_number, readVarint64_putVarint64 stats.2.2.2]

/-- The statistics look-ahead stops at the start of the input, whatever the file and the fuel. -/
def InfoStops (input : Bytes) : Prop :=
  ∀ (f : FileMetaData) (fuel : Nat), input.length ≤ fuel →
    Lib.iterate newFileInfoPass fuel (f, []) input = (f, input)

theorem infoStops_nil : InfoStops [] := fun f fuel _ => iterate_nil newFileInfoPass fuel (f, [])

theorem infoStops_putRecord {tag : Nat} {str : Bytes} (tagFits : tag < 2 ^ 32)
    (fits : str.length + kMaxTag < 2 ^ 32) (info : Tag.ofNumber tag ≠ some .newFileInfo)
    (size : Tag.ofNumber tag ≠ some .sstFileDataSize) (more : Bytes) :
    InfoStops (putRecord [] tag str ++ more) := by
  intro f fuel enough
  obtain ⟨first, rest, split⟩ :=
    List.exists_cons_of_ne_nil (List.append_ne_nil_of_left_ne_nil (putRecord_ne_nil [] tag str) more)
  rw [split] at enough ⊢
  obtain ⟨fuel, rfl⟩ : ∃ smaller, fuel = smaller + 1 :=
    Nat.exists_eq_add_one.mpr (by simp only [List.length_cons] at enough; omega)
  rw [iterate_cons, newFileInfoPass_stop (f, []) tagFits fits info size split]

/-- The two statistics frames of a new file are read into the temporary, and the look-ahead stops
after them. -/
theorem decodeNewFileInfo_trailer {level : Nat} {f : FileMetaData} (stats : f.StatsFit)
    (temp : FileMetaData) {more : Bytes} (stops : InfoStops more) :
    decodeNewFileInfo ((EditRecord.newFile level f).trailer ++ more) temp =
      ({ temp with
        delPercentage := f.delPercentage, ttlPercentage := f.ttlPercentage,
        checkTtlTs := f.checkTtlTs, dataSize := f.dataSize }, more) := by
  have layout : (EditRecord.newFile level f).trailer ++ more =
      putRecord [] Tag.newFileInfo.number
        (putVarint64 (putVarint64 (putVarint64 [] f.delPercentage) f.ttlPercentage) f.checkTtlTs) ++
      (putRecord [] Tag.sstFileDataSize.number (putVarint64 [] f.dataSize) ++ more) := by
    rw [EditRecord.trailer, putRecord_eq_append, List.append_assoc]
  obtain ⟨first, rest, infoSplit⟩ := List.exists_cons_of_ne_nil
    (List.append_ne_nil_of_left_ne_nil (putRecord_ne_nil [] Tag.newFileInfo.number
      (putVarint64 (putVarint64 (putVarint64 [] f.delPercentage) f.ttlPercentage) f.checkTtlTs))
      (putRecord [] Tag.sstFileDataSize.number (putVarint64 [] f.dataSize) ++ more))
  obtain ⟨first', rest', sizeSplit⟩ := List.exists_cons_of_ne_nil
    (List.append_ne_nil_of_left_ne_nil
      (putRecord_ne_nil [] Tag.sstFileDataSize.number (putVarint64 [] f.dataSize)) more)
  -- each frame takes one pass of the loop and at least one byte
  have long : more.length + 2 ≤ (first :: rest).length := by
    have infoLong := List.length_pos_of_ne_nil (putRecord_ne_nil [] Tag.newFileInfo.number
      (putVarint64 (putVarint64 (putVarint64 [] f.delPercentage) f.ttlPercentage) f.checkTtlTs))
    have sizeLong := List.length_pos_of_ne_nil
      (putRecord_ne_nil [] Tag.sstFileDataSize.number (putVarint64 [] f.dataSize))
    rw [← infoSplit, List.length_append, List.length_append]
    omega
  obtain ⟨fuel, counted⟩ : ∃ fuel, (first :: rest).length = fuel + 1 + 1 :=
    ⟨(first :: rest).length - 2, by omega⟩
  unfold decodeNewFileInfo
  rw [layout, infoSplit, counted, iterate_cons, newFileInfoPass_info (temp, []) stats infoSplit]
  dsimp only
  rw [sizeSplit, iterate_cons, newFileInfoPass_dataSize _ stats sizeSplit]
  dsimp only
  rw [stops _ fuel (by omega)]

theorem length_putFileFields (level : Nat) (f : FileMetaData) :
    0 < (putFileFields level f).length ∧
      (putFileFields level f).length ≤ 35 + f.smallest.length + f.largest.length := by
  have levelLength := length_putVarint32 [] level
  have numberLength := length_putVarint64 (putVarint32 [] level) f.number
  have sizeLength := length_putVarint64 (putVarint64 (putVarint32 [] level) f.number) f.fileSize
  have smallestLength := length_putLengthPrefixedSlice
    (putVarint64 (putVarint64 (putVarint32 [] level) f.number) f.fileSize) f.smallest
  have largestLength := length_putLengthPrefixedSlice (putLengthPrefixedSlice
    (putVarint64 (putVarint64 (putVarint32 [] level) f.number) f.fileSize) f.smallest) f.largest
  simp only [List.length_nil] at levelLength
  unfold putFileFields
  omega

namespace EditRecord

/-- The payload of a valid record holds at least one byte, and its length field fits 32 bits. -/
theorem payload_length {r : EditRecord} (valid : r.Valid) :
    0 < r.frame.2.length ∧ r.frame.2.length + kMaxTag < 2 ^ 32 := by
  unfold kMaxTag
  cases r with
  | comparator name | startKey name | endKey name =>
    have written := length_putLengthPrefixedSlice [] name
    simp only [Valid, frame, List.length_nil] at valid written ⊢
    omega
  | logNumber n | prevLogNumber n | nextFileNumber n | lastSequence n =>
    have written := length_putVarint64 [] n
    simp only [frame, List.length_nil] at written ⊢
    omega
  | compactPointer level key =>
    have levelLength := length_putVarint32 [] level
    have written := length_putLengthPrefixedSlice (putVarint32 [] level) key
    simp only [Valid, frame, List.length_nil] at valid levelLength written ⊢
    omega
  | deletedFile level f =>
    have written := length_putFileFields level f
    obtain ⟨-, -, -, smallest, largest⟩ := valid
    simp only [frame]
    omega
  | newFile level f =>
    have written := length_putFileFields level f
    have smallFake := length_putVarint32 (putFileFields level f) (if f.smallestFake then 1 else 0)
    have largeFake := length_putVarint32 (putVarint32 (putFileFields level f)
      (if f.smallestFake then 1 else 0)) (if f.largestFake then 1 else 0)
    obtain ⟨-, ⟨-, -, smallest, largest⟩, -⟩ := valid
    simp only [frame]
    omega
  | unknown tag payload =>
    obtain ⟨-, -, nonempty, short⟩ := valid
    have := List.length_pos_of_ne_nil nonempty
    simp only [frame]
    omega

/-- The frame of a valid record: a tag below `2 ^ 32`, a payload, and a length field below
`2 ^ 32`. -/
theorem frame_fits {r : EditRecord} (valid : r.Valid) :
    r.frame.1 < 2 ^ 32 ∧ r.frame.2 ≠ [] ∧ r.frame.2.length + kMaxTag < 2 ^ 32 := by
  obtain ⟨nonempty, fits⟩ := payload_length valid
  refine ⟨?_, List.ne_nil_of_length_pos nonempty, fits⟩
  cases r with
  | unknown tag payload => exact valid.2.1
  | _ =>
    simp only [frame]
    exact lt_trans (Tag.number_lt _) (by norm_num)

/-- No valid record starts with a statistics frame. -/
theorem frame_not_statistics {r : EditRecord} (valid : r.Valid) :
    Tag.ofNumber r.frame.1 ≠ some .newFileInfo ∧ Tag.ofNumber r.frame.1 ≠ some .sstFileDataSize := by
  cases r with
  | unknown tag payload => simp [frame, valid.1]
  | _ => simp [frame]

theorem encode_ne_nil (r : EditRecord) : r.encode ≠ [] :=
  List.append_ne_nil_of_left_ne_nil (putRecord_ne_nil [] r.frame.1 r.frame.2) r.trailer

end EditRecord

/-- After any valid records, the statistics look-ahead stops. -/
theorem infoStops_flatMap {later : List EditRecord} (valid : ∀ r ∈ later, r.Valid) :
    InfoStops (later.flatMap EditRecord.encode) := by
  cases later with
  | nil => exact infoStops_nil
  | cons r rs =>
    have first := valid r List.mem_cons_self
    obtain ⟨tagFits, -, fits⟩ := EditRecord.frame_fits first
    obtain ⟨info, size⟩ := EditRecord.frame_not_statistics first
    rw [List.flatMap_cons, EditRecord.encode, List.append_assoc]
    exact infoStops_putRecord tagFits fits info size _

theorem fake_bne_zero (flag : Bool) : ((if flag then 1 else 0 : Nat) != 0) = flag := by
  cases flag <;> rfl

theorem fake_lt (flag : Bool) : (if flag then 1 else 0 : Nat) < 2 ^ 32 := by
  cases flag <;> decide

/-- A new file's frame, fake flags and statistics frames are read into the temporary, which then
is the file itself. -/
theorem decodeRecord_newFile (state : DecodeState) {level : Nat} {f : FileMetaData}
    (valid : (EditRecord.newFile level f).Valid) {more : Bytes} (stops : InfoStops more) :
    decodeRecord state Tag.newFile.number (EditRecord.newFile level f).frame.2.length
      ((EditRecord.newFile level f).frame.2 ++ ((EditRecord.newFile level f).trailer ++ more)) =
      .next (state.apply (.newFile level f)) more := by
  obtain ⟨fits, keys, stats⟩ := valid
  simp only [EditRecord.frame]
  rw [putVarint32_eq_append (putVarint32 _ _), putVarint32_eq_append (putFileFields _ _)]
  simp only [List.append_assoc, decodeRecord, Tag.ofNumber_number, getFile_putFileFields fits keys]
  simp only [getVarint32_putVarint32 (fake_lt _), fake_bne_zero]
  rw [decodeNewFileInfo_trailer stats _ stops]
  -- every field of the temporary is now the file's own
  simp only [DecodeState.apply, FileMetaData.withKeys]

/-- Reading a valid record's frame at its payload does what the record means, whatever follows
that stops the statistics look-ahead. -/
theorem decodeRecord_frame (state : DecodeState) {r : EditRecord} (valid : r.Valid) {more : Bytes}
    (stops : InfoStops more) :
    decodeRecord state r.frame.1 r.frame.2.length (r.frame.2 ++ (r.trailer ++ more)) =
      .next (state.apply r) more := by
  cases r with
  | comparator name | startKey name | endKey name =>
    simp only [EditRecord.frame, EditRecord.trailer, List.nil_append, decodeRecord,
      Tag.ofNumber_number, getLengthPrefixedSlice_putLengthPrefixedSlice
        (lt_trans (show name.length < 2 ^ 30 from valid) (by norm_num))]
    rfl
  | logNumber n | prevLogNumber n | nextFileNumber n | lastSequence n =>
    simp only [EditRecord.frame, EditRecord.trailer, List.nil_append, decodeRecord,
      Tag.ofNumber_number, getVarint64_putVarint64 (show n < 2 ^ 64 from valid)]
    rfl
  | compactPointer level key =>
    rw [EditRecord.frame, putLengthPrefixedSlice_eq_append]
    simp only [EditRecord.trailer, List.nil_append, List.append_assoc, decodeRecord,
      Tag.ofNumber_number, getLevel_putVarint32 valid.1, getInternalKey,
      getLengthPrefixedSlice_putLengthPrefixedSlice (lt_trans valid.2 (by norm_num))]
    rfl
  | deletedFile level f =>
    simp only [EditRecord.frame, EditRecord.trailer, List.nil_append, decodeRecord,
      Tag.ofNumber_number, getFile_putFileFields valid.1 valid.2]
    rfl
  | newFile level f => exact decodeRecord_newFile state valid stops
  | unknown tag payload =>
    obtain ⟨unnamed, -, -, -⟩ := valid
    -- the `default` branch skips the payload by its length
    have within : payload.length ≤ (payload ++ more).length := by simp
    simp only [EditRecord.frame, EditRecord.trailer, List.nil_append, decodeRecord, unnamed,
      if_pos within, List.drop_left]
    rfl

/-- One pass of `DecodeFrom`'s loop at a valid record reads exactly that record. -/
theorem decodePass_encode (state : DecodeState) {r : EditRecord} (valid : r.Valid) {more : Bytes}
    (stops : InfoStops more) {first : UInt8} {rest : Bytes} (encoded : r.encode = first :: rest) :
    decodePass state first (rest ++ more) = .next (state.apply r) more := by
  obtain ⟨tagFits, nonempty, fits⟩ := EditRecord.frame_fits valid
  have split : putRecord [] r.frame.1 r.frame.2 ++ (r.trailer ++ more) = first :: (rest ++ more) := by
    rw [← List.append_assoc, ← EditRecord.encode, encoded, List.cons_append]
  rw [decodePass_putRecord state tagFits nonempty fits split]
  exact decodeRecord_frame state valid stops

@[simp] theorem DecodeState.apply_msg (state : DecodeState) (r : EditRecord) :
    (state.apply r).msg = state.msg := by
  cases r <;> rfl

@[simp] theorem DecodeState.apply_left (state : DecodeState) (r : EditRecord) :
    (state.apply r).left = state.left := by
  cases r <;> rfl

@[simp] theorem DecodeState.apply_pastEnd (state : DecodeState) (r : EditRecord) :
    (state.apply r).pastEnd = state.pastEnd := by
  cases r <;> rfl

/-- Reading records never sets an error, a break or a skip past the end. -/
theorem foldl_apply_flags (items : List EditRecord) (state : DecodeState) :
    (items.foldl DecodeState.apply state).msg = state.msg ∧
      (items.foldl DecodeState.apply state).left = state.left ∧
      (items.foldl DecodeState.apply state).pastEnd = state.pastEnd := by
  induction items generalizing state with
  | nil => exact ⟨rfl, rfl, rfl⟩
  | cons r rs ih =>
    obtain ⟨msg, left, pastEnd⟩ := ih (state.apply r)
    simp only [List.foldl_cons, msg, left, pastEnd, DecodeState.apply_msg, DecodeState.apply_left,
      DecodeState.apply_pastEnd, and_self]

/-- `DecodeFrom` reads any sequence of valid records, written one after the other, as the fold of
their meanings, with status OK. -/
theorem decodeFrom_flatMap_encode (e : VersionEdit) {items : List EditRecord}
    (valid : ∀ r ∈ items, r.Valid) :
    e.decodeFrom (items.flatMap EditRecord.encode) =
      some (.ok, (items.foldl DecodeState.apply { edit := e.clear }).edit) := by
  -- the loop consumes one record a pass: the chunk rule of `Lib.iterate`, with the statistics
  -- look-ahead stopping at every record after a new file
  have run := iterate_flatMap_of_lookahead decodePass EditRecord.encode EditRecord.Valid
    DecodeState.apply (fun r _ => r.encode_ne_nil)
    (fun state r later first rest rValid laterValid encoded =>
      decodePass_encode state rValid (infoStops_flatMap laterValid) encoded)
    items _ { edit := e.clear } valid le_rfl
  obtain ⟨msg, left, pastEnd⟩ := foldl_apply_flags items { edit := e.clear }
  simp only [VersionEdit.decodeFrom, run, msg, left, pastEnd]
  rfl

/-! ## The round trip of `EncodeTo` -/

/-- A fold whose step appends what the element alone determines writes the elements' bytes in
order. -/
theorem foldl_of_appends {α : Type} (step : Bytes → α → Bytes)
    (appends : ∀ dst a, step dst a = dst ++ step [] a) :
    ∀ (xs : List α) (dst : Bytes), xs.foldl step dst = dst ++ xs.flatMap (step []) := by
  intro xs
  induction xs with
  | nil => intro dst; simp
  | cons a rest ih =>
    intro dst
    rw [List.foldl_cons, ih, appends, List.flatMap_cons, List.append_assoc]

theorem ite_putRecord (c : Prop) [Decidable c] (dst : Bytes) (tag : Nat) (str : Bytes) :
    (if c then putRecord dst tag str else dst) = dst ++ if c then putRecord [] tag str else [] := by
  split
  · exact putRecord_eq_append dst tag str
  · rw [List.append_nil]

theorem putNewFile_eq_append (dst : Bytes) (level : Nat) (f : FileMetaData) :
    putNewFile dst level f = dst ++ putNewFile [] level f := by
  rw [putNewFile, putNewFile, putRecord_eq_append (putRecord (putRecord dst _ _) _ _),
    putRecord_eq_append (putRecord dst _ _), putRecord_eq_append dst,
    putRecord_eq_append (putRecord (putRecord [] _ _) _ _), putRecord_eq_append (putRecord [] _ _)]
  simp only [List.append_assoc]

theorem putNewFile_nil (level : Nat) (f : FileMetaData) :
    putNewFile [] level f = (EditRecord.newFile level f).encode := by
  rw [putNewFile, EditRecord.encode, EditRecord.trailer, EditRecord.frame,
    putRecord_eq_append (putRecord (putRecord [] _ _) _ _),
    putRecord_eq_append (putRecord [] Tag.newFile.number _) Tag.newFileInfo.number,
    putRecord_eq_append (putRecord [] Tag.newFileInfo.number _) Tag.sstFileDataSize.number]
  simp only [List.append_assoc]

theorem flatMap_encode_ite (c : Prop) [Decidable c] (r : EditRecord) :
    (if c then [r] else []).flatMap EditRecord.encode = if c then r.encode else [] := by
  split <;> simp

namespace VersionEdit

/-- `EncodeTo` appends the edit's records one after the other. -/
theorem encodeTo_eq (e : VersionEdit) (dst : Bytes) :
    e.encodeTo dst = dst ++ e.records.flatMap EditRecord.encode := by
  unfold encodeTo
  rw [foldl_of_appends (fun dst (file : Nat × FileMetaData) => putNewFile dst file.1 file.2)
      (fun dst file => putNewFile_eq_append dst file.1 file.2),
    foldl_of_appends (fun dst (file : Nat × FileMetaData) =>
        putRecord dst Tag.deletedFile.number (putFileFields file.1 file.2))
      (fun dst file => putRecord_eq_append dst _ _),
    foldl_of_appends (fun dst (pointer : Nat × Bytes) => putRecord dst Tag.compactPointer.number
        (putLengthPrefixedSlice (putVarint32 [] pointer.1) pointer.2))
      (fun dst pointer => putRecord_eq_append dst _ _),
    ite_putRecord (e.hasEndKey = true), ite_putRecord (e.hasStartKey = true),
    ite_putRecord (e.hasLastSequence = true), ite_putRecord (e.hasNextFileNumber = true),
    ite_putRecord (e.hasPrevLogNumber = true), ite_putRecord (e.hasLogNumber = true),
    ite_putRecord (e.hasComparator = true)]
  simp only [records, List.flatMap_append, flatMap_encode_ite, List.flatMap_map, List.append_assoc,
    EditRecord.encode, EditRecord.frame, EditRecord.trailer, List.append_nil, putNewFile_nil]

end VersionEdit

theorem foldl_apply_ite (c : Prop) [Decidable c] (r : EditRecord) (state : DecodeState) :
    (if c then [r] else []).foldl DecodeState.apply state = if c then state.apply r else state := by
  split <;> rfl

theorem foldl_compactPointers (pointers : List (Nat × Bytes)) :
    ∀ state : DecodeState,
      (pointers.map fun pointer => EditRecord.compactPointer pointer.1 pointer.2).foldl
        DecodeState.apply state =
      { state with edit := { state.edit with compactPointers := state.edit.compactPointers ++ pointers } } := by
  induction pointers with
  | nil => intro state; simp
  | cons pointer rest ih =>
    intro state
    simp only [List.map_cons, List.foldl_cons, ih, DecodeState.apply, List.append_assoc,
      List.singleton_append]

theorem withKeys_withKeys (base f g : FileMetaData) : (base.withKeys g).withKeys f = base.withKeys f :=
  rfl

/-- Deleted files read after no new file carry the statistics of a fresh `FileMetaData`. -/
theorem foldl_deletedFiles (files : List (Nat × FileMetaData)) :
    ∀ state : DecodeState, (∀ f, state.file.withKeys f = ({} : FileMetaData).withKeys f) →
      ((files.map fun file => EditRecord.deletedFile file.1 file.2).foldl DecodeState.apply state).edit =
        { state.edit with
          deletedFiles := state.edit.deletedFiles ++
            files.map fun file => (file.1, ({} : FileMetaData).withKeys file.2) } := by
  induction files with
  | nil => intro state _; simp
  | cons file rest ih =>
    intro state fresh
    -- the temporary after the record is again a fresh file with the record's keys
    have kept : ∀ f, (state.file.withKeys file.2).withKeys f = ({} : FileMetaData).withKeys f := by
      intro f
      rw [withKeys_withKeys, fresh]
    simp only [List.map_cons, List.foldl_cons]
    rw [ih (state.apply (.deletedFile file.1 file.2)) kept]
    simp only [DecodeState.apply, fresh, List.append_assoc, List.singleton_append]

theorem foldl_newFiles (files : List (Nat × FileMetaData)) :
    ∀ state : DecodeState,
      ((files.map fun file => EditRecord.newFile file.1 file.2).foldl DecodeState.apply state).edit =
        { state.edit with newFiles := state.edit.newFiles ++ files } := by
  induction files with
  | nil => intro state; simp
  | cons file rest ih =>
    intro state
    simp only [List.map_cons, List.foldl_cons, ih, DecodeState.apply, List.append_assoc,
      List.singleton_append]

/-- A choice between two states is made field by field. -/
theorem ite_decodeState (c : Prop) [Decidable c] (s t : DecodeState) :
    (if c then s else t) =
      { edit := if c then s.edit else t.edit, file := if c then s.file else t.file,
        msg := if c then s.msg else t.msg, left := if c then s.left else t.left,
        pastEnd := if c then s.pastEnd else t.pastEnd } := by
  split <;> rfl

/-- A choice between two edits is made field by field. -/
theorem ite_versionEdit (c : Prop) [Decidable c] (e e' : VersionEdit) :
    (if c then e else e') =
      { comparator := if c then e.comparator else e'.comparator
        logNumber := if c then e.logNumber else e'.logNumber
        prevLogNumber := if c then e.prevLogNumber else e'.prevLogNumber
        nextFileNumber := if c then e.nextFileNumber else e'.nextFileNumber
        lastSequence := if c then e.lastSequence else e'.lastSequence
        startKey := if c then e.startKey else e'.startKey
        endKey := if c then e.endKey else e'.endKey
        hasComparator := if c then e.hasComparator else e'.hasComparator
        hasLogNumber := if c then e.hasLogNumber else e'.hasLogNumber
        hasPrevLogNumber := if c then e.hasPrevLogNumber else e'.hasPrevLogNumber
        hasNextFileNumber := if c then e.hasNextFileNumber else e'.hasNextFileNumber
        hasLastSequence := if c then e.hasLastSequence else e'.hasLastSequence
        hasStartKey := if c then e.hasStartKey else e'.hasStartKey
        hasEndKey := if c then e.hasEndKey else e'.hasEndKey
        compactPointers := if c then e.compactPointers else e'.compactPointers
        deletedFiles := if c then e.deletedFiles else e'.deletedFiles
        newFiles := if c then e.newFiles else e'.newFiles } := by
  split <;> rfl

/-- Reading the records of an edit into a fresh edit gives what `EncodeTo` keeps of it. -/
theorem foldl_records (e : VersionEdit) :
    (e.records.foldl DecodeState.apply { edit := ({} : VersionEdit).clear }).edit = e.written := by
  rw [VersionEdit.records]
  simp only [List.foldl_append, foldl_newFiles]
  rw [foldl_deletedFiles]
  · -- each setting is read at most once, so its field is the record's or the cleared one
    simp only [foldl_compactPointers, foldl_apply_ite, ite_decodeState, ite_versionEdit,
      DecodeState.apply, ite_self, VersionEdit.clear]
    simp [VersionEdit.written]
  · -- the settings and compaction pointers leave the temporary fresh
    intro f
    simp only [foldl_compactPointers, foldl_apply_ite, ite_decodeState, DecodeState.apply, ite_self]

/-- Records of unknown tags change nothing when read. -/
theorem foldl_apply_filter_known (items : List EditRecord) :
    ∀ state : DecodeState,
      items.foldl DecodeState.apply state = (items.filter EditRecord.known).foldl DecodeState.apply state := by
  induction items with
  | nil => intro state; rfl
  | cons r rest ih =>
    intro state
    cases r with
    | unknown tag payload =>
      simp only [List.foldl_cons, List.filter_cons, EditRecord.known, Bool.false_eq_true, if_false]
      exact ih state
    | _ => simp only [List.foldl_cons, List.filter_cons, EditRecord.known, if_true, ih]

namespace VersionEdit

/-- The round trip of the manifest record: a fresh `VersionEdit` decodes what `EncodeTo` wrote of
an edit whose records fit their frames, with status OK, reading back every setting it has, every
compaction pointer and new file whole (statistics and fake flags included), and the level, number,
size and keys of every deleted file. -/
theorem decodeFrom_encodeTo {e : VersionEdit} (encodable : e.Encodable) :
    ({} : VersionEdit).decodeFrom (e.encodeTo []) = some (.ok, e.written) := by
  rw [encodeTo_eq, List.nil_append, decodeFrom_flatMap_encode {} encodable, foldl_records]

/-- An edit of a tablet's manifest: its comparator and log number, a deleted and an added file. -/
def sampleEdit : VersionEdit :=
  { comparator := [108, 101, 118, 101, 108, 100, 98], hasComparator := true,
    logNumber := 5, hasLogNumber := true,
    deletedFiles := [(0, { number := 3, fileSize := 100, smallest := [97], largest := [98] })],
    newFiles := [(1, {
      number := 7, fileSize := 4096, dataSize := 4000, smallest := [97], largest := [122],
      delPercentage := 10, ttlPercentage := 20, checkTtlTs := 1000, largestFake := true })] }

theorem decodeFrom_encodeTo_sampleEdit :
    sampleEdit.Encodable ∧
      ({} : VersionEdit).decodeFrom (sampleEdit.encodeTo []) = some (.ok, sampleEdit.written) :=
  ⟨by decide, decodeFrom_encodeTo (by decide)⟩

/-- Forward compatibility of the manifest record: records of tags the enum does not name, put
between the whole records `EncodeTo` writes, are skipped by their lengths and change nothing that
is read back. A new file's frame and its two statistics frames are one record here. -/
theorem decodeFrom_skips_unknown {e : VersionEdit} {items : List EditRecord}
    (valid : ∀ r ∈ items, r.Valid) (kept : items.filter EditRecord.known = e.records) :
    ({} : VersionEdit).decodeFrom (items.flatMap EditRecord.encode) = some (.ok, e.written) := by
  rw [decodeFrom_flatMap_encode {} valid, foldl_apply_filter_known, kept, foldl_records]

theorem decodeFrom_skips_unknown_sampleEdit :
    let items := EditRecord.unknown 8 [1, 2, 3] :: sampleEdit.records ++ [.unknown 16 [0]]
    (∀ r ∈ items, r.Valid) ∧ items.filter EditRecord.known = sampleEdit.records ∧
      ({} : VersionEdit).decodeFrom (items.flatMap EditRecord.encode) =
        some (.ok, sampleEdit.written) :=
  ⟨by decide, by decide, decodeFrom_skips_unknown (by decide) (by decide)⟩

/-- The round trip and forward compatibility together: `DecodeFrom` reads back what `EncodeTo`
wrote, and the same edit from its records with unknown ones between them. -/
theorem decodeFrom_encodeTo_interleaved {e : VersionEdit} (encodable : e.Encodable) :
    ({} : VersionEdit).decodeFrom (e.encodeTo []) = some (.ok, e.written) ∧
      ∀ items : List EditRecord, (∀ r ∈ items, r.Valid) →
        items.filter EditRecord.known = e.records →
        ({} : VersionEdit).decodeFrom (items.flatMap EditRecord.encode) = some (.ok, e.written) := by
  refine ⟨?_, fun items valid kept => ?_⟩
  · rw [encodeTo_eq, List.nil_append, decodeFrom_flatMap_encode {} encodable, foldl_records]
  · rw [decodeFrom_flatMap_encode {} valid, foldl_apply_filter_known, kept, foldl_records]

theorem decodeFrom_encodeTo_interleaved_sampleEdit :
    sampleEdit.Encodable ∧
      ({} : VersionEdit).decodeFrom (sampleEdit.encodeTo []) = some (.ok, sampleEdit.written) ∧
      ∀ items : List EditRecord, (∀ r ∈ items, r.Valid) →
        items.filter EditRecord.known = sampleEdit.records →
        ({} : VersionEdit).decodeFrom (items.flatMap EditRecord.encode) =
          some (.ok, sampleEdit.written) :=
  ⟨by decide, decodeFrom_encodeTo_interleaved (by decide)⟩

/-- A file with statistics. -/
def statsFile : FileMetaData :=
  { number := 7, fileSize := 4096, dataSize := 4000, smallest := [97], largest := [122],
    delPercentage := 10, ttlPercentage := 20, checkTtlTs := 1000 }

/-- An edit that adds that file at level 1. -/
def statsEdit : VersionEdit := { newFiles := [(1, statsFile)] }

/-- The edit reads back with the file's statistics. With an unknown record between the file's
frame and its statistics frames, `DecodeNewFileInfo` stops at the unknown tag, the loop skips it
and then both statistics frames as tags it does not handle, and the file is read back with the
statistics of the fresh temporary. -/
theorem decodeFrom_unknown_before_statistics :
    statsEdit.Encodable ∧ (EditRecord.unknown 8 [1, 2, 3]).Valid ∧
      ({} : VersionEdit).decodeFrom (statsEdit.encodeTo []) = some (.ok, statsEdit.written) ∧
      ({} : VersionEdit).decodeFrom
          (putRecord [] Tag.newFile.number (EditRecord.newFile 1 statsFile).frame.2 ++
            (EditRecord.unknown 8 [1, 2, 3]).encode ++ (EditRecord.newFile 1 statsFile).trailer) =
        some (.ok, { newFiles := [(1, ({} : FileMetaData).withKeys statsFile)] }) := by
  decide +kernel

/-- A record whose length field runs past the input: the length `5` above `kMaxTag`, the unknown
tag `99` and no payload. `DecodeFrom` reaches `input.remove_prefix(5)` on the empty rest. -/
theorem decodeFrom_unknown_past_end :
    Tag.ofNumber 99 = none ∧
      ({} : VersionEdit).decodeFrom (putVarint32 (putVarint32 [] (kMaxTag + 5)) 99) = none := by
  decide +kernel

end VersionEdit

end Tera.LevelDB
