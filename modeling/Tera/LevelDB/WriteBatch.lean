import Tera.LevelDB.Coding
import Tera.Lib.IteratorLoop

/-! # Write batches and their split by locality group

`WriteBatch::rep_` is an eight-byte sequence number, a four-byte count and the records: a tag byte,
`kTypeValue` with a key and a value or `kTypeDeletion` with a key, the strings length-prefixed.
`Put` and `Delete` append a record and count it, `WriteBatchInternal::Append` joins two batches,
`Iterate` hands the records to a handler in order, and `SeperateLocalityGroup` (the source's
spelling) deals them out to one batch per locality group by the id of each key's group marker,
strips the marker, and numbers every group's batch to end at the last sequence number of the whole
batch.

Batches the API builds are read back whole: `iterate_ofRecords` and
`seperateLocalityGroup_ofRecords` are the round trips of the format.
-/

namespace Tera.LevelDB

open Tera.Lib Tera.RawKey

/-- `kTypeDeletion`. -/
def kTypeDeletion : UInt8 := 0

/-- `kTypeValue`. -/
def kTypeValue : UInt8 := 1

/-- `kHeader`: the sequence number and the count. -/
def kHeader : Nat := 12

/-- The `Status` codes the modelled paths return, with the source's messages. -/
inductive Status where
  | ok
  | corruption (message : String)
  | ioError (message : String)
  | ioPermissionDenied (message : String)
deriving DecidableEq, Repr

/-- A record as `WriteBatch::Handler` receives it. -/
inductive BatchRecord where
  | put (key value : Bytes)
  | delete (key : Bytes)
deriving DecidableEq, Repr

namespace BatchRecord

/-- The key of a record. -/
def key : BatchRecord → Bytes
  | .put key _ => key
  | .delete key => key

/-- The record under another key. -/
def withKey : BatchRecord → Bytes → BatchRecord
  | .put _ value, key => .put key value
  | .delete _, key => .delete key

/-- The tag byte of a record and the bytes after it, as `Put` and `Delete` append them. -/
def encode : BatchRecord → UInt8 × Bytes
  | .put key value => (kTypeValue, putLengthPrefixedSlice (putLengthPrefixedSlice [] key) value)
  | .delete key => (kTypeDeletion, putLengthPrefixedSlice [] key)

/-- The strings of a record fit their `uint32_t` length prefixes. -/
def WellFormed : BatchRecord → Prop
  | .put key value => key.length < 2 ^ 32 ∧ value.length < 2 ^ 32
  | .delete key => key.length < 2 ^ 32

instance (record : BatchRecord) : Decidable record.WellFormed :=
  match record with
  | .put key value => inferInstanceAs (Decidable (key.length < 2 ^ 32 ∧ value.length < 2 ^ 32))
  | .delete key => inferInstanceAs (Decidable (key.length < 2 ^ 32))

end BatchRecord

/-- All the records of a batch, encoded one after the other. -/
def encodeRecords (records : List BatchRecord) : Bytes :=
  records.flatMap fun record => record.encode.1 :: record.encode.2

/-- `WriteBatch`, by its `rep_`, which always holds the header. -/
structure WriteBatch where
  rep : Bytes
  header : kHeader ≤ rep.length
deriving DecidableEq

namespace WriteBatch

/-- `WriteBatch()` and `Clear()`: a zero header and no records. -/
def empty : WriteBatch := ⟨List.replicate kHeader 0, by simp⟩

/-- `WriteBatchInternal::Count`. -/
def count (b : WriteBatch) : Nat := decodeFixed32 (b.rep.drop 8)

/-- `WriteBatchInternal::SetCount`: the four bytes after the sequence number. -/
def setCount (b : WriteBatch) (n : Nat) : WriteBatch :=
  ⟨b.rep.take 8 ++ encodeFixed32 n ++ b.rep.drop 12, by
    have := b.header
    simp only [kHeader, List.length_append, List.length_take, length_encodeFixed32,
      List.length_drop] at this ⊢
    omega⟩

/-- `WriteBatchInternal::Sequence`. -/
def sequence (b : WriteBatch) : Nat := decodeFixed64 b.rep

/-- `WriteBatchInternal::SetSequence`: the first eight bytes. -/
def setSequence (b : WriteBatch) (seq : Nat) : WriteBatch :=
  ⟨encodeFixed64 seq ++ b.rep.drop 8, by
    have := b.header
    simp only [kHeader, List.length_append, length_encodeFixed64, List.length_drop] at this ⊢
    omega⟩

/-- Bytes appended after a header keep it. -/
theorem header_append {rep : Bytes} (header : kHeader ≤ rep.length) (rest : Bytes) :
    kHeader ≤ (rep ++ rest).length := by
  rw [List.length_append]
  omega

theorem header_putLengthPrefixedSlice {rep : Bytes} (header : kHeader ≤ rep.length) (value : Bytes) :
    kHeader ≤ (putLengthPrefixedSlice rep value).length := by
  unfold putLengthPrefixedSlice putVarint32
  rw [List.append_assoc]
  exact header_append header _

/-- `WriteBatch::Put`. -/
def put (b : WriteBatch) (key value : Bytes) : WriteBatch :=
  let counted := b.setCount (b.count + 1)
  ⟨putLengthPrefixedSlice (putLengthPrefixedSlice (counted.rep ++ [kTypeValue]) key) value,
    header_putLengthPrefixedSlice (header_putLengthPrefixedSlice (header_append counted.header _) _) _⟩

/-- `WriteBatch::Delete`. -/
def delete (b : WriteBatch) (key : Bytes) : WriteBatch :=
  let counted := b.setCount (b.count + 1)
  ⟨putLengthPrefixedSlice (counted.rep ++ [kTypeDeletion]) key,
    header_putLengthPrefixedSlice (header_append counted.header _) _⟩

/-- `WriteBatchInternal::Append`: the counts add up and the records of `src` follow. -/
def append (dst src : WriteBatch) : WriteBatch :=
  let counted := dst.setCount (dst.count + src.count)
  ⟨counted.rep ++ src.rep.drop kHeader, header_append counted.header _⟩

/-- A record through the batch's API. -/
def add (b : WriteBatch) : BatchRecord → WriteBatch
  | .put key value => b.put key value
  | .delete key => b.delete key

/-- The batch the API builds from records. -/
def ofRecords (records : List BatchRecord) : WriteBatch := records.foldl add empty

/-- What `Iterate` has done so far: the records handed to the handler, the count of records
started, and the error it returns with. -/
structure IterateState where
  records : List BatchRecord := []
  found : Nat := 0
  error : Option String := none
deriving DecidableEq, Repr

/-- One pass of `Iterate`'s loop, at a record's tag. -/
def iteratePass (state : IterateState) (tag : UInt8) (input : Bytes) : Pass IterateState UInt8 :=
  let state := { state with found := state.found + 1 }
  if tag = kTypeValue then
    match getLengthPrefixedSlice input with
    | some (key, input) =>
      match getLengthPrefixedSlice input with
      | some (value, input) => .next { state with records := state.records ++ [.put key value] } input
      | none => .stop { state with error := some "bad WriteBatch Put" }
    | none => .stop { state with error := some "bad WriteBatch Put" }
  else if tag = kTypeDeletion then
    match getLengthPrefixedSlice input with
    | some (key, input) => .next { state with records := state.records ++ [.delete key] } input
    | none => .stop { state with error := some "bad WriteBatch Delete" }
  else .stop { state with error := some "unknown WriteBatch tag" }

/-- `WriteBatch::Iterate` with a handler that keeps what it is handed: the records, in order, and
the status. -/
def iterate (b : WriteBatch) : List BatchRecord × Status :=
  if b.rep.length < kHeader then ([], .corruption "malformed WriteBatch (too small)")
  else
    let input := b.rep.drop kHeader
    let state := Lib.iterate iteratePass input.length {} input
    match state.error with
    | some message => (state.records, .corruption message)
    | none =>
      if state.found ≠ b.count then (state.records, .corruption "WriteBatch has wrong count")
      else (state.records, .ok)

/-- The locality group of a key and the key stored in it: the id and the inner key
`GetFixed32LGId` reads, or group 0 and the key itself. -/
def lgOfKey (key : Bytes) : Nat × Bytes := (getFixed32LGId key).getD (0, key)

/-- What `SeperateLocalityGroup` has done so far: the group batches (`NULL` until a record goes
there), the count of records started, and the error it returns with. -/
structure SeparateState where
  lgBw : List (Option WriteBatch)
  found : Nat := 0
  error : Option String := none
deriving DecidableEq

/-- One pass of `SeperateLocalityGroup`'s loop, at a record's tag: the key is read and its group's
batch created before the tag is looked at. The caller asserts `lg_id < lg_bw->size()`; out of
range the model writes nowhere. -/
def separatePass (state : SeparateState) (tag : UInt8) (input : Bytes) :
    Pass SeparateState UInt8 :=
  let state := { state with found := state.found + 1 }
  match getLengthPrefixedSlice input with
  | none => .stop { state with error := some "bad WriteBatch fetch key" }
  | some (key, input) =>
    let (lgId, key) := lgOfKey key
    let bw := (state.lgBw.getD lgId none).getD empty
    let state := { state with lgBw := state.lgBw.set lgId (some bw) }
    if tag = kTypeValue then
      match getLengthPrefixedSlice input with
      | some (value, input) =>
        .next { state with lgBw := state.lgBw.set lgId (some (bw.put key value)) } input
      | none => .stop { state with error := some "bad WriteBatch Put" }
    else if tag = kTypeDeletion then
      .next { state with lgBw := state.lgBw.set lgId (some (bw.delete key)) } input
    else .stop { state with error := some "unknown WriteBatch tag" }

/-- The end of `SeperateLocalityGroup`: a group that received no record gets an empty batch, and
every group's batch is numbered to end at the last sequence number of the whole batch. -/
def numberLocalityGroups (lastSequence : Nat) (lgBw : List (Option WriteBatch)) :
    List (Option WriteBatch) :=
  lgBw.map fun bw =>
    let bw := bw.getD (empty.setCount 0)
    some (bw.setSequence (lastSequence - bw.count + 1))

/-- `WriteBatch::SeperateLocalityGroup` into `lgCount` groups, from the `NULL`-filled vector the
caller passes: the group batches and the status. -/
def seperateLocalityGroup (b : WriteBatch) (lgCount : Nat) : List (Option WriteBatch) × Status :=
  if b.rep.length < kHeader then
    (List.replicate lgCount none, .corruption "malformed WriteBatch (too small)")
  else
    let input := b.rep.drop kHeader
    let state := Lib.iterate separatePass input.length { lgBw := List.replicate lgCount none } input
    match state.error with
    | some message => (state.lgBw, .corruption message)
    | none =>
      let lgBw := numberLocalityGroups (b.sequence + b.count - 1) state.lgBw
      if state.found ≠ b.count then (lgBw, .corruption "WriteBatch has wrong count")
      else (lgBw, .ok)

/-- The state after `Iterate` has handed one more record to its handler. -/
def IterateState.handled (state : IterateState) (record : BatchRecord) : IterateState :=
  { state with records := state.records ++ [record], found := state.found + 1 }

/-- The state after `SeperateLocalityGroup` has dealt one more record to its group's batch. -/
def SeparateState.dealt (state : SeparateState) (record : BatchRecord) : SeparateState :=
  { state with
    found := state.found + 1
    lgBw := state.lgBw.set (lgOfKey record.key).1
      (some (((state.lgBw.getD (lgOfKey record.key).1 none).getD empty).add
        (record.withKey (lgOfKey record.key).2))) }

/-- The records of a batch that go to one locality group, in the batch's order, each under the
key inside its group marker. -/
def recordsOfGroup (lgId : Nat) (records : List BatchRecord) : List BatchRecord :=
  records.filterMap fun record =>
    if (lgOfKey record.key).1 = lgId then some (record.withKey (lgOfKey record.key).2) else none

/-- The group batches after some records are dealt: a group's batch is `NULL` until a record goes
there, and then holds the group's records. -/
def dealtBatches (lgCount : Nat) (records : List BatchRecord) : List (Option WriteBatch) :=
  (List.range lgCount).map fun lgId =>
    if recordsOfGroup lgId records = [] then none else some (ofRecords (recordsOfGroup lgId records))

/-- A batch's bytes: its sequence number, a count, and the records after the header. -/
def Layout (b : WriteBatch) (seq n : Nat) (body : Bytes) : Prop :=
  b.rep = encodeFixed64 seq ++ encodeFixed32 n ++ body

section Layout

variable {b : WriteBatch} {seq n : Nat} {body : Bytes}

theorem count_of_layout (layout : b.Layout seq n body) : b.count = n % 2 ^ 32 := by
  rw [count, layout, List.append_assoc, List.drop_left' (length_encodeFixed64 seq),
    decodeFixed32_encodeFixed32]

theorem sequence_of_layout (layout : b.Layout seq n body) : b.sequence = seq % 2 ^ 64 := by
  rw [sequence, layout, List.append_assoc, decodeFixed64_encodeFixed64]

theorem drop_of_layout (layout : b.Layout seq n body) : b.rep.drop kHeader = body := by
  rw [layout, List.drop_left' (by simp [kHeader])]

theorem setCount_layout (layout : b.Layout seq n body) (m : Nat) :
    (b.setCount m).Layout seq m body := by
  have front : b.rep.take 8 = encodeFixed64 seq := by
    rw [layout, List.append_assoc, List.take_left' (length_encodeFixed64 seq)]
  have back : b.rep.drop 12 = body := drop_of_layout layout
  show b.rep.take 8 ++ encodeFixed32 m ++ b.rep.drop 12 = _
  rw [front, back]

theorem setSequence_layout (layout : b.Layout seq n body) (seq' : Nat) :
    (b.setSequence seq').Layout seq' n body := by
  have back : b.rep.drop 8 = encodeFixed32 n ++ body := by
    rw [layout, List.append_assoc, List.drop_left' (length_encodeFixed64 seq)]
  show encodeFixed64 seq' ++ b.rep.drop 8 = _
  rw [back, List.append_assoc]

theorem encodeFixed32_succ_mod (n : Nat) : encodeFixed32 (n % 2 ^ 32 + 1) = encodeFixed32 (n + 1) := by
  have same : (n % 2 ^ 32 + 1) % 256 ^ 4 = (n + 1) % 256 ^ 4 := by omega
  rw [encodeFixed32, encodeFixed32, ← encodeLittleEndian_mod, same, encodeLittleEndian_mod]

theorem putLengthPrefixedSlice_eq (dst value : Bytes) :
    putLengthPrefixedSlice dst value = dst ++ putLengthPrefixedSlice [] value := by
  simp [putLengthPrefixedSlice, putVarint32]

/-- A record through the API appends its encoding and counts it. -/
theorem add_layout (layout : b.Layout seq n body) (record : BatchRecord) :
    (b.add record).Layout seq (n + 1) (body ++ record.encode.1 :: record.encode.2) := by
  have counted := setCount_layout layout (b.count + 1)
  cases record with
  | put key value =>
    rw [Layout, add, put]
    dsimp only
    rw [putLengthPrefixedSlice_eq, putLengthPrefixedSlice_eq _ key, counted,
      count_of_layout layout, encodeFixed32_succ_mod, BatchRecord.encode,
      putLengthPrefixedSlice_eq (putLengthPrefixedSlice [] key)]
    simp
  | delete key =>
    rw [Layout, add, delete]
    dsimp only
    rw [putLengthPrefixedSlice_eq, counted, count_of_layout layout, encodeFixed32_succ_mod]
    simp [BatchRecord.encode]

end Layout

theorem foldl_add_layout (records : List BatchRecord) :
    ∀ (b : WriteBatch) (seq n : Nat) (body : Bytes), b.Layout seq n body →
      (records.foldl add b).Layout seq (n + records.length) (body ++ encodeRecords records) := by
  induction records with
  | nil => intro b seq n body layout; simpa [encodeRecords] using layout
  | cons record rest ih =>
    intro b seq n body layout
    have next := ih _ _ _ _ (add_layout layout record)
    simp only [List.foldl_cons, List.length_cons, encodeRecords, List.flatMap_cons] at next ⊢
    rw [Nat.add_assoc, Nat.add_comm 1, List.append_assoc] at next
    exact next

/-- The bytes of a batch the API builds. -/
theorem ofRecords_layout (records : List BatchRecord) :
    (ofRecords records).Layout 0 records.length (encodeRecords records) := by
  have start : empty.Layout 0 0 [] := by
    show List.replicate kHeader 0 = _
    decide
  simpa [ofRecords] using foldl_add_layout records empty 0 0 [] start

@[simp] theorem ofRecords_nil : ofRecords [] = empty := rfl

theorem ofRecords_append_singleton (records : List BatchRecord) (record : BatchRecord) :
    ofRecords (records ++ [record]) = (ofRecords records).add record := by
  rw [ofRecords, List.foldl_append, List.foldl_cons, List.foldl_nil]
  rfl

theorem count_ofRecords {records : List BatchRecord} (few : records.length < 2 ^ 32) :
    (ofRecords records).count = records.length := by
  rw [count_of_layout (ofRecords_layout records), Nat.mod_eq_of_lt few]

/-- `Iterate`'s pass reads a well-formed record back whole. -/
theorem iteratePass_encode (state : IterateState) {record : BatchRecord}
    (wf : record.WellFormed) (more : Bytes) :
    iteratePass state record.encode.1 (record.encode.2 ++ more) = .next (state.handled record) more := by
  cases record with
  | put key value =>
    obtain ⟨shortKey, shortValue⟩ := wf
    simp only [BatchRecord.encode, iteratePass]
    rw [putLengthPrefixedSlice_eq, List.append_assoc,
      getLengthPrefixedSlice_putLengthPrefixedSlice shortKey]
    dsimp only
    rw [getLengthPrefixedSlice_putLengthPrefixedSlice shortValue]
    rfl
  | delete key =>
    simp only [BatchRecord.encode, iteratePass, if_neg (by decide : kTypeDeletion ≠ kTypeValue)]
    rw [getLengthPrefixedSlice_putLengthPrefixedSlice wf]
    rfl

theorem foldl_handled (records : List BatchRecord) (state : IterateState) :
    records.foldl IterateState.handled state =
      { state with records := state.records ++ records, found := state.found + records.length } := by
  induction records generalizing state with
  | nil => simp
  | cons record rest ih =>
    rw [List.foldl_cons, ih]
    simp only [IterateState.handled, List.append_assoc, List.singleton_append, List.length_cons]
    congr 1
    omega

/-- Round trip of the format: `Iterate` hands over exactly the records a batch was built from. -/
theorem iterate_ofRecords {records : List BatchRecord} (wf : ∀ record ∈ records, record.WellFormed)
    (few : records.length < 2 ^ 32) (seq : Nat) :
    ((ofRecords records).setSequence seq).iterate = (records, .ok) := by
  have layout := setSequence_layout (ofRecords_layout records) seq
  have loop := iterate_flatMap iteratePass BatchRecord.encode BatchRecord.WellFormed
    IterateState.handled (fun state _ more wf => iteratePass_encode state wf more) records
    (encodeRecords records).length {} wf le_rfl
  rw [foldl_handled] at loop
  have long : ¬ ((ofRecords records).setSequence seq).rep.length < kHeader := by
    rw [layout]
    simp only [List.length_append, length_encodeFixed64, length_encodeFixed32, kHeader]
    omega
  rw [iterate, if_neg long]
  dsimp only
  rw [drop_of_layout layout]
  unfold encodeRecords at loop ⊢
  rw [loop, count_of_layout layout, Nat.mod_eq_of_lt few]
  simp

/-- `SeperateLocalityGroup`'s pass reads a well-formed record back whole and deals it to its
group. -/
theorem separatePass_encode (state : SeparateState) {record : BatchRecord}
    (wf : record.WellFormed) (more : Bytes) :
    separatePass state record.encode.1 (record.encode.2 ++ more) =
      .next (state.dealt record) more := by
  cases record with
  | put key value =>
    obtain ⟨shortKey, shortValue⟩ := wf
    simp only [BatchRecord.encode, separatePass]
    rw [putLengthPrefixedSlice_eq, List.append_assoc,
      getLengthPrefixedSlice_putLengthPrefixedSlice shortKey]
    rcases group : lgOfKey key with ⟨lgId, inner⟩
    dsimp only
    rw [if_pos trivial, getLengthPrefixedSlice_putLengthPrefixedSlice shortValue]
    simp [SeparateState.dealt, add, BatchRecord.key, BatchRecord.withKey, group, List.set_set]
  | delete key =>
    simp only [BatchRecord.encode, separatePass]
    rw [getLengthPrefixedSlice_putLengthPrefixedSlice wf]
    rcases group : lgOfKey key with ⟨lgId, inner⟩
    dsimp only
    rw [if_neg (by decide : kTypeDeletion ≠ kTypeValue), if_pos trivial]
    simp [SeparateState.dealt, add, BatchRecord.key, BatchRecord.withKey, group, List.set_set]

@[simp] theorem recordsOfGroup_nil (lgId : Nat) : recordsOfGroup lgId [] = [] := rfl

theorem recordsOfGroup_append (lgId : Nat) (front back : List BatchRecord) :
    recordsOfGroup lgId (front ++ back) = recordsOfGroup lgId front ++ recordsOfGroup lgId back :=
  List.filterMap_append

theorem recordsOfGroup_singleton (lgId : Nat) (record : BatchRecord) :
    recordsOfGroup lgId [record] =
      if (lgOfKey record.key).1 = lgId then [record.withKey (lgOfKey record.key).2] else [] := by
  unfold recordsOfGroup
  split <;> simp [*]

theorem length_recordsOfGroup_le (lgId : Nat) (records : List BatchRecord) :
    (recordsOfGroup lgId records).length ≤ records.length :=
  List.length_filterMap_le _ _

theorem getD_dealtBatches {lgCount lgId : Nat} (inRange : lgId < lgCount)
    (records : List BatchRecord) :
    ((dealtBatches lgCount records).getD lgId none).getD empty =
      ofRecords (recordsOfGroup lgId records) := by
  simp only [dealtBatches, List.getD_eq_getElem?_getD, List.getElem?_map, List.getElem?_range inRange,
    Option.map_some, Option.getD_some]
  split
  · rename_i nothing
    rw [nothing, ofRecords_nil]
    rfl
  · rfl

/-- Dealing a record adds it to its group's batch and leaves the other groups alone. -/
theorem dealt_dealtBatches {lgCount : Nat} (done : List BatchRecord) {record : BatchRecord}
    (inRange : (lgOfKey record.key).1 < lgCount) (error : Option String) :
    SeparateState.dealt ⟨dealtBatches lgCount done, done.length, error⟩ record =
      ⟨dealtBatches lgCount (done ++ [record]), (done ++ [record]).length, error⟩ := by
  simp only [SeparateState.dealt, getD_dealtBatches inRange, List.length_append,
    List.length_singleton, SeparateState.mk.injEq, and_true]
  apply List.ext_getElem
  · simp [dealtBatches]
  · intro i bound _
    simp only [dealtBatches, List.length_set, List.length_map, List.length_range] at bound
    simp only [dealtBatches, List.getElem_set, List.getElem_map, List.getElem_range,
      recordsOfGroup_append, recordsOfGroup_singleton]
    by_cases mine : (lgOfKey record.key).1 = i
    · -- the record's own group now holds it
      subst mine
      simp [← ofRecords_append_singleton]
    · simp [mine]

theorem foldl_dealt {lgCount : Nat} (records : List BatchRecord)
    (inRange : ∀ record ∈ records, (lgOfKey record.key).1 < lgCount) :
    ∀ (done : List BatchRecord) (error : Option String),
      records.foldl SeparateState.dealt ⟨dealtBatches lgCount done, done.length, error⟩ =
        ⟨dealtBatches lgCount (done ++ records), (done ++ records).length, error⟩ := by
  induction records with
  | nil => intro done error; simp
  | cons record rest ih =>
    intro done error
    rw [List.foldl_cons, dealt_dealtBatches done (inRange record List.mem_cons_self),
      ih (fun other member => inRange other (List.mem_cons_of_mem record member))]
    simp

theorem numberLocalityGroups_dealtBatches {lgCount : Nat} {records : List BatchRecord}
    (few : records.length < 2 ^ 32) (lastSequence : Nat) :
    numberLocalityGroups lastSequence (dealtBatches lgCount records) =
      (List.range lgCount).map fun lgId =>
        some ((ofRecords (recordsOfGroup lgId records)).setSequence
          (lastSequence - (recordsOfGroup lgId records).length + 1)) := by
  unfold numberLocalityGroups dealtBatches
  rw [List.map_map]
  apply List.map_congr_left
  intro lgId _
  have counted := count_ofRecords
    (Nat.lt_of_le_of_lt (length_recordsOfGroup_le lgId records) few)
  simp only [Function.comp_apply]
  split
  · rename_i nothing
    -- a group with no record gets a fresh batch of count 0
    have fresh : empty.setCount 0 = ofRecords [] := by decide
    simp only [Option.getD_none, fresh, nothing, List.length_nil]
    rfl
  · simp only [Option.getD_some, counted]

/-- The split of a batch the API builds: every group gets, in the batch's order, the records whose
key carries its id (group 0 for a key without a marker) under their inner keys, numbered to end at
the batch's last sequence number; a group with no record gets an empty batch numbered the same
way. -/
theorem seperateLocalityGroup_ofRecords {records : List BatchRecord}
    (wf : ∀ record ∈ records, record.WellFormed) (few : records.length < 2 ^ 32) {lgCount : Nat}
    (inRange : ∀ record ∈ records, (lgOfKey record.key).1 < lgCount) {seq : Nat}
    (positive : 1 ≤ seq) (bound : seq < 2 ^ 64) :
    ((ofRecords records).setSequence seq).seperateLocalityGroup lgCount =
      ((List.range lgCount).map fun lgId =>
        some ((ofRecords (recordsOfGroup lgId records)).setSequence
          (seq + records.length - (recordsOfGroup lgId records).length)), .ok) := by
  have layout := setSequence_layout (ofRecords_layout records) seq
  have start : ({ lgBw := List.replicate lgCount none } : SeparateState) =
      ⟨dealtBatches lgCount [], ([] : List BatchRecord).length, none⟩ := by
    simp [dealtBatches]
  have loop := iterate_flatMap separatePass BatchRecord.encode BatchRecord.WellFormed
    SeparateState.dealt (fun state _ more wf => separatePass_encode state wf more) records
    (encodeRecords records).length { lgBw := List.replicate lgCount none } wf le_rfl
  rw [start, foldl_dealt records inRange [] none, List.nil_append] at loop
  have long : ¬ ((ofRecords records).setSequence seq).rep.length < kHeader := by
    rw [layout]
    simp only [List.length_append, length_encodeFixed64, length_encodeFixed32, kHeader]
    omega
  rw [seperateLocalityGroup, if_neg long]
  dsimp only
  rw [drop_of_layout layout, start]
  unfold encodeRecords at loop ⊢
  rw [loop, count_of_layout layout, sequence_of_layout layout, Nat.mod_eq_of_lt few,
    Nat.mod_eq_of_lt bound]
  simp only [ne_eq, not_true_eq_false, if_false, numberLocalityGroups_dealtBatches few,
    Prod.mk.injEq, and_true]
  apply List.map_congr_left
  intro lgId _
  have fewer := length_recordsOfGroup_le lgId records
  congr 2
  omega

theorem length_lgOfKey_le (key : Bytes) : (lgOfKey key).2.length ≤ key.length := by
  unfold lgOfKey
  cases read : getFixed32LGId key with
  | none => exact Nat.le_refl _
  | some found => exact getFixed32LGId_length read

/-- The records a group receives keep the bounds of the batch's. -/
theorem wellFormed_recordsOfGroup {records : List BatchRecord}
    (wf : ∀ record ∈ records, record.WellFormed) (lgId : Nat) :
    ∀ record ∈ recordsOfGroup lgId records, record.WellFormed := by
  intro record member
  obtain ⟨original, mine, made⟩ := List.mem_filterMap.mp member
  split_ifs at made
  rw [← Option.some.inj made]
  have shorter := length_lgOfKey_le original.key
  cases original with
  | put key value =>
    obtain ⟨shortKey, shortValue⟩ := wf _ mine
    exact ⟨Nat.lt_of_le_of_lt shorter shortKey, shortValue⟩
  | delete key => exact Nat.lt_of_le_of_lt shorter (wf _ mine)

end WriteBatch

end Tera.LevelDB
