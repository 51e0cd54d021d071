import Tera.LevelDB.WriteBatch

/-! # Writes to a table of locality groups: `DBTable::Write`

A `DBTable` keeps one `DBImpl` per locality group and one write-ahead log for all of them. A write
takes the grouped batch of the writers at the head of the queue, numbers it from
`last_sequence_ + 1`, appends it to the log, and, when the table has more than one group, splits it
with `SeperateLocalityGroup` and writes each group's batch into that group's memtable; then
`last_sequence_` moves past the batch. A group's memtable holds every record at the sequence number
it was written with, and a read at a snapshot sees the entries at or below it.

The environment decides what the log write returns and whether each group's `DBImpl::Write` finds
room (`MakeRoomForWrite`, which returns a background error when compaction failed); the log's own
retries and switches are modelled with the table's recovery. Each step is one call of
`DBTable::Write` on one grouped batch.
-/

namespace Tera.LevelDB

open Tera.Lib Tera.RawKey WriteBatch

/-- An entry of a locality group's memtable: the sequence number it was written at and the record. -/
structure MemEntry where
  sequence : Nat
  record : BatchRecord
deriving DecidableEq, Repr

/-- The entries `MemTableInserter` adds for records handed to it: consecutive sequence numbers from
the batch's. -/
def numbered (first : Nat) (records : List BatchRecord) : List MemEntry :=
  (records.zipIdx first).map fun (record, number) => ⟨number, record⟩

/-- The part of `DBTable` its write path reads and writes: `last_sequence_`, the groups' memtable
entries in `lg_list_` order, and `fatal_error_`. -/
structure DBTable where
  lastSequence : Nat
  lgs : List (List MemEntry)
  fatalError : Status := .ok
deriving DecidableEq, Repr

/-- What the environment decides during one `DBTable::Write`: the status of writing and syncing
the log, and the status each group's `MakeRoomForWrite` returns. -/
structure WriteEnv where
  log : Status
  room : Nat → Status

/-- `DBImpl::Write` of one group's batch: when there is room, `InsertInto` adds the records
`Iterate` hands it at the batch's sequence numbers; a `NULL` batch only asks for room. -/
def dbImplWrite (mem : List MemEntry) (batch : Option WriteBatch) (room : Status) :
    List MemEntry × Status :=
  if room ≠ .ok then (mem, room)
  else
    match batch with
    | none => (mem, .ok)
    | some b =>
      let (records, status) := b.iterate
      (mem ++ numbered b.sequence records, status)

/-- The loop of `DBTable::Write` over the groups from group `lgId` on: each group's batch is
written in turn, and the loop breaks at the first write that fails. -/
def writeGroups (room : Nat → Status) (lgId : Nat) :
    List (List MemEntry) → List (Option WriteBatch) → List (List MemEntry) × Status
  | mem :: mems, batch :: batches =>
    let (mem, status) := dbImplWrite mem batch (room lgId)
    if status = .ok then
      let (mems, rest) := writeGroups room (lgId + 1) mems batches
      (mem :: mems, rest)
    else (mem :: mems, status)
  | mems, _ => (mems, .ok)

/-- `DBTable::Write` of a grouped batch. A table with a fatal error takes no write and keeps its
sequence number; otherwise the batch is numbered from `last_sequence_ + 1` and `last_sequence_`
moves past it whatever the log and the groups return. A log that refuses permission makes the error
fatal; a group write that fails does too, and the groups after it are not written. -/
def DBTable.write (t : DBTable) (myBatch : WriteBatch) (env : WriteEnv) : DBTable × Status :=
  if t.fatalError ≠ .ok then (t, t.fatalError)
  else
    let updates := myBatch.setSequence (t.lastSequence + 1)
    let lastSequence := t.lastSequence + updates.count
    match env.log with
    | .ok =>
      let lgUpdates := if 1 < t.lgs.length then (updates.seperateLocalityGroup t.lgs.length).1
        else [some updates]
      let (lgs, status) := writeGroups env.room 0 t.lgs lgUpdates
      ({ lastSequence := lastSequence, lgs := lgs, fatalError := status }, status)
    | .ioPermissionDenied message =>
      ({ t with lastSequence := lastSequence, fatalError := .ioPermissionDenied message },
        .ioPermissionDenied message)
    | failed => ({ t with lastSequence := lastSequence }, failed)

/-- A run of writes, each a grouped batch with what the environment decides for it. -/
def DBTable.writeRun (t : DBTable) : List (WriteBatch × WriteEnv) → DBTable
  | [] => t
  | (batch, env) :: rest => ((t.write batch env).1).writeRun rest

/-- What a read of group `lgId` at `snapshot` sees: the group's entries written at or below it. -/
def DBTable.readAt (t : DBTable) (lgId snapshot : Nat) : List MemEntry :=
  (t.lgs.getD lgId []).filter fun entry => entry.sequence ≤ snapshot

/-- The records a write delivers to group `lgId`: with several groups, the group's records of the
batch under their inner keys; with one group, the whole batch. -/
def deliveredRecords (lgCount lgId : Nat) (records : List BatchRecord) : List BatchRecord :=
  if 1 < lgCount then recordsOfGroup lgId records else if lgId = 0 then records else []

/-! ## One write -/

/-- The entries of a batch sit at consecutive sequence numbers, in the batch's order. -/
theorem sequences_numbered (first : Nat) (records : List BatchRecord) :
    (numbered first records).map MemEntry.sequence = List.range' first records.length := by
  rw [numbered, List.map_map, ← List.zipIdx_map_snd first records]
  rfl

theorem mem_numbered {first : Nat} {records : List BatchRecord} {entry : MemEntry}
    (member : entry ∈ numbered first records) :
    first ≤ entry.sequence ∧ entry.sequence < first + records.length ∧ entry.record ∈ records := by
  obtain ⟨⟨record, number⟩, paired, rfl⟩ := List.mem_map.mp member
  obtain ⟨low, high, found⟩ := List.mem_zipIdx paired
  refine ⟨low, high, ?_⟩
  dsimp only
  rw [found]
  exact List.getElem_mem _

theorem dbImplWrite_ok (mem : List MemEntry) {b : WriteBatch} {records : List BatchRecord}
    (iterated : b.iterate = (records, .ok)) :
    dbImplWrite mem (some b) .ok = (mem ++ numbered b.sequence records, .ok) := by
  simp [dbImplWrite, iterated]

/-- When every group finds room and every group batch reads back whole, the loop over the groups
writes each group's batch into its memtable. -/
theorem writeGroups_ok (room : Nat → Status) (batchOf : Nat → WriteBatch)
    (recordsOf : Nat → List BatchRecord) :
    ∀ (mems : List (List MemEntry)) (lgId : Nat),
      (∀ i, lgId ≤ i → i < lgId + mems.length →
        room i = .ok ∧ (batchOf i).iterate = (recordsOf i, .ok)) →
      writeGroups room lgId mems ((List.range' lgId mems.length).map fun i => some (batchOf i)) =
        (mems.mapIdx fun j mem => mem ++ numbered (batchOf (lgId + j)).sequence (recordsOf (lgId + j)),
          .ok) := by
  intro mems
  induction mems with
  | nil => intro lgId _; rfl
  | cons mem rest ih =>
    intro lgId healthy
    obtain ⟨roomy, iterated⟩ := healthy lgId (Nat.le_refl _) (by simp)
    rw [List.length_cons, List.range'_succ, List.map_cons, writeGroups, roomy,
      dbImplWrite_ok mem iterated]
    dsimp only
    rw [if_pos rfl, ih (lgId + 1) (fun i low high => healthy i (by omega) (by simp; omega))]
    have shifted : ∀ j, lgId + 1 + j = lgId + (j + 1) := fun j => by omega
    simp only [List.mapIdx_cons, Nat.add_zero, shifted]

theorem sequence_ofRecords_setSequence (records : List BatchRecord) {seq : Nat} (bound : seq < 2 ^ 64) :
    ((ofRecords records).setSequence seq).sequence = seq := by
  rw [sequence_of_layout (setSequence_layout (ofRecords_layout records) seq), Nat.mod_eq_of_lt bound]

/-- A write the log and every group take: `last_sequence_` moves past the batch, and every group's
memtable gets the records delivered to it, numbered to end at the new `last_sequence_`. -/
theorem write_ofRecords {t : DBTable} (healthy : t.fatalError = .ok) {records : List BatchRecord}
    (wf : ∀ record ∈ records, record.WellFormed) (few : records.length < 2 ^ 32)
    (inRange : ∀ record ∈ records, (lgOfKey record.key).1 < t.lgs.length)
    (bound : t.lastSequence + records.length + 1 < 2 ^ 64) {env : WriteEnv} (logged : env.log = .ok)
    (roomy : ∀ lgId < t.lgs.length, env.room lgId = .ok) :
    t.write (ofRecords records) env =
      ({ lastSequence := t.lastSequence + records.length
         lgs := t.lgs.mapIdx fun lgId mem =>
           mem ++ numbered (t.lastSequence + records.length + 1 -
             (deliveredRecords t.lgs.length lgId records).length)
             (deliveredRecords t.lgs.length lgId records) }, .ok) := by
  have layout := setSequence_layout (ofRecords_layout records) (t.lastSequence + 1)
  have counted : ((ofRecords records).setSequence (t.lastSequence + 1)).count = records.length := by
    rw [count_of_layout layout, Nat.mod_eq_of_lt few]
  unfold DBTable.write
  rw [if_neg (by simp [healthy]), logged]
  dsimp only
  rw [counted]
  by_cases several : 1 < t.lgs.length
  · -- the batch is split, and each group's batch is written at its own numbers
    rw [if_pos several, seperateLocalityGroup_ofRecords wf few inRange (by omega) (by omega)]
    have written := writeGroups_ok env.room
      (fun lgId => (ofRecords (recordsOfGroup lgId records)).setSequence
        (t.lastSequence + 1 + records.length - (recordsOfGroup lgId records).length))
      (fun lgId => recordsOfGroup lgId records) t.lgs 0
      (fun lgId _ high => ⟨roomy lgId (by omega), iterate_ofRecords (wellFormed_recordsOfGroup wf lgId)
        (Nat.lt_of_le_of_lt (length_recordsOfGroup_le lgId records) few) _⟩)
    have numbers : ∀ lgId, t.lastSequence + 1 + records.length - (recordsOfGroup lgId records).length =
        t.lastSequence + records.length + 1 - (recordsOfGroup lgId records).length := by
      intro lgId
      omega
    have sequenced : ∀ lgId, ((ofRecords (recordsOfGroup lgId records)).setSequence
        (t.lastSequence + records.length + 1 - (recordsOfGroup lgId records).length)).sequence =
        t.lastSequence + records.length + 1 - (recordsOfGroup lgId records).length :=
      fun lgId => sequence_ofRecords_setSequence _ (by omega)
    dsimp only
    rw [List.range_eq_range', written]
    simp only [Nat.zero_add, deliveredRecords, if_pos several, numbers, sequenced]
  · -- one group takes the whole batch
    rw [if_neg several]
    cases shape : t.lgs with
    | nil => rfl
    | cons mem more =>
      rw [shape] at several
      cases more with
      | cons _ _ => simp at several
      | nil =>
        have first : t.lastSequence + records.length + 1 - records.length = t.lastSequence + 1 := by
          omega
        simp only [writeGroups, roomy 0 (by simp [shape]), ne_eq, not_true_eq_false, if_false,
          dbImplWrite, iterate_ofRecords wf few,
          sequence_ofRecords_setSequence records (show t.lastSequence + 1 < 2 ^ 64 by omega)]
        simp only [List.length_cons, List.length_nil, deliveredRecords, List.mapIdx_cons,
          List.mapIdx_nil, Nat.lt_irrefl, if_false, if_true, first]


/-! ## One write, whatever the environment decides -/

/-- The groups a loop leaves alone: an index below no group is the identity. -/
theorem mapIdx_unwritten (mems : List (List MemEntry)) (write : Nat → List MemEntry → List MemEntry) :
    (mems.mapIdx fun lgId mem => if lgId < 0 then write lgId mem else mem) = mems := by
  simp [List.mapIdx_eq_zipIdx_map]

/-- The loop over the groups writes a prefix of them: each group up to the first that finds no
room gets its batch, and the groups from there on are left as they were. -/
theorem writeGroups_prefix (room : Nat → Status) (batchOf : Nat → WriteBatch)
    (recordsOf : Nat → List BatchRecord) :
    ∀ (mems : List (List MemEntry)) (lgId : Nat),
      (∀ i, lgId ≤ i → i < lgId + mems.length → (batchOf i).iterate = (recordsOf i, .ok)) →
      ∃ written ≤ mems.length,
        (writeGroups room lgId mems ((List.range' lgId mems.length).map fun i => some (batchOf i))).1 =
          mems.mapIdx fun j mem =>
            if j < written then mem ++ numbered (batchOf (lgId + j)).sequence (recordsOf (lgId + j))
            else mem := by
  intro mems
  induction mems with
  | nil => intro lgId _; exact ⟨0, le_rfl, rfl⟩
  | cons mem rest ih =>
    intro lgId readable
    rw [List.length_cons, List.range'_succ, List.map_cons, writeGroups]
    by_cases roomy : room lgId = .ok
    · -- the group takes its batch and the loop goes on with the next group
      obtain ⟨written, fewer, later⟩ :=
        ih (lgId + 1) (fun i low high => readable i (by omega) (by simp; omega))
      rw [roomy, dbImplWrite_ok mem (readable lgId le_rfl (by simp))]
      dsimp only
      rw [if_pos rfl]
      rcases loop : writeGroups room (lgId + 1) rest
        ((List.range' (lgId + 1) rest.length).map fun i => some (batchOf i)) with ⟨mems, status⟩
      rw [loop] at later
      dsimp only at later ⊢
      refine ⟨written + 1, by omega, ?_⟩
      have shifted : ∀ j, lgId + 1 + j = lgId + (j + 1) := fun j => by omega
      simp only [List.mapIdx_cons, Nat.add_zero, later, shifted, Nat.zero_lt_succ, if_true,
        Nat.add_lt_add_iff_right]
    · -- the loop breaks here and no group is written from this one on
      have kept : dbImplWrite mem (some (batchOf lgId)) (room lgId) = (mem, room lgId) := by
        simp [dbImplWrite, roomy]
      rw [kept]
      dsimp only
      rw [if_neg roomy]
      exact ⟨0, Nat.zero_le _, (mapIdx_unwritten (mem :: rest) _).symm⟩

/-- `DBTable::Write` of a batch the API built, for every answer of the log and the groups: a table
with a fatal error is left as it was; otherwise `last_sequence_` moves past the batch and a prefix
of the groups gets the records delivered to it, numbered to end at the new `last_sequence_`. -/
theorem write_ofRecords_cases {t : DBTable} {records : List BatchRecord}
    (wf : ∀ record ∈ records, record.WellFormed) (few : records.length < 2 ^ 32)
    (inRange : ∀ record ∈ records, (lgOfKey record.key).1 < t.lgs.length)
    (bound : t.lastSequence + records.length + 1 < 2 ^ 64) (env : WriteEnv) :
    (t.fatalError ≠ .ok ∧ t.write (ofRecords records) env = (t, t.fatalError)) ∨
      ∃ written ≤ t.lgs.length, ∃ fatal status,
        t.write (ofRecords records) env =
          ({ lastSequence := t.lastSequence + records.length
             lgs := t.lgs.mapIdx fun lgId mem =>
               if lgId < written then
                 mem ++ numbered (t.lastSequence + records.length + 1 -
                   (deliveredRecords t.lgs.length lgId records).length)
                   (deliveredRecords t.lgs.length lgId records)
               else mem
             fatalError := fatal }, status) := by
  by_cases healthy : t.fatalError = .ok
  swap
  · exact .inl ⟨healthy, by rw [DBTable.write, if_pos healthy]⟩
  right
  have layout := setSequence_layout (ofRecords_layout records) (t.lastSequence + 1)
  have counted : ((ofRecords records).setSequence (t.lastSequence + 1)).count = records.length := by
    rw [count_of_layout layout, Nat.mod_eq_of_lt few]
  unfold DBTable.write
  rw [if_neg (by simp [healthy])]
  dsimp only
  rw [counted]
  cases logged : env.log with
  | ok =>
    dsimp only
    by_cases several : 1 < t.lgs.length
    · -- the split batch's groups are written up to the first that finds no room
      rw [if_pos several, seperateLocalityGroup_ofRecords wf few inRange (by omega) (by omega)]
      dsimp only
      rw [List.range_eq_range']
      obtain ⟨written, fewer, groups⟩ := writeGroups_prefix env.room
        (fun lgId => (ofRecords (recordsOfGroup lgId records)).setSequence
          (t.lastSequence + 1 + records.length - (recordsOfGroup lgId records).length))
        (fun lgId => recordsOfGroup lgId records) t.lgs 0
        (fun lgId _ _ => iterate_ofRecords (wellFormed_recordsOfGroup wf lgId)
          (Nat.lt_of_le_of_lt (length_recordsOfGroup_le lgId records) few) _)
      have sequenced : ∀ lgId, ((ofRecords (recordsOfGroup lgId records)).setSequence
          (t.lastSequence + 1 + records.length - (recordsOfGroup lgId records).length)).sequence =
          t.lastSequence + records.length + 1 - (recordsOfGroup lgId records).length := by
        intro lgId
        have fewer := length_recordsOfGroup_le lgId records
        rw [sequence_ofRecords_setSequence _ (by omega)]
        omega
      rcases loop : writeGroups env.room 0 t.lgs
        ((List.range' 0 t.lgs.length).map fun lgId => some ((ofRecords (recordsOfGroup lgId
          records)).setSequence (t.lastSequence + 1 + records.length -
            (recordsOfGroup lgId records).length))) with ⟨lgs, status⟩
      rw [loop] at groups
      dsimp only at groups ⊢
      refine ⟨written, fewer, status, status, ?_⟩
      simp only [groups, Nat.zero_add, sequenced, deliveredRecords, if_pos several]
    · -- one group, or none, takes the whole batch
      rw [if_neg several]
      cases shape : t.lgs with
      | nil => exact ⟨0, le_rfl, .ok, .ok, rfl⟩
      | cons mem more =>
        rw [shape] at several
        cases more with
        | cons _ _ => simp at several
        | nil =>
          obtain ⟨written, fewer, groups⟩ := writeGroups_prefix env.room
            (fun _ => (ofRecords records).setSequence (t.lastSequence + 1)) (fun _ => records) [mem] 0
            (fun _ _ _ => iterate_ofRecords wf few _)
          have first : t.lastSequence + records.length + 1 - records.length = t.lastSequence + 1 := by
            omega
          rcases loop : writeGroups env.room 0 [mem]
            [some ((ofRecords records).setSequence (t.lastSequence + 1))] with ⟨lgs, status⟩
          rw [List.length_singleton, List.range'_one, List.map_singleton, loop] at groups
          dsimp only at groups ⊢
          refine ⟨written, fewer, status, status, ?_⟩
          simp only [groups, List.length_singleton, deliveredRecords, Nat.lt_irrefl, if_false,
            sequence_ofRecords_setSequence records (show t.lastSequence + 1 < 2 ^ 64 by omega),
            List.mapIdx_cons, List.mapIdx_nil, if_true, first]
  | ioPermissionDenied message =>
    exact ⟨0, Nat.zero_le _, .ioPermissionDenied message, .ioPermissionDenied message, by
      rw [mapIdx_unwritten]⟩
  | corruption message => exact ⟨0, Nat.zero_le _, .ok, .corruption message, by rw [mapIdx_unwritten, ← healthy]⟩
  | ioError message => exact ⟨0, Nat.zero_le _, .ok, .ioError message, by rw [mapIdx_unwritten, ← healthy]⟩

end Tera.LevelDB
