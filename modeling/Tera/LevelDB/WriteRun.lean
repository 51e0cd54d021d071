import Mathlib
import Tera.LevelDB.DBTable

/-! # Runs of writes to a table of locality groups

The spec of a run: batch after batch takes the next sequence numbers, and every group is meant to
hold, after what it held before, each batch's records for it, numbered to end at that batch's last
sequence number (`groupHistory`). A run of writes the table takes builds exactly that; every run,
whatever the log and the groups return, keeps sequence numbers strictly increasing within each group
and at or below `last_sequence_`; and a read at the snapshot after any batch sees, in every group,
the records of the batches up to it and nothing of the batches after.

A write that fails in some group after earlier groups took the batch leaves those groups holding
it (the source logs that memory is then inconsistent) and makes the error fatal, so no later write
is taken; the sequence invariant still holds there.
-/

namespace Tera.LevelDB

open Tera.Lib Tera.RawKey WriteBatch

/-! ## What a group holds after a run

The abstract side: the sequence numbers a run of batches takes, and the entries each group is meant
to hold after it. -/

/-- `last_sequence_` after batches are written from `last` on. -/
def sequenceAfter (last : Nat) (batches : List (List BatchRecord)) : Nat :=
  last + (batches.map List.length).sum

/-- What group `lgId` of a table of `lgCount` groups gains from batches written from `last` on:
each batch's delivered records, numbered to end at the batch's last sequence number. -/
def groupHistory (lgCount lgId : Nat) : Nat → List (List BatchRecord) → List MemEntry
  | _, [] => []
  | last, records :: rest =>
    numbered (last + records.length + 1 - (deliveredRecords lgCount lgId records).length)
        (deliveredRecords lgCount lgId records) ++
      groupHistory lgCount lgId (last + records.length) rest

/-- The sequence invariant of one group's entries: their sequence numbers increase strictly and
none is above `last`. -/
def SequencedUpTo (mem : List MemEntry) (last : Nat) : Prop :=
  (mem.map MemEntry.sequence).Pairwise (· < ·) ∧ ∀ entry ∈ mem, entry.sequence ≤ last

instance (mem : List MemEntry) (last : Nat) : Decidable (SequencedUpTo mem last) :=
  inferInstanceAs (Decidable (_ ∧ _))

/-- The sequence invariant of a table: every group is sequenced up to `last_sequence_`. -/
def DBTable.Consistent (t : DBTable) : Prop := ∀ mem ∈ t.lgs, SequencedUpTo mem t.lastSequence

instance (t : DBTable) : Decidable t.Consistent :=
  inferInstanceAs (Decidable (∀ mem ∈ t.lgs, SequencedUpTo mem t.lastSequence))

@[simp] theorem sequenceAfter_nil (last : Nat) : sequenceAfter last [] = last := rfl

theorem sequenceAfter_cons (last : Nat) (records : List BatchRecord)
    (rest : List (List BatchRecord)) :
    sequenceAfter last (records :: rest) = sequenceAfter (last + records.length) rest := by
  simp only [sequenceAfter, List.map_cons, List.sum_cons, Nat.add_assoc]

theorem sequenceAfter_append (last : Nat) (front back : List (List BatchRecord)) :
    sequenceAfter last (front ++ back) = sequenceAfter (sequenceAfter last front) back := by
  simp only [sequenceAfter, List.map_append, List.sum_append, Nat.add_assoc]

theorem le_sequenceAfter (last : Nat) (batches : List (List BatchRecord)) :
    last ≤ sequenceAfter last batches :=
  Nat.le_add_right _ _

@[simp] theorem groupHistory_nil (lgCount lgId last : Nat) : groupHistory lgCount lgId last [] = [] :=
  rfl

theorem groupHistory_append (lgCount lgId : Nat) (front back : List (List BatchRecord)) :
    ∀ last, groupHistory lgCount lgId last (front ++ back) =
      groupHistory lgCount lgId last front ++
        groupHistory lgCount lgId (sequenceAfter last front) back := by
  induction front with
  | nil => intro last; rfl
  | cons records rest ih =>
    intro last
    rw [List.cons_append, groupHistory, groupHistory, ih, sequenceAfter_cons, List.append_assoc]

theorem length_deliveredRecords_le (lgCount lgId : Nat) (records : List BatchRecord) :
    (deliveredRecords lgCount lgId records).length ≤ records.length := by
  unfold deliveredRecords
  split_ifs
  · exact length_recordsOfGroup_le lgId records
  · exact Nat.le_refl _
  · exact Nat.zero_le _

theorem records_numbered (first : Nat) (records : List BatchRecord) :
    (numbered first records).map MemEntry.record = records := by
  rw [numbered, List.map_map]
  exact List.zipIdx_map_fst first records

/-- A group's entries from a run carry, in order, the records the run delivers to it. -/
theorem records_groupHistory (lgCount lgId : Nat) (batches : List (List BatchRecord)) :
    ∀ last, (groupHistory lgCount lgId last batches).map MemEntry.record =
      batches.flatMap (deliveredRecords lgCount lgId) := by
  induction batches with
  | nil => intro last; rfl
  | cons records rest ih =>
    intro last
    rw [groupHistory, List.map_append, records_numbered, ih, List.flatMap_cons]

/-- Every entry a run adds to a group sits above the sequence number the run started from and at
or below the one it ended at. -/
theorem mem_groupHistory (lgCount lgId : Nat) (batches : List (List BatchRecord)) :
    ∀ last, ∀ entry ∈ groupHistory lgCount lgId last batches,
      last < entry.sequence ∧ entry.sequence ≤ sequenceAfter last batches := by
  induction batches with
  | nil => intro last entry member; cases member
  | cons records rest ih =>
    intro last entry member
    have fewer := length_deliveredRecords_le lgCount lgId records
    have later := le_sequenceAfter (last + records.length) rest
    rw [sequenceAfter_cons]
    rcases List.mem_append.mp member with block | after
    · -- the batch's own block ends at the batch's last sequence number
      obtain ⟨low, high, _⟩ := mem_numbered block
      omega
    · have bounds := ih (last + records.length) entry after
      omega

/-- The sequence numbers a run adds to a group increase strictly. -/
theorem sequences_groupHistory (lgCount lgId : Nat) (batches : List (List BatchRecord)) :
    ∀ last, ((groupHistory lgCount lgId last batches).map MemEntry.sequence).Pairwise (· < ·) := by
  induction batches with
  | nil => intro last; exact List.Pairwise.nil
  | cons records rest ih =>
    intro last
    rw [groupHistory, List.map_append, List.pairwise_append, sequences_numbered]
    refine ⟨List.pairwise_lt_range' 1, ih _, ?_⟩
    -- the batch's block ends where the rest of the run begins
    intro earlier inBlock later inRest
    obtain ⟨entry, member, rfl⟩ := List.mem_map.mp inRest
    have above := (mem_groupHistory lgCount lgId rest _ entry member).1
    have fewer := length_deliveredRecords_le lgCount lgId records
    have below := (List.mem_range'_1.mp inBlock).2
    omega

theorem groupHistory_singleton (lgCount lgId last : Nat) (records : List BatchRecord) :
    groupHistory lgCount lgId last [records] =
      numbered (last + records.length + 1 - (deliveredRecords lgCount lgId records).length)
        (deliveredRecords lgCount lgId records) := by
  rw [groupHistory, groupHistory_nil, List.append_nil]

theorem SequencedUpTo.mono {mem : List MemEntry} {last last' : Nat} (sequenced : SequencedUpTo mem last)
    (later : last ≤ last') : SequencedUpTo mem last' :=
  ⟨sequenced.1, fun entry member => Nat.le_trans (sequenced.2 entry member) later⟩

/-- A group sequenced up to where a run starts stays sequenced, up to where the run ends, once it
gains its history over the run. -/
theorem SequencedUpTo.append_groupHistory {mem : List MemEntry} {last : Nat}
    (sequenced : SequencedUpTo mem last) (lgCount lgId : Nat) (batches : List (List BatchRecord)) :
    SequencedUpTo (mem ++ groupHistory lgCount lgId last batches) (sequenceAfter last batches) := by
  have bounds := mem_groupHistory lgCount lgId batches last
  refine ⟨?_, ?_⟩
  · rw [List.map_append, List.pairwise_append]
    refine ⟨sequenced.1, sequences_groupHistory lgCount lgId batches last, ?_⟩
    -- what the group held is at or below where the run starts, what it gains above
    intro earlier inMem later inHistory
    obtain ⟨old, oldMember, rfl⟩ := List.mem_map.mp inMem
    obtain ⟨new, newMember, rfl⟩ := List.mem_map.mp inHistory
    exact Nat.lt_of_le_of_lt (sequenced.2 old oldMember) (bounds new newMember).1
  · intro entry member
    rcases List.mem_append.mp member with old | new
    · exact Nat.le_trans (sequenced.2 entry old) (le_sequenceAfter last batches)
    · exact (bounds entry new).2

/-! ## Every run keeps the sequence invariant -/

/-- The conditions under which a batch the API built is split as the table expects: its records fit
their length prefixes and the `uint32_t` count, and every key names a group of the table. -/
structure Fits (lgCount : Nat) (records : List BatchRecord) : Prop where
  wf : ∀ record ∈ records, record.WellFormed
  few : records.length < 2 ^ 32
  inRange : ∀ record ∈ records, (lgOfKey record.key).1 < lgCount

instance (lgCount : Nat) (records : List BatchRecord) : Decidable (Fits lgCount records) :=
  decidable_of_iff ((∀ record ∈ records, record.WellFormed) ∧ records.length < 2 ^ 32 ∧
      ∀ record ∈ records, (lgOfKey record.key).1 < lgCount)
    ⟨fun ⟨wf, few, inRange⟩ => ⟨wf, few, inRange⟩, fun fits => ⟨fits.wf, fits.few, fits.inRange⟩⟩

/-- A write the table takes: the batch fits, and the log and every group's `MakeRoomForWrite`
succeed. -/
structure Taken (lgCount : Nat) (records : List BatchRecord) (env : WriteEnv) : Prop
    extends Fits lgCount records where
  logged : env.log = .ok
  roomy : ∀ lgId < lgCount, env.room lgId = .ok

instance (lgCount : Nat) (records : List BatchRecord) (env : WriteEnv) :
    Decidable (Taken lgCount records env) :=
  decidable_of_iff (Fits lgCount records ∧ env.log = .ok ∧ ∀ lgId < lgCount, env.room lgId = .ok)
    ⟨fun ⟨fits, logged, roomy⟩ => ⟨fits, logged, roomy⟩,
      fun taken => ⟨taken.toFits, taken.logged, taken.roomy⟩⟩

/-- One write of a batch that fits keeps the sequence invariant, whatever the log and the groups
return. -/
theorem write_consistent {t : DBTable} (consistent : t.Consistent) {records : List BatchRecord}
    (fits : Fits t.lgs.length records) (bound : t.lastSequence + records.length + 1 < 2 ^ 64)
    (env : WriteEnv) : (t.write (ofRecords records) env).1.Consistent := by
  rcases write_ofRecords_cases fits.wf fits.few fits.inRange bound env with
    ⟨_, unchanged⟩ | ⟨written, _, fatal, status, wrote⟩
  · rw [unchanged]
    exact consistent
  · rw [wrote]
    intro mem member
    obtain ⟨lgId, inGroup, rfl⟩ := List.mem_mapIdx.mp member
    have sequenced := consistent _ (List.getElem_mem inGroup)
    dsimp only
    split_ifs
    · -- the group took the batch: its block is the history of a one-batch run
      have grown := sequenced.append_groupHistory t.lgs.length lgId [records]
      rwa [groupHistory_singleton, sequenceAfter_cons, sequenceAfter_nil] at grown
    · exact sequenced.mono (Nat.le_add_right _ _)

theorem length_lgs_write {t : DBTable} {records : List BatchRecord} (fits : Fits t.lgs.length records)
    (bound : t.lastSequence + records.length + 1 < 2 ^ 64) (env : WriteEnv) :
    (t.write (ofRecords records) env).1.lgs.length = t.lgs.length := by
  rcases write_ofRecords_cases fits.wf fits.few fits.inRange bound env with
    ⟨_, unchanged⟩ | ⟨written, _, fatal, status, wrote⟩
  · rw [unchanged]
  · rw [wrote, List.length_mapIdx]

theorem lastSequence_write_le {t : DBTable} {records : List BatchRecord}
    (fits : Fits t.lgs.length records) (bound : t.lastSequence + records.length + 1 < 2 ^ 64)
    (env : WriteEnv) : (t.write (ofRecords records) env).1.lastSequence ≤ t.lastSequence + records.length := by
  rcases write_ofRecords_cases fits.wf fits.few fits.inRange bound env with
    ⟨_, unchanged⟩ | ⟨written, _, fatal, status, wrote⟩
  · rw [unchanged]
    exact Nat.le_add_right _ _
  · rw [wrote]

/-- The run of `DBTable::Write` calls on the batches the API built from each step's records. -/
def DBTable.writeBatches (t : DBTable) (run : List (List BatchRecord × WriteEnv)) : DBTable :=
  t.writeRun (run.map fun step => (ofRecords step.1, step.2))

@[simp] theorem DBTable.writeBatches_nil (t : DBTable) : t.writeBatches [] = t := rfl

theorem DBTable.writeBatches_cons (t : DBTable) (records : List BatchRecord) (env : WriteEnv)
    (rest : List (List BatchRecord × WriteEnv)) :
    t.writeBatches ((records, env) :: rest) = (t.write (ofRecords records) env).1.writeBatches rest :=
  rfl

/-- Every run of batches that fit keeps the sequence invariant, whatever the log and the groups
return at each write. -/
theorem writeBatches_consistent {lgCount : Nat} (run : List (List BatchRecord × WriteEnv))
    (fits : ∀ step ∈ run, Fits lgCount step.1) :
    ∀ t : DBTable, t.Consistent → t.lgs.length = lgCount →
      sequenceAfter t.lastSequence (run.map Prod.fst) + 1 < 2 ^ 64 →
      (t.writeBatches run).Consistent := by
  induction run with
  | nil => intro t consistent _ _; exact consistent
  | cons step rest ih =>
    intro t consistent counted bound
    obtain ⟨records, env⟩ := step
    have first : Fits lgCount records := fits (records, env) List.mem_cons_self
    rw [← counted] at first
    have later := le_sequenceAfter (t.lastSequence + records.length) (rest.map Prod.fst)
    rw [List.map_cons, sequenceAfter_cons] at bound
    dsimp only at bound
    have advanced := lastSequence_write_le first (by omega) env
    have rest_bound : sequenceAfter (t.write (ofRecords records) env).1.lastSequence
        (rest.map Prod.fst) + 1 < 2 ^ 64 := by
      unfold sequenceAfter at bound ⊢
      omega
    rw [DBTable.writeBatches_cons]
    exact ih (fun other member => fits other (List.mem_cons_of_mem _ member)) _
      (write_consistent consistent first (by omega) env)
      (by rw [length_lgs_write first (by omega) env, counted]) rest_bound

/-- A run of taken writes: `last_sequence_` moves past every batch, and every group holds what it
held before followed by its history over the run. -/
theorem writeBatches_taken {lgCount : Nat} (run : List (List BatchRecord × WriteEnv))
    (taken : ∀ step ∈ run, Taken lgCount step.1 step.2) :
    ∀ t : DBTable, t.fatalError = .ok → t.lgs.length = lgCount →
      sequenceAfter t.lastSequence (run.map Prod.fst) + 1 < 2 ^ 64 →
      t.writeBatches run =
        { lastSequence := sequenceAfter t.lastSequence (run.map Prod.fst)
          lgs := t.lgs.mapIdx fun lgId mem =>
            mem ++ groupHistory lgCount lgId t.lastSequence (run.map Prod.fst) } := by
  induction run with
  | nil =>
    intro t healthy _ _
    have unchanged : t.lgs.mapIdx (fun _ mem => mem) = t.lgs := by
      simp [List.mapIdx_eq_zipIdx_map]
    cases t
    simp only [DBTable.writeBatches_nil, List.map_nil, sequenceAfter_nil, groupHistory_nil,
      List.append_nil, DBTable.mk.injEq, true_and] at healthy unchanged ⊢
    exact ⟨unchanged.symm, healthy⟩
  | cons step rest ih =>
    intro t healthy counted bound
    obtain ⟨records, env⟩ := step
    have first : Taken lgCount records env := taken (records, env) List.mem_cons_self
    have later := le_sequenceAfter (t.lastSequence + records.length) (rest.map Prod.fst)
    rw [List.map_cons, sequenceAfter_cons] at bound ⊢
    dsimp only at bound ⊢
    rw [DBTable.writeBatches_cons, write_ofRecords healthy first.wf first.few
      (counted ▸ first.inRange) (by omega) first.logged (counted ▸ first.roomy)]
    rw [ih (fun other member => taken other (List.mem_cons_of_mem _ member)) _ rfl
      (by simp [counted]) bound]
    -- the batch's block comes first in every group, before the rest of the run
    simp only [List.mapIdx_mapIdx, Function.comp_def, List.append_assoc, groupHistory, counted]

/-! ## What reads see after a run of taken writes -/

theorem getD_mapIdx {mems : List (List MemEntry)} {lgId : Nat} (inGroup : lgId < mems.length)
    (f : Nat → List MemEntry → List MemEntry) :
    (mems.mapIdx f).getD lgId [] = f lgId (mems.getD lgId []) := by
  rw [List.getD_eq_getElem _ _ (by rwa [List.length_mapIdx]), List.getElem_mapIdx,
    List.getD_eq_getElem _ _ inGroup]

theorem sequenceAfter_split {run before after : List (List BatchRecord × WriteEnv)}
    {records : List BatchRecord} {env : WriteEnv} (split : run = before ++ (records, env) :: after)
    (last : Nat) :
    sequenceAfter last (run.map Prod.fst) =
      sequenceAfter (sequenceAfter last (before.map Prod.fst) + records.length) (after.map Prod.fst) := by
  rw [split, List.map_append, List.map_cons, sequenceAfter_append, sequenceAfter_cons]

/-- The split deals every record to exactly one group: the groups' shares add up to the batch. -/
theorem sum_length_recordsOfGroup {lgCount : Nat} (records : List BatchRecord)
    (inRange : ∀ record ∈ records, (lgOfKey record.key).1 < lgCount) :
    ∑ lgId ∈ Finset.range lgCount, (recordsOfGroup lgId records).length = records.length := by
  induction records with
  | nil => simp
  | cons record rest ih =>
    have own := inRange record List.mem_cons_self
    have dealt : ∀ lgId, (recordsOfGroup lgId (record :: rest)).length =
        (if (lgOfKey record.key).1 = lgId then 1 else 0) + (recordsOfGroup lgId rest).length := by
      intro lgId
      rw [← List.singleton_append, recordsOfGroup_append, recordsOfGroup_singleton, List.length_append]
      split_ifs <;> rfl
    rw [Finset.sum_congr rfl fun lgId _ => dealt lgId, Finset.sum_add_distrib, Finset.sum_ite_eq,
      if_pos (Finset.mem_range.mpr own),
      ih fun other member => inRange other (List.mem_cons_of_mem _ member), List.length_cons,
      Nat.add_comm]

section TakenRun

variable {lgCount : Nat} {t : DBTable} {run : List (List BatchRecord × WriteEnv)}

/-- Group `lgId` after a run of taken writes: what it held, then its history over the run. -/
theorem group_writeBatches (healthy : t.fatalError = .ok) (counted : t.lgs.length = lgCount)
    (taken : ∀ step ∈ run, Taken lgCount step.1 step.2)
    (bound : sequenceAfter t.lastSequence (run.map Prod.fst) + 1 < 2 ^ 64) {lgId : Nat}
    (inGroup : lgId < lgCount) :
    (t.writeBatches run).lgs.getD lgId [] =
      t.lgs.getD lgId [] ++ groupHistory lgCount lgId t.lastSequence (run.map Prod.fst) := by
  rw [writeBatches_taken run taken t healthy counted bound]
  exact getD_mapIdx (counted ▸ inGroup) _

theorem sequencedUpTo_getD (consistent : t.Consistent) {lgId : Nat} (inGroup : lgId < t.lgs.length) :
    SequencedUpTo (t.lgs.getD lgId []) t.lastSequence := by
  rw [List.getD_eq_getElem _ _ inGroup]
  exact consistent _ (List.getElem_mem inGroup)

/-- A read of a group at the snapshot after some batches of a run of taken writes sees what the
group held before and the history of those batches, and nothing of the batches after. -/
theorem readAt_writeBatches (consistent : t.Consistent) (healthy : t.fatalError = .ok)
    (counted : t.lgs.length = lgCount) (taken : ∀ step ∈ run, Taken lgCount step.1 step.2)
    (bound : sequenceAfter t.lastSequence (run.map Prod.fst) + 1 < 2 ^ 64)
    {before after : List (List BatchRecord × WriteEnv)} (split : run = before ++ after) {lgId : Nat}
    (inGroup : lgId < lgCount) :
    (t.writeBatches run).readAt lgId (sequenceAfter t.lastSequence (before.map Prod.fst)) =
      t.lgs.getD lgId [] ++ groupHistory lgCount lgId t.lastSequence (before.map Prod.fst) := by
  have sequenced := sequencedUpTo_getD consistent (counted ▸ inGroup)
  have upTo := le_sequenceAfter t.lastSequence (before.map Prod.fst)
  have early := mem_groupHistory lgCount lgId (before.map Prod.fst) t.lastSequence
  have late := mem_groupHistory lgCount lgId (after.map Prod.fst)
    (sequenceAfter t.lastSequence (before.map Prod.fst))
  rw [DBTable.readAt, group_writeBatches healthy counted taken bound inGroup, split, List.map_append,
    groupHistory_append, List.filter_append, List.filter_append]
  -- the snapshot falls between the batches before it and the batches after it
  rw [List.filter_eq_self.mpr fun entry member => by simpa using (sequenced.2 entry member).trans upTo,
    List.filter_eq_self.mpr fun entry member => by simpa using (early entry member).2,
    List.filter_eq_nil_iff.mpr fun entry member => by simpa using (late entry member).1,
    List.append_nil]

/-- The entries of a group between the snapshots before and after one batch of a run of taken
writes are that batch's records for the group, numbered to end at the batch's last sequence
number. -/
theorem slice_writeBatches (consistent : t.Consistent) (healthy : t.fatalError = .ok)
    (counted : t.lgs.length = lgCount) (taken : ∀ step ∈ run, Taken lgCount step.1 step.2)
    (bound : sequenceAfter t.lastSequence (run.map Prod.fst) + 1 < 2 ^ 64)
    {before after : List (List BatchRecord × WriteEnv)} {records : List BatchRecord} {env : WriteEnv}
    (split : run = before ++ (records, env) :: after) {lgId : Nat} (inGroup : lgId < lgCount) :
    ((t.writeBatches run).lgs.getD lgId []).filter (fun entry =>
        sequenceAfter t.lastSequence (before.map Prod.fst) < entry.sequence ∧
          entry.sequence ≤ sequenceAfter t.lastSequence (before.map Prod.fst) + records.length) =
      groupHistory lgCount lgId (sequenceAfter t.lastSequence (before.map Prod.fst)) [records] := by
  have sequenced := sequencedUpTo_getD consistent (counted ▸ inGroup)
  have upTo := le_sequenceAfter t.lastSequence (before.map Prod.fst)
  have early := mem_groupHistory lgCount lgId (before.map Prod.fst) t.lastSequence
  have own := mem_groupHistory lgCount lgId [records]
    (sequenceAfter t.lastSequence (before.map Prod.fst))
  have late := mem_groupHistory lgCount lgId (after.map Prod.fst)
    (sequenceAfter t.lastSequence (before.map Prod.fst) + records.length)
  rw [sequenceAfter_cons, sequenceAfter_nil] at own
  rw [group_writeBatches healthy counted taken bound inGroup, split, List.map_append, List.map_cons,
    ← List.singleton_append, groupHistory_append, groupHistory_append, sequenceAfter_cons,
    sequenceAfter_nil, List.filter_append, List.filter_append, List.filter_append]
  -- only the batch's own block lies between the two snapshots
  rw [List.filter_eq_nil_iff.mpr fun entry member => by
      have held := sequenced.2 entry member
      simp only [decide_eq_true_eq]
      omega,
    List.filter_eq_nil_iff.mpr fun entry member => by
      have before := (early entry member).2
      simp only [decide_eq_true_eq]
      omega,
    List.filter_eq_self.mpr fun entry member => by simpa using own entry member,
    List.filter_eq_nil_iff.mpr fun entry member => by
      have after := (late entry member).1
      simp only [decide_eq_true_eq]
      omega,
    List.nil_append, List.nil_append, List.append_nil]

/-- Locality-group writes keep per-group sequence numbers consistent over a run of writes the table
takes. For every batch of the run: the split gives every group a batch of its records under their
inner keys, numbered to end at the batch's last sequence number; the groups' shares add up to the
batch; and the entries of each group between the snapshots before and after the batch are exactly
its records for the group, numbered to end there. After the run, `last_sequence_` is past every
batch, sequence numbers increase strictly within each group, and a read of a group at the snapshot
after any batch sees what the group held before and the records of the batches up to that one. -/
theorem writeBatches_locality_groups (consistent : t.Consistent) (healthy : t.fatalError = .ok)
    (counted : t.lgs.length = lgCount) (taken : ∀ step ∈ run, Taken lgCount step.1 step.2)
    (bound : sequenceAfter t.lastSequence (run.map Prod.fst) + 1 < 2 ^ 64) :
    (∀ before records env after, run = before ++ (records, env) :: after →
      (1 < lgCount →
        ((ofRecords records).setSequence
            (sequenceAfter t.lastSequence (before.map Prod.fst) + 1)).seperateLocalityGroup lgCount =
          ((List.range lgCount).map fun lgId =>
            some ((ofRecords (recordsOfGroup lgId records)).setSequence
              (sequenceAfter t.lastSequence (before.map Prod.fst) + records.length + 1 -
                (recordsOfGroup lgId records).length)), .ok)) ∧
      ∑ lgId ∈ Finset.range lgCount, (recordsOfGroup lgId records).length = records.length ∧
      ∀ lgId < lgCount,
        ((t.writeBatches run).lgs.getD lgId []).filter (fun entry =>
            sequenceAfter t.lastSequence (before.map Prod.fst) < entry.sequence ∧
              entry.sequence ≤ sequenceAfter t.lastSequence (before.map Prod.fst) + records.length) =
          numbered (sequenceAfter t.lastSequence (before.map Prod.fst) + records.length + 1 -
              (deliveredRecords lgCount lgId records).length)
            (deliveredRecords lgCount lgId records)) ∧
    (t.writeBatches run).lastSequence = sequenceAfter t.lastSequence (run.map Prod.fst) ∧
    (t.writeBatches run).Consistent ∧
    ∀ before after, run = before ++ after → ∀ lgId < lgCount,
      ((t.writeBatches run).readAt lgId (sequenceAfter t.lastSequence (before.map Prod.fst))).map
          MemEntry.record =
        (t.lgs.getD lgId []).map MemEntry.record ++
          (before.map Prod.fst).flatMap (deliveredRecords lgCount lgId) := by
  refine ⟨?_, ?_, ?_, ?_⟩
  · intro before records env after split
    have fits := (taken (records, env) (by simp [split])).toFits
    have reaches := sequenceAfter_split split t.lastSequence
    have later := le_sequenceAfter (sequenceAfter t.lastSequence (before.map Prod.fst) +
      records.length) (after.map Prod.fst)
    refine ⟨fun _ => ?_, sum_length_recordsOfGroup records fits.inRange, fun lgId inGroup => ?_⟩
    · rw [seperateLocalityGroup_ofRecords fits.wf fits.few fits.inRange (Nat.le_add_left 1 _)
        (by omega), Nat.add_right_comm _ 1 records.length]
    · rw [slice_writeBatches consistent healthy counted taken bound split inGroup,
        groupHistory_singleton]
  · rw [writeBatches_taken run taken t healthy counted bound]
  · exact writeBatches_consistent run (fun step member => (taken step member).toFits) t consistent
      counted bound
  · intro before after split lgId inGroup
    rw [readAt_writeBatches consistent healthy counted taken bound split inGroup, List.map_append,
      records_groupHistory]

/-- A table of two empty groups. -/
def twoGroupTable : DBTable := ⟨0, [[], []], .ok⟩

/-- Two batches the table takes: a record for group 1 and one whose key has no marker, then a record
for group 0. -/
def twoGroupRun : List (List BatchRecord × WriteEnv) :=
  [([.put (putFixed32LGId [97] 1) [1], .delete [98]], ⟨.ok, fun _ => .ok⟩),
    ([.put (putFixed32LGId [99] 0) [2]], ⟨.ok, fun _ => .ok⟩)]

theorem writeBatches_locality_groups_two_groups :
    (∀ before records env after, twoGroupRun = before ++ (records, env) :: after →
      (1 < 2 →
        ((ofRecords records).setSequence
            (sequenceAfter twoGroupTable.lastSequence (before.map Prod.fst) + 1)).seperateLocalityGroup 2 =
          ((List.range 2).map fun lgId =>
            some ((ofRecords (recordsOfGroup lgId records)).setSequence
              (sequenceAfter twoGroupTable.lastSequence (before.map Prod.fst) + records.length + 1 -
                (recordsOfGroup lgId records).length)), .ok)) ∧
      ∑ lgId ∈ Finset.range 2, (recordsOfGroup lgId records).length = records.length ∧
      ∀ lgId < 2,
        ((twoGroupTable.writeBatches twoGroupRun).lgs.getD lgId []).filter (fun entry =>
            sequenceAfter twoGroupTable.lastSequence (before.map Prod.fst) < entry.sequence ∧
              entry.sequence ≤
                sequenceAfter twoGroupTable.lastSequence (before.map Prod.fst) + records.length) =
          numbered (sequenceAfter twoGroupTable.lastSequence (before.map Prod.fst) + records.length + 1 -
              (deliveredRecords 2 lgId records).length)
            (deliveredRecords 2 lgId records)) ∧
    (twoGroupTable.writeBatches twoGroupRun).lastSequence =
      sequenceAfter twoGroupTable.lastSequence (twoGroupRun.map Prod.fst) ∧
    (twoGroupTable.writeBatches twoGroupRun).Consistent ∧
    ∀ before after, twoGroupRun = before ++ after → ∀ lgId < 2,
      ((twoGroupTable.writeBatches twoGroupRun).readAt lgId
          (sequenceAfter twoGroupTable.lastSequence (before.map Prod.fst))).map MemEntry.record =
        (twoGroupTable.lgs.getD lgId []).map MemEntry.record ++
          (before.map Prod.fst).flatMap (deliveredRecords 2 lgId) :=
  writeBatches_locality_groups (by decide) rfl rfl (by decide) (by decide)

end TakenRun

end Tera.LevelDB
