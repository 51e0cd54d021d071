import Tera.Io.RowRead

/-! # Flushing a batch of row mutations: `TabletWriter::FlushToDiskBatch`

The writer thread flushes a batch of write tasks, each a list of row mutation sequences with a
status each, in four steps. `CheckRows` validates the rows in batch order. On a transactional table
a row that carries a read (`txn_read_info.has_read`) fails with `kTxnFail` in two cases: a row of
the same key passed this stage earlier in the batch, or `TabletIO::SingleRowTxnCheck` reads the row
again and finds other cells than the recorded ones. Then the row's arguments are checked.
`BatchRequest` turns the mutations of the rows still `kTabletNodeOk` into puts of encoded keys,
`WriteBatch` applies them, and `FinishTask` reports the batch's status on the rows that passed.

The tablet is the list of the entries a read sees, in key order: a put replaces the entry whose
key compares equal, as the DB iterator shows only the newest entry of a key. The tasks of a batch
are taken as one list of rows. Tables that are not key-value only and have one locality group are
modelled. The server clock is given as the time each written mutation reads, and writing the batch
does not fail.
-/

namespace Tera.Io

open Tera.RawKey Tera.Lib Tera.Compact

/-- `MutationType`. -/
inductive MutationType where
  | kPut
  | kDeleteColumn
  | kDeleteColumns
  | kDeleteFamily
  | kDeleteRow
  | kAdd
  | kPutIfAbsent
  | kAppend
  | kAddInt64
deriving DecidableEq, Repr

/-- The fields of a `Mutation` a write reads; an absent timestamp is `none`. -/
structure Mutation where
  type : MutationType
  family : Bytes
  qualifier : Bytes
  timestamp : Option Int
  value : Bytes
deriving DecidableEq, Repr

/-- `SingleRowTxnReadInfo`, with the message's defaults; an absent time bound is `none`. -/
structure SingleRowTxnReadInfo where
  hasRead : Bool := false
  readColumnList : List ColumnFamily := []
  readResult : List KeyValuePair := []
  maxVersions : Nat := 1
  startTimestamp : Option Int := none
  endTimestamp : Option Int := none
deriving DecidableEq, Repr

/-- `RowMutationSequence`; a row without a transaction read has the default read info. -/
structure RowMutationSequence where
  rowKey : Bytes
  mutationSequence : List Mutation
  txnReadInfo : SingleRowTxnReadInfo := {}
deriving DecidableEq, Repr

/-- The tablet as reads see it, and the last sequence number written. -/
structure Tablet where
  content : List IterEntry
  lastSequence : Nat
deriving DecidableEq, Repr

section Write

variable (schema : TableSchema) (now : Int)

/-- The `ScanOptions` `SingleRowTxnCheck` reads with. A family listed twice keeps the qualifiers of
both lists, as `column_family_list[name]` is not cleared. -/
def txnScanOptions (info : SingleRowTxnReadInfo) : ScanOptions :=
  let options := info.readColumnList.foldl (fun (options : ScanOptions) column =>
    { options with
      columnFamilyList := mapAssign column.familyName
        (column.qualifierList.foldl (fun set qualifier => setInsert qualifier set)
          ((mapFind column.familyName options.columnFamilyList).getD []))
        options.columnFamilyList
      iterCfSet := setInsert column.familyName options.iterCfSet }) {}
  { options with
    maxVersions := info.maxVersions
    tsStart := info.startTimestamp.getD options.tsStart
    tsEnd := info.endTimestamp.getD options.tsEnd }

/-- The row read `SingleRowTxnCheck` makes: `LowLevelScan` of the row with the recorded options. -/
def txnRead (content : List IterEntry) (rowKey : Bytes) (info : SingleRowTxnReadInfo) :
    List KeyValuePair :=
  lowLevelScan schema now content (encodeTeraKey rowKey [] [] kLatestTs TeraKeyType.value)
    (rowKey ++ [0]) (txnScanOptions info)

/-- The comparison of a cell read again with the recorded one: family, qualifier and timestamp,
and the value only when the read recorded a time bound. -/
def cellMatches (hasTimestamp : Bool) (newKv oldKv : KeyValuePair) : Bool :=
  newKv.columnFamily == oldKv.columnFamily && newKv.qualifier == oldKv.qualifier &&
    newKv.timestamp == oldKv.timestamp && (!hasTimestamp || newKv.value == oldKv.value)

/-- `TabletIO::SingleRowTxnCheck`: the row read again has as many cells as the recorded read, and
each matches its recorded cell. -/
def singleRowTxnCheck (content : List IterEntry) (rowKey : Bytes) (info : SingleRowTxnReadInfo) :
    Bool :=
  let rowResult := txnRead schema now content rowKey info
  let hasTimestamp := info.startTimestamp.isSome || info.endTimestamp.isSome
  rowResult.length == info.readResult.length &&
    (rowResult.zip info.readResult).all fun (newKv, oldKv) => cellMatches hasTimestamp newKv oldKv

/-- `TabletWriter::CheckSingleRowTxnConflict`: `kTxnFail` for a transaction whose row passed
earlier in the batch or whose read changed; a row that passes joins `commit_row_key_set`. -/
def checkSingleRowTxnConflict (content : List IterEntry) (row : RowMutationSequence)
    (commitRowKeySet : List Bytes) : Option StatusCode × List Bytes :=
  if row.txnReadInfo.hasRead ∧ (row.rowKey ∈ commitRowKeySet ∨
      singleRowTxnCheck schema now content row.rowKey row.txnReadInfo = false) then
    (some .kTxnFail, commitRowKeySet)
  else (none, commitRowKeySet ++ [row.rowKey])

/-- `TabletWriter::CheckIllegalRowArg` on a table that is not key-value only. -/
def checkIllegalRowArg (cfSet : List Bytes) (row : RowMutationSequence) : Option StatusCode :=
  if row.rowKey.length ≥ 64 * 1024 then some .kTableInvalidArg
  else if row.mutationSequence.any fun mu => decide (mu.value.length ≥ 32 * 1024 * 1024) ||
      decide (mu.qualifier.length ≥ 64 * 1024) ||
      (mu.type != .kDeleteRow && !cfSet.contains mu.family) then
    some .kTableInvalidArg
  else none

/-- One row of `TabletWriter::CheckRows`: its status is appended, and the key set carried on. -/
def checkRow (enableTxn : Bool) (content : List IterEntry) (cfSet : List Bytes)
    (state : List StatusCode × List Bytes) (row : RowMutationSequence) :
    List StatusCode × List Bytes :=
  let (txnStatus, commitRowKeySet) :=
    if enableTxn then checkSingleRowTxnConflict schema now content row state.2 else (none, state.2)
  match txnStatus with
  | some status => (state.1 ++ [status], commitRowKeySet)
  | none => (state.1 ++ [(checkIllegalRowArg cfSet row).getD .kTabletNodeOk], commitRowKeySet)

/-- `TabletWriter::CheckRows`: the status of each row of the batch. -/
def checkRows (enableTxn : Bool) (content : List IterEntry) (rows : List RowMutationSequence) :
    List StatusCode :=
  (rows.foldl (checkRow schema now enableTxn content (schema.columnFamilies.map (·.name)))
    ([], [])).1

end Write

/-- The key type `BatchRequest` writes a mutation as. -/
def MutationType.teraKeyType : MutationType → TeraKeyType
  | .kDeleteRow => TeraKeyType.del
  | .kDeleteFamily => TeraKeyType.delColumn
  | .kDeleteColumn => TeraKeyType.delQualifier
  | .kDeleteColumns => TeraKeyType.delQualifiers
  | .kAdd => TeraKeyType.add
  | .kAddInt64 => TeraKeyType.addInt64
  | .kPutIfAbsent => TeraKeyType.putIfAbsent
  | .kAppend => TeraKeyType.append
  | .kPut => TeraKeyType.value

/-- `TeraKey::IsTypeAllowUserSetTimestamp`: the delete tags and plain values. -/
def isTypeAllowUserSetTimestamp (type : TeraKeyType) : Bool :=
  type == TeraKeyType.del || type == TeraKeyType.delColumn || type == TeraKeyType.delQualifiers ||
    type == TeraKeyType.delQualifier || type == TeraKeyType.value

/-- The timestamp `BatchRequest` writes a mutation at: the one it carries, if a transactional table
or the key type allows it and it is not `kLatestTimestamp`, and the clock's otherwise. -/
def mutationTimestamp (enableTxn : Bool) (mu : Mutation) (clock : Int) : Int :=
  match mu.timestamp with
  | some timestamp =>
    if (enableTxn || isTypeAllowUserSetTimestamp mu.type.teraKeyType) && timestamp ≠ kLatestTs then
      timestamp
    else clock
  | none => clock

/-- `TabletWriter::BatchRequest`: the puts of the mutations of the rows that passed, in order; the
`index`-th of them reads the clock `clock index`. -/
def batchRequest (enableTxn : Bool) (clock : Nat → Int) (rows : List RowMutationSequence)
    (statuses : List StatusCode) : List (Bytes × Bytes) :=
  let mutations := (rows.zip statuses).flatMap fun (row, status) =>
    if status = .kTabletNodeOk then row.mutationSequence.map (row.rowKey, ·) else []
  mutations.mapIdx fun index (rowKey, mu) =>
    (encodeTeraKey rowKey mu.family mu.qualifier (mutationTimestamp enableTxn mu (clock index))
      mu.type.teraKeyType, mu.value)

/-- A put as reads see it: the entry of a key that compares equal is replaced, and a new key goes
in order. -/
def putEntry (entry : IterEntry) : List IterEntry → List IterEntry
  | [] => [entry]
  | head :: rest =>
    match binaryCompare entry.key head.key with
    | .lt => entry :: head :: rest
    | .eq => entry :: rest
    | .gt => head :: putEntry entry rest

/-- `TabletIO::WriteBatch` of the puts, each at the next sequence number. -/
def Tablet.writeBatch (tablet : Tablet) (puts : List (Bytes × Bytes)) : Tablet :=
  puts.foldl (fun tablet (key, value) =>
    ⟨putEntry ⟨key, tablet.lastSequence + 1, value⟩ tablet.content, tablet.lastSequence + 1⟩) tablet

/-- `TabletWriter::FlushToDiskBatch`: the rows' statuses, and the tablet after the batch. -/
def flushToDiskBatch (schema : TableSchema) (now : Int) (enableTxn : Bool) (clock : Nat → Int)
    (tablet : Tablet) (rows : List RowMutationSequence) : List StatusCode × Tablet :=
  let statuses := checkRows schema now enableTxn tablet.content rows
  (statuses, tablet.writeBatch (batchRequest enableTxn clock rows statuses))

/-! ## What the checks of a batch guarantee -/

/-- The parts of a cell a transaction's check can compare: family, qualifier, timestamp, value. -/
def KeyValuePair.cell (kv : KeyValuePair) : Bytes × Bytes × Int × Bytes :=
  (kv.columnFamily, kv.qualifier, kv.timestamp, kv.value)

/-- A row before a later one in a batch: if the later row is an applied transaction, the earlier
row is not an applied row of the same key. -/
def FirstOfKey (earlier later : RowMutationSequence × StatusCode) : Prop :=
  later.1.txnReadInfo.hasRead = true → later.2 = .kTabletNodeOk → earlier.2 = .kTabletNodeOk →
    earlier.1.rowKey ≠ later.1.rowKey

theorem cellMatches_true {newKv oldKv : KeyValuePair} (matched : cellMatches true newKv oldKv = true) :
    newKv.cell = oldKv.cell := by
  simp only [cellMatches, Bool.not_true, Bool.false_or, Bool.and_eq_true, beq_iff_eq] at matched
  obtain ⟨⟨⟨family, qualifier⟩, timestamp⟩, value⟩ := matched
  simp [KeyValuePair.cell, family, qualifier, timestamp, value]

/-- Two lists of equal length whose paired elements agree under `f` agree under `f`. -/
theorem map_eq_of_zip {α β : Type} (f : α → β) :
    ∀ (first second : List α), first.length = second.length →
      (∀ pair ∈ first.zip second, f pair.1 = f pair.2) → first.map f = second.map f
  | [], [], _, _ => rfl
  | a :: first, b :: second, lengths, agree => by
    rw [List.map_cons, List.map_cons, agree (a, b) List.mem_cons_self,
      map_eq_of_zip f first second (by simpa using lengths)
        fun pair member => agree pair (List.mem_cons_of_mem _ member)]

section Checks

variable (schema : TableSchema) (now : Int)

/-- A passed check of a read that recorded a time bound means the row read again has exactly the
recorded cells. -/
theorem singleRowTxnCheck_reads_recorded {content : List IterEntry} {rowKey : Bytes}
    {info : SingleRowTxnReadInfo} (passed : singleRowTxnCheck schema now content rowKey info = true)
    (bounded : info.startTimestamp.isSome ∨ info.endTimestamp.isSome) :
    (txnRead schema now content rowKey info).map KeyValuePair.cell =
      info.readResult.map KeyValuePair.cell := by
  have hasTimestamp : (info.startTimestamp.isSome || info.endTimestamp.isSome) = true := by
    simpa using bounded
  simp only [singleRowTxnCheck, hasTimestamp, Bool.and_eq_true, beq_iff_eq, List.all_eq_true]
    at passed
  obtain ⟨lengths, matched⟩ := passed
  exact map_eq_of_zip _ _ _ lengths fun pair member => cellMatches_true (matched pair member)

/-- What `CheckRows` on a transactional table has established after a prefix of the batch: a
status for each row, the key of every row that passed in the key set, applied transactions first
among the applied rows of their key, and each applied transaction's read checked. -/
structure CheckedPrefix (content : List IterEntry) (rows : List RowMutationSequence)
    (state : List StatusCode × List Bytes) : Prop where
  length : state.1.length = rows.length
  keysKept : ∀ pair ∈ rows.zip state.1, pair.2 = .kTabletNodeOk → pair.1.rowKey ∈ state.2
  firstOfKey : (rows.zip state.1).Pairwise FirstOfKey
  readChecked : ∀ pair ∈ rows.zip state.1, pair.2 = .kTabletNodeOk →
    pair.1.txnReadInfo.hasRead = true →
    singleRowTxnCheck schema now content pair.1.rowKey pair.1.txnReadInfo = true

/-- A transaction whose row passed earlier in the batch, or whose read changed, fails. -/
theorem checkRow_rejected (content : List IterEntry) (cfSet : List Bytes) (statuses : List StatusCode)
    (keys : List Bytes) (row : RowMutationSequence)
    (rejected : row.txnReadInfo.hasRead ∧ (row.rowKey ∈ keys ∨
      singleRowTxnCheck schema now content row.rowKey row.txnReadInfo = false)) :
    checkRow schema now true content cfSet (statuses, keys) row = (statuses ++ [.kTxnFail], keys) := by
  simp [checkRow, checkSingleRowTxnConflict, rejected]

/-- Any other row passes the transaction stage: its key joins the set, and its arguments decide
its status. -/
theorem checkRow_passed (content : List IterEntry) (cfSet : List Bytes) (statuses : List StatusCode)
    (keys : List Bytes) (row : RowMutationSequence)
    (passed : ¬(row.txnReadInfo.hasRead ∧ (row.rowKey ∈ keys ∨
      singleRowTxnCheck schema now content row.rowKey row.txnReadInfo = false))) :
    checkRow schema now true content cfSet (statuses, keys) row =
      (statuses ++ [(checkIllegalRowArg cfSet row).getD .kTabletNodeOk], keys ++ [row.rowKey]) := by
  simp only [checkRow, checkSingleRowTxnConflict, if_true, if_neg passed]

/-- One row of `CheckRows` keeps what the prefix established. -/
theorem CheckedPrefix.step {content : List IterEntry} {rows : List RowMutationSequence}
    {statuses : List StatusCode} {keys : List Bytes}
    (checked : CheckedPrefix schema now content rows (statuses, keys)) (cfSet : List Bytes)
    (row : RowMutationSequence) :
    CheckedPrefix schema now content (rows ++ [row])
      (checkRow schema now true content cfSet (statuses, keys) row) := by
  have zipped : ∀ status, (rows ++ [row]).zip (statuses ++ [status]) =
      rows.zip statuses ++ [(row, status)] := fun status =>
    List.zip_append checked.length.symm
  by_cases rejected : row.txnReadInfo.hasRead ∧ (row.rowKey ∈ keys ∨
      singleRowTxnCheck schema now content row.rowKey row.txnReadInfo = false)
  · -- the row fails, and nothing about the applied rows changes
    rw [checkRow_rejected schema now content cfSet statuses keys row rejected]
    refine ⟨by simp [checked.length], ?_, ?_, ?_⟩
    · intro pair member applied
      rw [zipped, List.mem_append, List.mem_singleton] at member
      rcases member with earlier | rfl
      · exact checked.keysKept pair earlier applied
      · cases applied
    · rw [zipped, List.pairwise_append]
      refine ⟨checked.firstOfKey, List.pairwise_singleton _ _, ?_⟩
      intro earlier _ later member _ applied
      rw [List.mem_singleton] at member
      subst member
      cases applied
    · intro pair member applied
      rw [zipped, List.mem_append, List.mem_singleton] at member
      rcases member with earlier | rfl
      · exact checked.readChecked pair earlier applied
      · cases applied
  · -- the row's key joins the set; if it is a transaction, its key was not there and its read held
    rw [checkRow_passed schema now content cfSet statuses keys row rejected]
    have fresh : row.txnReadInfo.hasRead = true → row.rowKey ∉ keys ∧
        singleRowTxnCheck schema now content row.rowKey row.txnReadInfo = true := by
      intro hasRead
      simpa [hasRead] using rejected
    refine ⟨by simp [checked.length], ?_, ?_, ?_⟩
    · intro pair member applied
      rw [zipped, List.mem_append, List.mem_singleton] at member
      rcases member with earlier | rfl
      · exact List.mem_append_left _ (checked.keysKept pair earlier applied)
      · exact List.mem_append_right _ (List.mem_singleton_self _)
    · rw [zipped, List.pairwise_append]
      refine ⟨checked.firstOfKey, List.pairwise_singleton _ _, ?_⟩
      intro earlier member later current hasRead _ applied same
      rw [List.mem_singleton] at current
      subst current
      exact (fresh hasRead).1 (same ▸ checked.keysKept earlier member applied)
    · intro pair member applied hasRead
      rw [zipped, List.mem_append, List.mem_singleton] at member
      rcases member with earlier | rfl
      · exact checked.readChecked pair earlier applied hasRead
      · exact (fresh hasRead).2

theorem CheckedPrefix.foldl {content : List IterEntry} (cfSet : List Bytes) :
    ∀ (rest rows : List RowMutationSequence) (state : List StatusCode × List Bytes),
      CheckedPrefix schema now content rows state →
      CheckedPrefix schema now content (rows ++ rest)
        (rest.foldl (checkRow schema now true content cfSet) state)
  | [], rows, state, checked => by simpa using checked
  | row :: rest, rows, (statuses, keys), checked => by
    rw [List.foldl_cons, List.append_cons]
    exact CheckedPrefix.foldl cfSet rest _ _ (checked.step schema now cfSet row)

end Checks

/-! ## A transaction over an overwritten value -/

/-- A table with one family `cf` of ten versions and no time to live. -/
def txnSchema : TableSchema := ⟨[⟨[99, 102], 10, 0⟩]⟩

/-- A put of a value to `cf:q` of row `r` at timestamp 10. -/
def putAtTen (value : Bytes) : RowMutationSequence :=
  ⟨[114], [⟨.kPut, [99, 102], [113], some 10, value⟩], {}⟩

/-- A transaction that read `cf:q` of row `r` as `a` at timestamp 10, with the default time range,
and writes `c` to `cf:w`. -/
def readThenWrite : RowMutationSequence :=
  ⟨[114], [⟨.kPut, [99, 102], [119], some 20, [99]⟩],
    { hasRead := true, readColumnList := [⟨[99, 102], [[113]]⟩],
      readResult := [⟨[114], [99, 102], [113], 10, [97]⟩] }⟩

/-- The row after a batch puts `a` to `cf:q` at timestamp 10 and a later batch puts `b` there at the
same timestamp. -/
def overwrittenRow : Tablet :=
  (flushToDiskBatch txnSchema 0 true (fun _ => 0)
    (flushToDiskBatch txnSchema 0 true (fun _ => 0) ⟨[], 0⟩ [putAtTen [97]]).2 [putAtTen [98]]).2

/-- The row holds `b` at timestamp 10. A transaction that read `a` there and recorded no time range
still passes its check and is applied: with no time bound the check compares timestamps but not
values. -/
theorem flushToDiskBatch_txn_after_overwrite :
    txnRead txnSchema 0 overwrittenRow.content [114] readThenWrite.txnReadInfo =
        [⟨[114], [99, 102], [113], 10, [98]⟩] ∧
      (flushToDiskBatch txnSchema 0 true (fun _ => 0) overwrittenRow [readThenWrite]).1 =
        [.kTabletNodeOk] := by
  decide +kernel

end Tera.Io
