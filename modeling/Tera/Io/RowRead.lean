import Tera.Compact.AtomicMerge
import Tera.Lib.OrderedMap
import Tera.Lib.IteratorLoop

/-! # Reading one row: `TabletIO::ReadCells`

`ReadCells` turns a `RowReaderInfo` into `ScanOptions` and reads the row one of two ways. When every
requested family lists qualifiers it calls `LowLevelSeek`, which seeks to each requested qualifier
and walks its versions; otherwise it calls `LowLevelScan` over the row, which walks every entry of
the row, counts versions and qualifiers as it goes and filters the columns and the time range only
when it hands the row's buffer to `ProcessRowBuffer`. Both feed the entries they read to one
`DefaultCompactStrategy`'s `ScanDrop` and merge atomic operations with `ScanMergedValue`.

The tablet is the list of its entries in key order; `Iterator::Seek` moves to the first entry not
before the target and `Next` to the following one. Reads without a filter are modelled; the
timeout, shutdown and iterator-error exits and the read counters are not.
-/

namespace Tera.Io

open Tera.RawKey Tera.Lib Tera.Compact

/-- `kLatestTs`, the newest timestamp (`INT64_MAX`). -/
def kLatestTs : Int := 2 ^ 63 - 1

/-- `kOldestTs`, the oldest timestamp (`INT64_MIN`). -/
def kOldestTs : Int := -2 ^ 63

/-- A cell of a read's result, and an entry of `SingleRowBuffer`. -/
structure KeyValuePair where
  key : Bytes
  columnFamily : Bytes
  qualifier : Bytes
  timestamp : Int
  value : Bytes
deriving DecidableEq, Repr

/-- The fields of `ScanOptions` a row read sets or reads; the defaults are the constructor's. The
family list is a `std::map` from family to a `std::set` of qualifiers, kept as sorted lists. -/
structure ScanOptions where
  maxVersions : Nat := 2 ^ 32 - 1
  maxSize : Nat := 2 ^ 32 - 1
  numberLimit : Int := 2 ^ 63 - 1
  tsStart : Int := kOldestTs
  tsEnd : Int := kLatestTs
  columnFamilyList : List (Bytes × List Bytes) := []
  iterCfSet : List Bytes := []
  maxQualifiers : Nat := 2 ^ 64 - 1
deriving DecidableEq, Repr

/-- A requested family of a `RowReaderInfo`. -/
structure ColumnFamily where
  familyName : Bytes
  qualifierList : List Bytes
deriving DecidableEq, Repr

/-- The request of a row read, without a filter; an absent optional field is `none`. -/
structure RowReaderInfo where
  key : Bytes
  cfList : List ColumnFamily
  timeRange : Option (Int × Int)
  maxVersion : Option Nat
  maxQualifiers : Option Nat
deriving DecidableEq, Repr

/-- One pass of `ReadCells`' loop over the requested families. The family's entry of the map is
cleared before its qualifiers go in, so a family named twice keeps its last list; a family without
qualifiers rules the seek path out. -/
def addColumnFamily (request : ScanOptions × Bool) (family : ColumnFamily) : ScanOptions × Bool :=
  let qualifierList := family.qualifierList.foldl (fun set qualifier => setInsert qualifier set) []
  ({ request.1 with
      columnFamilyList := mapAssign family.familyName qualifierList request.1.columnFamilyList
      iterCfSet := setInsert family.familyName request.1.iterCfSet },
    request.2 && !qualifierList.isEmpty)

/-- The `ScanOptions` `ReadCells` builds from a request, and `ll_seek_available`. -/
def readCellsOptions (rowReader : RowReaderInfo) : ScanOptions × Bool :=
  let (options, llSeekAvailable) := rowReader.cfList.foldl addColumnFamily ({}, true)
  ({ options with
      maxVersions := rowReader.maxVersion.getD options.maxVersions
      maxQualifiers := rowReader.maxQualifiers.getD (2 ^ 64 - 1)
      tsStart := (rowReader.timeRange.map Prod.fst).getD options.tsStart
      tsEnd := (rowReader.timeRange.map Prod.snd).getD options.tsEnd },
    llSeekAvailable && !options.columnFamilyList.isEmpty)

/-- The result codes of the modelled exits of a read and of a write. -/
inductive StatusCode where
  | kTabletNodeOk
  | kKeyNotExist
  | kTableInvalidArg
  | kTxnFail
deriving DecidableEq, Repr

/-- The column test of `ProcessRowBuffer`: with a family list, the cell's family must be listed,
and its qualifier too when the family lists qualifiers. -/
def wantedColumn (options : ScanOptions) (kv : KeyValuePair) : Bool :=
  options.columnFamilyList.isEmpty ||
    match mapFind kv.columnFamily options.columnFamilyList with
    | some qualList => qualList.isEmpty || setContains kv.qualifier qualList
    | none => false

/-- A scan's output so far: the cells returned, and the byte size (`uint32_t`) and cell count
`ProcessRowBuffer` adds to. -/
structure ScanOutput where
  values : List KeyValuePair := []
  bufferSize : Nat := 0
  numberLimit : Int := 0
deriving DecidableEq, Repr

/-- One cell of `ProcessRowBuffer`: a cell of an unwanted column or outside the time range is
filtered out, any other is returned and counted. -/
def processRowBufferCell (options : ScanOptions) (out : ScanOutput) (kv : KeyValuePair) :
    ScanOutput :=
  if !wantedColumn options kv then out
  else if kv.timestamp < options.tsStart ∨ kv.timestamp > options.tsEnd then out
  else
    { values := out.values ++ [kv]
      numberLimit := out.numberLimit + 1
      bufferSize := (out.bufferSize + kv.key.length + kv.columnFamily.length +
        kv.qualifier.length + 8 + kv.value.length) % 2 ^ 32 }

/-- `TabletIO::ProcessRowBuffer` without a filter. -/
def processRowBuffer (rowBuf : List KeyValuePair) (options : ScanOptions) (out : ScanOutput) :
    ScanOutput :=
  rowBuf.foldl (processRowBufferCell options) out

/-- The part of `ScanContext` `LowLevelScan` reads and writes; the defaults are the ones the row
read's `LowLevelScan` wrapper sets. -/
structure ScanContext where
  compactStrategy : DefaultCompactStrategy := {}
  versionNum : Nat := 1
  quNum : Nat := 1
  lastKey : Bytes := []
  lastCol : Bytes := []
  lastQual : Bytes := []
deriving DecidableEq, Repr

/-- The variables `LowLevelScan`'s loop writes: the scan context, the row buffer and the output. -/
structure ScanState where
  context : ScanContext := {}
  rowBuf : List KeyValuePair := []
  out : ScanOutput := {}
deriving DecidableEq, Repr

/-- The variables `LowLevelSeek`'s version loop writes: the compact strategy, the qualifier's version
count and the cells returned so far. -/
structure SeekState where
  strategy : DefaultCompactStrategy
  versionNum : Nat
  values : List KeyValuePair
deriving DecidableEq, Repr

section Read

variable (schema : TableSchema) (now : Int)

/-- `Iterator::Seek` over entries in key order: the entries from the first one not before the
target. -/
def seek (content : List IterEntry) (target : Bytes) : List IterEntry :=
  content.dropWhile fun entry => binaryCompare entry.key target == .lt

/-- One pass of `LowLevelSeek`'s version loop for one qualifier. It breaks at an entry past the
qualifier, at an entry `ScanDrop` rejects and at a version older than the time range; a version
newer than the range is stepped over before it is counted. A returned cell carries the requested
names and the entry's timestamp. -/
def seekVersionPass (options : ScanOptions) (rowKey cfName quName : Bytes) (state : SeekState)
    (entry : IterEntry) (rest : List IterEntry) : Pass SeekState IterEntry :=
  match extractTeraKey entry.key with
  -- the names stay empty, and `ScanDrop` drops a key that does not decode
  | none => .stop state
  | some cell =>
    if compare cell.rowKey rowKey = .gt ∨ compare cell.family cfName = .gt ∨
        compare cell.qualifier quName = .gt then .stop state
    else
      let (dropped, s) := scanDrop schema now state.strategy entry.key
      let state := { state with strategy := s }
      if dropped then .stop state
      else if options.tsStart > cell.timestamp then .stop state
      else if options.tsEnd < cell.timestamp then .next state rest
      else if state.versionNum + 1 > options.maxVersions then .stop state
      else
        let state := { state with versionNum := state.versionNum + 1 }
        match scanMergedValue s (entry :: rest) with
        | some (mergedValue, _, remaining) =>
          .next { state with
            values := state.values ++ [⟨rowKey, cfName, quName, cell.timestamp, mergedValue⟩] }
            remaining
        | none =>
          .next { state with
            values := state.values ++ [⟨rowKey, cfName, quName, cell.timestamp, entry.value⟩] }
            rest

/-- `LowLevelSeek`'s loop over the qualifiers of one family, in the set's order: each qualifier's
versions are read from a seek to its first key. -/
def seekQualifiers (content : List IterEntry) (options : ScanOptions) (rowKey cfName : Bytes) :
    List Bytes → DefaultCompactStrategy → List KeyValuePair →
      DefaultCompactStrategy × List KeyValuePair
  | [], s, values => (s, values)
  | quName :: rest, s, values =>
    let it := seek content (encodeTeraKey rowKey cfName quName kLatestTs TeraKeyType.forSeek)
    let state := iterate (seekVersionPass schema now options rowKey cfName quName) it.length
      ⟨s, 0, values⟩ it
    seekQualifiers content options rowKey cfName rest state.strategy state.values

/-- `LowLevelSeek`'s loop over the requested families, in the map's order. The first entry at or
after the family's start goes through `ScanDrop`, which records a family delete tag found there; a
family with no entry in the row is passed over. -/
def seekFamilies (content : List IterEntry) (options : ScanOptions) (rowKey : Bytes) :
    List (Bytes × List Bytes) → DefaultCompactStrategy → List KeyValuePair →
      DefaultCompactStrategy × List KeyValuePair
  | [], s, values => (s, values)
  | (cfName, quSet) :: rest, s, values =>
    match seek content (encodeTeraKey rowKey cfName [] kLatestTs TeraKeyType.forSeek) with
    | [] => seekFamilies content options rowKey rest s values
    | entry :: _ =>
      let decoded := extractTeraKey entry.key
      let curRow := (decoded.map TeraKey.rowKey).getD []
      let curCf := (decoded.map TeraKey.family).getD []
      if compare curRow rowKey = .gt ∨ compare curCf cfName = .gt then
        seekFamilies content options rowKey rest s values
      else
        let (s, values) := seekQualifiers schema now content options rowKey cfName quSet
          (scanDrop schema now s entry.key).2 values
        seekFamilies content options rowKey rest s values

/-- `TabletIO::LowLevelSeek`: `kKeyNotExist` and no cells when the row has no entry; otherwise the
row's first entry goes through `ScanDrop`, which records a row delete tag found there, and the
families are read. -/
def lowLevelSeek (content : List IterEntry) (rowKey : Bytes) (options : ScanOptions) :
    StatusCode × List KeyValuePair :=
  match seek content (encodeTeraKey rowKey [] [] kLatestTs TeraKeyType.forSeek) with
  | [] => (.kKeyNotExist, [])
  | entry :: _ =>
    let curRowKey := ((extractTeraKey entry.key).map TeraKey.rowKey).getD []
    if compare curRowKey rowKey = .gt then (.kKeyNotExist, [])
    else
      let s := (scanDrop schema now {} entry.key).2
      (.kTabletNodeOk,
        (seekFamilies schema now content options rowKey options.columnFamilyList s []).2)

/-- The end of a pass of `LowLevelScan` that adds a cell to the row buffer: the loop breaks once
the output has reached `max_size` or `number_limit`. -/
def scanAdd (options : ScanOptions) (state : ScanState) (it : List IterEntry) (kv : KeyValuePair) :
    Pass ScanState IterEntry :=
  let state := { state with rowBuf := state.rowBuf ++ [kv] }
  if state.out.bufferSize ≥ options.maxSize ∨ state.out.numberLimit ≥ options.numberLimit then
    .stop state
  else .next state it

/-- The column bookkeeping of a pass of `LowLevelScan`, for an entry at or after the start key
once the row buffer is settled: a further version of the last column counts against
`max_versions`, a new qualifier of the last family against `max_qualifiers`, and the first entry
of a column is merged with the atomic operations under it. -/
def scanColumn (options : ScanOptions) (state : ScanState) (entry : IterEntry)
    (rest : List IterEntry) (cell : TeraKey) : Pass ScanState IterEntry :=
  let context := state.context
  let sameRowFamily := compare cell.rowKey context.lastKey = .eq ∧
    compare cell.family context.lastCol = .eq
  if sameRowFamily ∧ compare cell.qualifier context.lastQual = .eq then
    let state := { state with context := { context with versionNum := context.versionNum + 1 } }
    if context.versionNum + 1 > options.maxVersions then .next state rest
    else scanAdd options state rest
      ⟨cell.rowKey, cell.family, cell.qualifier, cell.timestamp, entry.value⟩
  else if sameRowFamily ∧ context.quNum + 1 > options.maxQualifiers then
    .next { state with context := { context with quNum := context.quNum + 1 } } rest
  else
    let state := { state with
      context := { context with
        quNum := if sameRowFamily then context.quNum + 1 else 1
        lastKey := cell.rowKey
        lastCol := cell.family
        lastQual := cell.qualifier
        versionNum := 1 } }
    match scanMergedValue context.compactStrategy (entry :: rest) with
    | some (mergedValue, _, remaining) =>
      scanAdd options state remaining
        ⟨cell.rowKey, cell.family, cell.qualifier, cell.timestamp, mergedValue⟩
    | none =>
      scanAdd options state rest
        ⟨cell.rowKey, cell.family, cell.qualifier, cell.timestamp, entry.value⟩

/-- One pass of `LowLevelScan`'s loop at the iterator's entry. -/
def lowLevelScanPass (options : ScanOptions) (startTeraKey endRowKey : Bytes) (state : ScanState)
    (entry : IterEntry) (rest : List IterEntry) : Pass ScanState IterEntry :=
  match extractTeraKey entry.key with
  | none => .next state rest
  | some cell =>
    if !endRowKey.isEmpty ∧ compare cell.rowKey endRowKey ≠ .lt then .stop state
    -- a family that is not read is skipped, except for a row delete tag
    else if !options.iterCfSet.isEmpty ∧ setContains cell.family options.iterCfSet = false ∧
        cell.type ≠ TeraKeyType.del then .next state rest
    else
      let (dropped, strategy) := scanDrop schema now state.context.compactStrategy entry.key
      let context := { state.context with compactStrategy := strategy }
      if dropped then .next { state with context := context } rest
      else if binaryCompare entry.key startTeraKey = .lt then
        -- before the start key only the version count is kept
        if compare cell.rowKey context.lastKey = .eq ∧ compare cell.family context.lastCol = .eq ∧
            compare cell.qualifier context.lastQual = .eq then
          .next { state with context := { context with versionNum := context.versionNum + 1 } } rest
        else
          .next { state with
            context := { context with
              lastKey := cell.rowKey
              lastCol := cell.family
              lastQual := cell.qualifier
              versionNum := 1 } } rest
      else if compare cell.rowKey context.lastKey ≠ .eq then
        -- a new row: the buffered one is processed and the buffer cleared
        scanColumn options
          ⟨context, [], processRowBuffer state.rowBuf options state.out⟩ entry rest cell
      else scanColumn options { state with context := context } entry rest cell

/-- `TabletIO::LowLevelScan` of one request, from `InitScanIterator`'s seek to the start row: the
cells the loop returns and those of the row left in the buffer. -/
def lowLevelScan (content : List IterEntry) (startTeraKey endRowKey : Bytes)
    (options : ScanOptions) : List KeyValuePair :=
  let startKey := ((extractTeraKey startTeraKey).map TeraKey.rowKey).getD []
  let it := seek content (encodeTeraKey startKey [] [] kLatestTs TeraKeyType.forSeek)
  let state := iterate (lowLevelScanPass schema now options startTeraKey endRowKey) it.length {} it
  (processRowBuffer state.rowBuf options state.out).values

/-- `TabletIO::ReadCells` on a table that is not key-value only: the seek path when every requested
family lists qualifiers, otherwise a scan of the row. -/
def readCells (content : List IterEntry) (rowReader : RowReaderInfo) :
    StatusCode × List KeyValuePair :=
  let (options, llSeekAvailable) := readCellsOptions rowReader
  if llSeekAvailable then lowLevelSeek schema now content rowReader.key options
  else
    (.kTabletNodeOk,
      lowLevelScan schema now content
        (encodeTeraKey rowReader.key [] [] kLatestTs TeraKeyType.value) (rowReader.key ++ [0])
        options)

end Read

/-! ## What each path returns -/

/-- A cell a read may return: of a requested column and within the time range. -/
def Requested (options : ScanOptions) (kv : KeyValuePair) : Prop :=
  wantedColumn options kv = true ∧ options.tsStart ≤ kv.timestamp ∧ kv.timestamp ≤ options.tsEnd

/-- A cell the seek path returns for one requested qualifier: it carries the requested names and
lies in the time range. -/
def SeekCell (options : ScanOptions) (rowKey cfName quName : Bytes) (kv : KeyValuePair) : Prop :=
  kv.key = rowKey ∧ kv.columnFamily = cfName ∧ kv.qualifier = quName ∧
    options.tsStart ≤ kv.timestamp ∧ kv.timestamp ≤ options.tsEnd

/-- What the version loop of one qualifier has added to the cells it started from: one cell of the
qualifier for each counted version, and no more versions than `max_versions`. -/
def SeekProgress (options : ScanOptions) (rowKey cfName quName : Bytes) (values : List KeyValuePair)
    (state : SeekState) : Prop :=
  ∃ added, state.values = values ++ added ∧ added.length = state.versionNum ∧
    state.versionNum ≤ options.maxVersions ∧ ∀ kv ∈ added, SeekCell options rowKey cfName quName kv

section Paths

variable (schema : TableSchema) (now : Int) (options : ScanOptions)

@[simp] theorem processRowBuffer_cons (kv : KeyValuePair) (rowBuf : List KeyValuePair)
    (out : ScanOutput) :
    processRowBuffer (kv :: rowBuf) options out =
      processRowBuffer rowBuf options (processRowBufferCell options out kv) := rfl

/-- `ProcessRowBuffer` returns a buffered cell only when it is requested. -/
theorem processRowBufferCell_values (out : ScanOutput) (kv : KeyValuePair) :
    (processRowBufferCell options out kv).values = out.values ∨
      (processRowBufferCell options out kv).values = out.values ++ [kv] ∧
        Requested options kv := by
  unfold processRowBufferCell
  split_ifs with unwanted outside
  · exact .inl rfl
  · exact .inl rfl
  · refine .inr ⟨rfl, by simpa using unwanted, by omega, by omega⟩

theorem processRowBuffer_requested (rowBuf : List KeyValuePair) :
    ∀ out : ScanOutput, (∀ kv ∈ out.values, Requested options kv) →
      ∀ kv ∈ (processRowBuffer rowBuf options out).values, Requested options kv := by
  induction rowBuf with
  | nil => intro out good; exact good
  | cons head rest ih =>
    intro out good
    rw [processRowBuffer_cons]
    apply ih
    intro kv member
    rcases processRowBufferCell_values options out head with same | ⟨added, requested⟩
    · exact good kv (same ▸ member)
    · rw [added, List.mem_append, List.mem_singleton] at member
      rcases member with old | rfl
      · exact good kv old
      · exact requested

theorem scanAdd_next {state state' : ScanState} {it it' : List IterEntry} {kv : KeyValuePair}
    (pass : scanAdd options state it kv = .next state' it') : it' = it := by
  unfold scanAdd at pass
  dsimp only at pass
  split_ifs at pass
  exact (Pass.next.inj pass).2.symm

theorem out_scanAdd (state : ScanState) (it : List IterEntry) (kv : KeyValuePair) :
    (scanAdd options state it kv).state.out = state.out := by
  unfold scanAdd
  dsimp only
  split_ifs <;> rfl

theorem scanColumn_advances {state state' : ScanState} {entry : IterEntry}
    {rest it : List IterEntry} {cell : TeraKey}
    (pass : scanColumn options state entry rest cell = .next state' it) : it <:+ rest := by
  unfold scanColumn at pass
  dsimp only at pass
  split_ifs at pass
  · exact (Pass.next.inj pass).2 ▸ List.suffix_refl rest
  · exact scanAdd_next options pass ▸ List.suffix_refl rest
  · exact (Pass.next.inj pass).2 ▸ List.suffix_refl rest
  -- the first entry of a column, whether or not it is in the last family
  all_goals
    split at pass
    · exact scanAdd_next options pass ▸ scanMergedValue_suffix ‹_›
    · exact scanAdd_next options pass ▸ List.suffix_refl rest

/-- The column bookkeeping leaves the output alone; only a new row's `ProcessRowBuffer` adds to
it. -/
theorem out_scanColumn (state : ScanState) (entry : IterEntry) (rest : List IterEntry)
    (cell : TeraKey) : (scanColumn options state entry rest cell).state.out = state.out := by
  unfold scanColumn
  dsimp only
  split_ifs
  · rfl
  · exact out_scanAdd options _ rest _
  · rfl
  all_goals
    split
    · exact out_scanAdd options _ _ _
    · exact out_scanAdd options _ rest _

theorem lowLevelScanPass_advances (startTeraKey endRowKey : Bytes) :
    Advances (lowLevelScanPass schema now options startTeraKey endRowKey) := by
  intro state entry rest state' it pass
  unfold lowLevelScanPass at pass
  split at pass
  · exact (Pass.next.inj pass).2 ▸ List.suffix_refl rest
  · dsimp only at pass
    -- every branch either steps to the next entry or leaves it to the column bookkeeping
    split_ifs at pass <;> first
      | exact (Pass.next.inj pass).2 ▸ List.suffix_refl rest
      | exact scanColumn_advances options pass

/-- A pass of the scan either leaves the output alone or, at a new row, processes the buffered
row into it. -/
theorem out_lowLevelScanPass (startTeraKey endRowKey : Bytes) (state : ScanState)
    (entry : IterEntry) (rest : List IterEntry) :
    (lowLevelScanPass schema now options startTeraKey endRowKey state entry rest).state.out =
        state.out ∨
      (lowLevelScanPass schema now options startTeraKey endRowKey state entry rest).state.out =
        processRowBuffer state.rowBuf options state.out := by
  unfold lowLevelScanPass
  split
  · exact .inl rfl
  · dsimp only
    split_ifs
    · exact .inl rfl
    · exact .inl rfl
    · exact .inl rfl
    · exact .inl rfl
    · exact .inl rfl
    · exact .inr (out_scanColumn options _ entry rest _)
    · exact .inl (out_scanColumn options _ entry rest _)

/-- One version of one qualifier. -/
def oneVersion : List IterEntry := [⟨encodeTeraKey [114] [99, 102] [113] 20 TeraKeyType.value, 2, [50]⟩]

theorem seekVersionPass_advances (rowKey cfName quName : Bytes) :
    Advances (seekVersionPass schema now options rowKey cfName quName) := by
  intro state entry rest state' it pass
  unfold seekVersionPass at pass
  split at pass
  · cases pass
  · dsimp only at pass
    split_ifs at pass
    · -- a version newer than the time range is stepped over
      exact (Pass.next.inj pass).2 ▸ List.suffix_refl rest
    · split at pass
      · exact (Pass.next.inj pass).2 ▸ scanMergedValue_suffix ‹_›
      · exact (Pass.next.inj pass).2 ▸ List.suffix_refl rest

/-- A pass of the version loop adds at most the one cell of the version it counts. -/
theorem seekVersionPass_progress (rowKey cfName quName : Bytes) (values : List KeyValuePair)
    (state : SeekState) (entry : IterEntry) (rest : List IterEntry)
    (progress : SeekProgress options rowKey cfName quName values state) :
    SeekProgress options rowKey cfName quName values
      (seekVersionPass schema now options rowKey cfName quName state entry rest).state := by
  obtain ⟨added, extended, counted, bounded, cells⟩ := progress
  unfold seekVersionPass
  split
  · exact ⟨added, extended, counted, bounded, cells⟩
  · rename_i cell _
    dsimp only
    split_ifs with _ _ older newer exceeded
    · exact ⟨added, extended, counted, bounded, cells⟩
    · exact ⟨added, extended, counted, bounded, cells⟩
    · exact ⟨added, extended, counted, bounded, cells⟩
    · exact ⟨added, extended, counted, bounded, cells⟩
    · exact ⟨added, extended, counted, bounded, cells⟩
    -- a counted version: its cell carries the requested names and its timestamp is in range
    · have inRange : options.tsStart ≤ cell.timestamp ∧ cell.timestamp ≤ options.tsEnd := by
        omega
      have counts : ∀ (strategy : DefaultCompactStrategy) (value : Bytes),
          SeekProgress options rowKey cfName quName values
            ⟨strategy, state.versionNum + 1,
              state.values ++ [⟨rowKey, cfName, quName, cell.timestamp, value⟩]⟩ := by
        intro strategy value
        refine ⟨added ++ [⟨rowKey, cfName, quName, cell.timestamp, value⟩], by simp [extended],
          by simp [counted], show state.versionNum + 1 ≤ options.maxVersions by omega, ?_⟩
        intro kv member
        rcases List.mem_append.mp member with old | new
        · exact cells kv old
        · rw [List.mem_singleton.mp new]
          exact ⟨rfl, rfl, rfl, inRange⟩
      split
      · exact counts _ _
      · exact counts _ _

theorem seekVersionLoop_progress (rowKey cfName quName : Bytes) (fuel : Nat)
    (s : DefaultCompactStrategy) (values : List KeyValuePair) (it : List IterEntry) :
    SeekProgress options rowKey cfName quName values
      (iterate (seekVersionPass schema now options rowKey cfName quName) fuel ⟨s, 0, values⟩ it) :=
  iterate_invariant _ (SeekProgress options rowKey cfName quName values)
    (seekVersionPass_progress schema now options rowKey cfName quName values) fuel _ it
    ⟨[], by simp, rfl, Nat.zero_le _, by simp⟩

theorem seekQualifiers_cells (content : List IterEntry) (rowKey cfName : Bytes) (quSet : List Bytes) :
    ∀ (s : DefaultCompactStrategy) (values : List KeyValuePair),
      ∀ kv ∈ (seekQualifiers schema now content options rowKey cfName quSet s values).2,
        kv ∈ values ∨ ∃ quName ∈ quSet, SeekCell options rowKey cfName quName kv := by
  induction quSet with
  | nil => intro s values kv member; exact .inl member
  | cons quName rest ih =>
    intro s values kv member
    unfold seekQualifiers at member
    dsimp only at member
    rcases ih _ _ kv member with earlier | later
    · obtain ⟨added, extended, -, -, cells⟩ :=
        seekVersionLoop_progress schema now options rowKey cfName quName _ s values _
      rw [extended, List.mem_append] at earlier
      rcases earlier with old | new
      · exact .inl old
      · exact .inr ⟨quName, List.mem_cons_self, cells kv new⟩
    · obtain ⟨other, member, cell⟩ := later
      exact .inr ⟨other, List.mem_cons_of_mem quName member, cell⟩

theorem seekFamilies_cells (content : List IterEntry) (rowKey : Bytes)
    (families : List (Bytes × List Bytes)) :
    ∀ (s : DefaultCompactStrategy) (values : List KeyValuePair),
      ∀ kv ∈ (seekFamilies schema now content options rowKey families s values).2,
        kv ∈ values ∨ ∃ cfName quSet, (cfName, quSet) ∈ families ∧
          ∃ quName ∈ quSet, SeekCell options rowKey cfName quName kv := by
  induction families with
  | nil => intro s values kv member; exact .inl member
  | cons family rest ih =>
    obtain ⟨cfName, quSet⟩ := family
    -- a cell of a later family, or of the ones before
    have later : ∀ s values, ∀ kv ∈ (seekFamilies schema now content options rowKey rest s values).2,
        kv ∈ values ∨ ∃ cfName' quSet', (cfName', quSet') ∈ (cfName, quSet) :: rest ∧
          ∃ quName ∈ quSet', SeekCell options rowKey cfName' quName kv := by
      intro s values kv member
      rcases ih s values kv member with old | ⟨cf, qs, listed, cell⟩
      · exact .inl old
      · exact .inr ⟨cf, qs, List.mem_cons_of_mem _ listed, cell⟩
    intro s values kv member
    unfold seekFamilies at member
    split at member
    · exact later s values kv member
    · dsimp only at member
      split_ifs at member
      · exact later s values kv member
      · rcases later _ _ kv member with earlier | found
        · rcases seekQualifiers_cells schema now options content rowKey cfName quSet _ values kv
            earlier with old | ⟨quName, listed, cell⟩
          · exact .inl old
          · exact .inr ⟨cfName, quSet, List.mem_cons_self, quName, listed, cell⟩
        · exact .inr found

end Paths

/-- Two versions of one qualifier, at timestamps 20 and 10. -/
def twoVersions : List IterEntry :=
  [⟨encodeTeraKey [114] [99, 102] [113] 20 TeraKeyType.value, 2, [50]⟩,
    ⟨encodeTeraKey [114] [99, 102] [113] 10 TeraKeyType.value, 1, [49]⟩]

/-- A read of one version of that qualifier within the time range `[0, 15]`. -/
def newestInRange : RowReaderInfo :=
  ⟨[114], [⟨[99, 102], [[113]]⟩], some (0, 15), some 1, none⟩

/-- The seek path skips the version newer than the time range before it counts versions and
returns the version at 10; the scan counts the version at 20 as the one allowed, drops the one at 10
as a second version, and then filters the one at 20 out by its time. -/
theorem lowLevelSeek_lowLevelScan_time_range :
    (twoVersions.map IterEntry.key).Pairwise (fun key1 key2 => binaryCompare key1 key2 = .lt) ∧
      (readCellsOptions newestInRange).2 = true ∧
      lowLevelSeek ⟨[⟨[99, 102], 3, 0⟩]⟩ 0 twoVersions [114] (readCellsOptions newestInRange).1 =
        (.kTabletNodeOk, [⟨[114], [99, 102], [113], 10, [49]⟩]) ∧
      lowLevelScan ⟨[⟨[99, 102], 3, 0⟩]⟩ 0 twoVersions
          (encodeTeraKey [114] [] [] kLatestTs TeraKeyType.value) ([114] ++ [0])
          (readCellsOptions newestInRange).1 = [] := by
  decide +kernel

/-- A read of the whole family `cf` within the time range `[0, 15]`, every version allowed. -/
def familyInRange : RowReaderInfo :=
  ⟨[114], [⟨[99, 102], []⟩], some (0, 15), none, none⟩

end Tera.Io
