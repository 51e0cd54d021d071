import Tera.Key.RawKey
import Tera.Lib.StreamFilter

/-! # The default compaction strategy

`DefaultCompactStrategy` (`io/default_compact_strategy.cc`) is a filter over the cells of a tablet
in key order: row, family, qualifier, newest timestamp first. Two members answer, cell by cell,
whether to drop it. `ScanDrop` serves reads: it drops delete tags, deleted cells and versions beyond
the family's `max_versions`. `Drop` serves compaction: it also removes covered cells but keeps the
tags a later read still needs, unless the row lies below the compaction's lower bound. Both keep
per-row, per-family and per-qualifier delete watermarks and a version counter that the first entry
of a row, family or qualifier resets. The state below is the class's member data; the schema and
the clock reading are parameters, since the strategy only reads them.
-/

namespace Tera.Compact

open Tera.RawKey Tera.Lib

/-- A column family of the table schema, with the fields the strategy reads. -/
structure ColumnFamilySchema where
  name : Bytes
  maxVersions : Nat
  timeToLive : Int
deriving DecidableEq, Repr, Inhabited

/-- The table schema: its column families in declaration order. -/
structure TableSchema where
  columnFamilies : List ColumnFamilySchema
deriving DecidableEq, Repr

/-- `kMaxSequenceNumber`, `(1 << 56) - 1`: the snapshot of a strategy nobody pinned. -/
def kMaxSequenceNumber : Nat := 2 ^ 56 - 1

/-- `IsAtomicOP`: the key types whose values a read merges rather than replaces. -/
def isAtomicOP (keyType : TeraKeyType) : Bool :=
  keyType == TeraKeyType.add || keyType == TeraKeyType.addInt64 ||
    keyType == TeraKeyType.putIfAbsent || keyType == TeraKeyType.append

theorem isAtomicOP_iff (keyType : TeraKeyType) :
    isAtomicOP keyType = true ↔ keyType = TeraKeyType.add ∨ keyType = TeraKeyType.addInt64 ∨
      keyType = TeraKeyType.putIfAbsent ∨ keyType = TeraKeyType.append := by
  simp [isAtomicOP, or_assoc]

@[simp] theorem isAtomicOP_value : isAtomicOP TeraKeyType.value = false := by decide

/-- `DropIllegalColumnFamily`, with the index map `cf_indexs_` the factory fills in schema order (a
repeated name keeps its last index): `none` when the family is not in the schema and the entry is
dropped, otherwise the family's index. -/
def dropIllegalColumnFamily (schema : TableSchema) (columnFamily : Bytes) : Option Nat :=
  ((schema.columnFamilies.zipIdx.filter fun entry => entry.1.name == columnFamily).getLast?).map
    Prod.snd

/-- The schema of the family with index `cfIdx`; the strategy only asks for indices of the map. -/
def familySchema (schema : TableSchema) (cfIdx : Nat) : ColumnFamilySchema :=
  schema.columnFamilies.getD cfIdx default

/-- `DropByLifeTime`: a family with a positive time to live (seconds) drops entries whose timestamp
(microseconds) plus that time is not after the clock reading `now` (`get_micros`). -/
def dropByLifeTime (schema : TableSchema) (now : Int) (cfIdx : Nat) (timestamp : Int) : Bool :=
  let ttl := (familySchema schema cfIdx).timeToLive * 1000000
  if ttl ≤ 0 then false
  else if timestamp + ttl > now then false
  else true

/-- `CheckCompactLowerBound`: the compaction may drop the delete tags of rows strictly below the
row of its lower bound; an empty bound drops none. The bound is a key of the tablet, so the
source's `CHECK` on its extraction holds. -/
def checkCompactLowerBound (curKey : Bytes) (lowerBound : Bytes) : Bool :=
  if lowerBound.isEmpty then false
  else match extractTeraKey lowerBound with
    | some bound => compare bound.rowKey curKey == .gt
    | none => false

/-- The member data of `DefaultCompactStrategy`; the field defaults are the constructor's. -/
structure DefaultCompactStrategy where
  lastKey : Bytes := []
  lastCol : Bytes := []
  lastQual : Bytes := []
  lastTs : Int := -1
  lastType : TeraKeyType := TeraKeyType.forSeek
  curType : TeraKeyType := TeraKeyType.forSeek
  delRowTs : Int := -1
  delColTs : Int := -1
  delQualTs : Int := -1
  curTs : Int := -1
  delRowSeq : Nat := 0
  delColSeq : Nat := 0
  delQualSeq : Nat := 0
  versionNum : Nat := 0
  snapshot : Nat := kMaxSequenceNumber
  hasPut : Bool := false
deriving DecidableEq, Repr

/-- The `max_versions` of the family with index `cfId`; the strategy reads it only for entries
that passed the family check, so the index is always present there. -/
def maxVersionsOf (schema : TableSchema) (cfId : Option Nat) : Nat :=
  (familySchema schema (cfId.getD 0)).maxVersions

/-- The end of `ScanDrop`, after the position tests: only values and atomic operations are read,
an atomic operation older than a put is dropped, and a value is dropped once the qualifier has more
than `max_versions` versions; a value with the timestamp of the entry before it in the same cell is
the same version. -/
def scanDropTail (schema : TableSchema) (cfId : Option Nat) (type : TeraKeyType)
    (keyColQualSame : Bool) (s : DefaultCompactStrategy) : Bool × DefaultCompactStrategy :=
  if type ≠ TeraKeyType.value ∧ isAtomicOP type = false then (true, s)
  else
    let s := if type = TeraKeyType.value then { s with hasPut := true } else s
    if isAtomicOP type ∧ s.hasPut then (true, s)
    else if type = TeraKeyType.value then
      let s := if s.curTs = s.lastTs ∧ keyColQualSame then s
        else { s with versionNum := s.versionNum + 1 }
      if s.versionNum > maxVersionsOf schema cfId then (true, s) else (false, s)
    else (false, s)

/-- The position tests of `ScanDrop`, from `key.compare(last_key_) != 0` on: the first entry of a
row, family or qualifier resets the watermarks and the version counter, an entry covered by a
watermark is dropped, and the entry after a single-version delete tag is skipped. The three resets
model the fall-through switches that set every watermark at or below a tag's level. -/
def scanDropPosition (schema : TableSchema) (cfId : Option Nat) (cell : TeraKey)
    (s : DefaultCompactStrategy) : Bool × DefaultCompactStrategy :=
  let type := cell.type
  let ts := cell.timestamp
  if cell.rowKey ≠ s.lastKey then
    scanDropTail schema cfId type false
      { s with lastKey := cell.rowKey, lastCol := cell.family, lastQual := cell.qualifier,
               lastType := type, versionNum := 0, hasPut := false,
               delRowTs := if type = TeraKeyType.del then ts else -1,
               delColTs := if type = TeraKeyType.del ∨ type = TeraKeyType.delColumn then ts else -1,
               delQualTs := if type = TeraKeyType.del ∨ type = TeraKeyType.delColumn ∨
                 type = TeraKeyType.delQualifiers then ts else -1 }
  else if s.delRowTs ≥ ts then (true, s)
  else if cell.family ≠ s.lastCol then
    scanDropTail schema cfId type false
      { s with lastCol := cell.family, lastQual := cell.qualifier, lastType := type,
               versionNum := 0, hasPut := false,
               delColTs := if type = TeraKeyType.delColumn then ts else -1,
               delQualTs := if type = TeraKeyType.delColumn ∨ type = TeraKeyType.delQualifiers
                 then ts else -1 }
  else if s.delColTs ≥ ts then (true, s)
  else if cell.qualifier ≠ s.lastQual then
    scanDropTail schema cfId type false
      { s with lastQual := cell.qualifier, lastType := type, versionNum := 0, hasPut := false,
               delQualTs := if type = TeraKeyType.delQualifiers then ts else -1 }
  else if s.delQualTs ≥ ts then (true, s)
  else if type = TeraKeyType.delQualifiers then
    scanDropTail schema cfId type false { s with delQualTs := ts }
  else if s.lastType = TeraKeyType.delQualifier then
    (true, { s with lastType := type,
                    versionNum := if type = TeraKeyType.value then s.versionNum + 1 else s.versionNum })
  else scanDropTail schema cfId type true { s with lastType := type }

/-- `DefaultCompactStrategy::ScanDrop` on the decoded parts of a key; `true` drops the entry. A
delete-row tag skips the family check, so its family index stays unset (`-1` in the source). -/
def scanDropCell (schema : TableSchema) (now : Int) (s : DefaultCompactStrategy) (cell : TeraKey) :
    Bool × DefaultCompactStrategy :=
  let type := cell.type
  let s := { s with curType := type, lastTs := s.curTs, curTs := cell.timestamp }
  let cfId := if type ≠ TeraKeyType.del then dropIllegalColumnFamily schema cell.family else none
  if type ≠ TeraKeyType.del ∧ cfId = none then (true, s)
  else if type ≥ TeraKeyType.value ∧ dropByLifeTime schema now (cfId.getD 0) cell.timestamp then
    (true, s)
  else scanDropPosition schema cfId cell s

/-- `DefaultCompactStrategy::ScanDrop`: a key that does not decode is dropped and leaves the state
as it was. -/
def scanDrop (schema : TableSchema) (now : Int) (s : DefaultCompactStrategy) (teraKey : Bytes) :
    Bool × DefaultCompactStrategy :=
  match extractTeraKey teraKey with
  | none => (true, s)
  | some cell => scanDropCell schema now s cell

/-- The end of `Drop`, after the position tests: a value visible to the snapshot counts as a
version and is dropped beyond `max_versions`, a single-version delete tag is dropped once the
versions it could hide are gone, and an atomic operation older than a put is dropped. -/
def dropTail (schema : TableSchema) (cfId : Option Nat) (type : TeraKeyType) (n : Nat)
    (s : DefaultCompactStrategy) : Bool × DefaultCompactStrategy :=
  let s := if type = TeraKeyType.value then
      { s with hasPut := true,
               versionNum := if n ≤ s.snapshot then s.versionNum + 1 else s.versionNum }
    else s
  if type = TeraKeyType.value ∧ n ≤ s.snapshot ∧ s.versionNum > maxVersionsOf schema cfId then
    (true, s)
  else if type = TeraKeyType.delQualifier ∧ n ≤ s.snapshot ∧
      s.versionNum ≥ maxVersionsOf schema cfId then (true, s)
  else if isAtomicOP type ∧ s.hasPut then (true, s)
  else (false, s)

/-- The position tests of `Drop` for an entry with sequence number `n`. A watermark covers only
entries its tag's sequence number is visible to; a delete tag that starts its row, family or
qualifier is dropped itself when its row lies below the compaction's lower bound and no snapshot is
pinned. The sequence watermarks are not reset at a new row, as in the source. -/
def dropPosition (schema : TableSchema) (cfId : Option Nat) (lowerBound : Bytes) (cell : TeraKey)
    (n : Nat) (s : DefaultCompactStrategy) : Bool × DefaultCompactStrategy :=
  let type := cell.type
  let ts := cell.timestamp
  let tagDroppable := checkCompactLowerBound cell.rowKey lowerBound ∧ s.snapshot = kMaxSequenceNumber
  if cell.rowKey ≠ s.lastKey then
    let rowTag := type = TeraKeyType.del
    let colTag := rowTag ∨ type = TeraKeyType.delColumn
    let qualTag := colTag ∨ type = TeraKeyType.delQualifiers
    let s := { s with
      lastKey := cell.rowKey, lastCol := cell.family, lastQual := cell.qualifier,
      versionNum := 0, hasPut := false,
      delRowTs := if rowTag then ts else -1, delRowSeq := if rowTag then n else s.delRowSeq,
      delColTs := if colTag then ts else -1, delColSeq := if colTag then n else s.delColSeq,
      delQualTs := if qualTag then ts else -1, delQualSeq := if qualTag then n else s.delQualSeq }
    if qualTag ∧ tagDroppable then (true, s) else dropTail schema cfId type n s
  else if s.delRowTs ≥ ts ∧ s.delRowSeq ≤ s.snapshot then (true, s)
  else if cell.family ≠ s.lastCol then
    let colTag := type = TeraKeyType.delColumn
    let qualTag := colTag ∨ type = TeraKeyType.delQualifiers
    let s := { s with
      lastCol := cell.family, lastQual := cell.qualifier, versionNum := 0, hasPut := false,
      delColTs := if colTag then ts else -1, delColSeq := if colTag then n else s.delColSeq,
      delQualTs := if qualTag then ts else -1, delQualSeq := if qualTag then n else s.delQualSeq }
    if qualTag ∧ tagDroppable then (true, s) else dropTail schema cfId type n s
  else if s.delColTs ≥ ts ∧ s.delColSeq ≤ s.snapshot then (true, s)
  else if cell.qualifier ≠ s.lastQual then
    let qualTag := type = TeraKeyType.delQualifiers
    let s := { s with
      lastQual := cell.qualifier, versionNum := 0, hasPut := false,
      delQualTs := if qualTag then ts else -1, delQualSeq := if qualTag then n else s.delQualSeq }
    if qualTag ∧ tagDroppable then (true, s) else dropTail schema cfId type n s
  else if s.delQualTs ≥ ts ∧ s.delQualSeq ≤ s.snapshot then (true, s)
  else dropTail schema cfId type n s

/-- `DefaultCompactStrategy::Drop` on the decoded parts of an internal key with sequence number
`n`; unlike `ScanDrop` it does not record the previous entry's timestamp. -/
def dropCell (schema : TableSchema) (now : Int) (lowerBound : Bytes) (s : DefaultCompactStrategy)
    (cell : TeraKey) (n : Nat) : Bool × DefaultCompactStrategy :=
  let type := cell.type
  let s := { s with curType := type, curTs := cell.timestamp }
  let cfId := if type ≠ TeraKeyType.del then dropIllegalColumnFamily schema cell.family else none
  if type ≠ TeraKeyType.del ∧ cfId = none then (true, s)
  else if type ≥ TeraKeyType.value ∧ dropByLifeTime schema now (cfId.getD 0) cell.timestamp then
    (true, s)
  else dropPosition schema cfId lowerBound cell n s

/-- `DefaultCompactStrategy::Drop`: an internal key whose user key does not decode is dropped. -/
def drop (schema : TableSchema) (now : Int) (lowerBound : Bytes) (s : DefaultCompactStrategy)
    (teraKey : Bytes) (n : Nat) : Bool × DefaultCompactStrategy :=
  match extractTeraKey teraKey with
  | none => (true, s)
  | some cell => dropCell schema now lowerBound s cell n

/-- The tail keeps only values and atomic operations. -/
theorem scanDropTail_kept {schema : TableSchema} {cfId : Option Nat} {type : TeraKeyType}
    {keyColQualSame : Bool} {s : DefaultCompactStrategy}
    (kept : (scanDropTail schema cfId type keyColQualSame s).1 = false) :
    type = TeraKeyType.value ∨ isAtomicOP type = true := by
  by_contra neither
  have skipped : type ≠ TeraKeyType.value ∧ isAtomicOP type = false := by
    simpa [not_or] using neither
  simp [scanDropTail, skipped] at kept

/-- The position tests keep only what the tail keeps. -/
theorem scanDropPosition_kept {schema : TableSchema} {cfId : Option Nat} {cell : TeraKey}
    {s : DefaultCompactStrategy} (kept : (scanDropPosition schema cfId cell s).1 = false) :
    cell.type = TeraKeyType.value ∨ isAtomicOP cell.type = true := by
  unfold scanDropPosition at kept
  dsimp only at kept
  split_ifs at kept <;> exact scanDropTail_kept kept

/-- What `ScanDrop` keeps decodes to a value or an atomic operation of a family of the schema. -/
theorem scanDrop_kept {schema : TableSchema} {now : Int} {s : DefaultCompactStrategy}
    {teraKey : Bytes} (kept : (scanDrop schema now s teraKey).1 = false) :
    ∃ cell, extractTeraKey teraKey = some cell ∧
      (cell.type = TeraKeyType.value ∨ isAtomicOP cell.type = true) ∧
      dropIllegalColumnFamily schema cell.family ≠ none := by
  unfold scanDrop at kept
  split at kept
  · simp at kept
  · rename_i cell decoded
    refine ⟨cell, decoded, ?_⟩
    have readable : cell.type = TeraKeyType.value ∨ isAtomicOP cell.type = true := by
      unfold scanDropCell at kept
      dsimp only at kept
      split_ifs at kept <;> exact scanDropPosition_kept kept
    refine ⟨readable, fun illegal => ?_⟩
    have notDel : cell.type ≠ TeraKeyType.del := by
      rcases readable with value | atomic
      · rw [value]
        decide
      · intro del
        rw [del] at atomic
        exact absurd atomic (by decide)
    simp [scanDropCell, notDel, illegal] at kept

/-- The keys a read keeps: a fresh strategy's `ScanDrop` fed a stream of keys in order. -/
def scanDropRun (schema : TableSchema) (now : Int) (keys : List Bytes) : List Bytes :=
  keptBy (scanDrop schema now) {} keys

/-- A value of the schema's one family, then a value of a family the schema does not name. -/
def outsideFamilyKeys : List Bytes :=
  [TeraKey.encode ⟨[114], [99, 102], [], 12, TeraKeyType.value⟩,
    TeraKey.encode ⟨[114], [120], [], 9, TeraKeyType.value⟩]

/-- The internal keys (user key and sequence number) a compaction keeps: a fresh strategy's `Drop`
fed the compaction's input in order. -/
def dropRun (schema : TableSchema) (now : Int) (lowerBound : Bytes)
    (entries : List (Bytes × Nat)) : List (Bytes × Nat) :=
  keptBy (fun s entry => drop schema now lowerBound s entry.1 entry.2) {} entries

end Tera.Compact
