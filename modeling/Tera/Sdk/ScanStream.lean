import Tera.Io.RowRead

/-! # Restarting a scan: `ResultStreamImpl`

A scan of a tablet reaches the client as the cells of a sequence of `ScanTablet` calls. When a
session breaks, `ScanSessionReset` starts a new one after the last cell the client consumed: its
start is `ComputeStartKey` of that cell, which `TableImpl::CommitScan` sends as the request's start
row, family, qualifier and timestamp, and `TabletIO::SetupScanKey` encodes into the start key of a
new `LowLevelScan`, with a fresh scan context. Entries before that key are read past, keeping only
the version count.

For a cell with a timestamp the restart point is the same column one timestamp older: the restart
reads exactly the entries of the column older than the cell. A cell that `ScanMergedValue` built
from several atomic operations carries the timestamp of the newest of them, so the older ones lie
after the restart point and come back a second time, as versions of their own.
-/

namespace Tera.Sdk

open Tera.RawKey Tera.Compact Tera.Io

/-- `ResultStreamImpl::GetNextStartPoint`: the least key after `str` in the table's raw key order,
with a `0x01` byte for a `Readable` table and a `0x00` byte otherwise. -/
def getNextStartPoint (readable : Bool) (str : Bytes) : Bytes :=
  if readable then str ++ [1] else str ++ [0]

/-- `ResultStreamImpl::ComputeStartKey`: the start of a scan that goes on after the cell `kv`. A
key-value table starts at the next row; a cell without a timestamp at the next qualifier, newest
first; any other cell at its own column one timestamp older. -/
def computeStartKey (kvOnly readable : Bool) (kv : KeyValuePair) : KeyValuePair :=
  if kvOnly then ⟨getNextStartPoint readable kv.key, kv.columnFamily, kv.qualifier, kv.timestamp, []⟩
  else if kv.timestamp = 0 then
    ⟨kv.key, kv.columnFamily, getNextStartPoint readable kv.qualifier, kLatestTs, []⟩
  else ⟨kv.key, kv.columnFamily, kv.qualifier, kv.timestamp - 1, []⟩

/-- `TabletIO::SetupScanKey` on a table that is not key-value only, for the start cell and end row
`TableImpl::CommitScan` puts in the request: it sends the family and the qualifier only when they
are not empty and the timestamp only when it is not zero, and the server reads a qualifier only
with a family. The start row is at least the tablet's, and the end row at most the tablet's. -/
def setupScanKey (tabletStartKey tabletEndKey : Bytes) (start : KeyValuePair) (endKey : Bytes) :
    Bytes × Bytes :=
  let startKey :=
    if start.key.isEmpty ∨ compare start.key tabletStartKey = .lt then tabletStartKey else start.key
  let endRowKey :=
    if endKey.isEmpty ∨ (!tabletEndKey.isEmpty ∧ compare endKey tabletEndKey = .gt) then tabletEndKey
    else endKey
  let hasCf := !start.columnFamily.isEmpty
  let hasQualifier := hasCf && !start.qualifier.isEmpty
  (encodeTeraKey startKey (if hasCf then start.columnFamily else [])
      (if hasQualifier then start.qualifier else [])
      (if start.timestamp ≠ 0 then start.timestamp else kLatestTs) TeraKeyType.value,
    endRowKey)

/-- Restarting after a cell of a table that is not key-value only, whose family is not empty and
whose row lies in the tablet: the start key is its column, one timestamp older. A cell at timestamp
1 is the exception, since `CommitScan` does not send the timestamp 0 and the server starts from the
newest version. -/
theorem setupScanKey_computeStartKey (tabletStartKey tabletEndKey endKey : Bytes) (readable : Bool)
    (kv : KeyValuePair) (family : kv.columnFamily ≠ []) (stamped : kv.timestamp ≠ 0)
    (notOne : kv.timestamp ≠ 1) (row : kv.key ≠ []) (inTablet : compare kv.key tabletStartKey ≠ .lt) :
    (setupScanKey tabletStartKey tabletEndKey (computeStartKey false readable kv) endKey).1 =
      encodeTeraKey kv.key kv.columnFamily kv.qualifier (kv.timestamp - 1) TeraKeyType.value := by
  have older : kv.timestamp - 1 ≠ 0 := by omega
  -- an empty qualifier is not sent, and the server encodes the empty one in its place
  by_cases noQualifier : kv.qualifier = [] <;>
    simp [setupScanKey, computeStartKey, stamped, older, family, row, inTablet, noQualifier]

/-- A restart after a cell at timestamp `ts > 1` reads past exactly the entries of its column that
are at least as new as the cell, and the delete tags one timestamp older: every older version is
read again from the start. -/
theorem binaryCompare_restart_lt_iff (rowKey family qualifier : Bytes) (ts older : Int)
    (type : TeraKeyType) (rowBound : rowKey.length < 2 ^ 16) (familyBound : family.length < 2 ^ 32)
    (qualifierBound : qualifier.length < 2 ^ 8) (stamped : 1 ≤ ts) (bound : ts ≤ 2 ^ 56)
    (nonneg : 0 ≤ older) (olderBound : older < 2 ^ 56) :
    binaryCompare (encodeTeraKey rowKey family qualifier older type)
        (encodeTeraKey rowKey family qualifier (ts - 1) TeraKeyType.value) = .lt ↔
      ts ≤ older ∨ older = ts - 1 ∧ type < TeraKeyType.value := by
  rw [binaryCompare_encodeTeraKey _ _ _ _ _ _ _ _ _ _ rowBound rowBound familyBound familyBound
    qualifierBound qualifierBound nonneg olderBound (by omega) (by omega)]
  simp only [Std.compare_self, Ordering.eq_then, Ordering.then_eq_lt, Int.compare_eq_eq,
    Std.compare_eq_lt]
  rw [Int.sub_one_lt_iff, eq_comm]

/-- A session restarted after a cell at a timestamp above 1, of a family that is not empty and a
row in the tablet, reads past exactly the entries of the cell's column that are at least as new as
the cell, and the delete tags one timestamp older: the new `LowLevelScan` starts at the column's
next older version. -/
theorem setupScanKey_restart_lt_iff (tabletStartKey tabletEndKey endKey : Bytes) (readable : Bool)
    (kv : KeyValuePair) (family : kv.columnFamily ≠ []) (notOne : kv.timestamp ≠ 1)
    (row : kv.key ≠ []) (inTablet : compare kv.key tabletStartKey ≠ .lt)
    (rowBound : kv.key.length < 2 ^ 16) (familyBound : kv.columnFamily.length < 2 ^ 32)
    (qualifierBound : kv.qualifier.length < 2 ^ 8) (stamped : 1 ≤ kv.timestamp)
    (bound : kv.timestamp ≤ 2 ^ 56) (older : Int) (type : TeraKeyType) (nonneg : 0 ≤ older)
    (olderBound : older < 2 ^ 56) :
    binaryCompare (encodeTeraKey kv.key kv.columnFamily kv.qualifier older type)
        (setupScanKey tabletStartKey tabletEndKey (computeStartKey false readable kv) endKey).1 =
          .lt ↔
      kv.timestamp ≤ older ∨ older = kv.timestamp - 1 ∧ type < TeraKeyType.value := by
  rw [setupScanKey_computeStartKey tabletStartKey tabletEndKey endKey readable kv family
    (by omega) notOne row inTablet]
  exact binaryCompare_restart_lt_iff _ _ _ _ older type rowBound familyBound qualifierBound stamped
    bound nonneg olderBound

/-- A restart after row `b`'s cell at timestamp 5 reads past the column's version at 7 and reads
the one at 3 again. -/
theorem setupScanKey_restart_lt_iff_five :
    binaryCompare (encodeTeraKey [98] [99, 102] [113] 7 TeraKeyType.value)
        (setupScanKey [] [] (computeStartKey false false ⟨[98], [99, 102], [113], 5, [121]⟩)
          []).1 = .lt ∧
      binaryCompare (encodeTeraKey [98] [99, 102] [113] 3 TeraKeyType.value)
        (setupScanKey [] [] (computeStartKey false false ⟨[98], [99, 102], [113], 5, [121]⟩)
          []).1 ≠ .lt := by
  have restart := fun older => setupScanKey_restart_lt_iff [] [] [] false
    ⟨[98], [99, 102], [113], 5, [121]⟩ (by decide) (by decide) (by decide) (by decide) (by decide)
    (by decide) (by decide) (by decide) (by decide) older TeraKeyType.value
  refine ⟨(restart 7 (by decide) (by decide)).mpr (.inl (by decide)), fun reread => ?_⟩
  rcases (restart 3 (by decide) (by decide)).mp reread with newer | ⟨tagged, -⟩
  · exact absurd newer (by decide)
  · exact absurd tagged (by decide)

/-! ## Cells returned twice -/

/-- A table with one family `cf` of ten versions and no time to live. -/
def scanSchema : TableSchema := ⟨[⟨[99, 102], 10, 0⟩]⟩

/-- The entry of column `cf:q` in row `row` at a timestamp, of a type, with its sequence number and
value. -/
def scanEntry (row : Bytes) (timestamp : Int) (type : TeraKeyType) (sequence : Nat) (value : Bytes) :
    IterEntry :=
  ⟨encodeTeraKey row [99, 102] [113] timestamp type, sequence, value⟩

/-- The start of a scan of the whole table: no start row, family, qualifier or timestamp. -/
def scanStart : Bytes := (setupScanKey [] [] ⟨[], [], [], 0, []⟩ []).1

/-- Rows `a`, `b` and `c`, each with a put to `cf:q`; row `b`'s is at timestamp 1. -/
def stampOneRows : List IterEntry :=
  [scanEntry [97] 7 TeraKeyType.value 1 [120], scanEntry [98] 1 TeraKeyType.value 2 [121],
    scanEntry [99] 7 TeraKeyType.value 3 [122]]

/-- A scan of one cell a call returns row `a` and row `b`'s cell at timestamp 1 first. A session
restarted after that cell returns it again: the restart point has timestamp 0, which `CommitScan`
leaves out of the request, so the server starts at the newest version of the column. One scan
without limits returns each cell once. -/
theorem lowLevelScan_restart_after_timestamp_one :
    lowLevelScan scanSchema 0 stampOneRows scanStart [] { numberLimit := 1 } =
        [⟨[97], [99, 102], [113], 7, [120]⟩, ⟨[98], [99, 102], [113], 1, [121]⟩] ∧
      lowLevelScan scanSchema 0 stampOneRows
          (setupScanKey [] [] (computeStartKey false false ⟨[98], [99, 102], [113], 1, [121]⟩)
            []).1 [] { numberLimit := 1 } =
        [⟨[98], [99, 102], [113], 1, [121]⟩, ⟨[99], [99, 102], [113], 7, [122]⟩] ∧
      lowLevelScan scanSchema 0 stampOneRows scanStart [] {} =
        [⟨[97], [99, 102], [113], 7, [120]⟩, ⟨[98], [99, 102], [113], 1, [121]⟩,
          ⟨[99], [99, 102], [113], 7, [122]⟩] := by
  decide +kernel

/-- Rows `a`, `b` and `c` of column `cf:q`; row `b` holds an add of 100 at timestamp 5 over an add
of 1 at timestamp 3. -/
def mergedAddRows : List IterEntry :=
  [scanEntry [97] 7 TeraKeyType.value 1 [120], scanEntry [98] 5 TeraKeyType.add 3 (encodeBigEndian 100),
    scanEntry [98] 3 TeraKeyType.add 2 (encodeBigEndian 1), scanEntry [99] 7 TeraKeyType.value 4 [122]]

/-- Reading two versions, a call of one cell returns row `a` and row `b`'s adds merged into 101 at
timestamp 5. A session restarted after that cell starts at timestamp 4 and returns the add at 3 as
a version of its own, which one scan without limits never returns. -/
example :
    lowLevelScan scanSchema 0 mergedAddRows scanStart [] { maxVersions := 2, numberLimit := 1 } =
        [⟨[97], [99, 102], [113], 7, [120]⟩, ⟨[98], [99, 102], [113], 5, encodeBigEndian 101⟩] ∧
      lowLevelScan scanSchema 0 mergedAddRows
          (setupScanKey [] []
            (computeStartKey false false ⟨[98], [99, 102], [113], 5, encodeBigEndian 101⟩) []).1 []
          { maxVersions := 2, numberLimit := 1 } =
        [⟨[98], [99, 102], [113], 3, encodeBigEndian 1⟩, ⟨[99], [99, 102], [113], 7, [122]⟩] ∧
      lowLevelScan scanSchema 0 mergedAddRows scanStart [] { maxVersions := 2 } =
        [⟨[97], [99, 102], [113], 7, [120]⟩, ⟨[98], [99, 102], [113], 5, encodeBigEndian 101⟩,
          ⟨[99], [99, 102], [113], 7, [122]⟩] := by
  decide +kernel

end Tera.Sdk
