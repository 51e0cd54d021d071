import Tera.Compact.Strategy

/-! # Which cells a read should return

`RowMutation` (`include/tera/mutation.h`) documents four deletes: `DeleteRow`, `DeleteFamily` and
`DeleteColumns` remove every version of the row, family or qualifier not newer than their
timestamp, and `DeleteColumn` removes the one version at its timestamp. `TabletWriter::BatchRequest`
stores them as the tags `TKT_DEL`, `TKT_DEL_COLUMN`, `TKT_DEL_QUALIFIERS` and `TKT_DEL_QUALIFIER`.
A read then returns a value when no tag hides it and fewer than the family's `max_versions` newer
values of its qualifier survive the deletes. This module states that over a whole stream of cells
and compares the strategy's filters with it.
-/

namespace Tera.Compact

open Tera.RawKey Tera.Lib

/-- `tag` is a delete tag of the stream that hides `cell`. -/
def Hides (tag cell : TeraKey) : Prop :=
  tag.rowKey = cell.rowKey ∧
    (tag.type = TeraKeyType.del ∧ cell.timestamp ≤ tag.timestamp ∨
     tag.type = TeraKeyType.delColumn ∧ tag.family = cell.family ∧
       cell.timestamp ≤ tag.timestamp ∨
     tag.type = TeraKeyType.delQualifiers ∧ tag.family = cell.family ∧
       tag.qualifier = cell.qualifier ∧ cell.timestamp ≤ tag.timestamp ∨
     tag.type = TeraKeyType.delQualifier ∧ tag.family = cell.family ∧
       tag.qualifier = cell.qualifier ∧ tag.timestamp = cell.timestamp)

instance (tag cell : TeraKey) : Decidable (Hides tag cell) :=
  inferInstanceAs (Decidable (_ ∧ (_ ∨ _ ∨ _ ∨ _)))

/-- Some delete tag of the stream hides the cell. -/
def Deleted (stream : List TeraKey) (cell : TeraKey) : Prop :=
  ∃ tag ∈ stream, Hides tag cell

instance (stream : List TeraKey) (cell : TeraKey) : Decidable (Deleted stream cell) :=
  inferInstanceAs (Decidable (∃ tag ∈ stream, _))

/-- Two cells of the same row, family and qualifier: versions of one column. -/
def SameColumn (cell other : TeraKey) : Prop :=
  cell.rowKey = other.rowKey ∧ cell.family = other.family ∧ cell.qualifier = other.qualifier

instance (cell other : TeraKey) : Decidable (SameColumn cell other) :=
  inferInstanceAs (Decidable (_ ∧ _ ∧ _))

/-- The values of a cell's column that are newer than it and that no delete hides. -/
def newerVersions (stream : List TeraKey) (cell : TeraKey) : List TeraKey :=
  stream.filter fun other => other.type = TeraKeyType.value ∧ SameColumn other cell ∧
    cell.timestamp < other.timestamp ∧ ¬ Deleted stream other

/-- A value a read returns: no tag hides it, and fewer than its family's `max_versions` newer
versions survive. -/
def Visible (schema : TableSchema) (stream : List TeraKey) (cell : TeraKey) : Prop :=
  cell.type = TeraKeyType.value ∧ ¬ Deleted stream cell ∧
    (newerVersions stream cell).length < maxVersionsOf schema (dropIllegalColumnFamily schema cell.family)

instance (schema : TableSchema) (stream : List TeraKey) (cell : TeraKey) :
    Decidable (Visible schema stream cell) :=
  inferInstanceAs (Decidable (_ ∧ _ ∧ _))

/-- The cells of a stream a read should return, in stream order. -/
def visibleCells (schema : TableSchema) (stream : List TeraKey) : List TeraKey :=
  stream.filter fun cell => Visible schema stream cell

/-- A family tag that is not the first entry of its family: `ScanDrop` only records a family
watermark when the tag starts the family, so a newer value with an empty qualifier in front of it
leaves the watermark unset, and an older value of another qualifier of the family is read although
the tag deletes it. The stream is sorted by `Compare`, with three versions allowed and no time to
live. -/
theorem scanDropRun_deleteFamily_after_value :
    ([(⟨[114], [99, 102], [], 12, TeraKeyType.value⟩ : TeraKey),
        ⟨[114], [99, 102], [], 10, TeraKeyType.delColumn⟩,
        ⟨[114], [99, 102], [97], 5, TeraKeyType.value⟩].map TeraKey.encode).Pairwise
        (fun key1 key2 => binaryCompare key1 key2 = .lt) ∧
      scanDropRun ⟨[⟨[99, 102], 3, 0⟩]⟩ 0
          ([(⟨[114], [99, 102], [], 12, TeraKeyType.value⟩ : TeraKey),
            ⟨[114], [99, 102], [], 10, TeraKeyType.delColumn⟩,
            ⟨[114], [99, 102], [97], 5, TeraKeyType.value⟩].map TeraKey.encode) =
        [TeraKey.encode ⟨[114], [99, 102], [], 12, TeraKeyType.value⟩,
          TeraKey.encode ⟨[114], [99, 102], [97], 5, TeraKeyType.value⟩] ∧
      visibleCells ⟨[⟨[99, 102], 3, 0⟩]⟩
          [⟨[114], [99, 102], [], 12, TeraKeyType.value⟩,
            ⟨[114], [99, 102], [], 10, TeraKeyType.delColumn⟩,
            ⟨[114], [99, 102], [97], 5, TeraKeyType.value⟩] =
        [⟨[114], [99, 102], [], 12, TeraKeyType.value⟩] := by
  decide +kernel

/-- A value sharing its timestamp with a family tag in front of it: `ScanDrop` leaves the tag's
watermark unset and counts the value as the same version as the newer value before the tag, so a
read with one version allowed returns both values. `Drop` keeps the tag and drops the older value as
a second version, and a read after that compaction returns one value. -/
theorem scanDropRun_dropRun_equal_timestamp :
    ([(⟨[114], [99, 102], [], 12, TeraKeyType.value⟩ : TeraKey),
        ⟨[114], [99, 102], [], 10, TeraKeyType.delColumn⟩,
        ⟨[114], [99, 102], [], 10, TeraKeyType.value⟩].map TeraKey.encode).Pairwise
        (fun key1 key2 => binaryCompare key1 key2 = .lt) ∧
      scanDropRun ⟨[⟨[99, 102], 1, 0⟩]⟩ 0
          ([(⟨[114], [99, 102], [], 12, TeraKeyType.value⟩ : TeraKey),
            ⟨[114], [99, 102], [], 10, TeraKeyType.delColumn⟩,
            ⟨[114], [99, 102], [], 10, TeraKeyType.value⟩].map TeraKey.encode) =
        [TeraKey.encode ⟨[114], [99, 102], [], 12, TeraKeyType.value⟩,
          TeraKey.encode ⟨[114], [99, 102], [], 10, TeraKeyType.value⟩] ∧
      scanDropRun ⟨[⟨[99, 102], 1, 0⟩]⟩ 0
          ((dropRun ⟨[⟨[99, 102], 1, 0⟩]⟩ 0 []
            [(TeraKey.encode ⟨[114], [99, 102], [], 12, TeraKeyType.value⟩, 3),
              (TeraKey.encode ⟨[114], [99, 102], [], 10, TeraKeyType.delColumn⟩, 2),
              (TeraKey.encode ⟨[114], [99, 102], [], 10, TeraKeyType.value⟩, 1)]).map Prod.fst) =
        [TeraKey.encode ⟨[114], [99, 102], [], 12, TeraKeyType.value⟩] := by
  decide +kernel

end Tera.Compact
