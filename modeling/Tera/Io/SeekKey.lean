import Tera.Io.RowRead
import Tera.Lib.Digits

/-! # Seek keys: `TabletIO::GotoNextRow`, `ReadCells` and `ExtractRowKey`

A read finds the start of a row, or of a family in a row, by seeking to the key that
`EncodeTeraKey` builds from the row, the family, an empty qualifier, `kLatestTs` and `TKT_FORSEEK`.
`kLatestTs` is `INT64_MAX`, so the `uint64_t` arithmetic of the timestamp word wraps to zero and the
seek key carries the least word of all. `GotoNextRow` seeks to the key of `row + '\0'`, the least
row above `row`, and `DefaultCompactStrategy::ExtractRowKey` maps a key to the seek key of its row.

On keys the writer lets through, the seek key of `(row, family)` is above exactly the keys of
earlier rows and of earlier families of its row, when the family has no NUL; so a seek over a tablet
in key order leaves exactly the entries from that position on. `GotoNextRow` does so for rows
shorter than 65535 bytes: the key of `row + '\0'` stores its row length in sixteen bits, and for a
row of 65535 bytes that length wraps to zero.
-/

namespace Tera.RawKey

/-- A cell lies before the position `(rowKey, family)`: in an earlier row, or in that row under an
earlier family. -/
def TeraKey.Before (cell : TeraKey) (rowKey family : Bytes) : Prop :=
  cell.rowKey < rowKey ∨ cell.rowKey = rowKey ∧ cell.family < family

instance (cell : TeraKey) (rowKey family : Bytes) : Decidable (cell.Before rowKey family) :=
  inferInstanceAs (Decidable (_ ∨ _))

end Tera.RawKey

namespace Tera.Io

open Tera.RawKey Tera.Lib Tera.Compact

/-- `TabletIO::GotoNextRow`: with a valid iterator and a non-empty row buffer, seek to the key of
the row after the buffer's row, and make `next` the empty cell of that row; otherwise leave the
iterator and `next` as they are. -/
def gotoNextRow (content : List IterEntry) (rowBuf : List KeyValuePair) (it : List IterEntry) :
    List IterEntry × Option KeyValuePair :=
  match it, rowBuf with
  | [], _ => (it, none)
  | _, [] => (it, none)
  | _ :: _, kv :: _ =>
    let nextRow := kv.key ++ [0]
    (seek content (encodeTeraKey nextRow [] [] kLatestTs TeraKeyType.forSeek),
      some ⟨nextRow, [], [], kLatestTs, []⟩)

/-- `DefaultCompactStrategy::ExtractRowKey`: the seek key of the row of a key that decodes, and the
key itself otherwise. -/
def extractRowKey (teraKey : Bytes) : Bytes :=
  match extractTeraKey teraKey with
  | some cell => encodeTeraKey cell.rowKey [] [] kLatestTs TeraKeyType.forSeek
  | none => teraKey

/-- The entries of a tablet as its iterator walks them: in the order of `Compare`, each the key of
a cell the writer let through. -/
structure KeyOrdered (content : List IterEntry) : Prop where
  sorted : content.Pairwise fun entry other => binaryCompare entry.key other.key ≠ .gt
  wellFormed : ∀ entry ∈ content, ∃ cell : TeraKey, cell.WellFormed ∧ entry.key = cell.encode

/-! ## The seek key of a row and family -/

/-- `((1 << 56) - 1 - INT64_MAX) << 8` wraps to zero in `uint64_t`. -/
theorem tsTypeWord_kLatestTs : tsTypeWord kLatestTs TeraKeyType.forSeek = 0 := by
  decide

theorem comparedSlices_seekKey {rowKey family : Bytes} (rowBound : rowKey.length < 2 ^ 16)
    (familyBound : family.length < 2 ^ 16) :
    comparedSlices (encodeTeraKey rowKey family [] kLatestTs TeraKeyType.forSeek) =
      [rowKey, family, [], List.replicate 8 0] := by
  rw [comparedSlices_encodeTeraKey _ _ _ _ _ rowBound familyBound (by simp), tsTypeWord_kLatestTs]
  simp [comparedFamily, comparedQualifier]
  rfl

/-- Behind equal rows and families, a seek key is never above a key: its qualifier is empty and its
word is all zeros. -/
private theorem compare_seek_tail_ne_gt (qualifier : Bytes) (word : Bytes) (eight : word.length = 8) :
    (compare [] qualifier).then (compare (List.replicate 8 0) word) ≠ .gt := by
  refine then_ne_gt (compare_ne_gt_iff.mpr (List.nil_le _)) (compare_ne_gt_iff.mpr ?_)
  rw [← eight]
  exact replicate_zero_le

/-- The seek key of `(rowKey, family)` is above a key the writer lets through exactly when the
key's cell lies before that position, for a family without NUL. -/
theorem binaryCompare_seekKey_eq_gt_iff {rowKey family : Bytes} (rowBound : rowKey.length < 2 ^ 16)
    (familyBound : family.length < 2 ^ 16) (noNul : 0 ∉ family) {cell : TeraKey}
    (wellFormed : cell.WellFormed) :
    binaryCompare (encodeTeraKey rowKey family [] kLatestTs TeraKeyType.forSeek) cell.encode = .gt ↔
      cell.Before rowKey family := by
  obtain ⟨⟨cellRowBound, cellQualifierBound, -⟩, cellFamilyBound⟩ := wellFormed
  have tail := compare_seek_tail_ne_gt (comparedQualifier cell.qualifier)
    (encodeBigEndian (tsTypeWord cell.timestamp cell.type)) (by simp [RawKey.encodeBigEndian])
  rw [binaryCompare_eq_compare, comparedSlices_seekKey rowBound familyBound, TeraKey.encode,
    comparedSlices_encodeTeraKey _ _ _ _ _ cellRowBound cellFamilyBound cellQualifierBound]
  simp only [List.compare_cons_cons, List.compare_nil_nil, Ordering.then_eq]
  rw [Ordering.then_eq_gt, then_eq_gt_iff_of_ne_gt _ tail, compare_eq_gt_iff, compare_eq_gt_iff,
    Std.compare_eq_iff_eq, comparedFamily_lt_iff noNul, TeraKey.Before, @eq_comm _ rowKey]

/-- The seek key of `row + '\0'` is above exactly the keys of rows up to `row`, for rows shorter
than 65535 bytes. -/
theorem binaryCompare_nextRowKey_eq_gt_iff {row : Bytes} (rowBound : row.length + 1 < 2 ^ 16)
    {cell : TeraKey} (wellFormed : cell.WellFormed) :
    binaryCompare (encodeTeraKey (row ++ [0]) [] [] kLatestTs TeraKeyType.forSeek) cell.encode = .gt ↔
      cell.rowKey ≤ row := by
  rw [binaryCompare_seekKey_eq_gt_iff (by simpa using rowBound) (by simp) List.not_mem_nil
    wellFormed, TeraKey.Before, lt_append_zero_iff]
  simp [List.not_lt_nil]

/-! ## Seeking a tablet in key order -/

/-- On entries in key order, `Seek` leaves exactly the entries not before the target. -/
theorem seek_eq_filter {content : List IterEntry}
    (sorted : content.Pairwise fun entry other => binaryCompare entry.key other.key ≠ .gt)
    (target : Bytes) :
    seek content target = content.filter fun entry => binaryCompare entry.key target != .lt := by
  unfold seek
  rw [dropWhile_eq_filter (sorted.imp fun notAbove below => ?_)]
  · rfl
  · simpa using binaryCompare_lt_of_le_of_lt notAbove (by simpa using below)

private theorem binaryCompare_bne_lt (key target : Bytes) :
    (binaryCompare key target != .lt) = !decide (binaryCompare target key = .gt) := by
  rw [binaryCompare_swap target key]
  cases binaryCompare target key <;> rfl

/-- A seek to `(rowKey, family)` over a tablet in key order leaves exactly the entries whose cells
do not lie before that position: none is skipped and none of an earlier position is read. -/
theorem seek_seekKey_eq_filter {content : List IterEntry} (tablet : KeyOrdered content)
    {rowKey family : Bytes} (rowBound : rowKey.length < 2 ^ 16)
    (familyBound : family.length < 2 ^ 16) (noNul : 0 ∉ family) :
    seek content (encodeTeraKey rowKey family [] kLatestTs TeraKeyType.forSeek) =
      content.filter fun entry =>
        (extractTeraKey entry.key).all fun cell => !decide (cell.Before rowKey family) := by
  rw [seek_eq_filter tablet.sorted]
  refine List.filter_congr fun entry member => ?_
  obtain ⟨cell, cellWellFormed, encoded⟩ := tablet.wellFormed entry member
  rw [encoded, binaryCompare_bne_lt, extractTeraKey_encode cellWellFormed.1, Option.all_some]
  simp only [binaryCompare_seekKey_eq_gt_iff rowBound familyBound noNul cellWellFormed]

/-- After a row, `GotoNextRow` leaves exactly the entries of the later rows, and makes `next` the
empty cell of `row + '\0'`, for rows shorter than 65535 bytes. -/
theorem gotoNextRow_eq_filter {content : List IterEntry} (tablet : KeyOrdered content)
    (kv : KeyValuePair) (rowBuf : List KeyValuePair) (entry : IterEntry) (it : List IterEntry)
    (rowBound : kv.key.length + 1 < 2 ^ 16) :
    gotoNextRow content (kv :: rowBuf) (entry :: it) =
      (content.filter fun entry => (extractTeraKey entry.key).all fun cell => decide (kv.key < cell.rowKey),
        some ⟨kv.key ++ [0], [], [], kLatestTs, []⟩) := by
  simp only [gotoNextRow, Prod.mk.injEq, and_true]
  rw [seek_eq_filter tablet.sorted]
  refine List.filter_congr fun entry member => ?_
  obtain ⟨cell, cellWellFormed, encoded⟩ := tablet.wellFormed entry member
  rw [encoded, binaryCompare_bne_lt, extractTeraKey_encode cellWellFormed.1, Option.all_some]
  simp only [binaryCompare_nextRowKey_eq_gt_iff rowBound cellWellFormed]
  rw [← decide_not]
  exact decide_eq_decide.mpr Std.not_le

/-! ## The row after a row of 65535 bytes -/

/-- `rlen << 16` wraps in `uint32_t` for a row of 65536 bytes: the trailer of its key reads zero. -/
theorem decodeBigEndain32_trailer_wraps {row : Bytes} (long : row.length = 2 ^ 16)
    (timestamp : Int) (type : TeraKeyType) :
    decodeBigEndain32 ((encodeTeraKey row [] [] timestamp type).drop
      ((encodeTeraKey row [] [] timestamp type).length - 4)) = 0 := by
  rw [drop_encodeTeraKey_trailer _ _ _ _ _ (by simp), decodeBigEndain32, encodeBigEndian32,
    List.take_of_length_le (by simp), decodeBigEndian_encodeBigEndian, List.length_nil, long]
  decide

/-- For a row of 65535 bytes, the key `GotoNextRow` seeks to is below every key of the row itself:
`Compare` reads its row as empty. -/
theorem binaryCompare_nextRowKey_wraps {cell : TeraKey} (wellFormed : cell.WellFormed)
    (long : cell.rowKey.length = 2 ^ 16 - 1) :
    binaryCompare cell.encode
      (encodeTeraKey (cell.rowKey ++ [0]) [] [] kLatestTs TeraKeyType.forSeek) = .gt := by
  obtain ⟨⟨rowBound, qualifierBound, -⟩, familyBound⟩ := wellFormed
  rw [binaryCompare_eq_compare, TeraKey.encode,
    comparedSlices_encodeTeraKey _ _ _ _ _ rowBound familyBound qualifierBound]
  unfold comparedSlices
  dsimp only
  rw [decodeBigEndain32_trailer_wraps (by simp [long])]
  cases row : cell.rowKey with
  | nil => simp [row] at long
  | cons byte rest => simp [slice, List.compare_cons_cons, List.compare_cons_nil]

/-! ## `ExtractRowKey` -/

theorem extractRowKey_encode {cell : TeraKey} (encodable : cell.Encodable) :
    extractRowKey cell.encode = encodeTeraKey cell.rowKey [] [] kLatestTs TeraKeyType.forSeek := by
  rw [extractRowKey, extractTeraKey_encode encodable]

/-- The row key `ExtractRowKey` gives a key is at or below the key. -/
theorem binaryCompare_extractRowKey_ne_gt {cell : TeraKey} (wellFormed : cell.WellFormed) :
    binaryCompare (extractRowKey cell.encode) cell.encode ≠ .gt := by
  rw [extractRowKey_encode wellFormed.1, Ne,
    binaryCompare_seekKey_eq_gt_iff wellFormed.1.1 (by simp) List.not_mem_nil wellFormed,
    TeraKey.Before]
  simp [List.not_lt_nil, Std.lt_irrefl]

/-- The row keys `ExtractRowKey` gives two keys compare as their rows. -/
theorem binaryCompare_extractRowKey {cell other : TeraKey} (wellFormed : cell.WellFormed)
    (otherWellFormed : other.WellFormed) :
    binaryCompare (extractRowKey cell.encode) (extractRowKey other.encode) =
      compare cell.rowKey other.rowKey := by
  rw [extractRowKey_encode wellFormed.1, extractRowKey_encode otherWellFormed.1,
    binaryCompare_eq_compare, comparedSlices_seekKey wellFormed.1.1 (by simp),
    comparedSlices_seekKey otherWellFormed.1.1 (by simp)]
  simp only [List.compare_cons_cons, Std.compare_self, Ordering.then_eq]

/-! ## Where seek keys put a read -/

/-- The seek key of `kLatestTs` carries the all-zero word; on the keys the writer lets through, the
seek key of a row and a family without NUL is above exactly the keys of earlier positions, so a
seek over a tablet in key order skips and repeats no entry; `row + '\0'` is the least row above
`row`, and `GotoNextRow` leaves exactly the later rows' entries for rows shorter than 65535 bytes;
`ExtractRowKey` maps a key to the seek key of its row, at or below the key, ordered as the rows. -/
theorem seekKey_positions_reads :
    tsTypeWord kLatestTs TeraKeyType.forSeek = 0 ∧
    (∀ (rowKey family : Bytes) (cell : TeraKey), rowKey.length < 2 ^ 16 →
      family.length < 2 ^ 16 → 0 ∉ family → cell.WellFormed →
      (binaryCompare (encodeTeraKey rowKey family [] kLatestTs TeraKeyType.forSeek) cell.encode =
        .gt ↔ cell.Before rowKey family)) ∧
    (∀ row : Bytes, row < row ++ [0] ∧ ∀ key, row < key → row ++ [0] ≤ key) ∧
    (∀ (content : List IterEntry) (rowKey family : Bytes), KeyOrdered content →
      rowKey.length < 2 ^ 16 → family.length < 2 ^ 16 → 0 ∉ family →
      seek content (encodeTeraKey rowKey family [] kLatestTs TeraKeyType.forSeek) =
        content.filter fun entry =>
          (extractTeraKey entry.key).all fun cell => !decide (cell.Before rowKey family)) ∧
    (∀ (content : List IterEntry) (kv : KeyValuePair) (rowBuf : List KeyValuePair)
      (entry : IterEntry) (it : List IterEntry), KeyOrdered content →
      kv.key.length + 1 < 2 ^ 16 →
      gotoNextRow content (kv :: rowBuf) (entry :: it) =
        (content.filter fun entry =>
          (extractTeraKey entry.key).all fun cell => decide (kv.key < cell.rowKey),
          some ⟨kv.key ++ [0], [], [], kLatestTs, []⟩)) ∧
    (∀ cell other : TeraKey, cell.WellFormed → other.WellFormed →
      extractRowKey cell.encode = encodeTeraKey cell.rowKey [] [] kLatestTs TeraKeyType.forSeek ∧
      binaryCompare (extractRowKey cell.encode) cell.encode ≠ .gt ∧
      binaryCompare (extractRowKey cell.encode) (extractRowKey other.encode) =
        compare cell.rowKey other.rowKey) := by
  refine ⟨tsTypeWord_kLatestTs, ?_, ?_, ?_, ?_, ?_⟩
  · intro rowKey family cell rowBound familyBound noNul wellFormed
    exact binaryCompare_seekKey_eq_gt_iff rowBound familyBound noNul wellFormed
  · exact fun row => ⟨lt_append_zero row, fun _ above => append_zero_le_of_lt above⟩
  · intro content rowKey family tablet rowBound familyBound noNul
    exact seek_seekKey_eq_filter tablet rowBound familyBound noNul
  · intro content kv rowBuf entry it tablet rowBound
    exact gotoNextRow_eq_filter tablet kv rowBuf entry it rowBound
  · intro cell other wellFormed otherWellFormed
    exact ⟨extractRowKey_encode wellFormed.1, binaryCompare_extractRowKey_ne_gt wellFormed,
      binaryCompare_extractRowKey wellFormed otherWellFormed⟩

/-- Two cells of family `cf`, in rows `a` and `b`, in key order. -/
def twoRows : List IterEntry :=
  [⟨encodeTeraKey [97] [99, 102] [113] 5 TeraKeyType.value, 1, [120]⟩,
    ⟨encodeTeraKey [98] [99, 102] [113] 5 TeraKeyType.value, 2, [121]⟩]

theorem keyOrdered_twoRows : KeyOrdered twoRows := by
  refine ⟨by decide, fun entry member => ?_⟩
  simp only [twoRows, List.mem_cons, List.not_mem_nil, or_false] at member
  rcases member with rfl | rfl
  · exact ⟨⟨[97], [99, 102], [113], 5, TeraKeyType.value⟩, by decide, rfl⟩
  · exact ⟨⟨[98], [99, 102], [113], 5, TeraKeyType.value⟩, by decide, rfl⟩

theorem seekKey_positions_reads_twoRows :
    KeyOrdered twoRows ∧
      (gotoNextRow twoRows [⟨[97], [99, 102], [113], 5, [120]⟩] twoRows).1 = twoRows.drop 1 :=
  ⟨keyOrdered_twoRows,
    (congrArg Prod.fst (seekKey_positions_reads.2.2.2.2.1 twoRows _ [] _ _ keyOrdered_twoRows
      (by decide))).trans (by decide)⟩

/-- A row of 65535 bytes, the longest `CheckIllegalRowArg` lets through, with a cell of family
`c`. -/
def longRowCell : TeraKey := ⟨List.replicate 65535 1, [99], [], 1, TeraKeyType.value⟩

/-- `GotoNextRow` after the row of 65535 bytes: `row + '\0'` has 65536 bytes, its length wraps to 0
in the 16-bit row field of the seek key, so the seek key sorts below the row's own cell and the
iterator is put back on it, where the comment promises the row after. -/
theorem gotoNextRow_rereads_longRow :
    longRowCell.WellFormed ∧
      binaryCompare longRowCell.encode
        (encodeTeraKey (longRowCell.rowKey ++ [0]) [] [] kLatestTs TeraKeyType.forSeek) = .gt ∧
      (gotoNextRow [⟨longRowCell.encode, 1, []⟩] [⟨longRowCell.rowKey, [99], [], 1, []⟩]
        [⟨longRowCell.encode, 1, []⟩]).1 = [⟨longRowCell.encode, 1, []⟩] := by
  -- the row is never expanded: only its length is computed
  have long : longRowCell.rowKey.length = 2 ^ 16 - 1 := by
    show (List.replicate 65535 (1 : UInt8)).length = 2 ^ 16 - 1
    rw [List.length_replicate]
    decide
  have longRow : longRowCell.WellFormed :=
    ⟨⟨by rw [long]; decide, by decide, by decide, by decide, by decide⟩, by decide⟩
  have wraps := binaryCompare_nextRowKey_wraps longRow long
  refine ⟨longRow, wraps, ?_⟩
  simp only [gotoNextRow, seek]
  rw [List.dropWhile_cons_of_neg (by simp [wraps])]

end Tera.Io
