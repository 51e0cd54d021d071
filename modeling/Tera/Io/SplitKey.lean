import Tera.Lib.Digits
import Tera.Master.Procedure

/-! # Choosing a split key: `TabletIO::Split`

With no key in the request, a tablet node splits a tablet at the largest key of the file of levels
1 and below where half of their size is reached (`Version::FindSplitKey`, on the largest locality
group). Where that finds no key, or only the tablet's end, it takes the rows of the smallest and the
largest key of all files (`FindKeyRange`) and splits at a key between them, a prefix of half the sum
of the two rows padded with zeros (`TabletIO::FindAverageKey`). `Split` returns the key where it
lies inside the tablet, the test the master repeats. A failed `CHECK` aborts the tablet node and is
`none` here.
-/

namespace Tera.Io

open Tera.Lib Tera.RawKey Tera.Master

/-- `std::string::resize`: cut to `length`, or padded with `fill` up to it. -/
def resize (str : Bytes) (length : Nat) (fill : UInt8) : Bytes :=
  str.take length ++ List.replicate (length - str.length) fill

/-- The test that ends the search of `FindAverageKey`, and its last `CHECK`: above `start`, and
below `end` unless that is empty. -/
def aboveStartBelowEnd (start endKey key : Bytes) : Bool :=
  decide (start < key) && (endKey.isEmpty || decide (key < endKey))

/-- The last loop of `FindAverageKey`: append the average's bytes to `ave_key` one at a time, up
to the first prefix that passes the test. -/
def averageKeyLoop (start endKey aveKey : Bytes) : Bytes → Bytes
  | [] => aveKey
  | digit :: rest =>
    if aboveStartBelowEnd start endKey (aveKey ++ [digit]) then aveKey ++ [digit]
    else averageKeyLoop start endKey (aveKey ++ [digit]) rest

/-- The end `FindAverageKey` works with: `end`, or in place of an empty one `start.size() + 1`
bytes `0xFF`. -/
def averageEnd (start endKey : Bytes) : Bytes :=
  if endKey.isEmpty then resize endKey (start.length + 1) 255 else endKey

/-- The length `FindAverageKey` pads both keys to with zeros: one byte more than the longer. -/
def averageLength (start endKey : Bytes) : Nat :=
  max start.length (averageEnd start endKey).length + 1

/-- `s` of `FindAverageKey`, padded with zeros to `averageLength`. -/
def paddedStart (start endKey : Bytes) : Bytes :=
  resize start (averageLength start endKey) 0

/-- `e` of `FindAverageKey`, padded with zeros to `averageLength`. -/
def paddedEnd (start endKey : Bytes) : Bytes :=
  resize (averageEnd start endKey) (averageLength start endKey) 0

/-- `TabletIO::FindAverageKey`: the sum of the padded keys from the last byte (`carry`, `sum`),
halved from the first byte, and the shortest prefix of it above `start` and below `end`. It is
`none` where a `CHECK` fails, `some none` where it returns false. -/
def findAverageKey (start endKey : Bytes) : Option (Option Bytes) :=
  if ¬ start < averageEnd start endKey then none
  else if paddedStart start endKey = paddedEnd start endKey then some none
  else
    let aveKey := averageKeyLoop start endKey [] (halfSum (paddedStart start endKey) (paddedEnd start endKey))
    if aboveStartBelowEnd start endKey aveKey then some (some aveKey) else none

/-! ## `FindAverageKey` -/

theorem resize_of_le {str : Bytes} {length : Nat} (longer : str.length ≤ length) (fill : UInt8) :
    resize str length fill = str ++ List.replicate (length - str.length) fill := by
  rw [resize, List.take_of_length_le longer]

/-- The search returns a prefix of what it searches, and it passes the test where the whole
does. -/
theorem averageKeyLoop_spec (start endKey : Bytes) (aveKey digits : Bytes) :
    averageKeyLoop start endKey aveKey digits <+: aveKey ++ digits ∧
      (aboveStartBelowEnd start endKey (aveKey ++ digits) = true →
        aboveStartBelowEnd start endKey (averageKeyLoop start endKey aveKey digits) = true) := by
  induction digits generalizing aveKey with
  | nil => simp [averageKeyLoop]
  | cons digit rest ih =>
    have joined : aveKey ++ [digit] ++ rest = aveKey ++ digit :: rest := by simp
    rw [averageKeyLoop]
    split
    · next passes =>
      exact ⟨⟨rest, joined⟩, fun _ => passes⟩
    · rw [← joined]
      exact ih (aveKey ++ [digit])

theorem start_lt_averageEnd {start endKey : Bytes} (ordered : endKey = [] ∨ start < endKey) :
    start < averageEnd start endKey := by
  rcases ordered with rfl | below
  · simpa [averageEnd, resize] using lt_replicate_255 (Nat.lt_succ_self start.length)
  · have nonempty : endKey.isEmpty = false := by
      cases endKey with
      | nil => exact absurd below (List.not_lt_nil _)
      | cons _ _ => rfl
    simpa [averageEnd, nonempty] using below

section Padded

variable (start endKey : Bytes)

theorem length_lt_averageLength :
    start.length < averageLength start endKey ∧
      (averageEnd start endKey).length < averageLength start endKey := by
  constructor <;> simp only [averageLength] <;> omega

theorem paddedStart_eq : paddedStart start endKey =
    start ++ List.replicate (averageLength start endKey - start.length) 0 :=
  resize_of_le (length_lt_averageLength start endKey).1.le 0

theorem paddedEnd_eq : paddedEnd start endKey = averageEnd start endKey ++
    List.replicate (averageLength start endKey - (averageEnd start endKey).length) 0 :=
  resize_of_le (length_lt_averageLength start endKey).2.le 0

theorem length_paddedStart : (paddedStart start endKey).length = averageLength start endKey := by
  have := (length_lt_averageLength start endKey).1
  simp [paddedStart_eq]
  omega

theorem length_paddedEnd : (paddedEnd start endKey).length = averageLength start endKey := by
  have := (length_lt_averageLength start endKey).2
  simp [paddedEnd_eq]
  omega

/-- Both padded keys end with a zero byte: their numbers are multiples of 256. -/
theorem decodeBigEndian_padded :
    256 ∣ decodeBigEndian (paddedStart start endKey) ∧ 256 ∣ decodeBigEndian (paddedEnd start endKey) := by
  obtain ⟨startShort, endShort⟩ := length_lt_averageLength start endKey
  have startGap : averageLength start endKey - start.length =
      averageLength start endKey - start.length - 1 + 1 := by omega
  have endGap : averageLength start endKey - (averageEnd start endKey).length =
      averageLength start endKey - (averageEnd start endKey).length - 1 + 1 := by omega
  rw [paddedStart_eq, paddedEnd_eq, decodeBigEndian_append_zeros, decodeBigEndian_append_zeros,
    startGap, endGap, Nat.pow_succ, Nat.pow_succ]
  exact ⟨(dvd_mul_left 256 _).mul_left _, (dvd_mul_left 256 _).mul_left _⟩

end Padded

/-- The average lies strictly between the padded keys, once they differ. -/
theorem padded_lt_halfSum {start endKey : Bytes} (ordered : endKey = [] ∨ start < endKey)
    (apart : paddedStart start endKey ≠ paddedEnd start endKey) :
    paddedStart start endKey < halfSum (paddedStart start endKey) (paddedEnd start endKey) ∧
      halfSum (paddedStart start endKey) (paddedEnd start endKey) < paddedEnd start endKey := by
  have same : (paddedStart start endKey).length = (paddedEnd start endKey).length := by
    rw [length_paddedStart, length_paddedEnd]
  -- the padded keys are ordered, and differ, so the padded end is the larger number
  have ordered' : paddedStart start endKey < paddedEnd start endKey := by
    have le : paddedStart start endKey ≤ paddedEnd start endKey := by
      rw [paddedStart_eq, paddedEnd_eq]
      exact append_zeros_le_of_lt (start_lt_averageEnd ordered)
        (by rw [← paddedStart_eq, ← paddedEnd_eq, same])
    exact Std.lt_of_le_of_ne le apart
  have below := (lt_iff_decodeBigEndian_lt same).mp ordered'
  obtain ⟨⟨a, startValue⟩, ⟨b, endValue⟩⟩ := decodeBigEndian_padded start endKey
  exact halfSum_between same (by omega)

/-- For `start < end` (an empty end: no bound) `FindAverageKey` passes its `CHECK`s. It returns
false exactly where the keys padded with zeros to one length coincide, and otherwise a key above
`start` and below `end`, a prefix of half the sum of the padded keys. -/
theorem findAverageKey_spec {start endKey : Bytes} (ordered : endKey = [] ∨ start < endKey) :
    (paddedStart start endKey = paddedEnd start endKey → findAverageKey start endKey = some none) ∧
      (paddedStart start endKey ≠ paddedEnd start endKey →
        ∃ key, findAverageKey start endKey = some (some key) ∧
          aboveStartBelowEnd start endKey key = true ∧
          key <+: encodeBigEndian (averageLength start endKey)
            ((decodeBigEndian (paddedStart start endKey) +
              decodeBigEndian (paddedEnd start endKey)) / 2)) := by
  have checked : start < averageEnd start endKey := start_lt_averageEnd ordered
  refine ⟨fun same => by simp [findAverageKey, checked, same], fun apart => ?_⟩
  obtain ⟨above, below⟩ := padded_lt_halfSum ordered apart
  have same : (paddedStart start endKey).length = (paddedEnd start endKey).length := by
    rw [length_paddedStart, length_paddedEnd]
  have passes : aboveStartBelowEnd start endKey
      (halfSum (paddedStart start endKey) (paddedEnd start endKey)) = true := by
    have startBelow := Std.lt_of_le_of_lt
      (paddedStart_eq start endKey ▸ (List.prefix_append _ _).le) above
    cases empty : endKey.isEmpty
    · -- a bounded end: the average is below it padded, and so below it
      have endIs : averageEnd start endKey = endKey := by simp [averageEnd, empty]
      have eEq := paddedEnd_eq start endKey
      rw [endIs] at eEq
      have padded : halfSum (paddedStart start endKey) (paddedEnd start endKey) <
          endKey ++ List.replicate (averageLength start endKey - endKey.length) 0 := by
        rw [← eEq]
        exact below
      have endBelow := lt_of_lt_append_zeros (by rw [← eEq, length_halfSum same, same]) padded
      simp [aboveStartBelowEnd, startBelow, endBelow]
    · simp [aboveStartBelowEnd, startBelow, empty]
  obtain ⟨isPrefix, found⟩ :=
    averageKeyLoop_spec start endKey [] (halfSum (paddedStart start endKey) (paddedEnd start endKey))
  rw [List.nil_append] at isPrefix found
  have whole : halfSum (paddedStart start endKey) (paddedEnd start endKey) =
      encodeBigEndian (averageLength start endKey)
        ((decodeBigEndian (paddedStart start endKey) + decodeBigEndian (paddedEnd start endKey)) / 2) := by
    rw [halfSum_eq_encodeBigEndian same, length_paddedStart]
  exact ⟨_, by simp [findAverageKey, checked, apart, found passes], found passes,
    whole ▸ isPrefix⟩

/-- For `start < end` (an empty end: no bound) `FindAverageKey` does not abort. -/
theorem findAverageKey_isSome {start endKey : Bytes} (ordered : endKey = [] ∨ start < endKey) :
    (findAverageKey start endKey).isSome := by
  by_cases same : paddedStart start endKey = paddedEnd start endKey
  · rw [(findAverageKey_spec ordered).1 same]
    rfl
  · obtain ⟨key, found, -⟩ := (findAverageKey_spec ordered).2 same
    rw [found]
    rfl

/-! ## The keys `Split` reads from the tablet's files -/

/-- The meta data of a table file that a split reads: its smallest and largest user keys and the
size of its data. -/
structure FileMetaData where
  smallest : Bytes
  largest : Bytes
  dataSize : Nat
deriving DecidableEq, Repr

/-- A locality group's current `Version`: its files, level by level from level 0. -/
structure Version where
  files : List (List FileMetaData)
deriving DecidableEq, Repr

/-- The data size of some files. -/
def dataSizeOf (files : List FileMetaData) : Nat := (files.map (·.dataSize)).sum

/-- The number of files over some levels. -/
def fileCount (levels : List (List FileMetaData)) : Nat := (levels.map List.length).sum

/-- `Version::GetApproximateSizes`: the data size of all levels, and of levels 1 and below
(`size_under_level1`). -/
def Version.approximateSizes (version : Version) : Nat × Nat :=
  let underLevel1 := ((version.files.drop 1).map dataSizeOf).sum
  (underLevel1 + dataSizeOf (version.files.headD []), underLevel1)

/-- The first unread file of each level from 1 on, with the level's place among them. -/
def firstUnread (unread : List (List FileMetaData)) : List (Nat × FileMetaData) :=
  unread.zipIdx.filterMap fun (files, level) => files.head?.map (level, ·)

/-- One pass of the level loop of `Version::FindSplitKey`: of the first unread files of the levels,
the one whose largest key is the smallest, the lower level's where two are equal. -/
def pickSplitFile (userCompare : Bytes → Bytes → Ordering) (unread : List (List FileMetaData)) :
    Option (Nat × FileMetaData) :=
  (firstUnread unread).foldl (fun best candidate =>
    match best with
    | none => some candidate
    | some chosen =>
      if userCompare chosen.2.largest candidate.2.largest = .gt then some candidate else best) none

/-- The loop of `Version::FindSplitKey`: while the size stepped over is below the wanted size, step
over the picked file. The result is the largest key of the last file stepped over, `none` where no
file is left or none was stepped over. The fuel bounds the number of passes. -/
def findSplitKeyLoop (userCompare : Bytes → Bytes → Ordering) (wantSplitSize : Nat) :
    Nat → List (List FileMetaData) → Nat → Option FileMetaData → Option Bytes
  | fuel, unread, splitSize, largestFile =>
    if splitSize < wantSplitSize then
      match fuel, pickSplitFile userCompare unread with
      | _, none => none
      | 0, some _ => none
      | fuel + 1, some (level, file) =>
        findSplitKeyLoop userCompare wantSplitSize fuel (unread.modify level List.tail)
          (splitSize + file.dataSize) (some file)
    else largestFile.map (·.largest)

/-- `Version::FindSplitKey` at the ratio `0.5` that `TabletIO::Split` asks for: the files of levels
1 and below are stepped over, smallest largest key first, until half their size is reached. -/
def Version.findSplitKey (userCompare : Bytes → Bytes → Ordering) (version : Version) :
    Option Bytes :=
  findSplitKeyLoop userCompare (version.approximateSizes.2 / 2) (fileCount (version.files.drop 1))
    (version.files.drop 1) 0 none

/-- `Version::FindKeyRange`: the smallest and the largest key of all files, by the user
comparator; empty where there is no file. -/
def Version.findKeyRange (userCompare : Bytes → Bytes → Ordering) (version : Version) :
    Bytes × Bytes :=
  version.files.flatten.foldl (fun (sk, lk) file =>
    (if sk.isEmpty || userCompare file.smallest sk == .lt then file.smallest else sk,
      if lk.isEmpty || userCompare file.largest lk == .gt then file.largest else lk)) ([], [])

/-- `DBTable::FindSplitKey`: `Version::FindSplitKey` on the locality group of the largest size, the
last such in `exist_lg_list` (the later one overwrites its size's entry); `none` with no locality
group. -/
def DBTable.findSplitKey (userCompare : Bytes → Bytes → Ordering) (lgs : List Version) :
    Option Bytes :=
  (lgs.foldl (fun biggest lg =>
    match biggest with
    | none => some lg
    | some chosen =>
      if chosen.approximateSizes.1 ≤ lg.approximateSizes.1 then some lg else biggest) none).bind
    (Version.findSplitKey userCompare)

/-- `DBTable::FindKeyRange`: the smallest and the largest of the locality groups' keys, in byte
order; a locality group with no file resets the smallest one to empty. -/
def DBTable.findKeyRange (userCompare : Bytes → Bytes → Ordering) (lgs : List Version) :
    Bytes × Bytes :=
  lgs.foldl (fun (smallest, largest) lg =>
    let (sk, lk) := lg.findKeyRange userCompare
    (if smallest.isEmpty || decide (sk < smallest) then sk else smallest,
      if largest.isEmpty || decide (largest < lk) then lk else largest)) ([], [])

/-! ## `TabletIO::Split` -/

/-- What `TabletIO::Split` needs of a table's raw key format: the comparator of its `leveldb`, and
`ParseRowKey`, the row of a key (`none` where the key operator cannot read one). -/
structure KeyFormat where
  userCompare : Bytes → Bytes → Ordering
  parseRowKey : Bytes → Option Bytes

/-- A key-value table (`GeneralKv`, or `Readable` with `kv_only_`): byte order, and the key is the
row. -/
def KeyFormat.generalKv : KeyFormat := ⟨compare, some⟩

/-- A binary table: the order of `BinaryRawKeyOperator`, and the row `ExtractTeraKey` reads. -/
def KeyFormat.binary : KeyFormat := ⟨binaryCompare, fun key => (extractTeraKey key).map TeraKey.rowKey⟩

/-- The state of a `TabletIO` that `Split` reads: the tablet's range, whether it is `kReady`, whether
it is compacting (`kTableOnCompact`), and the current versions of its locality groups. -/
structure TabletIO where
  startKey : Bytes
  endKey : Bytes
  ready : Bool
  onCompact : Bool
  lgs : List Version

/-- The rows `Split` averages: those of the smallest and the largest key of the tablet's files, or
the tablet's own start and end in place of a missing key. -/
def TabletIO.splitRows (format : KeyFormat) (tablet : TabletIO) : Bytes × Bytes :=
  let (smallest, largest) := DBTable.findKeyRange format.userCompare tablet.lgs
  (if !smallest.isEmpty then (format.parseRowKey smallest).getD [] else tablet.startKey,
    if !largest.isEmpty then (format.parseRowKey largest).getD [] else tablet.endKey)

/-- The split key `FindSplitKey` gives `Split`: the row of the key found, or the key as it was where
none is found or its row cannot be read. -/
def TabletIO.foundSplitKey (format : KeyFormat) (tablet : TabletIO) (splitKey : Bytes) : Bytes :=
  match DBTable.findSplitKey format.userCompare tablet.lgs with
  | some raw => (format.parseRowKey raw).getD splitKey
  | none => splitKey

/-- `TabletIO::Split`: whether it succeeds, and the split key it leaves; `none` where a `CHECK`
fails. -/
def TabletIO.split (format : KeyFormat) (tablet : TabletIO) (splitKey : Bytes) :
    Option (Bool × Bytes) :=
  if !tablet.ready || tablet.onCompact then some (false, splitKey)
  else
    let chosen : Option Bytes :=
      if !splitKey.isEmpty then some splitKey
      else
        let found := tablet.foundSplitKey format splitKey
        if !found.isEmpty && found != tablet.endKey then some found
        else
          (findAverageKey (tablet.splitRows format).1 (tablet.splitRows format).2).map
            fun averaged => averaged.getD found
    chosen.map fun key => (tabletIOSplitKeyValid tablet.startKey tablet.endKey key, key)

/-! ## The loop of `FindSplitKey` -/

private theorem foldl_pick_mem (userCompare : Bytes → Bytes → Ordering) :
    ∀ (candidates : List (Nat × FileMetaData)) (best : Option (Nat × FileMetaData))
      (chosen : Nat × FileMetaData),
      candidates.foldl (fun best candidate =>
        match best with
        | none => some candidate
        | some chosen =>
          if userCompare chosen.2.largest candidate.2.largest = .gt then some candidate
          else best) best = some chosen →
      best = some chosen ∨ chosen ∈ candidates := by
  intro candidates
  induction candidates with
  | nil => exact fun best chosen picked => .inl picked
  | cons candidate rest ih =>
    intro best chosen picked
    rcases ih _ chosen picked with earlier | later
    · -- the pass kept the best so far, or took the candidate
      cases best with
      | none => exact .inr (by simp_all)
      | some kept =>
        simp only at earlier
        split at earlier
        · exact .inr (by simp_all)
        · exact .inl earlier
    · exact .inr (List.mem_cons_of_mem _ later)

/-- The picked file is the first unread file of its level. -/
theorem pickSplitFile_head {userCompare : Bytes → Bytes → Ordering}
    {unread : List (List FileMetaData)} {level : Nat} {file : FileMetaData}
    (picked : pickSplitFile userCompare unread = some (level, file)) :
    ∃ rest, unread[level]? = some (file :: rest) := by
  rcases foldl_pick_mem userCompare _ none _ picked with none | member
  · cases none
  · obtain ⟨⟨files, index⟩, zipped, found⟩ := List.mem_filterMap.mp member
    rw [List.mem_zipIdx_iff_getElem?] at zipped
    cases files with
    | nil => cases found
    | cons head rest =>
      simp only [List.head?_cons, Option.map_some, Option.some.injEq, Prod.mk.injEq] at found
      obtain ⟨rfl, rfl⟩ := found
      exact ⟨rest, zipped⟩

/-- Stepping over the first file of a level leaves one file fewer. -/
theorem fileCount_modify_tail {unread : List (List FileMetaData)} {level : Nat}
    {file : FileMetaData} {rest : List FileMetaData} (first : unread[level]? = some (file :: rest)) :
    fileCount (unread.modify level List.tail) + 1 = fileCount unread := by
  induction unread generalizing level with
  | nil => simp at first
  | cons files others ih =>
    cases level with
    | zero =>
      simp only [List.getElem?_cons_zero, Option.some.injEq] at first
      subst first
      simp [fileCount]
      omega
    | succ level =>
      simp only [List.getElem?_cons_succ] at first
      have tail := ih first
      simp only [fileCount, List.modify_succ_cons, List.map_cons, List.sum_cons] at tail ⊢
      omega

/-- A ready tablet `["", "")` of a binary table whose data runs from row `a` to row `c` in one
level-0 file. -/
def twoRowTablet : TabletIO :=
  ⟨[], [], true, false, [⟨[[⟨encodeTeraKey [97] [99, 102] [113] 2 TeraKeyType.value,
    encodeTeraKey [99] [99, 102] [113] 1 TeraKeyType.value, 1⟩]]⟩]⟩

/-- `Split` aborts only in `FindAverageKey`, on rows out of order: with no requested key, an end row
that is not empty and not above the start row. -/
theorem TabletIO.split_eq_none {format : KeyFormat} {tablet : TabletIO} {splitKey : Bytes}
    (aborted : tablet.split format splitKey = none) :
    splitKey = [] ∧ (tablet.splitRows format).2 ≠ [] ∧
      ¬ (tablet.splitRows format).1 < (tablet.splitRows format).2 := by
  unfold TabletIO.split at aborted
  split at aborted
  · cases aborted
  · simp only [Option.map_eq_none_iff] at aborted
    split at aborted
    · cases aborted
    · next requested =>
      refine ⟨by simpa using requested, ?_⟩
      split at aborted
      · cases aborted
      · rw [Option.map_eq_none_iff] at aborted
        -- in order, the rows would let `FindAverageKey` through
        have blocked := fun ordered => Option.isSome_iff_ne_none.mp (findAverageKey_isSome ordered) aborted
        exact ⟨fun empty => blocked (.inl empty), fun below => blocked (.inr below)⟩

/-- A ready tablet `["", "")` of a binary table whose only data is one row `r`, two cells in one
level-0 file. -/
def singleRowTablet : TabletIO :=
  ⟨[], [], true, false, [⟨[[⟨encodeTeraKey [114] [99, 102] [97] 2 TeraKeyType.value,
    encodeTeraKey [114] [99, 102] [98] 1 TeraKeyType.value, 1⟩]]⟩]⟩

/-- `Split` with no requested key aborts on that tablet, whose end row `r` is not above its start
row `r`. -/
theorem split_eq_none_singleRowTablet :
    singleRowTablet.split KeyFormat.binary [] = none ∧
      (singleRowTablet.splitRows KeyFormat.binary).2 ≠ [] ∧
      ¬ (singleRowTablet.splitRows KeyFormat.binary).1 <
        (singleRowTablet.splitRows KeyFormat.binary).2 := by
  have aborted : singleRowTablet.split KeyFormat.binary [] = none := by decide +kernel
  have rows := TabletIO.split_eq_none aborted
  exact ⟨aborted, rows.2⟩

/-- A ready tablet `["", "")` of a binary table whose only data is one row `r`, two cells in one
level-0 file. Nothing lies below level 0, so `FindSplitKey` finds no key; both averaged rows are
`r`, and the `CHECK(s < e)` of `FindAverageKey` aborts `Split`. -/
theorem split_single_row_aborts :
    let tablet : TabletIO := ⟨[], [], true, false,
      [⟨[[⟨encodeTeraKey [114] [99, 102] [97] 2 TeraKeyType.value,
        encodeTeraKey [114] [99, 102] [98] 1 TeraKeyType.value, 1⟩]]⟩]⟩
    tablet.splitRows KeyFormat.binary = ([114], [114]) ∧ tablet.split KeyFormat.binary [] = none := by
  decide +kernel

end Tera.Io
