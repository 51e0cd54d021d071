import Tera.Compact.AtomicMerge

/-! # A compaction's merge and a later read of the cell

A compaction that meets the newest entries of a cell and finds an atomic operation first calls
`MergeAtomicOPs`: it merges the run of atomic operations it sees and writes the result back under
the newest entry's key, in place of that run. A later read merges again with `ScanMergedValue`. This
module follows both through the merge loop over the versions of one cell and shows the read sees the
same value and stops at the same place whichever leading part of the run the compaction merged.
-/

namespace Tera.Compact

open Tera.RawKey Tera.Lib AtomicMergeStrategy

/-- A version of a cell as an iterator meets it: the decoded key, the sequence number it was
written with, and the value. -/
structure Version where
  cell : TeraKey
  sequence : Nat
  value : Bytes
deriving DecidableEq, Repr

/-- The iterator entry of a version. -/
def Version.entry (v : Version) : IterEntry := ⟨v.cell.encode, v.sequence, v.value⟩

/-- The value and kind a merge step reads from a version. -/
def Version.merged (v : Version) : Bytes × TeraKeyType := (v.value, v.cell.type)

/-- The older versions a merge takes in behind the newest: the run of atomic operations and, when
the caller merges puts, the value that ends it. -/
def mergedRun (mergePutFlag : Bool) : List Version → List Version
  | [] => []
  | v :: rest =>
    if isAtomicOP v.cell.type then v :: mergedRun mergePutFlag rest
    else if mergePutFlag then [v] else []

/-- The older versions left behind the merged ones. -/
def afterRun (mergePutFlag : Bool) : List Version → List Version
  | [] => []
  | v :: rest =>
    if isAtomicOP v.cell.type then afterRun mergePutFlag rest
    else if mergePutFlag then rest else v :: rest

/-- The iterator leaves the column of the strategy's last key here: its next entry, if any, does not
decode to a key of that row, family and qualifier. -/
def LeavesColumn (s : DefaultCompactStrategy) (it : List IterEntry) : Prop :=
  ∀ entry ∈ it.head?, ∀ cell, extractTeraKey entry.key = some cell →
    ¬ (s.lastKey = cell.rowKey ∧ s.lastCol = cell.family ∧ s.lastQual = cell.qualifier)

/-- Versions a merge loop can run over: keys of the strategy's column that decode, atomic
operations and values only, visible to the snapshot when the keys are internal, and timestamps
falling from below `lastTs`. -/
def MergeableRun (s : DefaultCompactStrategy) (isInternalKey : Bool) (lastTs : Int)
    (versions : List Version) : Prop :=
  (∀ v ∈ versions, s.lastKey = v.cell.rowKey ∧ s.lastCol = v.cell.family ∧
    s.lastQual = v.cell.qualifier ∧ v.cell.Encodable ∧
    (v.cell.type = TeraKeyType.value ∨ isAtomicOP v.cell.type = true) ∧
    (isInternalKey = true → v.sequence ≤ s.snapshot) ∧ v.cell.timestamp < lastTs) ∧
  versions.Pairwise fun newer older => older.cell.timestamp < newer.cell.timestamp

theorem internalMergeLoop_of_versionNum (s : DefaultCompactStrategy) (mergePutFlag isInternalKey : Bool)
    {versionNum : Nat} (merged : 1 ≤ versionNum) (lastTs : Int) (st : AtomicMergeStrategy) (n : Nat)
    (it : List IterEntry) :
    internalMergeLoop s mergePutFlag isInternalKey versionNum lastTs st n it = (st, n, it) := by
  cases it with
  | nil => rfl
  | cons entry rest => simp [internalMergeLoop, merged]

theorem internalMergeLoop_of_leaves (s : DefaultCompactStrategy) (mergePutFlag isInternalKey : Bool)
    (lastTs : Int) (st : AtomicMergeStrategy) (n : Nat) {it : List IterEntry}
    (leaves : LeavesColumn s it) :
    internalMergeLoop s mergePutFlag isInternalKey 0 lastTs st n it = (st, n, it) := by
  cases it with
  | nil => rfl
  | cons entry rest =>
    unfold internalMergeLoop
    rw [if_neg (by decide)]
    split_ifs
    · rfl
    · split
      · rfl
      · rename_i cell decoded
        have other := leaves entry rfl cell decoded
        rw [if_pos (by tauto)]


theorem MergeableRun.tail {s : DefaultCompactStrategy} {isInternalKey : Bool} {lastTs : Int}
    {v : Version} {rest : List Version} (run : MergeableRun s isInternalKey lastTs (v :: rest)) :
    MergeableRun s isInternalKey v.cell.timestamp rest := by
  obtain ⟨each, ordered⟩ := run
  rw [List.pairwise_cons] at ordered
  refine ⟨fun w member => ?_, ordered.2⟩
  obtain ⟨key, col, qual, encodable, kind, visible, _⟩ := each w (List.mem_cons_of_mem v member)
  exact ⟨key, col, qual, encodable, kind, visible, ordered.1 w member⟩

/-- One turn of the merge loop at a version of the strategy's column that decodes. -/
theorem internalMergeLoop_cons {s : DefaultCompactStrategy} {mergePutFlag isInternalKey : Bool}
    {lastTs : Int} {v : Version} {rest : List Version}
    (run : MergeableRun s isInternalKey lastTs (v :: rest)) (st : AtomicMergeStrategy) (n : Nat)
    (it : List IterEntry) :
    internalMergeLoop s mergePutFlag isInternalKey 0 lastTs st n (v.entry :: it) =
      if isAtomicOP v.cell.type then
        internalMergeLoop s mergePutFlag isInternalKey 0 v.cell.timestamp
          (st.mergeStep v.value v.cell.type) (n + 1) it
      else if mergePutFlag then (st.mergeStep v.value v.cell.type, n + 1, it)
      else (st, n, v.entry :: it) := by
  obtain ⟨key, col, qual, encodable, kind, visible, newer⟩ := run.1 v List.mem_cons_self
  have decoded : extractTeraKey v.entry.key = some v.cell := extractTeraKey_encode encodable
  have fresh : ¬ (isInternalKey = true ∧ v.entry.sequence > s.snapshot) := by
    rintro ⟨internal, newerSeq⟩
    exact absurd (visible internal) (by simpa [Version.entry] using newerSeq)
  rw [internalMergeLoop, if_neg (by decide), if_neg fresh, decoded]
  dsimp only
  rw [if_neg (by rw [key, col, qual]; simp)]
  by_cases atomic : isAtomicOP v.cell.type = true
  · have notValue : v.cell.type ≠ TeraKeyType.value := by
      intro value
      rw [value, isAtomicOP_value] at atomic
      exact Bool.false_ne_true atomic
    rw [if_neg (by simp [atomic]), if_neg (by simp [notValue]), if_pos atomic, if_neg notValue,
      if_pos (Or.inl (Int.ne_of_lt newer))]
    rfl
  · have value : v.cell.type = TeraKeyType.value := kind.resolve_right atomic
    rw [if_neg (by simp [value]), if_neg atomic]
    cases mergePutFlag with
    | true =>
      rw [if_neg (by simp), if_pos value, if_pos (Or.inr value), if_pos rfl]
      exact internalMergeLoop_of_versionNum s true isInternalKey (Nat.le_refl 1) _ _ _ it
    | false => rw [if_pos (by simp [value]), if_neg Bool.false_ne_true]

/-- The merge loop over versions of the strategy's column folds in the run `mergedRun` and stops
where the iterator leaves the column or at the version that ends the run. -/
theorem internalMergeLoop_versions (s : DefaultCompactStrategy) (mergePutFlag isInternalKey : Bool)
    {after : List IterEntry} (leaves : LeavesColumn s after) :
    ∀ (versions : List Version) (lastTs : Int) (st : AtomicMergeStrategy) (n : Nat),
      MergeableRun s isInternalKey lastTs versions →
      internalMergeLoop s mergePutFlag isInternalKey 0 lastTs st n
          (versions.map Version.entry ++ after) =
        (st.mergeAll ((mergedRun mergePutFlag versions).map Version.merged),
          n + (mergedRun mergePutFlag versions).length,
          (afterRun mergePutFlag versions).map Version.entry ++ after) := by
  intro versions
  induction versions with
  | nil =>
    intro lastTs st n _
    exact internalMergeLoop_of_leaves s mergePutFlag isInternalKey lastTs st n leaves
  | cons v rest ih =>
    intro lastTs st n run
    rw [List.map_cons, List.cons_append, internalMergeLoop_cons run]
    by_cases atomic : isAtomicOP v.cell.type = true
    · rw [if_pos atomic, ih _ _ _ run.tail]
      simp only [mergedRun, afterRun, if_pos atomic, List.map_cons, List.length_cons,
        AtomicMergeStrategy.mergeAll, List.foldl_cons, Version.merged, Nat.add_assoc,
        Nat.add_comm 1]
    · rw [if_neg atomic]
      cases mergePutFlag with
      | true => simp [mergedRun, afterRun, atomic, AtomicMergeStrategy.mergeAll, Version.merged]
      | false => simp [mergedRun, afterRun, atomic, AtomicMergeStrategy.mergeAll]

/-- The strategy fields `InternalMergeProcess` reads, as `ScanDrop` and `Drop` leave them once they
accept `cell`: its type and timestamp as the current ones, its row, family and qualifier as the
last ones. -/
def PositionedAt (s : DefaultCompactStrategy) (cell : TeraKey) : Prop :=
  s.curType = cell.type ∧ s.curTs = cell.timestamp ∧ s.lastKey = cell.rowKey ∧
    s.lastCol = cell.family ∧ s.lastQual = cell.qualifier

instance (s : DefaultCompactStrategy) (cell : TeraKey) : Decidable (PositionedAt s cell) :=
  inferInstanceAs (Decidable (_ ∧ _ ∧ _ ∧ _ ∧ _))

/-- The versions of one cell, newest first: keys of one row, family and qualifier that decode,
strictly falling timestamps, and only atomic operations and values. -/
structure CellHistory where
  versions : List Version
  sameColumn : ∀ v ∈ versions, ∀ w ∈ versions, SameColumn v.cell w.cell
  encodable : ∀ v ∈ versions, v.cell.Encodable
  newestFirst : versions.Pairwise fun newer older => older.cell.timestamp < newer.cell.timestamp
  kinds : ∀ v ∈ versions, v.cell.type = TeraKeyType.value ∨ isAtomicOP v.cell.type = true

theorem MergeableRun.sublist {s : DefaultCompactStrategy} {isInternalKey : Bool} {lastTs : Int}
    {versions part : List Version} (run : MergeableRun s isInternalKey lastTs versions)
    (sub : part.Sublist versions) : MergeableRun s isInternalKey lastTs part :=
  ⟨fun v member => run.1 v (sub.subset member), run.2.sublist sub⟩

/-- The older versions of a history form a run behind the newest one for a strategy positioned at
the newest. -/
theorem CellHistory.mergeableRun (history : CellHistory) {newest : Version} {older : List Version}
    (shape : history.versions = newest :: older) {s : DefaultCompactStrategy}
    (positioned : PositionedAt s newest.cell) (isInternalKey : Bool)
    (visible : isInternalKey = true → ∀ v ∈ history.versions, v.sequence ≤ s.snapshot) :
    MergeableRun s isInternalKey newest.cell.timestamp older := by
  obtain ⟨-, -, key, col, qual⟩ := positioned
  have ordered := history.newestFirst
  rw [shape, List.pairwise_cons] at ordered
  refine ⟨fun v member => ?_, ordered.2⟩
  have inHistory : v ∈ history.versions := shape ▸ List.mem_cons_of_mem newest member
  obtain ⟨sameRow, sameFamily, sameQualifier⟩ :=
    history.sameColumn newest (shape ▸ List.mem_cons_self) v inHistory
  exact ⟨key.trans sameRow, col.trans sameFamily, qual.trans sameQualifier,
    history.encodable v inHistory, history.kinds v inHistory,
    fun internal => visible internal v inHistory, ordered.1 v member⟩

/-- `InternalMergeProcess` at an atomic operation the strategy is positioned at: the finished merge
of the operation with the run behind it. -/
theorem internalMergeProcess_versions {s : DefaultCompactStrategy} {kind : TeraKeyType}
    (current : s.curType = kind) (atomic : isAtomicOP kind = true)
    (mergePutFlag isInternalKey : Bool) (head : IterEntry) {older : List Version}
    (run : MergeableRun s isInternalKey s.curTs older) {after : List IterEntry}
    (leaves : LeavesColumn s after) :
    internalMergeProcess s mergePutFlag isInternalKey (head :: (older.map Version.entry ++ after)) =
      some (((AtomicMergeStrategy.init (head.key, head.sequence) head.value kind).mergeAll
          ((mergedRun mergePutFlag older).map Version.merged)).finish,
        1 + (mergedRun mergePutFlag older).length,
        (afterRun mergePutFlag older).map Version.entry ++ after) := by
  unfold internalMergeProcess
  rw [current, if_neg (by simp [atomic])]
  dsimp only
  rw [internalMergeLoop_versions s mergePutFlag isInternalKey leaves older _ _ _ run]

theorem mergedRun_split (older : List Version) (prefixLength : Nat) :
    mergedRun true older = mergedRun false (older.take prefixLength) ++
      mergedRun true (older.drop (mergedRun false (older.take prefixLength)).length) := by
  induction older generalizing prefixLength with
  | nil => simp [mergedRun]
  | cons v rest ih =>
    cases prefixLength with
    | zero => simp [mergedRun]
    | succ prefixLength =>
      by_cases atomic : isAtomicOP v.cell.type = true
      · simp [mergedRun, atomic, ih prefixLength]
      · simp [mergedRun, atomic]

theorem afterRun_split (older : List Version) (prefixLength : Nat) :
    afterRun true older =
      afterRun true (older.drop (mergedRun false (older.take prefixLength)).length) := by
  induction older generalizing prefixLength with
  | nil => simp [afterRun]
  | cons v rest ih =>
    cases prefixLength with
    | zero => simp [mergedRun]
    | succ prefixLength =>
      by_cases atomic : isAtomicOP v.cell.type = true
      · simp [mergedRun, afterRun, atomic, ih prefixLength]
      · simp [mergedRun, atomic]

theorem afterRun_false (versions : List Version) :
    afterRun false versions = versions.drop (mergedRun false versions).length := by
  induction versions with
  | nil => rfl
  | cons v rest ih =>
    by_cases atomic : isAtomicOP v.cell.type = true
    · simp [mergedRun, afterRun, atomic, ih]
    · simp [mergedRun, afterRun, atomic]


/-- Two counter adds over a put: a cell history a compaction can meet. -/
def counterNewest : Version :=
  ⟨⟨[114], [99, 102], [113], 30, TeraKeyType.add⟩, 3, encodeBigEndian 8 5⟩

/-- The older versions of the counter: an add and the put under it. -/
def counterOlder : List Version :=
  [⟨⟨[114], [99, 102], [113], 20, TeraKeyType.add⟩, 2, encodeBigEndian 8 3⟩,
    ⟨⟨[114], [99, 102], [113], 10, TeraKeyType.value⟩, 1, encodeBigEndian 8 100⟩]

/-- The counter's versions as a cell history. -/
def counterHistory : CellHistory where
  versions := counterNewest :: counterOlder
  sameColumn := by decide
  encodable := by decide
  newestFirst := by decide
  kinds := by decide

/-- A strategy positioned at the counter's newest add, as `ScanDrop` and `Drop` leave it. -/
def counterStrategy : DefaultCompactStrategy :=
  { curType := TeraKeyType.add, curTs := 30, lastKey := [114], lastCol := [99, 102],
    lastQual := [113] }

end Tera.Compact
