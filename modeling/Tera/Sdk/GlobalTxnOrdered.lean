import Tera.Sdk.GlobalTxnSafety

/-! # Global transactions while no lock is cleaned

Without `CleanLock`, a lock goes away only with a commit, which leaves a write record in its place.
So each cell keeps its history in order: every data version has its lock or its write record, a
lock sits at or after the newest data version, and each data version was committed before the next
one was prewritten. `ConflictWithOtherWrite` keeps this at a prewrite: with no lock on the cell and
no write record at or after the prewrite start, every older version is committed, and before the
new start. A commit deletes only its own lock: any later lock is that of a transaction prewritten
after the commit timestamp.

Then every cell a committed transaction wrote holds its lock or its write record, and two committed
transactions that wrote a common cell have disjoint intervals from prewrite start to commit.
`CleanLock` breaks both, by deleting a lock after its primary may have committed.
-/

namespace Tera.Sdk

open Tera.Lib Tera.Io GlobalTxnCluster

variable {T R C V : Type}

/-- The steps of `CleanLock`: the two mutations that delete the locks of another transaction. -/
def GlobalTxnAction.cleansLock : GlobalTxnAction T R C V → Bool
  | .cleanLockPrimary _ => true
  | .cleanLockCell _ => true
  | _ => false

/-- A cell's history in order. Every data version has its lock or a write record pointing at it. A
lock is at or after every data version. A data version older than another was committed before the
other's prewrite start. The locks were deleted only up to a write record. -/
structure CellOrdered (cols : CellColumns C V) : Prop where
  dataGuarded : ∀ d ∈ cols.data.versions,
    (∃ l ∈ cols.lock.versions, l.1 = d.1) ∨ ∃ e ∈ cols.write.versions, e.2.startTs = d.1
  lockNewest : ∀ l ∈ cols.lock.versions, ∀ d ∈ cols.data.versions, d.1 ≤ l.1
  committedBefore : ∀ d₁ ∈ cols.data.versions, ∀ d₂ ∈ cols.data.versions, d₁.1 < d₂.1 →
    ∃ e ∈ cols.write.versions, e.2.startTs = d₁.1 ∧ e.1 < d₂.1
  lockDeletes : cols.lock.deletedTo = -1 ∨ ∃ e ∈ cols.write.versions, cols.lock.deletedTo ≤ e.1

namespace CellOrdered

variable {cols : CellColumns C V}

theorem empty : CellOrdered (CellColumns.empty : CellColumns C V) where
  dataGuarded := by simp [CellColumns.empty]
  lockNewest := by simp [CellColumns.empty]
  committedBefore := by simp [CellColumns.empty]
  lockDeletes := .inl rfl

/-- A prewrite at `startTs` keeps a cell in order when the cell's write records are all before
`startTs` and its locks all at `startTs`: `ConflictWithOtherWrite` found none, or the row wrote the
cell already. -/
theorem prewrite (ordered : CellOrdered cols) (primary : C) (w : Write C V) {startTs : Int}
    (pos : 0 < startTs) (after : ∀ e ∈ cols.write.versions, e.2.startTs < e.1)
    (writesBefore : ∀ e ∈ cols.write.versions, e.1 < startTs)
    (locksAt : ∀ l ∈ cols.lock.versions, l.1 = startTs) :
    CellOrdered (cols.prewrite ⟨primary, startTs⟩ startTs w) := by
  have lockShown : cols.lock.deletedTo < startTs := by
    rcases ordered.lockDeletes with unset | ⟨e, mem, le⟩
    · omega
    · have := writesBefore e mem
      omega
  have newLock : (startTs, (⟨w.type, ⟨primary, startTs⟩⟩ : LockValue C)) ∈
      (cols.lock.put startTs ⟨w.type, ⟨primary, startTs⟩⟩).versions :=
    Column.mem_put_self _ lockShown
  -- every data version is at or before the prewrite start: its lock is at it, or it is committed
  have dataBelow : ∀ d ∈ cols.data.versions, d.1 ≤ startTs := by
    intro d mem
    rcases ordered.dataGuarded d mem with ⟨l, held, lockTs⟩ | ⟨e, written, pointer⟩
    · have := locksAt l held
      omega
    · have := after e written
      have := writesBefore e written
      omega
  have lockAt : ∀ l ∈ (cols.lock.put startTs ⟨w.type, ⟨primary, startTs⟩⟩).versions, l.1 = startTs := by
    intro l mem
    rcases Column.mem_of_mem_put mem with rfl | old
    · rfl
    · exact locksAt l old
  have dataAt : ∀ d ∈ (cols.data.put startTs w.value).versions, d.1 = startTs ∨ d ∈ cols.data.versions := by
    intro d mem
    rcases Column.mem_of_mem_put mem with rfl | old
    · exact .inl rfl
    · exact .inr old
  refine ⟨?_, ?_, ?_, ?_⟩
  · intro d mem
    rcases dataAt d mem with new | old
    · exact .inl ⟨_, newLock, new.symm⟩
    · rcases ordered.dataGuarded d old with ⟨l, held, lockTs⟩ | written
      · exact .inl ⟨_, newLock, by rw [← lockTs, locksAt l held]⟩
      · exact .inr written
  · intro l held d mem
    rw [lockAt l held]
    rcases dataAt d mem with new | old
    · exact Int.le_of_eq new
    · exact dataBelow d old
  · intro d₁ mem₁ d₂ mem₂ lt
    rcases dataAt d₁ mem₁ with new₁ | old₁ <;> rcases dataAt d₂ mem₂ with new₂ | old₂
    · omega
    · have := dataBelow d₂ old₂
      omega
    · rcases ordered.dataGuarded d₁ old₁ with ⟨l, held, lockTs⟩ | ⟨e, written, pointer⟩
      · have := locksAt l held
        omega
      · have := writesBefore e written
        exact ⟨e, written, pointer, by omega⟩
    · exact ordered.committedBefore d₁ old₁ d₂ old₂ lt
  · simpa using ordered.lockDeletes

/-- A commit keeps a cell in order when the cell holds the transaction's data and the write records
at the commit timestamp are exactly those pointing at its prewrite start. -/
theorem commit (ordered : CellOrdered cols) (type : MutationType) {startTs commitTs : Int}
    (pos : 0 < startTs) (before : startTs < commitTs) (shown : cols.write.deletedTo < commitTs)
    (hasData : cols.HasData startTs)
    (pointsAt : ∀ e ∈ cols.write.versions, e.2.startTs = startTs ↔ e.1 = commitTs) :
    CellOrdered (cols.commit type startTs commitTs) := by
  have newWrite : (commitTs, (⟨type, startTs⟩ : WriteValue)) ∈
      (cols.write.put commitTs ⟨type, startTs⟩).versions :=
    Column.mem_put_self _ shown
  -- a write record stays, or gives way to the commit's own, which points at the same start
  have writeKept : ∀ e ∈ cols.write.versions, ∃ e' ∈ (cols.write.put commitTs ⟨type, startTs⟩).versions,
      e'.1 = e.1 ∧ e'.2.startTs = e.2.startTs := by
    intro e mem
    by_cases same : e.1 = commitTs
    · exact ⟨_, newWrite, same.symm, ((pointsAt e mem).mpr same).symm⟩
    · exact ⟨e, Column.mem_put_of_mem mem same, rfl, rfl⟩
  obtain ⟨dStart, dataStart, startStamp⟩ := hasData
  refine ⟨?_, ?_, ?_, ?_⟩
  · intro d mem
    rcases ordered.dataGuarded d mem with ⟨l, held, lockTs⟩ | ⟨e, written, pointer⟩
    · by_cases kept : commitTs < l.1
      · exact .inl ⟨l, Column.mem_deleteUpTo.mpr ⟨held, kept⟩, lockTs⟩
      · -- a lock the commit deletes is its own: a later one would be after the commit
        have atStart : l.1 = startTs := by
          have le := ordered.lockNewest l held dStart dataStart
          by_contra ne
          obtain ⟨e, written, pointer, earlier⟩ :=
            ordered.committedBefore dStart dataStart d mem (by omega)
          have := (pointsAt e written).mp (pointer.trans startStamp)
          omega
        exact .inr ⟨_, newWrite, by rw [← lockTs, atStart]⟩
    · obtain ⟨e', kept, -, pointer'⟩ := writeKept e written
      exact .inr ⟨e', kept, pointer'.trans pointer⟩
  · intro l held d mem
    exact ordered.lockNewest l (Column.mem_deleteUpTo.mp held).1 d mem
  · intro d₁ mem₁ d₂ mem₂ lt
    obtain ⟨e, written, pointer, earlier⟩ := ordered.committedBefore d₁ mem₁ d₂ mem₂ lt
    obtain ⟨e', kept, stamp, pointer'⟩ := writeKept e written
    exact ⟨e', kept, pointer'.trans pointer, stamp ▸ earlier⟩
  · right
    simp only [CellColumns.commit_lock, Column.deleteUpTo_deletedTo, CellColumns.commit_write]
    rcases ordered.lockDeletes with unset | ⟨e, written, le⟩
    · exact ⟨_, newWrite, by omega⟩
    · obtain ⟨e', kept, stamp, -⟩ := writeKept e written
      by_cases more : cols.lock.deletedTo ≤ commitTs
      · exact ⟨_, newWrite, by omega⟩
      · exact ⟨e', kept, by omega⟩

end CellOrdered

/-! ## Row mutations -/

section Rows

variable [DecidableEq C] {store : C → CellColumns C V}

/-- A row's prewrite that passed `ConflictWithOtherWrite` keeps every cell in order. -/
theorem applyRow_prewrite (ordered : ∀ cell, CellOrdered (store cell))
    (after : ∀ cell, ∀ e ∈ (store cell).write.versions, e.2.startTs < e.1) {ws : List (Write C V)}
    {primary : C} {startTs : Int} (pos : 0 < startTs)
    (passed : conflictWithOtherWrite startTs store ws = false) (cell : C) :
    CellOrdered (applyRow store ws (CellColumns.prewrite ⟨primary, startTs⟩ startTs) cell) := by
  have clear := conflictWithOtherWrite_eq_false.mp passed
  -- a cell of the row keeps its write records before the start, and has locks only at it
  refine (applyRow_keeps (fun cols => CellOrdered cols ∧ ((∃ w ∈ ws, w.cell = cell) →
      (∀ e ∈ cols.write.versions, e.2.startTs < e.1) ∧ (∀ e ∈ cols.write.versions, e.1 < startTs) ∧
        ∀ l ∈ cols.lock.versions, l.1 = startTs)) ?_ ⟨ordered cell, ?_⟩).1
  · intro w mem here cols kept
    obtain ⟨after', writesBefore, locksAt⟩ := kept.2 ⟨w, mem, here⟩
    refine ⟨kept.1.prewrite primary w pos after' writesBefore locksAt,
      fun _ => ⟨after', writesBefore, fun l held => ?_⟩⟩
    rcases Column.mem_of_mem_put held with rfl | old
    · rfl
    · exact locksAt l old
  · rintro ⟨w, mem, rfl⟩
    obtain ⟨writesBefore, noLocks⟩ := clear w mem
    exact ⟨after w.cell, writesBefore, by simp [noLocks]⟩

/-- A commit of a row keeps every cell in order when each cell it writes holds the transaction's
data and the write records at the commit timestamp are exactly those pointing at its start. -/
theorem applyRow_commit (ordered : ∀ cell, CellOrdered (store cell)) {ws : List (Write C V)}
    {startTs commitTs : Int} (pos : 0 < startTs) (before : startTs < commitTs)
    (shown : ∀ cell, (store cell).write.deletedTo < commitTs)
    (hasData : ∀ w ∈ ws, (store w.cell).HasData startTs)
    (pointsAt : ∀ cell, ∀ e ∈ (store cell).write.versions, e.2.startTs = startTs ↔ e.1 = commitTs)
    (cell : C) :
    CellOrdered (applyRow store ws (fun w => CellColumns.commit w.type startTs commitTs) cell) := by
  refine (applyRow_keeps (fun cols => CellOrdered cols ∧ cols.write.deletedTo < commitTs ∧
      (∀ e ∈ cols.write.versions, e.2.startTs = startTs ↔ e.1 = commitTs) ∧
        ((∃ w ∈ ws, w.cell = cell) → cols.HasData startTs)) ?_
      ⟨ordered cell, shown cell, pointsAt cell, ?_⟩).1
  · intro w mem here cols ⟨ordered', shown', pointsAt', hasData'⟩
    have data := hasData' ⟨w, mem, here⟩
    refine ⟨ordered'.commit w.type pos before shown' data pointsAt', by simpa using shown', ?_,
      fun _ => data⟩
    intro e written
    rcases Column.mem_of_mem_put written with rfl | old
    · simp
    · exact pointsAt' e old
  · rintro ⟨w, mem, rfl⟩
    exact hasData w mem

/-- A commit of one cell keeps every cell in order under the same conditions. -/
theorem updateCell_commit (ordered : ∀ cell, CellOrdered (store cell)) {target : C}
    {type : MutationType} {startTs commitTs : Int} (pos : 0 < startTs) (before : startTs < commitTs)
    (shown : (store target).write.deletedTo < commitTs) (hasData : (store target).HasData startTs)
    (pointsAt : ∀ e ∈ (store target).write.versions, e.2.startTs = startTs ↔ e.1 = commitTs)
    (cell : C) :
    CellOrdered (updateCell store target (CellColumns.commit type startTs commitTs) cell) := by
  rw [updateCell_apply]
  split_ifs with here
  · exact (ordered target).commit type pos before shown hasData pointsAt
  · exact ordered cell

end Rows

namespace GlobalTxnCluster

/-- While no lock is cleaned: the facts every run keeps, and every cell in order. -/
structure Ordered (cluster : GlobalTxnCluster T R C V) : Prop where
  consistent : cluster.Consistent
  cells : ∀ cell, CellOrdered (cluster.store cell)

section Steps

variable [DecidableEq T] [DecidableEq R] [DecidableEq C] {cluster next : GlobalTxnCluster T R C V}

omit [DecidableEq T] [DecidableEq R] [DecidableEq C] in
theorem ordered_init : (init : GlobalTxnCluster T R C V).Ordered :=
  ⟨consistent_init, fun _ => CellOrdered.empty⟩

omit [DecidableEq T] [DecidableEq R] [DecidableEq C] in
/-- A step that changes no cell keeps the cells in order. -/
theorem Ordered.of_store (ordered : cluster.Ordered) (consistent : next.Consistent)
    (same : next.store = cluster.store) : next.Ordered :=
  ⟨consistent, fun cell => same ▸ ordered.cells cell⟩

omit [DecidableEq R] in
theorem Ordered.asyncPrewrite (ordered : cluster.Ordered) (consistent : next.Consistent) {txn : T}
    (h : cluster.asyncPrewrite txn = some next) : next.Ordered := by
  obtain ⟨t, row, ws, primary, found, -, -, -, rfl | ⟨passed, rfl⟩⟩ := asyncPrewrite_eq_some h
  · exact ordered.of_store consistent rfl
  · exact ⟨consistent, applyRow_prewrite ordered.cells
      (fun cell e mem => (ordered.consistent.write_after cell e mem).2)
      (ordered.consistent.clocked.startBefore txn t found).1 passed⟩

omit [DecidableEq R] in
theorem Ordered.commitPrimary (ordered : cluster.Ordered) (consistent : next.Consistent) {txn : T}
    (h : cluster.commitPrimary txn = some next) : next.Ordered := by
  obtain ⟨t, commitTs, primary, found, phase, -, rfl | ⟨locked, rfl⟩⟩ := commitPrimary_eq_some h
  · exact ordered.of_store consistent rfl
  · have holds : t.phase.commitTs? = some commitTs := by simp [phase, CommitPhase.commitTs?]
    have after := ordered.consistent.clocked.commitAfter txn t commitTs found holds
    have pos := (ordered.consistent.clocked.startBefore txn t found).1
    -- the lock the commit found at the prewrite start has the transaction's data beside it
    obtain ⟨l, held, lockTs⟩ := CellColumns.lockedAt_iff.mp locked
    have hasData := ((ordered.consistent.cells primary.cell).lockBacked l held).2
    rw [lockTs] at hasData
    exact ⟨consistent, updateCell_commit ordered.cells pos after.1
      (by rw [(ordered.consistent.cells _).writeShown]; omega) hasData
      (ordered.consistent.pointsAt found holds _)⟩

omit [DecidableEq R] in
theorem Ordered.asyncCommitSecondaries (ordered : cluster.Ordered) (consistent : next.Consistent)
    {txn : T} {row : Nat} (h : cluster.asyncCommitSecondaries txn row = some next) : next.Ordered := by
  obtain ⟨t, commitTs, secondaries, ws, found, phase, getRow, rfl⟩ := asyncCommitSecondaries_eq_some h
  have holds : t.phase.commitTs? = some commitTs := by simp [phase, CommitPhase.commitTs?]
  have after := ordered.consistent.clocked.commitAfter txn t commitTs found holds
  have pos := (ordered.consistent.clocked.startBefore txn t found).1
  -- every cell of a secondary row was prewritten, since the transaction is committed
  have hasData : ∀ w ∈ ws, (cluster.store w.cell).HasData t.prewriteStartTs := by
    intro w mem
    obtain ⟨row', inWrites, inRow⟩ := ordered.consistent.secondariesWritten txn t commitTs secondaries
      found phase ws (List.mem_of_getElem? getRow) w mem
    exact ordered.consistent.prewritten txn t found row'
      (by simpa [phase, CommitPhase.rowsPrewritten] using inWrites) w inRow
  exact ⟨consistent, applyRow_commit ordered.cells pos after.1
    (fun cell => by rw [(ordered.consistent.cells cell).writeShown]; omega) hasData
    (ordered.consistent.pointsAt found holds)⟩

omit [DecidableEq T] in
theorem Ordered.rollForwardMutation (ordered : cluster.Ordered) (consistent : next.Consistent)
    {reader : R} (h : cluster.rollForwardMutation reader = some next) : next.Ordered := by
  obtain ⟨rd, commitTs, lockType, dataTs, found, phase, rfl⟩ := rollForwardMutation_eq_some h
  obtain ⟨⟨txn, t, secondaries, owner, committed, start⟩, hasData⟩ :=
    ordered.consistent.readerRollForward reader rd commitTs lockType dataTs found phase
  subst start
  have holds : t.phase.commitTs? = some commitTs := by simp [committed, CommitPhase.commitTs?]
  have after := ordered.consistent.clocked.commitAfter txn t commitTs owner holds
  have pos := (ordered.consistent.clocked.startBefore txn t owner).1
  exact ⟨consistent, updateCell_commit ordered.cells pos after.1
    (by rw [(ordered.consistent.cells _).writeShown]; omega) hasData
    (ordered.consistent.pointsAt owner holds _)⟩

/-- Every step but a `CleanLock` keeps the cells in order. -/
theorem Ordered.step (limit : Nat) (ordered : cluster.Ordered) {action : GlobalTxnAction T R C V}
    (noClean : action.cleansLock = false) (h : GlobalTxnCluster.step limit cluster action = some next) :
    next.Ordered := by
  have consistent := ordered.consistent.step limit h
  cases action with
  | newGlobalTxn txn writes readCommitted =>
    obtain ⟨-, rfl⟩ := newGlobalTxn_eq_some h
    exact ordered.of_store consistent rfl
  | internalCommit txn =>
    obtain ⟨t, -, -, rfl | rfl | rfl⟩ := internalCommit_eq_some h <;>
      exact ordered.of_store consistent rfl
  | asyncPrewrite txn => exact ordered.asyncPrewrite consistent h
  | internalCommitPhase2 txn =>
    obtain ⟨t, -, -, rfl | rfl⟩ := internalCommitPhase2_eq_some h <;>
      exact ordered.of_store consistent rfl
  | commitPrimary txn => exact ordered.commitPrimary consistent h
  | asyncCommitSecondaries txn row => exact ordered.asyncCommitSecondaries consistent h
  | get reader cell =>
    obtain rfl := get_eq_some h
    exact ordered.of_store consistent rfl
  | asyncGetCell reader =>
    obtain ⟨rd, -, -, ⟨_, _, -, rfl⟩ | rfl⟩ := asyncGetCell_eq_some h <;>
      exact ordered.of_store consistent rfl
  | primaryIsLocked reader suspectLive =>
    obtain ⟨rd, lockTs, lock, -, -, rfl | rfl | rfl⟩ := primaryIsLocked_eq_some h <;>
      exact ordered.of_store consistent rfl
  | rollForward reader suspectLive =>
    obtain ⟨rd, lockTs, lock, -, -, rfl | ⟨_, -, rfl⟩⟩ := rollForward_eq_some h <;>
      exact ordered.of_store consistent rfl
  | rollForwardMutation reader => exact ordered.rollForwardMutation consistent h
  | cleanLockPrimary reader => simp [GlobalTxnAction.cleansLock] at noClean
  | cleanLockCell reader => simp [GlobalTxnAction.cleansLock] at noClean

/-- Every run without a `CleanLock` keeps the cells in order. -/
theorem runSteps_ordered (limit : Nat) (actions : List (GlobalTxnAction T R C V))
    (noClean : ∀ action ∈ actions, action.cleansLock = false) (final : GlobalTxnCluster T R C V)
    (ran : runSteps (step limit) init actions = some final) : final.Ordered :=
  runSteps_invariant_of_allowed (step limit) (fun action => action.cleansLock = false) Ordered
    (fun _ _ _ allowed ordered stepped => ordered.step limit allowed stepped) actions init final
    noClean ordered_init ran

end Steps

/-! ## Commits while no lock is cleaned -/

section Commits

variable {cluster : GlobalTxnCluster T R C V}

/-- A committed transaction has its data at every cell it wrote. -/
theorem Consistent.committed_hasData (consistent : cluster.Consistent) {txn : T} {t : Committer C V}
    {commitTs : Int} {secondaries : List (List (Write C V))} (found : cluster.committers txn = some t)
    (phase : t.phase = .committed commitTs secondaries) {row : List (Write C V)} (mem : row ∈ t.writes)
    {w : Write C V} (inRow : w ∈ row) : (cluster.store w.cell).HasData t.prewriteStartTs :=
  consistent.prewritten txn t found row (by simpa [phase, CommitPhase.rowsPrewritten] using mem) w inRow

/-- While no lock is cleaned, every cell a committed transaction wrote holds its lock or a write
record pointing at its prewrite start. -/
theorem Ordered.committed_cell_locked_or_written (ordered : cluster.Ordered) {txn : T}
    {t : Committer C V} {commitTs : Int} {secondaries : List (List (Write C V))}
    (found : cluster.committers txn = some t) (phase : t.phase = .committed commitTs secondaries)
    {row : List (Write C V)} (mem : row ∈ t.writes) {w : Write C V} (inRow : w ∈ row) :
    (cluster.store w.cell).lockedAt t.prewriteStartTs = true ∨
      (cluster.store w.cell).writtenAt t.prewriteStartTs = true := by
  obtain ⟨d, data, stamp⟩ := ordered.consistent.committed_hasData found phase mem inRow
  rcases (ordered.cells w.cell).dataGuarded d data with ⟨l, held, lockTs⟩ | ⟨e, written, pointer⟩
  · exact .inl (CellColumns.lockedAt_iff.mpr ⟨l, held, lockTs.trans stamp⟩)
  · exact .inr (CellColumns.writtenAt_iff.mpr ⟨e, written, pointer.trans stamp⟩)

/-- While no lock is cleaned, of two committed transactions that wrote a common cell, the one with
the earlier prewrite start committed before the other's prewrite start. -/
theorem Ordered.committed_before (ordered : cluster.Ordered) {txn₁ txn₂ : T} {t₁ t₂ : Committer C V}
    {commitTs₁ commitTs₂ : Int} {secondaries₁ secondaries₂ : List (List (Write C V))}
    (found₁ : cluster.committers txn₁ = some t₁) (phase₁ : t₁.phase = .committed commitTs₁ secondaries₁)
    (found₂ : cluster.committers txn₂ = some t₂) (phase₂ : t₂.phase = .committed commitTs₂ secondaries₂)
    {row₁ row₂ : List (Write C V)} (mem₁ : row₁ ∈ t₁.writes) (mem₂ : row₂ ∈ t₂.writes)
    {w₁ w₂ : Write C V} (in₁ : w₁ ∈ row₁) (in₂ : w₂ ∈ row₂) (same : w₁.cell = w₂.cell)
    (earlier : t₁.prewriteStartTs < t₂.prewriteStartTs) : commitTs₁ < t₂.prewriteStartTs := by
  obtain ⟨d₁, data₁, stamp₁⟩ := ordered.consistent.committed_hasData found₁ phase₁ mem₁ in₁
  obtain ⟨d₂, data₂, stamp₂⟩ := ordered.consistent.committed_hasData found₂ phase₂ mem₂ in₂
  rw [← same] at data₂
  obtain ⟨e, written, pointer, before⟩ :=
    (ordered.cells w₁.cell).committedBefore d₁ data₁ d₂ data₂ (by omega)
  have holds : t₁.phase.commitTs? = some commitTs₁ := by simp [phase₁, CommitPhase.commitTs?]
  have atCommit := (ordered.consistent.pointsAt found₁ holds w₁.cell e written).mp (pointer.trans stamp₁)
  omega

/-- While no lock is cleaned, two committed transactions that wrote a common cell have disjoint
intervals from prewrite start to commit. -/
theorem Ordered.commits_disjoint (ordered : cluster.Ordered) {txn₁ txn₂ : T} {t₁ t₂ : Committer C V}
    {commitTs₁ commitTs₂ : Int} {secondaries₁ secondaries₂ : List (List (Write C V))}
    (found₁ : cluster.committers txn₁ = some t₁) (phase₁ : t₁.phase = .committed commitTs₁ secondaries₁)
    (found₂ : cluster.committers txn₂ = some t₂) (phase₂ : t₂.phase = .committed commitTs₂ secondaries₂)
    (distinct : txn₁ ≠ txn₂) {row₁ row₂ : List (Write C V)} (mem₁ : row₁ ∈ t₁.writes)
    (mem₂ : row₂ ∈ t₂.writes) {w₁ w₂ : Write C V} (in₁ : w₁ ∈ row₁) (in₂ : w₂ ∈ row₂)
    (same : w₁.cell = w₂.cell) :
    commitTs₁ < t₂.prewriteStartTs ∨ commitTs₂ < t₁.prewriteStartTs := by
  have starts : t₁.prewriteStartTs ≠ t₂.prewriteStartTs := fun equal =>
    distinct (ordered.consistent.clocked.startUnique txn₁ txn₂ t₁ t₂ found₁ found₂ equal)
  rcases Int.lt_or_gt_of_ne starts with earlier | later
  · exact .inl (ordered.committed_before found₁ phase₁ found₂ phase₂ mem₁ mem₂ in₁ in₂ same earlier)
  · exact .inr (ordered.committed_before found₂ phase₂ found₁ phase₁ mem₂ mem₁ in₂ in₁ same.symm later)

/-- In every run in which no reader cleans a lock, whatever the interleaving of commits and reads
and wherever each stops, two committed transactions that wrote a common cell have disjoint
intervals from prewrite start to commit. -/
theorem runSteps_commits_disjoint [DecidableEq T] [DecidableEq R] [DecidableEq C] (limit : Nat)
    (actions : List (GlobalTxnAction T R C V))
    (noClean : ∀ action ∈ actions, action.cleansLock = false) (final : GlobalTxnCluster T R C V)
    (ran : runSteps (step limit) init actions = some final) {txn₁ txn₂ : T} {t₁ t₂ : Committer C V}
    {commitTs₁ commitTs₂ : Int} {secondaries₁ secondaries₂ : List (List (Write C V))}
    (found₁ : final.committers txn₁ = some t₁) (phase₁ : t₁.phase = .committed commitTs₁ secondaries₁)
    (found₂ : final.committers txn₂ = some t₂) (phase₂ : t₂.phase = .committed commitTs₂ secondaries₂)
    (distinct : txn₁ ≠ txn₂) {row₁ row₂ : List (Write C V)} (mem₁ : row₁ ∈ t₁.writes)
    (mem₂ : row₂ ∈ t₂.writes) {w₁ w₂ : Write C V} (in₁ : w₁ ∈ row₁) (in₂ : w₂ ∈ row₂)
    (same : w₁.cell = w₂.cell) :
    commitTs₁ < t₂.prewriteStartTs ∨ commitTs₂ < t₁.prewriteStartTs :=
  (runSteps_ordered limit actions noClean final ran).commits_disjoint found₁ phase₁ found₂ phase₂
    distinct mem₁ mem₂ in₁ in₂ same

/-- Transaction 0 commits both its cells; transaction 1 then starts, writes cell 1 as its primary
and commits. No reader runs. -/
def sequentialCommits : List (GlobalTxnAction Nat Nat Nat Nat) :=
  [.newGlobalTxn 0 primaryAndSecondary false, .internalCommit 0, .asyncPrewrite 0, .asyncPrewrite 0,
    .internalCommitPhase2 0, .commitPrimary 0, .asyncCommitSecondaries 0 0,
    .newGlobalTxn 1 [[⟨1, .kPut, 12⟩]] false, .internalCommit 1, .asyncPrewrite 1,
    .internalCommitPhase2 1, .commitPrimary 1]

/-- The two transactions of that run as it leaves them: transaction 0 over `[1, 2]`, transaction 1
over `[3, 4]`. -/
theorem runSteps_sequentialCommits_committers :
    (runSteps (step gtxnGetWaitedTimesLimit) (init : GlobalTxnCluster Nat Nat Nat Nat)
        sequentialCommits).map (fun cluster => (cluster.committers 0, cluster.committers 1)) =
      some (some ⟨primaryAndSecondary, 1, false, 1, .committed 2 []⟩,
        some ⟨[[⟨1, .kPut, 12⟩]], 3, false, 3, .committed 4 []⟩) := by
  decide +kernel

/-- Both transactions of that run wrote cell 1; the first committed at 2, before the second's
prewrite start 3. -/
theorem runSteps_commits_disjoint_sequentialCommits :
    (∀ action ∈ sequentialCommits, action.cleansLock = false) ∧
      ∃ final, runSteps (step gtxnGetWaitedTimesLimit) init sequentialCommits = some final ∧
        ∃ t₀ t₁, final.committers 0 = some t₀ ∧ final.committers 1 = some t₁ ∧
          (2 < t₁.prewriteStartTs ∨ 4 < t₀.prewriteStartTs) := by
  have noClean : ∀ action ∈ sequentialCommits, action.cleansLock = false := by decide
  obtain ⟨final, ran, found⟩ := Option.map_eq_some_iff.mp runSteps_sequentialCommits_committers
  obtain ⟨found₀, found₁⟩ := Prod.mk.inj found
  exact ⟨noClean, final, ran, _, _, found₀, found₁, runSteps_commits_disjoint gtxnGetWaitedTimesLimit sequentialCommits
    noClean final ran found₀ rfl found₁ rfl (by decide) (List.mem_cons_of_mem _ List.mem_cons_self)
    List.mem_cons_self List.mem_cons_self List.mem_cons_self rfl⟩

/-- In every run in which no reader cleans a lock, every cell a committed transaction wrote holds
its lock or a write record pointing at its prewrite start. -/
theorem runSteps_committed_cell_locked_or_written [DecidableEq T] [DecidableEq R] [DecidableEq C]
    (limit : Nat) (actions : List (GlobalTxnAction T R C V))
    (noClean : ∀ action ∈ actions, action.cleansLock = false) (final : GlobalTxnCluster T R C V)
    (ran : runSteps (step limit) init actions = some final) {txn : T} {t : Committer C V}
    {commitTs : Int} {secondaries : List (List (Write C V))}
    (found : final.committers txn = some t) (phase : t.phase = .committed commitTs secondaries)
    {row : List (Write C V)} (mem : row ∈ t.writes) {w : Write C V} (inRow : w ∈ row) :
    (final.store w.cell).lockedAt t.prewriteStartTs = true ∨
      (final.store w.cell).writtenAt t.prewriteStartTs = true :=
  (runSteps_ordered limit actions noClean final ran).committed_cell_locked_or_written found phase mem inRow

/-- After the sequential commits, cell 1, a secondary of transaction 0, holds its lock at 1 or a
write record pointing at 1. -/
theorem runSteps_committed_cell_locked_or_written_sequentialCommits :
    ∃ final, runSteps (step gtxnGetWaitedTimesLimit) init sequentialCommits = some final ∧
      ((final.store 1).lockedAt 1 = true ∨ (final.store 1).writtenAt 1 = true) := by
  obtain ⟨final, ran, found⟩ := Option.map_eq_some_iff.mp runSteps_sequentialCommits_committers
  exact ⟨final, ran, runSteps_committed_cell_locked_or_written gtxnGetWaitedTimesLimit
    sequentialCommits (by decide) final ran (Prod.mk.inj found).1 rfl
    (List.mem_cons_of_mem _ List.mem_cons_self) List.mem_cons_self⟩

end Commits

end GlobalTxnCluster

end Tera.Sdk
