import Tera.Io.TabletWriter
import Tera.Lib.Interleaving
import Tera.Lib.VersionedColumn

/-! # Global transactions

`GlobalTxn` runs a transaction over three columns of each cell it writes: a lock, a write record
and the data (`Cell::LockName`, `WriteName` and `DataName`). `Commit` prewrites the buffered writes
row by row, the primary's row first. Each row is one single-row transaction: it reads the row's
lock and write columns and, unless `ConflictWithOtherWrite` finds a lock or a write record at or
after the prewrite start, puts at the prewrite start a lock naming the primary (the first write)
and the data. The transaction then takes a commit timestamp and commits the primary in one
single-row transaction that first checks that the primary's lock is still there. It commits the
other rows with plain mutations. A commit puts a write record at the commit timestamp pointing at
the prewrite start, and deletes the locks up to the commit timestamp.

A `Get` of a cell reads its three columns. A lock older than the reader's start has to be resolved
first. The reader reads the primary's lock (`PrimaryIsLocked`). A primary that is still locked is
waited for, or cleaned (`CleanLock`: the primary's lock, then the cell's). It is cleaned after
`tera_gtxn_get_waited_times_limit` tries, or when the lock's client looks dead. A primary that is
not locked is rolled forward (`RollForward`: its write record is read and copied to the cell), or
cleaned when it has none. With no lock in the way, `FindValueFromResultRow` reads the newest write
record up to the reader's start, and the data it points at.

Each RPC is one step, and a single-row transaction is one atomic check-and-apply. Timestamps come
from a time oracle that hands out increasing timestamps. A committer or a reader that stops after
some step is a run in which it takes no further step.
-/

namespace Tera.Sdk

open Tera.Lib Tera.Io

/-- The `PrimaryInfo` a lock carries: the primary cell and the transaction's prewrite start. The
client session it also carries is read only by `SuspectLive`, whose answer a step takes as given. -/
structure PrimaryInfo (C : Type) where
  cell : C
  gtxnStartTs : Int
deriving DecidableEq, Repr

/-- `EncodeLockValue`: the locked write's type and its transaction's primary. -/
structure LockValue (C : Type) where
  type : MutationType
  primary : PrimaryInfo C
deriving DecidableEq, Repr

/-- `EncodeWriteValue`: the committed write's type and the prewrite start of its data. -/
structure WriteValue where
  type : MutationType
  startTs : Int
deriving DecidableEq, Repr

/-- The lock, write and data columns of a cell. -/
structure CellColumns (C V : Type) where
  lock : Column (LockValue C)
  write : Column WriteValue
  data : Column V

/-- A buffered `tera::Write`: its cell, and the mutation's type and value. -/
structure Write (C V : Type) where
  cell : C
  type : MutationType
  value : V
deriving DecidableEq, Repr

namespace CellColumns

variable {C V : Type}

/-- A cell no transaction has touched. -/
def empty : CellColumns C V := ⟨.empty, .empty, .empty⟩

/-- `BuildRowMutationForPrewrite` at one write: the lock naming the primary, and the data, both at
the prewrite start. -/
def prewrite (primary : PrimaryInfo C) (startTs : Int) (w : Write C V) (cols : CellColumns C V) :
    CellColumns C V :=
  { cols with lock := cols.lock.put startTs ⟨w.type, primary⟩, data := cols.data.put startTs w.value }

/-- A write record at the commit timestamp pointing at the prewrite start, and every lock up to the
commit timestamp deleted: `BuildRowMutationForCommit` at one write, `CommitPrimary`, and the
mutation of `RollForward`. -/
def commit (type : MutationType) (startTs commitTs : Int) (cols : CellColumns C V) :
    CellColumns C V :=
  { cols with write := cols.write.put commitTs ⟨type, startTs⟩,
              lock := cols.lock.deleteUpTo commitTs }

/-- A `DeleteColumns` of the lock column up to the lock's timestamp, as `CleanLock` issues it. -/
def cleanLock (lockTs : Int) (cols : CellColumns C V) : CellColumns C V :=
  { cols with lock := cols.lock.deleteUpTo lockTs }

/-- A read of the lock column over `[ts, ts]` finds a version. -/
def lockedAt (ts : Int) (cols : CellColumns C V) : Bool :=
  cols.lock.versions.any fun version => version.1 == ts

/-- Some write record points at the prewrite start. -/
def writtenAt (startTs : Int) (cols : CellColumns C V) : Bool :=
  cols.write.versions.any fun version => version.2.startTs == startTs

@[simp] theorem prewrite_lock (primary : PrimaryInfo C) (startTs : Int) (w : Write C V)
    (cols : CellColumns C V) :
    (cols.prewrite primary startTs w).lock = cols.lock.put startTs ⟨w.type, primary⟩ := rfl

@[simp] theorem prewrite_write (primary : PrimaryInfo C) (startTs : Int) (w : Write C V)
    (cols : CellColumns C V) : (cols.prewrite primary startTs w).write = cols.write := rfl

@[simp] theorem prewrite_data (primary : PrimaryInfo C) (startTs : Int) (w : Write C V)
    (cols : CellColumns C V) : (cols.prewrite primary startTs w).data = cols.data.put startTs w.value :=
  rfl

@[simp] theorem commit_lock (type : MutationType) (startTs commitTs : Int) (cols : CellColumns C V) :
    (cols.commit type startTs commitTs).lock = cols.lock.deleteUpTo commitTs := rfl

@[simp] theorem commit_write (type : MutationType) (startTs commitTs : Int) (cols : CellColumns C V) :
    (cols.commit type startTs commitTs).write = cols.write.put commitTs ⟨type, startTs⟩ := rfl

theorem lockedAt_iff {ts : Int} {cols : CellColumns C V} :
    cols.lockedAt ts = true ↔ ∃ version ∈ cols.lock.versions, version.1 = ts := by
  simp [lockedAt]

theorem writtenAt_iff {startTs : Int} {cols : CellColumns C V} :
    cols.writtenAt startTs = true ↔ ∃ version ∈ cols.write.versions, version.2.startTs = startTs := by
  simp [writtenAt]

end CellColumns

section Reads

variable {C V : Type}

/-- The newest lock before the reader's start: `IsLockedByOthers` tests for one, and
`BackoffAndMaybeCleanupLock` resolves it. -/
def lockBefore (startTs : Int) (lock : Column (LockValue C)) : Option (Int × LockValue C) :=
  lock.versions.find? fun version => version.1 < startTs

/-- The data loop of `FindValueFromResultRow`, newest first: the version at the write record's start
when the write is a put; the loop stops at an older version. -/
def findData (record : WriteValue) : List (Int × V) → Option (Int × V)
  | [] => none
  | (ts, value) :: rest =>
    if ts = record.startTs ∧ record.type = .kPut then some (record.startTs, value)
    else if ts < record.startTs then none
    else findData record rest

/-- `GlobalTxn::FindValueFromResultRow`: the data the newest write record up to the reader's start
points at. Only that record is tried. -/
def findValueFromResultRow (startTs : Int) (cols : CellColumns C V) : Option (Int × V) :=
  match cols.write.versions.find? fun version => version.1 ≤ startTs with
  | some (_, record) => findData record cols.data.versions
  | none => none

/-- The loop of `RollForward` over the primary's write records, newest first: the commit timestamp
of the record pointing at the primary's start. A record that first points at an older start means
that the primary was lost. -/
def findCommitTs (startTs : Int) : List (Int × WriteValue) → Option Int
  | [] => none
  | (ts, record) :: rest =>
    if 0 < record.startTs ∧ record.startTs < startTs then none
    else if record.startTs = startTs then some ts
    else findCommitTs startTs rest

theorem mem_of_lockBefore {startTs : Int} {lock : Column (LockValue C)} {found : Int × LockValue C}
    (h : lockBefore startTs lock = some found) : found ∈ lock.versions :=
  List.mem_of_find?_eq_some h

theorem findData_eq_some {record : WriteValue} {data : List (Int × V)} {found : Int × V}
    (h : findData record data = some found) : found.1 = record.startTs ∧ found ∈ data := by
  induction data with
  | nil => cases h
  | cons version rest ih =>
    obtain ⟨ts, value⟩ := version
    unfold findData at h
    split_ifs at h with hit older
    · cases h
      exact ⟨rfl, by simp [hit.1]⟩
    · obtain ⟨start, mem⟩ := ih h
      exact ⟨start, List.mem_cons_of_mem _ mem⟩

/-- A value `FindValueFromResultRow` returns is data of the cell, and a write record of the cell
points at its timestamp. -/
theorem findValueFromResultRow_eq_some {startTs : Int} {cols : CellColumns C V} {found : Int × V}
    (h : findValueFromResultRow startTs cols = some found) :
    (∃ record ∈ cols.write.versions, record.2.startTs = found.1) ∧ found ∈ cols.data.versions := by
  unfold findValueFromResultRow at h
  split at h
  · rename_i commitTs record newest
    obtain ⟨start, mem⟩ := findData_eq_some h
    exact ⟨⟨(commitTs, record), List.mem_of_find?_eq_some newest, start.symm⟩, mem⟩
  · cases h

theorem findCommitTs_eq_some {startTs commitTs : Int} {versions : List (Int × WriteValue)}
    (h : findCommitTs startTs versions = some commitTs) :
    ∃ record, (commitTs, record) ∈ versions ∧ record.startTs = startTs := by
  induction versions with
  | nil => cases h
  | cons version rest ih =>
    obtain ⟨ts, record⟩ := version
    unfold findCommitTs at h
    split_ifs at h with lost same
    · cases h
      exact ⟨record, List.mem_cons_self, same⟩
    · obtain ⟨found, mem, start⟩ := ih h
      exact ⟨found, List.mem_cons_of_mem _ mem, start⟩

/-- `GlobalTxnInternal::ConflictWithOtherWrite` on the row a prewrite read: some cell of the row has
a write record at or after the prewrite start, or a lock. -/
def conflictWithOtherWrite (prewriteStartTs : Int) (store : C → CellColumns C V)
    (ws : List (Write C V)) : Bool :=
  ws.any fun w =>
    (store w.cell).write.versions.any (fun version => prewriteStartTs ≤ version.1) ||
      !(store w.cell).lock.versions.isEmpty

/-- A prewrite passes `ConflictWithOtherWrite` when every cell of its row has only write records
before its start and no lock. -/
theorem conflictWithOtherWrite_eq_false {prewriteStartTs : Int} {store : C → CellColumns C V}
    {ws : List (Write C V)} :
    conflictWithOtherWrite prewriteStartTs store ws = false ↔
      ∀ w ∈ ws, (∀ e ∈ (store w.cell).write.versions, e.1 < prewriteStartTs) ∧
        (store w.cell).lock.versions = [] := by
  simp [conflictWithOtherWrite]

end Reads

/-- The mutation types `VerifyUserRowMutation` lets a global transaction buffer. -/
def gtxnMutationType (type : MutationType) : Bool :=
  type == .kPut || type == .kDeleteColumn || type == .kDeleteColumns

/-- Where a commit is: buffering, prewriting a row, prewritten, holding a commit timestamp,
committed with the secondary rows still to commit, or failed. -/
inductive CommitPhase (C V : Type) where
  | started
  | prewriting (row : Nat)
  | prewritten
  | committingPrimary (commitTs : Int)
  | committed (commitTs : Int) (secondaries : List (List (Write C V)))
  | failed
deriving DecidableEq, Repr

/-- A committing `GlobalTxn`: `writes_` by row, in the map's order, its start and prewrite start,
whether its isolation is `kReadCommitedSnapshot`, and where its commit is. -/
structure Committer (C V : Type) where
  writes : List (List (Write C V))
  startTs : Int
  readCommitted : Bool
  prewriteStartTs : Int
  phase : CommitPhase C V
deriving DecidableEq, Repr

/-- `primary_write_`: the first write of the first row. -/
def Committer.primaryWrite? {C V : Type} (t : Committer C V) : Option (Write C V) :=
  t.writes.head?.bind List.head?

/-- The rows `CheckPrimaryStatusAndCommmitSecondaries` commits: every write but the primary. -/
def secondaryRows {C V : Type} : List (List (Write C V)) → List (List (Write C V))
  | (_ :: rest) :: rows => if rest.isEmpty then rows else rest :: rows
  | writes => writes

theorem mem_secondaryRows {C V : Type} {writes : List (List (Write C V))} {row : List (Write C V)}
    (mem : row ∈ secondaryRows writes) {w : Write C V} (inRow : w ∈ row) : ∃ row' ∈ writes, w ∈ row' := by
  match writes, mem with
  | [] :: rows, mem => exact ⟨row, mem, inRow⟩
  | (primary :: rest) :: rows, mem =>
    simp only [secondaryRows] at mem
    split_ifs at mem
    · exact ⟨row, List.mem_cons_of_mem _ mem, inRow⟩
    · rcases List.mem_cons.mp mem with rfl | inRows
      · exact ⟨primary :: row, List.mem_cons_self, List.mem_cons_of_mem _ inRow⟩
      · exact ⟨row, List.mem_cons_of_mem _ inRows, inRow⟩

/-- Where a `Get` of one cell is: about to read the cell, holding a lock to resolve, about to read
the primary's write records or to copy one, cleaning the primary's lock or the cell's, or done
with the value it found. -/
inductive ReadPhase (C V : Type) where
  | reading
  | checkingPrimary (lockTs : Int) (lock : LockValue C)
  | rollingForward (lockTs : Int) (lock : LockValue C)
  | applyingRollForward (commitTs : Int) (lockType : MutationType) (dataTs : Int)
  | cleaningPrimary (lockTs : Int) (primary : C)
  | cleaningCell (lockTs : Int)
  | done (result : Option (Int × V))
deriving DecidableEq, Repr

/-- A `GlobalTxn::Get` of one cell: the cell, the reader's start, its tries so far
(`cell_map[cell]`) and where it is. -/
structure Reader (C V : Type) where
  cell : C
  startTs : Int
  tries : Nat
  phase : ReadPhase C V
deriving DecidableEq, Repr

/-- Another try after `BackoffAndMaybeCleanupLock` returns. -/
def Reader.retry {C V : Type} (rd : Reader C V) : Reader C V :=
  { rd with tries := rd.tries + 1, phase := .reading }

/-- What `BackoffAndMaybeCleanupLock` does with a lock it may clean. After `limit - 1` tries, or
when `SuspectLive` finds the lock's client gone, it calls `CleanLock`; otherwise it sleeps and tries
again. -/
def Reader.cleanOrWait {C V : Type} (limit : Nat) (rd : Reader C V) (suspectLive : Bool)
    (lockTs : Int) (primary : C) : Reader C V :=
  if limit ≤ rd.tries + 1 ∨ suspectLive = false then { rd with phase := .cleaningPrimary lockTs primary }
  else rd.retry

theorem Reader.cleanOrWait_phase {C V : Type} (limit : Nat) (rd : Reader C V) (suspectLive : Bool)
    (lockTs : Int) (primary : C) :
    (rd.cleanOrWait limit suspectLive lockTs primary).phase = .cleaningPrimary lockTs primary ∨
      (rd.cleanOrWait limit suspectLive lockTs primary).phase = .reading := by
  unfold Reader.cleanOrWait
  split_ifs
  · exact .inl rfl
  · exact .inr rfl

/-- The default of `tera_gtxn_get_waited_times_limit`. -/
def gtxnGetWaitedTimesLimit : Nat := 10

/-- The cells, the time oracle's last timestamp, and the committing transactions and reads. -/
structure GlobalTxnCluster (T R C V : Type) where
  store : C → CellColumns C V
  clock : Int
  committers : T → Option (Committer C V)
  readers : R → Option (Reader C V)

/-- The steps of commits and of reads, one RPC or one single-row transaction each. -/
inductive GlobalTxnAction (T R C V : Type) where
  | newGlobalTxn (txn : T) (writes : List (List (Write C V))) (readCommitted : Bool)
  | internalCommit (txn : T)
  | asyncPrewrite (txn : T)
  | internalCommitPhase2 (txn : T)
  | commitPrimary (txn : T)
  | asyncCommitSecondaries (txn : T) (row : Nat)
  | get (reader : R) (cell : C)
  | asyncGetCell (reader : R)
  | primaryIsLocked (reader : R) (suspectLive : Bool)
  | rollForward (reader : R) (suspectLive : Bool)
  | rollForwardMutation (reader : R)
  | cleanLockPrimary (reader : R)
  | cleanLockCell (reader : R)

namespace GlobalTxnCluster

variable {T R C V : Type}

/-- No cell written, no transaction and no read yet. -/
def init : GlobalTxnCluster T R C V := ⟨fun _ => .empty, 0, fun _ => none, fun _ => none⟩

section Cells

variable [DecidableEq C]

/-- One cell changed. -/
def updateCell (store : C → CellColumns C V) (cell : C) (f : CellColumns C V → CellColumns C V) :
    C → CellColumns C V :=
  Function.update store cell (f (store cell))

/-- A row mutation: one change for each write, in order. -/
def applyRow (store : C → CellColumns C V) (ws : List (Write C V))
    (f : Write C V → CellColumns C V → CellColumns C V) : C → CellColumns C V :=
  ws.foldl (fun store w => updateCell store w.cell (f w)) store

theorem updateCell_apply (store : C → CellColumns C V) (cell : C)
    (f : CellColumns C V → CellColumns C V) (other : C) :
    updateCell store cell f other = if other = cell then f (store cell) else store other := by
  simp [updateCell, Function.update_apply]

@[simp] theorem applyRow_cons (store : C → CellColumns C V) (w : Write C V) (ws : List (Write C V))
    (f : Write C V → CellColumns C V → CellColumns C V) :
    applyRow store (w :: ws) f = applyRow (updateCell store w.cell (f w)) ws f := rfl

/-- What each change of a row mutation keeps at a cell holds there after the mutation. -/
theorem applyRow_keeps {store : C → CellColumns C V} {ws : List (Write C V)}
    {f : Write C V → CellColumns C V → CellColumns C V} {cell : C} (P : CellColumns C V → Prop)
    (keeps : ∀ w ∈ ws, w.cell = cell → ∀ cols, P cols → P (f w cols)) (holds : P (store cell)) :
    P (applyRow store ws f cell) := by
  induction ws generalizing store with
  | nil => exact holds
  | cons w rest ih =>
    rw [applyRow_cons]
    refine ih (fun w' mem => keeps w' (List.mem_cons_of_mem _ mem)) ?_
    rw [updateCell_apply]
    split_ifs with here
    · exact keeps w List.mem_cons_self here.symm _ (here ▸ holds)
    · exact holds

/-- What a change of a row mutation makes at its cell, and every change there keeps, holds there
after the mutation. -/
theorem applyRow_makes {store : C → CellColumns C V} {ws : List (Write C V)}
    {f : Write C V → CellColumns C V → CellColumns C V} {w : Write C V} (P : CellColumns C V → Prop)
    (mem : w ∈ ws) (keeps : ∀ w' ∈ ws, w'.cell = w.cell → ∀ cols, P cols → P (f w' cols))
    (makes : ∀ cols, P (f w cols)) : P (applyRow store ws f w.cell) := by
  induction ws generalizing store with
  | nil => simp at mem
  | cons head rest ih =>
    rw [applyRow_cons]
    rcases List.mem_cons.mp mem with rfl | inRest
    · refine applyRow_keeps P (fun w' mem' => keeps w' (List.mem_cons_of_mem _ mem')) ?_
      simp only [updateCell_apply, if_true]
      exact makes _
    · exact ih inRest (fun w' mem' => keeps w' (List.mem_cons_of_mem _ mem'))

end Cells

section Committers

variable [DecidableEq T]

/-- A committer's new state. -/
def setCommitter (cluster : GlobalTxnCluster T R C V) (txn : T) (t : Committer C V) :
    GlobalTxnCluster T R C V :=
  { cluster with committers := Function.update cluster.committers txn (some t) }

@[simp] theorem setCommitter_store (cluster : GlobalTxnCluster T R C V) (txn : T) (t : Committer C V) :
    (cluster.setCommitter txn t).store = cluster.store := rfl

@[simp] theorem setCommitter_committers (cluster : GlobalTxnCluster T R C V) (txn : T)
    (t : Committer C V) :
    (cluster.setCommitter txn t).committers = Function.update cluster.committers txn (some t) := rfl

end Committers

section Readers

variable [DecidableEq R]

/-- A reader's new state. -/
def setReader (cluster : GlobalTxnCluster T R C V) (reader : R) (rd : Reader C V) :
    GlobalTxnCluster T R C V :=
  { cluster with readers := Function.update cluster.readers reader (some rd) }

end Readers

variable [DecidableEq T] [DecidableEq R] [DecidableEq C]

/-- `GlobalTxn::NewGlobalTxn`, with the start timestamp from the time oracle, and the
`ApplyMutation` calls that buffer its writes by row, the primary's row first. Only the types
`VerifyUserRowMutation` admits are buffered. A `Commit` with nothing buffered touches no cell, so it
is left out. -/
def newGlobalTxn (cluster : GlobalTxnCluster T R C V) (txn : T) (writes : List (List (Write C V)))
    (readCommitted : Bool) : Option (GlobalTxnCluster T R C V) :=
  if (cluster.committers txn).isNone ∧ writes.isEmpty = false ∧
      writes.all (fun row => !row.isEmpty && row.all fun w => gtxnMutationType w.type) then
    some { cluster.setCommitter txn
        ⟨writes, cluster.clock + 1, readCommitted, cluster.clock + 1, .started⟩ with
      clock := cluster.clock + 1 }
  else none

/-- `GlobalTxn::InternalCommit`: at `kReadCommitedSnapshot` a new prewrite start from the time
oracle, which must not be before the start; then the first row's prewrite. -/
def internalCommit (cluster : GlobalTxnCluster T R C V) (txn : T) :
    Option (GlobalTxnCluster T R C V) :=
  match cluster.committers txn with
  | some t =>
    match t.phase with
    | .started =>
      if t.readCommitted then
        let prewriteStartTs := cluster.clock + 1
        let cluster := { cluster with clock := prewriteStartTs }
        if prewriteStartTs < t.startTs then some (cluster.setCommitter txn { t with phase := .failed })
        else some (cluster.setCommitter txn { t with prewriteStartTs, phase := .prewriting 0 })
      else some (cluster.setCommitter txn { t with phase := .prewriting 0 })
    | _ => none
  | none => none

/-- `AsyncPrewrite`, `DoPrewriteReaderCallback` and `DoPrewriteCallback` for the next row, one
single-row transaction: the row's cells are read and, unless `ConflictWithOtherWrite` finds a
conflict, their locks and data are put. After the last row comes the commit timestamp. -/
def asyncPrewrite (cluster : GlobalTxnCluster T R C V) (txn : T) :
    Option (GlobalTxnCluster T R C V) :=
  match cluster.committers txn with
  | some t =>
    match t.phase, t.primaryWrite? with
    | .prewriting row, some primary =>
      match t.writes[row]? with
      | some ws =>
        if conflictWithOtherWrite t.prewriteStartTs cluster.store ws then
          some (cluster.setCommitter txn { t with phase := .failed })
        else
          let phase := if row + 1 < t.writes.length then .prewriting (row + 1) else .prewritten
          some { cluster.setCommitter txn { t with phase } with
            store := applyRow cluster.store ws
              (CellColumns.prewrite ⟨primary.cell, t.prewriteStartTs⟩ t.prewriteStartTs) }
      | none => none
    | _, _ => none
  | none => none

/-- `GlobalTxn::InternalCommitPhase2`: the commit timestamp from the time oracle, which must not be
before the prewrite start. -/
def internalCommitPhase2 (cluster : GlobalTxnCluster T R C V) (txn : T) :
    Option (GlobalTxnCluster T R C V) :=
  match cluster.committers txn with
  | some t =>
    match t.phase with
    | .prewritten =>
      let commitTs := cluster.clock + 1
      let cluster := { cluster with clock := commitTs }
      if commitTs < t.prewriteStartTs then some (cluster.setCommitter txn { t with phase := .failed })
      else some (cluster.setCommitter txn { t with phase := .committingPrimary commitTs })
    | _ => none
  | none => none

/-- `VerifyPrimaryLocked` and `CommitPrimary`, one single-row transaction on the primary's row: the
primary's lock at the prewrite start is read and, when it is there, the primary's write record is
put and its locks deleted. `CheckPrimaryStatusAndCommmitSecondaries` then sends the other rows. -/
def commitPrimary (cluster : GlobalTxnCluster T R C V) (txn : T) :
    Option (GlobalTxnCluster T R C V) :=
  match cluster.committers txn with
  | some t =>
    match t.phase, t.primaryWrite? with
    | .committingPrimary commitTs, some primary =>
      if (cluster.store primary.cell).lockedAt t.prewriteStartTs then
        some { cluster.setCommitter txn
            { t with phase := .committed commitTs (secondaryRows t.writes) } with
          store := updateCell cluster.store primary.cell
            (CellColumns.commit primary.type t.prewriteStartTs commitTs) }
      else some (cluster.setCommitter txn { t with phase := .failed })
    | _, _ => none
  | none => none

/-- `AsyncCommitSecondaries` of one of the rows still to commit, in any order: a plain mutation. -/
def asyncCommitSecondaries (cluster : GlobalTxnCluster T R C V) (txn : T) (row : Nat) :
    Option (GlobalTxnCluster T R C V) :=
  match cluster.committers txn with
  | some t =>
    match t.phase with
    | .committed commitTs secondaries =>
      match secondaries[row]? with
      | some ws =>
        some { cluster.setCommitter txn { t with phase := .committed commitTs (secondaries.eraseIdx row) } with
          store := applyRow cluster.store ws fun w => CellColumns.commit w.type t.prewriteStartTs commitTs }
      | none => none
    | _ => none
  | none => none

/-- `GlobalTxn::Get` of one cell, with the reader's start timestamp from the time oracle. -/
def get (cluster : GlobalTxnCluster T R C V) (reader : R) (cell : C) :
    Option (GlobalTxnCluster T R C V) :=
  if (cluster.readers reader).isNone then
    some { cluster.setReader reader ⟨cell, cluster.clock + 1, 0, .reading⟩ with
      clock := cluster.clock + 1 }
  else none

/-- `AsyncGetCell` and `DoGetCellReaderCallback`: a lock before the reader's start is to be
resolved; otherwise `FindValueFromResultRow` gives the result. -/
def asyncGetCell (cluster : GlobalTxnCluster T R C V) (reader : R) :
    Option (GlobalTxnCluster T R C V) :=
  match cluster.readers reader with
  | some rd =>
    match rd.phase with
    | .reading =>
      match lockBefore rd.startTs (cluster.store rd.cell).lock with
      | some (lockTs, lock) => some (cluster.setReader reader { rd with phase := .checkingPrimary lockTs lock })
      | none =>
        some (cluster.setReader reader
          { rd with phase := .done (findValueFromResultRow rd.startTs (cluster.store rd.cell)) })
    | _ => none
  | none => none

/-- `PrimaryIsLocked` in `BackoffAndMaybeCleanupLock`: the primary's lock at the lock's timestamp.
A locked primary is waited for or cleaned. An unlocked one is rolled forward, unless the cell is the
primary (`IsPrimary`). -/
def primaryIsLocked (limit : Nat) (cluster : GlobalTxnCluster T R C V) (reader : R)
    (suspectLive : Bool) : Option (GlobalTxnCluster T R C V) :=
  match cluster.readers reader with
  | some rd =>
    match rd.phase with
    | .checkingPrimary lockTs lock =>
      if (cluster.store lock.primary.cell).lockedAt lockTs then
        some (cluster.setReader reader (rd.cleanOrWait limit suspectLive lockTs lock.primary.cell))
      else if rd.cell = lock.primary.cell then some (cluster.setReader reader rd.retry)
      else some (cluster.setReader reader { rd with phase := .rollingForward lockTs lock })
    | _ => none
  | none => none

/-- `RollForward`'s read of the primary's write records. The record pointing at the primary's
start gives the commit timestamp. Without one the primary is lost, and the lock is cleaned or waited
for. -/
def rollForward (limit : Nat) (cluster : GlobalTxnCluster T R C V) (reader : R)
    (suspectLive : Bool) : Option (GlobalTxnCluster T R C V) :=
  match cluster.readers reader with
  | some rd =>
    match rd.phase with
    | .rollingForward lockTs lock =>
      let lost := cluster.setReader reader (rd.cleanOrWait limit suspectLive lockTs lock.primary.cell)
      match findCommitTs lock.primary.gtxnStartTs (cluster.store lock.primary.cell).write.versions with
      | some commitTs =>
        if 0 < commitTs then
          some (cluster.setReader reader
            { rd with phase := .applyingRollForward commitTs lock.type lock.primary.gtxnStartTs })
        else some lost
      | none => some lost
    | _ => none
  | none => none

/-- `RollForward`'s mutation of the cell: the primary's write record copied, and the cell's locks up
to its commit timestamp deleted. -/
def rollForwardMutation (cluster : GlobalTxnCluster T R C V) (reader : R) :
    Option (GlobalTxnCluster T R C V) :=
  match cluster.readers reader with
  | some rd =>
    match rd.phase with
    | .applyingRollForward commitTs lockType dataTs =>
      some { cluster.setReader reader rd.retry with
        store := updateCell cluster.store rd.cell (CellColumns.commit lockType dataTs commitTs) }
    | _ => none
  | none => none

/-- `CleanLock`'s first mutation: the primary's locks up to the lock's timestamp, unless the cell is
the primary. -/
def cleanLockPrimary (cluster : GlobalTxnCluster T R C V) (reader : R) :
    Option (GlobalTxnCluster T R C V) :=
  match cluster.readers reader with
  | some rd =>
    match rd.phase with
    | .cleaningPrimary lockTs primary =>
      let next := cluster.setReader reader { rd with phase := .cleaningCell lockTs }
      if rd.cell = primary then some next
      else some { next with store := updateCell cluster.store primary (CellColumns.cleanLock lockTs) }
    | _ => none
  | none => none

/-- `CleanLock`'s second mutation: the cell's locks up to the lock's timestamp. -/
def cleanLockCell (cluster : GlobalTxnCluster T R C V) (reader : R) :
    Option (GlobalTxnCluster T R C V) :=
  match cluster.readers reader with
  | some rd =>
    match rd.phase with
    | .cleaningCell lockTs =>
      some { cluster.setReader reader rd.retry with
        store := updateCell cluster.store rd.cell (CellColumns.cleanLock lockTs) }
    | _ => none
  | none => none

/-- One step, or `none` where no commit or read is at it. -/
def step (limit : Nat) (cluster : GlobalTxnCluster T R C V) :
    GlobalTxnAction T R C V → Option (GlobalTxnCluster T R C V)
  | .newGlobalTxn txn writes readCommitted => cluster.newGlobalTxn txn writes readCommitted
  | .internalCommit txn => cluster.internalCommit txn
  | .asyncPrewrite txn => cluster.asyncPrewrite txn
  | .internalCommitPhase2 txn => cluster.internalCommitPhase2 txn
  | .commitPrimary txn => cluster.commitPrimary txn
  | .asyncCommitSecondaries txn row => cluster.asyncCommitSecondaries txn row
  | .get reader cell => cluster.get reader cell
  | .asyncGetCell reader => cluster.asyncGetCell reader
  | .primaryIsLocked reader suspectLive => cluster.primaryIsLocked limit reader suspectLive
  | .rollForward reader suspectLive => cluster.rollForward limit reader suspectLive
  | .rollForwardMutation reader => cluster.rollForwardMutation reader
  | .cleanLockPrimary reader => cluster.cleanLockPrimary reader
  | .cleanLockCell reader => cluster.cleanLockCell reader

end GlobalTxnCluster

/-! ## A lock cleaned after its primary committed -/

open GlobalTxnCluster

/-- Transaction writes: cell 0, its primary, in one row and cell 1 in another. -/
def primaryAndSecondary : List (List (Write Nat Nat)) := [[⟨0, .kPut, 10⟩], [⟨1, .kPut, 11⟩]]

/-- Reader 0's tries at the default limit while the lock's client looks alive: nine waits, and the
tenth try cleans the lock. -/
def waitedOutTries : List (GlobalTxnAction Nat Nat Nat Nat) :=
  (List.replicate gtxnGetWaitedTimesLimit [.asyncGetCell 0, .primaryIsLocked 0 true]).flatten

/-- Transaction 0 prewrites both cells. Reader 0 meets the lock of cell 1 and waits its tries out,
finding the primary locked each time. Transaction 0 commits its primary, and then the reader's
`CleanLock` deletes the locks. -/
def cleanAfterPrimaryCommit : List (GlobalTxnAction Nat Nat Nat Nat) :=
  [.newGlobalTxn 0 primaryAndSecondary false, .get 0 1, .internalCommit 0, .asyncPrewrite 0,
    .asyncPrewrite 0] ++ waitedOutTries ++
  [.internalCommitPhase2 0, .commitPrimary 0, .cleanLockPrimary 0, .cleanLockCell 0]

/-- After that run, transaction 0 (prewrite start 1) has its primary's write record pointing at 1,
and its secondary cell 1 holds neither a lock at 1 nor a write record pointing at 1. -/
theorem runSteps_cleanLock_after_commitPrimary :
    (runSteps (step gtxnGetWaitedTimesLimit) (init : GlobalTxnCluster Nat Nat Nat Nat)
        cleanAfterPrimaryCommit).map (fun cluster =>
      ((cluster.committers 0).map Committer.prewriteStartTs, (cluster.store 0).writtenAt 1,
        (cluster.store 1).lockedAt 1, (cluster.store 1).writtenAt 1)) =
      some (some 1, true, false, false) := by
  decide +kernel

/-- Transaction 1 starts after transaction 0 and before transaction 0's commit timestamp, and writes
cell 1 as its primary. It prewrites the cell after reader 0's `CleanLock` and commits, then
transaction 0 commits its secondary cell 1. -/
def overlappingCommits : List (GlobalTxnAction Nat Nat Nat Nat) :=
  [.newGlobalTxn 0 primaryAndSecondary false, .get 0 1, .newGlobalTxn 1 [[⟨1, .kPut, 12⟩]] false,
    .internalCommit 0, .asyncPrewrite 0, .asyncPrewrite 0] ++ waitedOutTries ++
  [.internalCommitPhase2 0, .commitPrimary 0, .cleanLockPrimary 0, .cleanLockCell 0,
    .internalCommit 1, .asyncPrewrite 1, .internalCommitPhase2 1, .commitPrimary 1,
    .asyncCommitSecondaries 0 0]

/-- Both transactions commit their primaries and both write cell 1, over the intervals `[1, 4]` and
`[3, 5]`. Cell 1 ends with both write records, and a read after timestamp 5 returns transaction 1's
value over transaction 0's. -/
theorem runSteps_overlapping_commits :
    (runSteps (step gtxnGetWaitedTimesLimit) (init : GlobalTxnCluster Nat Nat Nat Nat)
        overlappingCommits).map (fun cluster =>
      ((cluster.committers 0).map fun t => (t.prewriteStartTs, t.phase),
        (cluster.committers 1).map fun t => (t.prewriteStartTs, t.phase))) =
      some (some (1, .committed 4 []), some (3, .committed 5 [])) ∧
    (runSteps (step gtxnGetWaitedTimesLimit) (init : GlobalTxnCluster Nat Nat Nat Nat)
        overlappingCommits).map (fun cluster =>
      ((cluster.store 1).write.versions, findValueFromResultRow 6 (cluster.store 1))) =
      some ([(5, ⟨.kPut, 3⟩), (4, ⟨.kPut, 1⟩)], some (3, 12)) := by
  decide +kernel

end Tera.Sdk
