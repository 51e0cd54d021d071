import Tera.Sdk.GlobalTxn

/-! # What every run of global transactions keeps

Every step keeps the time oracle's order: prewrite starts and commit timestamps are unique, and
a commit comes after its prewrite start. It keeps the data behind every lock. And it keeps every
write record pointing at the prewrite start of a transaction that committed at the record's
timestamp, whose primary holds that record. So a read never returns the data of a transaction
whose primary has no write record.

While no reader cleans a lock, each cell also keeps its history in order. Every version of its
data has its lock or its write record. A lock is at the newest version. Each older version was
committed before the next one was prewritten. So every cell a committed transaction wrote holds its
lock or its write record, and two committed transactions that wrote a common cell have disjoint
intervals from prewrite start to commit. `CleanLock` breaks both. It reads that the primary is
locked, and deletes the locks in later steps, after which the primary may have committed.
-/

namespace Tera.Sdk

open Tera.Lib Tera.Io GlobalTxnCluster

variable {T R C V : Type}

/-- The commit timestamp of a commit that holds one. -/
def CommitPhase.commitTs? : CommitPhase C V → Option Int
  | .committingPrimary commitTs => some commitTs
  | .committed commitTs _ => some commitTs
  | _ => none

/-- How many of a commit's `rows` it has prewritten, as far as its phase tells. -/
def CommitPhase.rowsPrewritten (rows : Nat) : CommitPhase C V → Nat
  | .prewriting row => row
  | .prewritten => rows
  | .committingPrimary _ => rows
  | .committed _ _ => rows
  | _ => 0

/-- The cell holds data at the timestamp. -/
def CellColumns.HasData (cols : CellColumns C V) (ts : Int) : Prop :=
  ∃ version ∈ cols.data.versions, version.1 = ts

/-- The cell holds a write record at the commit timestamp pointing at the prewrite start. -/
def CellColumns.HasWrite (cols : CellColumns C V) (commitTs startTs : Int) : Prop :=
  ∃ record, (commitTs, record) ∈ cols.write.versions ∧ record.startTs = startTs

/-- Some committed transaction has this commit timestamp and prewrite start. -/
def CommittedAt (committers : T → Option (Committer C V)) (commitTs startTs : Int) : Prop :=
  ∃ txn t secondaries, committers txn = some t ∧ t.phase = .committed commitTs secondaries ∧
    t.prewriteStartTs = startTs

theorem update_eq_some_iff [DecidableEq T] {α : Type} {f : T → Option α} {txn other : T} {a b : α} :
    Function.update f txn (some a) other = some b ↔ other = txn ∧ a = b ∨ other ≠ txn ∧ f other = some b := by
  by_cases same : other = txn
  · subst same
    simp
  · simp [same]

/-- `CommittedAt` survives a change of a transaction that keeps whatever it committed. -/
theorem CommittedAt.update [DecidableEq T] {committers : T → Option (Committer C V)} {txn : T}
    {t : Committer C V} {commitTs startTs : Int}
    (keeps : ∀ old c secondaries, committers txn = some old → old.phase = .committed c secondaries →
      (∃ secondaries', t.phase = .committed c secondaries') ∧ t.prewriteStartTs = old.prewriteStartTs)
    (committed : CommittedAt committers commitTs startTs) :
    CommittedAt (Function.update committers txn (some t)) commitTs startTs := by
  obtain ⟨other, o, secondaries, found, phase, start⟩ := committed
  by_cases same : other = txn
  · subst same
    obtain ⟨⟨secondaries', phase'⟩, start'⟩ := keeps o commitTs secondaries found phase
    exact ⟨other, t, secondaries', by simp, phase', start'.trans start⟩
  · exact ⟨other, o, secondaries, by simp [same, found], phase, start⟩

/-- What one cell keeps against the committers: every version shown, the data behind each lock, and
each write record pointing at the prewrite start of a transaction committed at its timestamp. -/
structure CellBacked (committers : T → Option (Committer C V)) (cols : CellColumns C V) : Prop where
  dataShown : cols.data.deletedTo = -1
  writeShown : cols.write.deletedTo = -1
  lockBacked : ∀ l ∈ cols.lock.versions, l.2.primary.gtxnStartTs = l.1 ∧ cols.HasData l.1
  writeBacked : ∀ e ∈ cols.write.versions, CommittedAt committers e.1 e.2.startTs

/-- A cell keeps all its data and write records. -/
def CellColumns.Grows (old new : CellColumns C V) : Prop :=
  (∀ ts, old.HasData ts → new.HasData ts) ∧
    ∀ commitTs startTs, old.HasWrite commitTs startTs → new.HasWrite commitTs startTs

namespace CellColumns

variable {cols : CellColumns C V}

theorem hasData_prewrite_self (primary : PrimaryInfo C) {startTs : Int} (w : Write C V)
    (shown : cols.data.deletedTo = -1) (pos : 0 < startTs) :
    (cols.prewrite primary startTs w).HasData startTs :=
  ⟨(startTs, w.value), Column.mem_put_self w.value (by rw [shown]; omega), rfl⟩

theorem Grows.refl (cols : CellColumns C V) : cols.Grows cols :=
  ⟨fun _ data => data, fun _ _ written => written⟩

theorem Grows.trans {first second third : CellColumns C V} (grows : first.Grows second)
    (grows' : second.Grows third) : first.Grows third :=
  ⟨fun ts data => grows'.1 ts (grows.1 ts data),
    fun commitTs startTs written => grows'.2 commitTs startTs (grows.2 commitTs startTs written)⟩

theorem grows_prewrite (primary : PrimaryInfo C) (startTs : Int) (w : Write C V) :
    cols.Grows (cols.prewrite primary startTs w) :=
  ⟨fun _ data => Column.exists_put_of_exists data, fun _ _ written => written⟩

theorem grows_cleanLock (lockTs : Int) : cols.Grows (cols.cleanLock lockTs) :=
  ⟨fun _ data => data, fun _ _ written => written⟩

/-- A commit keeps the write records when every record at its timestamp already points at its
prewrite start. -/
theorem grows_commit (type : MutationType) {startTs commitTs : Int}
    (shown : cols.write.deletedTo < commitTs)
    (pointsAt : ∀ record, (commitTs, record) ∈ cols.write.versions → record.startTs = startTs) :
    cols.Grows (cols.commit type startTs commitTs) := by
  refine ⟨fun _ data => data, ?_⟩
  rintro c s ⟨record, mem, start⟩
  by_cases same : c = commitTs
  · subst same
    exact ⟨⟨type, startTs⟩, Column.mem_put_self _ shown, (pointsAt record mem).symm.trans start⟩
  · exact ⟨record, Column.mem_put_of_mem mem same, start⟩

end CellColumns

namespace CellBacked

variable {committers : T → Option (Committer C V)} {cols : CellColumns C V}

theorem mono {committers' : T → Option (Committer C V)} (backed : CellBacked committers cols)
    (transfer : ∀ commitTs startTs, CommittedAt committers commitTs startTs →
      CommittedAt committers' commitTs startTs) : CellBacked committers' cols :=
  { backed with writeBacked := fun e mem => transfer _ _ (backed.writeBacked e mem) }

theorem prewrite (backed : CellBacked committers cols) (primary : C) {startTs : Int} (w : Write C V)
    (pos : 0 < startTs) : CellBacked committers (cols.prewrite ⟨primary, startTs⟩ startTs w) where
  dataShown := by simp [backed.dataShown]
  writeShown := backed.writeShown
  lockBacked l mem := by
    rcases Column.mem_of_mem_put mem with rfl | old
    · exact ⟨rfl, CellColumns.hasData_prewrite_self _ w backed.dataShown pos⟩
    · exact ⟨(backed.lockBacked l old).1,
        (CellColumns.grows_prewrite _ _ w).1 _ (backed.lockBacked l old).2⟩
  writeBacked := backed.writeBacked

theorem commit (backed : CellBacked committers cols) (type : MutationType) {startTs commitTs : Int}
    (committed : CommittedAt committers commitTs startTs) :
    CellBacked committers (cols.commit type startTs commitTs) where
  dataShown := backed.dataShown
  writeShown := by simp [backed.writeShown]
  lockBacked l mem := backed.lockBacked l (Column.mem_deleteUpTo.mp mem).1
  writeBacked e mem := by
    rcases Column.mem_of_mem_put mem with rfl | old
    · exact committed
    · exact backed.writeBacked e old

theorem cleanLock (backed : CellBacked committers cols) (lockTs : Int) :
    CellBacked committers (cols.cleanLock lockTs) where
  dataShown := backed.dataShown
  writeShown := backed.writeShown
  lockBacked l mem := backed.lockBacked l (Column.mem_deleteUpTo.mp mem).1
  writeBacked := backed.writeBacked

end CellBacked

/-- The time oracle's order over the committers: no timestamp handed out is after the clock, a
commit comes after its prewrite start, and no two transactions share a prewrite start or a commit
timestamp. -/
structure Clocked (clock : Int) (committers : T → Option (Committer C V)) : Prop where
  clockNonneg : 0 ≤ clock
  startBefore : ∀ txn t, committers txn = some t → 0 < t.prewriteStartTs ∧ t.prewriteStartTs ≤ clock
  commitAfter : ∀ txn t commitTs, committers txn = some t → t.phase.commitTs? = some commitTs →
    t.prewriteStartTs < commitTs ∧ commitTs ≤ clock
  startUnique : ∀ txn₁ txn₂ t₁ t₂, committers txn₁ = some t₁ → committers txn₂ = some t₂ →
    t₁.prewriteStartTs = t₂.prewriteStartTs → txn₁ = txn₂
  commitUnique : ∀ txn₁ txn₂ t₁ t₂ commitTs, committers txn₁ = some t₁ → committers txn₂ = some t₂ →
    t₁.phase.commitTs? = some commitTs → t₂.phase.commitTs? = some commitTs → txn₁ = txn₂

namespace Clocked

variable {clock : Int} {committers : T → Option (Committer C V)}

theorem later (clocked : Clocked clock committers) {clock' : Int} (le : clock ≤ clock') :
    Clocked clock' committers where
  clockNonneg := by
    have := clocked.clockNonneg
    omega
  startBefore txn t found := by
    have := clocked.startBefore txn t found
    omega
  commitAfter txn t c found holds := by
    have := clocked.commitAfter txn t c found holds
    omega
  startUnique := clocked.startUnique
  commitUnique := clocked.commitUnique

/-- A transaction holding a commit timestamp is the only one a write record at it can belong to. -/
theorem committedAt_start (clocked : Clocked clock committers) {txn : T} {t : Committer C V}
    {commitTs startTs : Int} (found : committers txn = some t) (holds : t.phase.commitTs? = some commitTs)
    (committed : CommittedAt committers commitTs startTs) : startTs = t.prewriteStartTs := by
  obtain ⟨other, o, secondaries, found', phase, start⟩ := committed
  have same : other = txn :=
    clocked.commitUnique other txn o t commitTs found' found (by simp [phase, CommitPhase.commitTs?]) holds
  subst same
  rw [found] at found'
  cases found'
  exact start.symm

variable [DecidableEq T]

/-- A transaction's change that takes no new timestamp. -/
theorem update_same (clocked : Clocked clock committers) {txn : T} {t t' : Committer C V}
    (found : committers txn = some t) (start : t'.prewriteStartTs = t.prewriteStartTs)
    (commit : t'.phase.commitTs? = t.phase.commitTs? ∨ t'.phase.commitTs? = none) :
    Clocked clock (Function.update committers txn (some t')) where
  clockNonneg := clocked.clockNonneg
  startBefore other o found' := by
    rcases update_eq_some_iff.mp found' with ⟨-, rfl⟩ | ⟨-, old⟩
    · rw [start]
      exact clocked.startBefore txn t found
    · exact clocked.startBefore other o old
  commitAfter other o c found' holds := by
    rcases update_eq_some_iff.mp found' with ⟨-, rfl⟩ | ⟨-, old⟩
    · rcases commit with same | none
      · rw [start]
        exact clocked.commitAfter txn t c found (same ▸ holds)
      · simp [none] at holds
    · exact clocked.commitAfter other o c old holds
  startUnique txn₁ txn₂ t₁ t₂ found₁ found₂ same := by
    rcases update_eq_some_iff.mp found₁ with ⟨rfl, rfl⟩ | ⟨-, old₁⟩ <;>
      rcases update_eq_some_iff.mp found₂ with ⟨rfl, rfl⟩ | ⟨-, old₂⟩
    · rfl
    · exact clocked.startUnique _ _ t t₂ found old₂ (start ▸ same)
    · exact clocked.startUnique _ _ t₁ t old₁ found (start ▸ same)
    · exact clocked.startUnique txn₁ txn₂ t₁ t₂ old₁ old₂ same
  commitUnique txn₁ txn₂ t₁ t₂ c found₁ found₂ holds₁ holds₂ := by
    have moved : t'.phase.commitTs? = some c → t.phase.commitTs? = some c := by
      intro holds
      rcases commit with same | none
      · exact same ▸ holds
      · simp [none] at holds
    rcases update_eq_some_iff.mp found₁ with ⟨rfl, rfl⟩ | ⟨-, old₁⟩ <;>
      rcases update_eq_some_iff.mp found₂ with ⟨rfl, rfl⟩ | ⟨-, old₂⟩
    · rfl
    · exact clocked.commitUnique _ _ t t₂ c found old₂ (moved holds₁) holds₂
    · exact clocked.commitUnique _ _ t₁ t c old₁ found holds₁ (moved holds₂)
    · exact clocked.commitUnique txn₁ txn₂ t₁ t₂ c old₁ old₂ holds₁ holds₂

/-- A transaction's change that takes a new prewrite start from the time oracle. -/
theorem update_freshStart (clocked : Clocked clock committers) {txn : T} {t' : Committer C V}
    (start : t'.prewriteStartTs = clock + 1) (commit : t'.phase.commitTs? = none) :
    Clocked (clock + 1) (Function.update committers txn (some t')) where
  clockNonneg := by
    have := clocked.clockNonneg
    omega
  startBefore other o found' := by
    have := clocked.clockNonneg
    rcases update_eq_some_iff.mp found' with ⟨-, rfl⟩ | ⟨-, old⟩
    · omega
    · have := clocked.startBefore other o old
      omega
  commitAfter other o c found' holds := by
    rcases update_eq_some_iff.mp found' with ⟨-, rfl⟩ | ⟨-, old⟩
    · simp [commit] at holds
    · have := clocked.commitAfter other o c old holds
      omega
  startUnique txn₁ txn₂ t₁ t₂ found₁ found₂ same := by
    rcases update_eq_some_iff.mp found₁ with ⟨rfl, rfl⟩ | ⟨-, old₁⟩ <;>
      rcases update_eq_some_iff.mp found₂ with ⟨rfl, rfl⟩ | ⟨-, old₂⟩
    · rfl
    · have := clocked.startBefore _ t₂ old₂
      omega
    · have := clocked.startBefore _ t₁ old₁
      omega
    · exact clocked.startUnique txn₁ txn₂ t₁ t₂ old₁ old₂ same
  commitUnique txn₁ txn₂ t₁ t₂ c found₁ found₂ holds₁ holds₂ := by
    rcases update_eq_some_iff.mp found₁ with ⟨rfl, rfl⟩ | ⟨-, old₁⟩
    · simp [commit] at holds₁
    rcases update_eq_some_iff.mp found₂ with ⟨rfl, rfl⟩ | ⟨-, old₂⟩
    · simp [commit] at holds₂
    exact clocked.commitUnique txn₁ txn₂ t₁ t₂ c old₁ old₂ holds₁ holds₂

/-- A transaction's change that takes a new commit timestamp from the time oracle. -/
theorem update_freshCommit (clocked : Clocked clock committers) {txn : T} {t t' : Committer C V}
    (found : committers txn = some t) (start : t'.prewriteStartTs = t.prewriteStartTs)
    (commit : t'.phase.commitTs? = some (clock + 1)) :
    Clocked (clock + 1) (Function.update committers txn (some t')) where
  clockNonneg := by
    have := clocked.clockNonneg
    omega
  startBefore other o found' := by
    rcases update_eq_some_iff.mp found' with ⟨-, rfl⟩ | ⟨-, old⟩
    · have := clocked.startBefore txn t found
      omega
    · have := clocked.startBefore other o old
      omega
  commitAfter other o c found' holds := by
    rcases update_eq_some_iff.mp found' with ⟨-, rfl⟩ | ⟨-, old⟩
    · have := clocked.startBefore txn t found
      rw [commit] at holds
      cases holds
      omega
    · have := clocked.commitAfter other o c old holds
      omega
  startUnique txn₁ txn₂ t₁ t₂ found₁ found₂ same := by
    rcases update_eq_some_iff.mp found₁ with ⟨rfl, rfl⟩ | ⟨-, old₁⟩ <;>
      rcases update_eq_some_iff.mp found₂ with ⟨rfl, rfl⟩ | ⟨-, old₂⟩
    · rfl
    · exact clocked.startUnique _ _ t t₂ found old₂ (start ▸ same)
    · exact clocked.startUnique _ _ t₁ t old₁ found (start ▸ same)
    · exact clocked.startUnique txn₁ txn₂ t₁ t₂ old₁ old₂ same
  commitUnique txn₁ txn₂ t₁ t₂ c found₁ found₂ holds₁ holds₂ := by
    rcases update_eq_some_iff.mp found₁ with ⟨rfl, rfl⟩ | ⟨-, old₁⟩ <;>
      rcases update_eq_some_iff.mp found₂ with ⟨rfl, rfl⟩ | ⟨-, old₂⟩
    · rfl
    · have := clocked.commitAfter _ t₂ c old₂ holds₂
      rw [commit] at holds₁
      cases holds₁
      omega
    · have := clocked.commitAfter _ t₁ c old₁ holds₁
      rw [commit] at holds₂
      cases holds₂
      omega
    · exact clocked.commitUnique txn₁ txn₂ t₁ t₂ c old₁ old₂ holds₁ holds₂

omit [DecidableEq T] in
/-- A commit at the timestamp of a committed transaction keeps a backed cell backed, and keeps its
write records: a record already at that timestamp points at the same prewrite start. -/
theorem commit_grows (clocked : Clocked clock committers) {commitTs startTs : Int}
    (committed : CommittedAt committers commitTs startTs) (type : MutationType)
    {cols : CellColumns C V} (backed : CellBacked committers cols) :
    CellBacked committers (cols.commit type startTs commitTs) ∧
      cols.Grows (cols.commit type startTs commitTs) := by
  obtain ⟨txn, t, secondaries, found, phase, start⟩ := committed
  have holds : t.phase.commitTs? = some commitTs := by simp [phase, CommitPhase.commitTs?]
  have after := clocked.commitAfter txn t commitTs found holds
  have pos := (clocked.startBefore txn t found).1
  refine ⟨backed.commit type ⟨txn, t, secondaries, found, phase, start⟩,
    CellColumns.grows_commit type (by rw [backed.writeShown]; omega) fun record mem => ?_⟩
  rw [← start]
  exact clocked.committedAt_start found holds (backed.writeBacked _ mem)

end Clocked

namespace GlobalTxnCluster

/-- The facts every run keeps. -/
structure Consistent (cluster : GlobalTxnCluster T R C V) : Prop where
  clocked : Clocked cluster.clock cluster.committers
  cells : ∀ cell, CellBacked cluster.committers (cluster.store cell)
  primaryWritten : ∀ txn t commitTs secondaries, cluster.committers txn = some t →
    t.phase = .committed commitTs secondaries → ∃ primary, t.primaryWrite? = some primary ∧
      (cluster.store primary.cell).HasWrite commitTs t.prewriteStartTs
  secondariesWritten : ∀ txn t commitTs secondaries, cluster.committers txn = some t →
    t.phase = .committed commitTs secondaries → ∀ row ∈ secondaries, ∀ w ∈ row, ∃ row' ∈ t.writes, w ∈ row'
  prewritten : ∀ txn t, cluster.committers txn = some t →
    ∀ row ∈ t.writes.take (t.phase.rowsPrewritten t.writes.length), ∀ w ∈ row,
      (cluster.store w.cell).HasData t.prewriteStartTs
  readerLock : ∀ reader rd lockTs lock, cluster.readers reader = some rd →
    rd.phase = .checkingPrimary lockTs lock ∨ rd.phase = .rollingForward lockTs lock →
      lock.primary.gtxnStartTs = lockTs ∧ (cluster.store rd.cell).HasData lockTs
  readerRollForward : ∀ reader rd commitTs type dataTs, cluster.readers reader = some rd →
    rd.phase = .applyingRollForward commitTs type dataTs →
      CommittedAt cluster.committers commitTs dataTs ∧ (cluster.store rd.cell).HasData dataTs

section Consistent

variable {cluster : GlobalTxnCluster T R C V}

theorem consistent_init : (init : GlobalTxnCluster T R C V).Consistent where
  clocked := ⟨by simp [init], by simp [init], by simp [init], by simp [init], by simp [init]⟩
  cells _ := ⟨rfl, rfl, by simp [init, CellColumns.empty], by simp [init, CellColumns.empty]⟩
  primaryWritten := by simp [init]
  secondariesWritten := by simp [init]
  prewritten := by simp [init]
  readerLock := by simp [init]
  readerRollForward := by simp [init]

/-- A new store keeps the facts when its cells are backed and grow. -/
theorem Consistent.withStore (consistent : cluster.Consistent) (store : C → CellColumns C V)
    (cells : ∀ cell, CellBacked cluster.committers (store cell))
    (grows : ∀ cell, (cluster.store cell).Grows (store cell)) :
    Consistent { cluster with store } where
  clocked := consistent.clocked
  cells := cells
  primaryWritten txn t commitTs secondaries found phase := by
    obtain ⟨primary, isPrimary, written⟩ :=
      consistent.primaryWritten txn t commitTs secondaries found phase
    exact ⟨primary, isPrimary, (grows _).2 _ _ written⟩
  secondariesWritten := consistent.secondariesWritten
  prewritten txn t found row mem w inRow :=
    (grows _).1 _ (consistent.prewritten txn t found row mem w inRow)
  readerLock reader rd lockTs lock found phase := by
    obtain ⟨start, data⟩ := consistent.readerLock reader rd lockTs lock found phase
    exact ⟨start, (grows _).1 _ data⟩
  readerRollForward reader rd commitTs type dataTs found phase := by
    obtain ⟨committed, data⟩ :=
      consistent.readerRollForward reader rd commitTs type dataTs found phase
    exact ⟨committed, (grows _).1 _ data⟩

/-- A transaction's new state keeps the facts when it keeps the time oracle's order, is not committed
before or after, and has its data at every cell of the rows it counts as prewritten. -/
theorem Consistent.setCommitter [DecidableEq T] (consistent : cluster.Consistent) {txn : T}
    {t : Committer C V} (clock : Int)
    (clocked : Clocked clock (Function.update cluster.committers txn (some t)))
    (wasNot : ∀ old c secondaries, cluster.committers txn = some old →
      old.phase ≠ .committed c secondaries)
    (isNot : ∀ c secondaries, t.phase ≠ .committed c secondaries)
    (prewritten : ∀ row ∈ t.writes.take (t.phase.rowsPrewritten t.writes.length), ∀ w ∈ row,
      (cluster.store w.cell).HasData t.prewriteStartTs) :
    Consistent { cluster.setCommitter txn t with clock } where
  clocked := clocked
  cells cell := (consistent.cells cell).mono fun _ _ committed =>
    committed.update fun old c secondaries found phase => absurd phase (wasNot old c secondaries found)
  primaryWritten other o c secondaries found phase := by
    rcases update_eq_some_iff.mp found with ⟨-, rfl⟩ | ⟨-, old⟩
    · exact absurd phase (isNot c secondaries)
    · exact consistent.primaryWritten other o c secondaries old phase
  secondariesWritten other o c secondaries found phase := by
    rcases update_eq_some_iff.mp found with ⟨-, rfl⟩ | ⟨-, old⟩
    · exact absurd phase (isNot c secondaries)
    · exact consistent.secondariesWritten other o c secondaries old phase
  prewritten other o found := by
    rcases update_eq_some_iff.mp found with ⟨-, rfl⟩ | ⟨-, old⟩
    · exact prewritten
    · exact consistent.prewritten other o old
  readerLock := consistent.readerLock
  readerRollForward reader rd c type d found phase := by
    obtain ⟨committed, data⟩ := consistent.readerRollForward reader rd c type d found phase
    exact ⟨committed.update fun old c secondaries found phase =>
      absurd phase (wasNot old c secondaries found), data⟩

/-- A reader's new state keeps the facts when the lock it holds is backed and the record it is about
to copy belongs to a committed transaction. -/
theorem Consistent.setReader [DecidableEq R] (consistent : cluster.Consistent) {reader : R}
    {rd : Reader C V} (clock : Int) (later : cluster.clock ≤ clock)
    (lockOk : ∀ lockTs lock, rd.phase = .checkingPrimary lockTs lock ∨
      rd.phase = .rollingForward lockTs lock →
        lock.primary.gtxnStartTs = lockTs ∧ (cluster.store rd.cell).HasData lockTs)
    (rollOk : ∀ c type d, rd.phase = .applyingRollForward c type d →
      CommittedAt cluster.committers c d ∧ (cluster.store rd.cell).HasData d) :
    Consistent { cluster.setReader reader rd with clock } where
  clocked := consistent.clocked.later later
  cells := consistent.cells
  primaryWritten := consistent.primaryWritten
  secondariesWritten := consistent.secondariesWritten
  prewritten := consistent.prewritten
  readerLock other o lockTs lock found phase := by
    rcases update_eq_some_iff.mp found with ⟨-, rfl⟩ | ⟨-, old⟩
    · exact lockOk lockTs lock phase
    · exact consistent.readerLock other o lockTs lock old phase
  readerRollForward other o c type d found phase := by
    rcases update_eq_some_iff.mp found with ⟨-, rfl⟩ | ⟨-, old⟩
    · exact rollOk c type d phase
    · exact consistent.readerRollForward other o c type d old phase

end Consistent

/-! ## What each step does -/

section Steps

variable [DecidableEq T] [DecidableEq R] [DecidableEq C] {cluster next : GlobalTxnCluster T R C V}

omit [DecidableEq R] [DecidableEq C] in
theorem newGlobalTxn_eq_some {txn : T} {writes : List (List (Write C V))} {readCommitted : Bool}
    (h : cluster.newGlobalTxn txn writes readCommitted = some next) :
    cluster.committers txn = none ∧
      next = { cluster.setCommitter txn
        ⟨writes, cluster.clock + 1, readCommitted, cluster.clock + 1, .started⟩ with
          clock := cluster.clock + 1 } := by
  unfold newGlobalTxn at h
  split_ifs at h with guard
  exact ⟨Option.isNone_iff_eq_none.mp guard.1, (Option.some.inj h).symm⟩

omit [DecidableEq R] [DecidableEq C] in
theorem internalCommit_eq_some {txn : T} (h : cluster.internalCommit txn = some next) :
    ∃ t, cluster.committers txn = some t ∧ t.phase = .started ∧
      (next = { cluster.setCommitter txn { t with phase := .failed } with
          clock := cluster.clock + 1 } ∨
        next = { cluster.setCommitter txn
          { t with prewriteStartTs := cluster.clock + 1, phase := .prewriting 0 } with
            clock := cluster.clock + 1 } ∨
        next = cluster.setCommitter txn { t with phase := .prewriting 0 }) := by
  unfold internalCommit at h
  split at h
  · rename_i t found
    split at h
    · rename_i started
      refine ⟨t, found, started, ?_⟩
      dsimp only at h
      split_ifs at h
      · exact .inl (Option.some.inj h).symm
      · exact .inr (.inl (Option.some.inj h).symm)
      · exact .inr (.inr (Option.some.inj h).symm)
    · cases h
  · cases h

omit [DecidableEq R] in
theorem asyncPrewrite_eq_some {txn : T} (h : cluster.asyncPrewrite txn = some next) :
    ∃ t row ws primary, cluster.committers txn = some t ∧ t.phase = .prewriting row ∧
      t.primaryWrite? = some primary ∧ t.writes[row]? = some ws ∧
      (next = cluster.setCommitter txn { t with phase := .failed } ∨
        conflictWithOtherWrite t.prewriteStartTs cluster.store ws = false ∧
          next = { cluster.setCommitter txn { t with
              phase := if row + 1 < t.writes.length then .prewriting (row + 1) else .prewritten } with
            store := applyRow cluster.store ws
              (CellColumns.prewrite ⟨primary.cell, t.prewriteStartTs⟩ t.prewriteStartTs) }) := by
  unfold asyncPrewrite at h
  split at h
  · rename_i t found
    split at h
    · rename_i row primary phase isPrimary
      split at h
      · rename_i ws getRow
        refine ⟨t, row, ws, primary, found, phase, isPrimary, getRow, ?_⟩
        split at h
        · exact .inl (Option.some.inj h).symm
        · rename_i conflict
          exact .inr ⟨by simpa using conflict, (Option.some.inj h).symm⟩
      · cases h
    · cases h
  · cases h

omit [DecidableEq R] [DecidableEq C] in
theorem internalCommitPhase2_eq_some {txn : T} (h : cluster.internalCommitPhase2 txn = some next) :
    ∃ t, cluster.committers txn = some t ∧ t.phase = .prewritten ∧
      (next = { cluster.setCommitter txn { t with phase := .failed } with
          clock := cluster.clock + 1 } ∨
        next = { cluster.setCommitter txn { t with phase := .committingPrimary (cluster.clock + 1) } with
          clock := cluster.clock + 1 }) := by
  unfold internalCommitPhase2 at h
  split at h
  · rename_i t found
    split at h
    · rename_i prewritten
      refine ⟨t, found, prewritten, ?_⟩
      dsimp only at h
      split_ifs at h
      · exact .inl (Option.some.inj h).symm
      · exact .inr (Option.some.inj h).symm
    · cases h
  · cases h

omit [DecidableEq R] in
theorem commitPrimary_eq_some {txn : T} (h : cluster.commitPrimary txn = some next) :
    ∃ t commitTs primary, cluster.committers txn = some t ∧ t.phase = .committingPrimary commitTs ∧
      t.primaryWrite? = some primary ∧
      (next = cluster.setCommitter txn { t with phase := .failed } ∨
        (cluster.store primary.cell).lockedAt t.prewriteStartTs = true ∧
          next = { cluster.setCommitter txn
              { t with phase := .committed commitTs (secondaryRows t.writes) } with
            store := updateCell cluster.store primary.cell
              (CellColumns.commit primary.type t.prewriteStartTs commitTs) }) := by
  unfold commitPrimary at h
  split at h
  · rename_i t found
    split at h
    · rename_i commitTs primary phase isPrimary
      refine ⟨t, commitTs, primary, found, phase, isPrimary, ?_⟩
      split_ifs at h with locked
      · exact .inr ⟨locked, (Option.some.inj h).symm⟩
      · exact .inl (Option.some.inj h).symm
    · cases h
  · cases h

omit [DecidableEq R] in
theorem asyncCommitSecondaries_eq_some {txn : T} {row : Nat}
    (h : cluster.asyncCommitSecondaries txn row = some next) :
    ∃ t commitTs secondaries ws, cluster.committers txn = some t ∧
      t.phase = .committed commitTs secondaries ∧ secondaries[row]? = some ws ∧
      next = { cluster.setCommitter txn
          { t with phase := .committed commitTs (secondaries.eraseIdx row) } with
        store := applyRow cluster.store ws fun w =>
          CellColumns.commit w.type t.prewriteStartTs commitTs } := by
  unfold asyncCommitSecondaries at h
  split at h
  · rename_i t found
    split at h
    · rename_i commitTs secondaries phase
      split at h
      · rename_i ws getRow
        exact ⟨t, commitTs, secondaries, ws, found, phase, getRow, (Option.some.inj h).symm⟩
      · cases h
    · cases h
  · cases h

omit [DecidableEq T] [DecidableEq C] in
theorem get_eq_some {reader : R} {cell : C} (h : cluster.get reader cell = some next) :
    next = { cluster.setReader reader ⟨cell, cluster.clock + 1, 0, .reading⟩ with
      clock := cluster.clock + 1 } := by
  unfold get at h
  split_ifs at h
  exact (Option.some.inj h).symm

omit [DecidableEq T] [DecidableEq C] in
theorem asyncGetCell_eq_some {reader : R} (h : cluster.asyncGetCell reader = some next) :
    ∃ rd, cluster.readers reader = some rd ∧ rd.phase = .reading ∧
      ((∃ lockTs lock, lockBefore rd.startTs (cluster.store rd.cell).lock = some (lockTs, lock) ∧
          next = cluster.setReader reader { rd with phase := .checkingPrimary lockTs lock }) ∨
        next = cluster.setReader reader
          { rd with phase := .done (findValueFromResultRow rd.startTs (cluster.store rd.cell)) }) := by
  unfold asyncGetCell at h
  split at h
  · rename_i rd found
    split at h
    · rename_i reading
      refine ⟨rd, found, reading, ?_⟩
      split at h
      · rename_i lockTs lock locked
        exact .inl ⟨lockTs, lock, locked, (Option.some.inj h).symm⟩
      · exact .inr (Option.some.inj h).symm
    · cases h
  · cases h

omit [DecidableEq T] in
theorem primaryIsLocked_eq_some {limit : Nat} {reader : R} {suspectLive : Bool}
    (h : cluster.primaryIsLocked limit reader suspectLive = some next) :
    ∃ rd lockTs lock, cluster.readers reader = some rd ∧ rd.phase = .checkingPrimary lockTs lock ∧
      (next = cluster.setReader reader (rd.cleanOrWait limit suspectLive lockTs lock.primary.cell) ∨
        next = cluster.setReader reader rd.retry ∨
        next = cluster.setReader reader { rd with phase := .rollingForward lockTs lock }) := by
  unfold primaryIsLocked at h
  split at h
  · rename_i rd found
    split at h
    · rename_i lockTs lock phase
      refine ⟨rd, lockTs, lock, found, phase, ?_⟩
      split_ifs at h
      · exact .inl (Option.some.inj h).symm
      · exact .inr (.inl (Option.some.inj h).symm)
      · exact .inr (.inr (Option.some.inj h).symm)
    · cases h
  · cases h

omit [DecidableEq T] [DecidableEq C] in
theorem rollForward_eq_some {limit : Nat} {reader : R} {suspectLive : Bool}
    (h : cluster.rollForward limit reader suspectLive = some next) :
    ∃ rd lockTs lock, cluster.readers reader = some rd ∧ rd.phase = .rollingForward lockTs lock ∧
      (next = cluster.setReader reader (rd.cleanOrWait limit suspectLive lockTs lock.primary.cell) ∨
        ∃ commitTs, findCommitTs lock.primary.gtxnStartTs
            (cluster.store lock.primary.cell).write.versions = some commitTs ∧
          next = cluster.setReader reader
            { rd with phase := .applyingRollForward commitTs lock.type lock.primary.gtxnStartTs }) := by
  unfold rollForward at h
  split at h
  · rename_i rd found
    split at h
    · rename_i lockTs lock phase
      refine ⟨rd, lockTs, lock, found, phase, ?_⟩
      dsimp only at h
      split at h
      · rename_i commitTs committed
        split_ifs at h
        · exact .inr ⟨commitTs, committed, (Option.some.inj h).symm⟩
        · exact .inl (Option.some.inj h).symm
      · exact .inl (Option.some.inj h).symm
    · cases h
  · cases h

omit [DecidableEq T] in
theorem rollForwardMutation_eq_some {reader : R} (h : cluster.rollForwardMutation reader = some next) :
    ∃ rd commitTs lockType dataTs, cluster.readers reader = some rd ∧
      rd.phase = .applyingRollForward commitTs lockType dataTs ∧
      next = { cluster.setReader reader rd.retry with
        store := updateCell cluster.store rd.cell (CellColumns.commit lockType dataTs commitTs) } := by
  unfold rollForwardMutation at h
  split at h
  · rename_i rd found
    split at h
    · rename_i commitTs lockType dataTs phase
      exact ⟨rd, commitTs, lockType, dataTs, found, phase, (Option.some.inj h).symm⟩
    · cases h
  · cases h

omit [DecidableEq T] in
theorem cleanLockPrimary_eq_some {reader : R} (h : cluster.cleanLockPrimary reader = some next) :
    ∃ rd lockTs primary, cluster.readers reader = some rd ∧
      rd.phase = .cleaningPrimary lockTs primary ∧
      (next = cluster.setReader reader { rd with phase := .cleaningCell lockTs } ∨
        next = { cluster.setReader reader { rd with phase := .cleaningCell lockTs } with
          store := updateCell cluster.store primary (CellColumns.cleanLock lockTs) }) := by
  unfold cleanLockPrimary at h
  split at h
  · rename_i rd found
    split at h
    · rename_i lockTs primary phase
      refine ⟨rd, lockTs, primary, found, phase, ?_⟩
      dsimp only at h
      split_ifs at h
      · exact .inl (Option.some.inj h).symm
      · exact .inr (Option.some.inj h).symm
    · cases h
  · cases h

omit [DecidableEq T] in
theorem cleanLockCell_eq_some {reader : R} (h : cluster.cleanLockCell reader = some next) :
    ∃ rd lockTs, cluster.readers reader = some rd ∧ rd.phase = .cleaningCell lockTs ∧
      next = { cluster.setReader reader rd.retry with
        store := updateCell cluster.store rd.cell (CellColumns.cleanLock lockTs) } := by
  unfold cleanLockCell at h
  split at h
  · rename_i rd found
    split at h
    · rename_i lockTs phase
      exact ⟨rd, lockTs, found, phase, (Option.some.inj h).symm⟩
    · cases h
  · cases h

end Steps

/-! ## Every step keeps the facts -/

section Keeps

variable {cluster next : GlobalTxnCluster T R C V}

theorem not_committed_of {committers : T → Option (Committer C V)} {txn : T} {t : Committer C V}
    (found : committers txn = some t) (notCommitted : ∀ c secondaries, t.phase ≠ .committed c secondaries) :
    ∀ old c secondaries, committers txn = some old → old.phase ≠ .committed c secondaries := by
  intro old c secondaries found'
  rw [found] at found'
  cases found'
  exact notCommitted c secondaries

/-- A row mutation whose changes keep a backed cell backed keeps every cell backed and growing. -/
theorem applyRow_backed [DecidableEq C] (consistent : cluster.Consistent) (ws : List (Write C V))
    (f : Write C V → CellColumns C V → CellColumns C V)
    (keeps : ∀ w ∈ ws, ∀ cols, CellBacked cluster.committers cols →
      CellBacked cluster.committers (f w cols) ∧ cols.Grows (f w cols)) (cell : C) :
    CellBacked cluster.committers (applyRow cluster.store ws f cell) ∧
      (cluster.store cell).Grows (applyRow cluster.store ws f cell) :=
  applyRow_keeps (fun cols => CellBacked cluster.committers cols ∧ (cluster.store cell).Grows cols)
    (fun w mem _ cols kept => ⟨(keeps w mem cols kept.1).1, kept.2.trans (keeps w mem cols kept.1).2⟩)
    ⟨consistent.cells cell, CellColumns.Grows.refl _⟩

/-- A change of one cell that keeps it backed and growing keeps the facts. -/
theorem Consistent.withCell [DecidableEq C] (consistent : cluster.Consistent) (cell : C)
    (f : CellColumns C V → CellColumns C V)
    (keeps : CellBacked cluster.committers (cluster.store cell) →
      CellBacked cluster.committers (f (cluster.store cell)) ∧ (cluster.store cell).Grows (f (cluster.store cell))) :
    Consistent { cluster with store := updateCell cluster.store cell f } := by
  have kept : ∀ other, CellBacked cluster.committers (updateCell cluster.store cell f other) ∧
      (cluster.store other).Grows (updateCell cluster.store cell f other) := by
    intro other
    rw [updateCell_apply]
    split_ifs with here
    · subst here
      exact keeps (consistent.cells other)
    · exact ⟨consistent.cells other, CellColumns.Grows.refl _⟩
  exact consistent.withStore _ (fun other => (kept other).1) (fun other => (kept other).2)

/-- A reader that moves to a phase holding no lock and no record keeps the facts. -/
theorem Consistent.setReader_idle [DecidableEq R] (consistent : cluster.Consistent) (reader : R)
    {rd : Reader C V} (idle : rd.phase = .reading ∨ (∃ lockTs primary, rd.phase = .cleaningPrimary lockTs primary) ∨
      (∃ lockTs, rd.phase = .cleaningCell lockTs) ∨ ∃ result, rd.phase = .done result) :
    Consistent (cluster.setReader reader rd) := by
  refine consistent.setReader cluster.clock (Int.le_refl _) ?_ ?_ <;>
    rcases idle with idle | ⟨_, _, idle⟩ | ⟨_, idle⟩ | ⟨_, idle⟩ <;> simp [idle]

theorem Consistent.setReader_cleanOrWait [DecidableEq R] (consistent : cluster.Consistent) (reader : R)
    (limit : Nat) (rd : Reader C V) (suspectLive : Bool) (lockTs : Int) (primary : C) :
    Consistent (cluster.setReader reader (rd.cleanOrWait limit suspectLive lockTs primary)) := by
  refine consistent.setReader_idle reader ?_
  rcases Reader.cleanOrWait_phase limit rd suspectLive lockTs primary with cleaning | reading
  · exact .inr (.inl ⟨lockTs, primary, cleaning⟩)
  · exact .inl reading

/-- A committed transaction with fewer secondary rows left keeps the facts. -/
theorem Consistent.setCommitted [DecidableEq T] (consistent : cluster.Consistent) {txn : T}
    {t : Committer C V} {commitTs : Int} {secondaries secondaries' : List (List (Write C V))}
    (found : cluster.committers txn = some t) (phase : t.phase = .committed commitTs secondaries)
    (fewer : ∀ row ∈ secondaries', row ∈ secondaries) :
    Consistent (cluster.setCommitter txn { t with phase := .committed commitTs secondaries' }) := by
  have keeps : ∀ old c secondaries₀, cluster.committers txn = some old →
      old.phase = .committed c secondaries₀ →
        (∃ secondaries₁, (CommitPhase.committed commitTs secondaries' : CommitPhase C V) =
          .committed c secondaries₁) ∧ t.prewriteStartTs = old.prewriteStartTs := by
    intro old c secondaries₀ found' phase'
    rw [found] at found'
    cases found'
    rw [phase] at phase'
    cases phase'
    exact ⟨⟨secondaries', rfl⟩, rfl⟩
  refine
    { clocked := consistent.clocked.update_same found rfl (.inl (by simp [phase, CommitPhase.commitTs?]))
      cells := fun cell => (consistent.cells cell).mono fun _ _ committed => committed.update keeps
      primaryWritten := ?_
      secondariesWritten := ?_
      prewritten := ?_
      readerLock := consistent.readerLock
      readerRollForward := fun reader rd c type d found' phase' =>
        ⟨(consistent.readerRollForward reader rd c type d found' phase').1.update keeps,
          (consistent.readerRollForward reader rd c type d found' phase').2⟩ }
  · intro other o c secondaries₀ found' phase'
    rcases update_eq_some_iff.mp found' with ⟨rfl, rfl⟩ | ⟨-, old⟩
    · cases phase'
      exact consistent.primaryWritten other t commitTs secondaries found phase
    · exact consistent.primaryWritten other o c secondaries₀ old phase'
  · intro other o c secondaries₀ found' phase' row mem
    rcases update_eq_some_iff.mp found' with ⟨rfl, rfl⟩ | ⟨-, old⟩
    · cases phase'
      exact consistent.secondariesWritten other t commitTs secondaries found phase row (fewer row mem)
    · exact consistent.secondariesWritten other o c secondaries₀ old phase' row mem
  · intro other o found'
    rcases update_eq_some_iff.mp found' with ⟨rfl, rfl⟩ | ⟨-, old⟩
    · simpa [phase, CommitPhase.rowsPrewritten] using consistent.prewritten other t found
    · exact consistent.prewritten other o old

/-- The rows a prewrite counts as done once it has written row `row`. -/
theorem take_rowsPrewritten {writes : List (List (Write C V))} {row : Nat} {ws : List (Write C V)}
    (getRow : writes[row]? = some ws) :
    writes.take ((if row + 1 < writes.length then .prewriting (row + 1) else .prewritten :
      CommitPhase C V).rowsPrewritten writes.length) = writes.take row ++ [ws] := by
  have inRange : row < writes.length := (List.getElem?_eq_some_iff.mp getRow).1
  have step : writes.take (row + 1) = writes.take row ++ [ws] := by
    rw [List.take_add_one, getRow]
    rfl
  split_ifs with more
  · exact step
  · have last : writes.length = row + 1 := by omega
    simp only [CommitPhase.rowsPrewritten]
    rw [last, step]

section Committers

variable [DecidableEq T] [DecidableEq R] [DecidableEq C]

omit [DecidableEq R] [DecidableEq C] in
theorem Consistent.newGlobalTxn (consistent : cluster.Consistent) {txn : T}
    {writes : List (List (Write C V))} {readCommitted : Bool}
    (h : cluster.newGlobalTxn txn writes readCommitted = some next) : next.Consistent := by
  obtain ⟨fresh, rfl⟩ := newGlobalTxn_eq_some h
  refine consistent.setCommitter _ (consistent.clocked.update_freshStart rfl rfl) ?_ (fun _ _ => nofun)
    (by simp [CommitPhase.rowsPrewritten])
  intro old c secondaries found
  simp [fresh] at found

omit [DecidableEq R] [DecidableEq C] in
theorem Consistent.internalCommit (consistent : cluster.Consistent) {txn : T}
    (h : cluster.internalCommit txn = some next) : next.Consistent := by
  obtain ⟨t, found, started, rfl | rfl | rfl⟩ := internalCommit_eq_some h
  all_goals have wasNot := not_committed_of found (by simp [started])
  · refine consistent.setCommitter _ (Clocked.later ?_ (show cluster.clock ≤ cluster.clock + 1 by omega))
      wasNot (fun _ _ => nofun) (by simp [CommitPhase.rowsPrewritten])
    exact consistent.clocked.update_same found rfl (.inr rfl)
  · exact consistent.setCommitter _ (consistent.clocked.update_freshStart rfl rfl) wasNot
      (fun _ _ => nofun) (by simp [CommitPhase.rowsPrewritten])
  · exact consistent.setCommitter cluster.clock (consistent.clocked.update_same found rfl (.inr rfl))
      wasNot (fun _ _ => nofun) (by simp [CommitPhase.rowsPrewritten])

omit [DecidableEq R] in
theorem Consistent.asyncPrewrite (consistent : cluster.Consistent) {txn : T}
    (h : cluster.asyncPrewrite txn = some next) : next.Consistent := by
  obtain ⟨t, row, ws, primary, found, phase, -, getRow, rfl | ⟨-, rfl⟩⟩ := asyncPrewrite_eq_some h
  · exact consistent.setCommitter cluster.clock (consistent.clocked.update_same found rfl (.inr rfl))
      (not_committed_of found (by simp [phase])) (fun _ _ => nofun) (by simp [CommitPhase.rowsPrewritten])
  · have pos := (consistent.clocked.startBefore txn t found).1
    let prewriteOp := CellColumns.prewrite (V := V) ⟨primary.cell, t.prewriteStartTs⟩ t.prewriteStartTs
    have kept := applyRow_backed consistent ws prewriteOp
      fun w _ _ backed => ⟨backed.prewrite primary.cell w pos, CellColumns.grows_prewrite _ _ w⟩
    have mid := consistent.withStore _ (fun cell => (kept cell).1) (fun cell => (kept cell).2)
    -- the data of the row just written is there, whatever else the row wrote to its cells
    have newRow : ∀ w ∈ ws, (applyRow cluster.store ws prewriteOp w.cell).HasData t.prewriteStartTs := by
      intro w mem
      refine applyRow_makes (fun cols => cols.data.deletedTo = -1 → cols.HasData t.prewriteStartTs) mem
        ?_ ?_ (kept w.cell).1.dataShown
      · intro w' _ _ cols data shown
        exact (CellColumns.grows_prewrite _ _ w').1 _ (data (by simpa [prewriteOp] using shown))
      · intro cols shown
        exact CellColumns.hasData_prewrite_self _ w (by simpa [prewriteOp] using shown) pos
    refine mid.setCommitter cluster.clock
      (mid.clocked.update_same found rfl (.inr (by split <;> rfl)))
      (not_committed_of found (by simp [phase])) (by intro c secondaries; split <;> simp) ?_
    show ∀ row' ∈ t.writes.take _, _
    rw [take_rowsPrewritten getRow]
    intro row' mem w inRow
    rcases List.mem_append.mp mem with old | new
    · have done := consistent.prewritten txn t found row' (by simpa [phase, CommitPhase.rowsPrewritten] using old)
      exact (kept w.cell).2.1 _ (done w inRow)
    · rw [List.mem_singleton] at new
      subst new
      exact newRow w inRow

omit [DecidableEq R] [DecidableEq C] in
theorem Consistent.internalCommitPhase2 (consistent : cluster.Consistent) {txn : T}
    (h : cluster.internalCommitPhase2 txn = some next) : next.Consistent := by
  obtain ⟨t, found, prewritten, rfl | rfl⟩ := internalCommitPhase2_eq_some h
  all_goals have wasNot := not_committed_of found (by simp [prewritten])
  · refine consistent.setCommitter _ (Clocked.later ?_ (show cluster.clock ≤ cluster.clock + 1 by omega))
      wasNot (fun _ _ => nofun) (by simp [CommitPhase.rowsPrewritten])
    exact consistent.clocked.update_same found rfl (.inr rfl)
  · refine consistent.setCommitter _ (consistent.clocked.update_freshCommit found rfl rfl) wasNot
      (fun _ _ => nofun) ?_
    simpa [prewritten, CommitPhase.rowsPrewritten] using consistent.prewritten txn t found

omit [DecidableEq R] in
/-- Committing the primary keeps the facts: the transaction counts as committed from the step that
puts its primary's write record. -/
theorem Consistent.commitPrimaryWrite (consistent : cluster.Consistent) {txn : T} {t : Committer C V}
    {commitTs : Int} {primary : Write C V} (found : cluster.committers txn = some t)
    (phase : t.phase = .committingPrimary commitTs) (isPrimary : t.primaryWrite? = some primary) :
    Consistent { cluster.setCommitter txn
        { t with phase := .committed commitTs (secondaryRows t.writes) } with
      store := updateCell cluster.store primary.cell
        (CellColumns.commit primary.type t.prewriteStartTs commitTs) } := by
  let committers := Function.update cluster.committers txn
    (some { t with phase := .committed commitTs (secondaryRows t.writes) })
  have clocked : Clocked cluster.clock committers :=
    consistent.clocked.update_same found rfl (.inl (by simp [phase, CommitPhase.commitTs?]))
  have transfer : ∀ c s, CommittedAt cluster.committers c s → CommittedAt committers c s :=
    fun _ _ committed => committed.update fun old c secondaries found' phase' =>
      absurd phase' (not_committed_of found (by simp [phase]) old c secondaries found')
  have committed : CommittedAt committers commitTs t.prewriteStartTs :=
    ⟨txn, { t with phase := .committed commitTs (secondaryRows t.writes) }, secondaryRows t.writes,
      by simp [committers], rfl, rfl⟩
  have kept : ∀ cell, CellBacked committers (updateCell cluster.store primary.cell
      (CellColumns.commit primary.type t.prewriteStartTs commitTs) cell) ∧
      (cluster.store cell).Grows (updateCell cluster.store primary.cell
        (CellColumns.commit primary.type t.prewriteStartTs commitTs) cell) := by
    intro cell
    rw [updateCell_apply]
    split_ifs with here
    · subst here
      exact clocked.commit_grows committed primary.type ((consistent.cells _).mono transfer)
    · exact ⟨(consistent.cells cell).mono transfer, CellColumns.Grows.refl _⟩
  have after := consistent.clocked.commitAfter txn t commitTs found (by simp [phase, CommitPhase.commitTs?])
  have pos := (consistent.clocked.startBefore txn t found).1
  refine
    { clocked := clocked
      cells := fun cell => (kept cell).1
      primaryWritten := ?_
      secondariesWritten := ?_
      prewritten := ?_
      readerLock := fun reader rd lockTs lock found' phase' =>
        ⟨(consistent.readerLock reader rd lockTs lock found' phase').1,
          (kept rd.cell).2.1 _ (consistent.readerLock reader rd lockTs lock found' phase').2⟩
      readerRollForward := fun reader rd c type d found' phase' =>
        ⟨transfer _ _ (consistent.readerRollForward reader rd c type d found' phase').1,
          (kept rd.cell).2.1 _ (consistent.readerRollForward reader rd c type d found' phase').2⟩ }
  · intro other o c secondaries found' phase'
    rcases update_eq_some_iff.mp found' with ⟨rfl, rfl⟩ | ⟨-, old⟩
    · cases phase'
      refine ⟨primary, isPrimary, ⟨primary.type, t.prewriteStartTs⟩, ?_, rfl⟩
      simp only [updateCell_apply, if_true, CellColumns.commit_write]
      exact Column.mem_put_self _ (by rw [(consistent.cells _).writeShown]; omega)
    · obtain ⟨written, isWritten, has⟩ := consistent.primaryWritten other o c secondaries old phase'
      exact ⟨written, isWritten, (kept written.cell).2.2 _ _ has⟩
  · intro other o c secondaries found' phase' row mem w inRow
    rcases update_eq_some_iff.mp found' with ⟨rfl, rfl⟩ | ⟨-, old⟩
    · cases phase'
      exact mem_secondaryRows mem inRow
    · exact consistent.secondariesWritten other o c secondaries old phase' row mem w inRow
  · intro other o found' row mem w inRow
    rcases update_eq_some_iff.mp found' with ⟨rfl, rfl⟩ | ⟨-, old⟩
    · have done := consistent.prewritten other t found row
        (by simpa [phase, CommitPhase.rowsPrewritten] using mem) w inRow
      exact (kept w.cell).2.1 _ done
    · exact (kept w.cell).2.1 _ (consistent.prewritten other o old row mem w inRow)

omit [DecidableEq R] in
theorem Consistent.commitPrimary (consistent : cluster.Consistent) {txn : T}
    (h : cluster.commitPrimary txn = some next) : next.Consistent := by
  obtain ⟨t, commitTs, primary, found, phase, isPrimary, rfl | ⟨-, rfl⟩⟩ := commitPrimary_eq_some h
  · exact consistent.setCommitter cluster.clock (consistent.clocked.update_same found rfl (.inr rfl))
      (not_committed_of found (by simp [phase])) (fun _ _ => nofun) (by simp [CommitPhase.rowsPrewritten])
  · exact consistent.commitPrimaryWrite found phase isPrimary

omit [DecidableEq R] in
theorem Consistent.asyncCommitSecondaries (consistent : cluster.Consistent) {txn : T} {row : Nat}
    (h : cluster.asyncCommitSecondaries txn row = some next) : next.Consistent := by
  obtain ⟨t, commitTs, secondaries, ws, found, phase, -, rfl⟩ := asyncCommitSecondaries_eq_some h
  have committed : CommittedAt cluster.committers commitTs t.prewriteStartTs :=
    ⟨txn, t, secondaries, found, phase, rfl⟩
  have kept := applyRow_backed consistent ws (fun w => CellColumns.commit w.type t.prewriteStartTs commitTs)
    fun w _ _ backed => consistent.clocked.commit_grows committed w.type backed
  have mid := consistent.withStore _ (fun cell => (kept cell).1) (fun cell => (kept cell).2)
  exact mid.setCommitted found phase fun _ mem => List.mem_of_mem_eraseIdx mem

end Committers

section Readers

variable [DecidableEq T] [DecidableEq R] [DecidableEq C]

omit [DecidableEq T] [DecidableEq C] in
theorem Consistent.get (consistent : cluster.Consistent) {reader : R} {cell : C}
    (h : cluster.get reader cell = some next) : next.Consistent := by
  rw [get_eq_some h]
  exact consistent.setReader _ (by omega) (by simp) (by simp)

omit [DecidableEq T] [DecidableEq C] in
theorem Consistent.asyncGetCell (consistent : cluster.Consistent) {reader : R}
    (h : cluster.asyncGetCell reader = some next) : next.Consistent := by
  obtain ⟨rd, -, -, ⟨lockTs, lock, locked, rfl⟩ | rfl⟩ := asyncGetCell_eq_some h
  · refine consistent.setReader cluster.clock (Int.le_refl _) ?_ (by simp)
    rintro lockTs' lock' (phase | phase) <;> simp only [ReadPhase.checkingPrimary.injEq, reduceCtorEq] at phase
    obtain ⟨rfl, rfl⟩ := phase
    exact (consistent.cells rd.cell).lockBacked _ (mem_of_lockBefore locked)
  · exact consistent.setReader_idle reader (.inr (.inr (.inr ⟨_, rfl⟩)))

omit [DecidableEq T] in
theorem Consistent.primaryIsLocked (consistent : cluster.Consistent) {limit : Nat} {reader : R}
    {suspectLive : Bool} (h : cluster.primaryIsLocked limit reader suspectLive = some next) :
    next.Consistent := by
  obtain ⟨rd, lockTs, lock, found, phase, rfl | rfl | rfl⟩ := primaryIsLocked_eq_some h
  · exact consistent.setReader_cleanOrWait reader limit rd suspectLive lockTs lock.primary.cell
  · exact consistent.setReader_idle reader (.inl rfl)
  · refine consistent.setReader cluster.clock (Int.le_refl _) ?_ (by simp)
    rintro lockTs' lock' (phase' | phase') <;>
      simp only [ReadPhase.rollingForward.injEq, reduceCtorEq] at phase'
    obtain ⟨rfl, rfl⟩ := phase'
    exact consistent.readerLock reader rd lockTs lock found (.inl phase)

omit [DecidableEq T] [DecidableEq C] in
theorem Consistent.rollForward (consistent : cluster.Consistent) {limit : Nat} {reader : R}
    {suspectLive : Bool} (h : cluster.rollForward limit reader suspectLive = some next) :
    next.Consistent := by
  obtain ⟨rd, lockTs, lock, found, phase, rfl | ⟨commitTs, committedTs, rfl⟩⟩ := rollForward_eq_some h
  · exact consistent.setReader_cleanOrWait reader limit rd suspectLive lockTs lock.primary.cell
  · obtain ⟨start, data⟩ := consistent.readerLock reader rd lockTs lock found (.inr phase)
    obtain ⟨record, mem, pointer⟩ := findCommitTs_eq_some committedTs
    refine consistent.setReader cluster.clock (Int.le_refl _) (by simp) ?_
    intro c type d phase'
    simp only [ReadPhase.applyingRollForward.injEq] at phase'
    obtain ⟨rfl, rfl, rfl⟩ := phase'
    refine ⟨?_, start ▸ data⟩
    rw [← pointer]
    exact (consistent.cells _).writeBacked _ mem

omit [DecidableEq T] in
theorem Consistent.rollForwardMutation (consistent : cluster.Consistent) {reader : R}
    (h : cluster.rollForwardMutation reader = some next) : next.Consistent := by
  obtain ⟨rd, commitTs, lockType, dataTs, found, phase, rfl⟩ := rollForwardMutation_eq_some h
  have committed := (consistent.readerRollForward reader rd commitTs lockType dataTs found phase).1
  have mid := consistent.withCell rd.cell (CellColumns.commit lockType dataTs commitTs)
    (consistent.clocked.commit_grows committed lockType)
  exact mid.setReader_idle reader (.inl rfl)

omit [DecidableEq T] in
theorem Consistent.cleanLockPrimary (consistent : cluster.Consistent) {reader : R}
    (h : cluster.cleanLockPrimary reader = some next) : next.Consistent := by
  obtain ⟨rd, lockTs, primary, -, -, rfl | rfl⟩ := cleanLockPrimary_eq_some h
  · exact consistent.setReader_idle reader (.inr (.inr (.inl ⟨lockTs, rfl⟩)))
  · have mid := consistent.withCell primary (CellColumns.cleanLock lockTs)
      fun backed => ⟨backed.cleanLock lockTs, CellColumns.grows_cleanLock lockTs⟩
    exact mid.setReader_idle reader (.inr (.inr (.inl ⟨lockTs, rfl⟩)))

omit [DecidableEq T] in
theorem Consistent.cleanLockCell (consistent : cluster.Consistent) {reader : R}
    (h : cluster.cleanLockCell reader = some next) : next.Consistent := by
  obtain ⟨rd, lockTs, -, -, rfl⟩ := cleanLockCell_eq_some h
  have mid := consistent.withCell rd.cell (CellColumns.cleanLock lockTs)
    fun backed => ⟨backed.cleanLock lockTs, CellColumns.grows_cleanLock lockTs⟩
  exact mid.setReader_idle reader (.inl rfl)

end Readers

variable [DecidableEq T] [DecidableEq R] [DecidableEq C]

/-- Every step keeps the facts. -/
theorem Consistent.step (limit : Nat) (consistent : cluster.Consistent)
    {action : GlobalTxnAction T R C V} (h : GlobalTxnCluster.step limit cluster action = some next) :
    next.Consistent := by
  cases action with
  | newGlobalTxn txn writes readCommitted => exact consistent.newGlobalTxn h
  | internalCommit txn => exact consistent.internalCommit h
  | asyncPrewrite txn => exact consistent.asyncPrewrite h
  | internalCommitPhase2 txn => exact consistent.internalCommitPhase2 h
  | commitPrimary txn => exact consistent.commitPrimary h
  | asyncCommitSecondaries txn row => exact consistent.asyncCommitSecondaries h
  | get reader cell => exact consistent.get h
  | asyncGetCell reader => exact consistent.asyncGetCell h
  | primaryIsLocked reader suspectLive => exact consistent.primaryIsLocked h
  | rollForward reader suspectLive => exact consistent.rollForward h
  | rollForwardMutation reader => exact consistent.rollForwardMutation h
  | cleanLockPrimary reader => exact consistent.cleanLockPrimary h
  | cleanLockCell reader => exact consistent.cleanLockCell h

/-- Every run keeps the facts, whatever the interleaving of commits and reads and wherever each stops. -/
theorem runSteps_consistent (limit : Nat) (actions : List (GlobalTxnAction T R C V))
    (final : GlobalTxnCluster T R C V) (ran : runSteps (step limit) init actions = some final) :
    final.Consistent :=
  runSteps_invariant (step limit) Consistent (fun _ _ _ consistent stepped => consistent.step limit stepped)
    actions init final consistent_init ran

end Keeps

/-! ## Reads and write records -/

section Records

variable {cluster : GlobalTxnCluster T R C V}

/-- The write records of a transaction holding a commit timestamp are those at that timestamp. -/
theorem Consistent.pointsAt (consistent : cluster.Consistent) {txn : T} {t : Committer C V}
    {commitTs : Int} (found : cluster.committers txn = some t) (holds : t.phase.commitTs? = some commitTs)
    (cell : C) : ∀ e ∈ (cluster.store cell).write.versions, e.2.startTs = t.prewriteStartTs ↔ e.1 = commitTs := by
  intro e mem
  have committed := (consistent.cells cell).writeBacked e mem
  constructor
  · intro pointer
    obtain ⟨other, o, secondaries, found', phase, start⟩ := committed
    have same : other = txn :=
      consistent.clocked.startUnique other txn o t found' found (start.trans pointer)
    subst same
    rw [found] at found'
    cases found'
    simpa [phase, CommitPhase.commitTs?] using holds
  · rintro rfl
    exact consistent.clocked.committedAt_start found holds committed

/-- A write record comes after the prewrite start it points at, which is positive. -/
theorem Consistent.write_after (consistent : cluster.Consistent) (cell : C) :
    ∀ e ∈ (cluster.store cell).write.versions, 0 < e.2.startTs ∧ e.2.startTs < e.1 := by
  intro e mem
  obtain ⟨txn, t, secondaries, found, phase, start⟩ := (consistent.cells cell).writeBacked e mem
  have after := consistent.clocked.commitAfter txn t e.1 found (by simp [phase, CommitPhase.commitTs?])
  have pos := (consistent.clocked.startBefore txn t found).1
  rw [← start]
  exact ⟨pos, after.1⟩

/-- A value `FindValueFromResultRow` returns belongs to a transaction whose primary holds a write
record pointing at its prewrite start. -/
theorem Consistent.findValueFromResultRow_primary (consistent : cluster.Consistent) {cell : C}
    {readTs : Int} {found : Int × V}
    (read : findValueFromResultRow readTs (cluster.store cell) = some found) {txn : T}
    {t : Committer C V} (owner : cluster.committers txn = some t) (start : t.prewriteStartTs = found.1) :
    ∃ primary commitTs, t.primaryWrite? = some primary ∧
      (cluster.store primary.cell).HasWrite commitTs found.1 := by
  obtain ⟨⟨record, mem, pointer⟩, -⟩ := findValueFromResultRow_eq_some read
  obtain ⟨other, o, secondaries, found', phase, start'⟩ := (consistent.cells cell).writeBacked record mem
  have same : other = txn :=
    consistent.clocked.startUnique other txn o t found' owner (by rw [start', pointer, start])
  subst same
  rw [owner] at found'
  cases found'
  obtain ⟨primary, isPrimary, written⟩ :=
    consistent.primaryWritten other t record.1 secondaries owner phase
  exact ⟨primary, record.1, isPrimary, start ▸ written⟩

/-- In every run, with any interleaving of commits and reads and any of them stopping after any
step, a value a read returns belongs to a transaction whose primary is committed: the primary holds
a write record pointing at the value's prewrite start. -/
theorem runSteps_read_committed_primary [DecidableEq T] [DecidableEq R] [DecidableEq C] (limit : Nat)
    (actions : List (GlobalTxnAction T R C V)) (final : GlobalTxnCluster T R C V)
    (ran : runSteps (step limit) init actions = some final) {cell : C} {readTs : Int} {found : Int × V}
    (read : findValueFromResultRow readTs (final.store cell) = some found) {txn : T}
    {t : Committer C V} (owner : final.committers txn = some t) (start : t.prewriteStartTs = found.1) :
    ∃ primary commitTs, t.primaryWrite? = some primary ∧
      (final.store primary.cell).HasWrite commitTs found.1 :=
  (runSteps_consistent limit actions final ran).findValueFromResultRow_primary read owner start

/-- After the overlapping commits, a read of cell 1 at timestamp 6 returns transaction 1's value,
prewritten at 3, and transaction 1's primary holds a write record pointing at 3. -/
theorem runSteps_read_committed_primary_overlappingCommits :
    ∃ final t, runSteps (step gtxnGetWaitedTimesLimit) init overlappingCommits = some final ∧
      findValueFromResultRow 6 (final.store 1) = some (3, 12) ∧ final.committers 1 = some t ∧
      t.prewriteStartTs = 3 ∧ ∃ primary commitTs, t.primaryWrite? = some primary ∧
        (final.store primary.cell).HasWrite commitTs 3 := by
  have observed : (runSteps (step gtxnGetWaitedTimesLimit) (init : GlobalTxnCluster Nat Nat Nat Nat)
      overlappingCommits).map (fun cluster => (findValueFromResultRow 6 (cluster.store 1),
        (cluster.committers 1).map Committer.prewriteStartTs)) = some (some (3, 12), some 3) := by
    decide +kernel
  obtain ⟨final, ran, values⟩ := Option.map_eq_some_iff.mp observed
  obtain ⟨read, started⟩ := Prod.mk.inj values
  obtain ⟨t, owner, start⟩ := Option.map_eq_some_iff.mp started
  exact ⟨final, t, ran, read, owner, start, runSteps_read_committed_primary gtxnGetWaitedTimesLimit
    overlappingCommits final ran read owner start⟩

end Records

end GlobalTxnCluster

end Tera.Sdk
