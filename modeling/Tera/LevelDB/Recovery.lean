import Mathlib
import Tera.LevelDB.WriteRun

/-! # Opening a table: `DBTable::Init`

`Init` recovers each locality group's tables (`DBImpl::Recover`), gathers the log files that may
hold records not yet in the groups' tables (`GatherLogFile`, from the smallest group sequence + 1),
replays each of them up to the number of the next one (`RecoverLogFile`), skipping, per group, the
batches the group's tables already hold (`last_seq <= GetLastSequence()`), dumps what it replayed
(`RecoverLastDumpToLevel0`), deletes the logs and opens a fresh one. Every call to the file system or
to a group's own recovery returns a status, which the environment decides here.

The statuses of `GatherLogFile` and of every `RecoverLogFile` are written into the same variable that
the dump loop then overwrites; so when the dump, the deletion and the new log succeed, `Init` returns
OK whatever the log replay returned (`init_status_of_recovered`), and it deletes the logs it failed
to replay. The recovery memtable's size-triggered dump inside `RecoverInsertMem` is the environment's
status for the insert; the memtable's last sequence is not reset by it here.
-/

namespace Tera.LevelDB

open Tera.Lib Tera.RawKey WriteBatch

/-- `kMaxSequenceNumber`. -/
def kMaxSequenceNumber : Nat := 2 ^ 56 - 1

/-- What the file system and the groups' own recovery return during `Init`: one status for each
call the source makes. -/
structure RecoverEnv where
  paranoidChecks : Bool
  /-- `DBImpl::Recover` of a group's tables. -/
  recoverLG : Nat → Status
  /-- `GetChildren` of the table's directory in `GatherLogFile`. -/
  getChildren : Status
  /-- `NewSequentialFile` of a log, by number. -/
  openLog : Nat → Status
  /-- The level-0 dump `RecoverInsertMem` of a group makes after inserting the batch that starts at
  a sequence number. -/
  insertMem : Nat → Nat → Status
  /-- `RecoverLastDumpToLevel0` of a group. -/
  dumpToLevel0 : Nat → Status
  /-- `DeleteFile` of a log, by number. -/
  deleteLog : Nat → Status
  /-- `NewWritableFile` of the fresh log. -/
  newLog : Status
  /-- `CommitNewDbTransaction` of a group. -/
  commit : Nat → Status

/-- `MaybeIgnoreError`: without paranoid checks an error becomes OK. -/
def maybeIgnoreError (paranoidChecks : Bool) (s : Status) : Status :=
  if s = .ok ∨ paranoidChecks then s else .ok

/-- A group while the table recovers: the sequence number its tables hold up to
(`GetLastSequence()`), the last sequence number of its recovery memtable, and its entries, those of
its tables followed by those replayed. -/
structure RecoverLG where
  lastSequence : Nat
  memLast : Nat := 0
  entries : List MemEntry
deriving DecidableEq, Repr

/-- `DBImpl::RecoverInsertMem`: a batch starting at or below the recovery memtable's last sequence
is a duplicate and is ignored; otherwise `InsertInto` adds its records, and the status is that of
the insert, then that of the dump. -/
def recoverInsertMem (env : RecoverEnv) (lgId : Nat) (lg : RecoverLG) (batch : WriteBatch) :
    RecoverLG × Status :=
  let logSequence := batch.sequence
  if logSequence ≤ lg.memLast then (lg, .ok)
  else
    let (records, status) := batch.iterate
    let lg := { lg with
      entries := lg.entries ++ numbered logSequence records
      memLast := if records = [] then lg.memLast else logSequence + records.length - 1 }
    let status := maybeIgnoreError env.paranoidChecks status
    if status ≠ .ok then (lg, status) else (lg, env.insertMem lgId logSequence)

/-- The loop of `RecoverLogFile` over the groups for one batch ending at `lastSeq`: a group without
a batch, or whose tables already hold it, is skipped; a group whose insert fails sets the status, and
the loop goes on. -/
def replayGroups (env : RecoverEnv) (lastSeq : Nat) (lgId : Nat) :
    List RecoverLG → List (Option WriteBatch) → Status → List RecoverLG × Status
  | lg :: lgs, update :: updates, status =>
    let (lg, status) :=
      match update with
      | none => (lg, status)
      | some batch =>
        if lastSeq ≤ lg.lastSequence then (lg, status)
        else
          let (lg, lgStatus) := recoverInsertMem env lgId lg batch
          (lg, if lgStatus ≠ .ok then lgStatus else status)
    let (lgs, status) := replayGroups env lastSeq (lgId + 1) lgs updates status
    (lg :: lgs, status)
  | lgs, _, status => (lgs, status)

/-- What the table has recovered so far: `last_sequence_` and its groups. -/
structure Recovery where
  lastSequence : Nat
  lgs : List RecoverLG
deriving DecidableEq, Repr

/-- The record loop of `RecoverLogFile` over a log's records, under `recover_limit`: it stops once
the status is not OK. A record too small for a header is a corruption, which only paranoid checks
keep; a batch ending at or above the limit is left to the next log; a batch that does not split
ends the replay with the split's status. -/
def replayRecords (env : RecoverEnv) (limit : Nat) (recovery : Recovery) (status : Status) :
    List Bytes → Recovery × Status
  | [] => (recovery, status)
  | record :: rest =>
    if status ≠ .ok then (recovery, status)
    else if short : record.length < kHeader then
      let status := if env.paranoidChecks then .corruption "log record too small" else status
      replayRecords env limit recovery status rest
    else
      let batch : WriteBatch := ⟨record, Nat.le_of_not_lt short⟩
      let lastSeq := batch.sequence + batch.count - 1
      if limit ≤ lastSeq then replayRecords env limit recovery status rest
      else
        let lastSequence := max recovery.lastSequence lastSeq
        let (updates, separated) :=
          if 1 < recovery.lgs.length then batch.seperateLocalityGroup recovery.lgs.length
          else ([some batch], .ok)
        if separated ≠ .ok then (⟨lastSequence, recovery.lgs⟩, separated)
        else
          let (lgs, status) := replayGroups env lastSeq 0 recovery.lgs updates .ok
          replayRecords env limit ⟨lastSequence, lgs⟩ status rest

/-- `RecoverLogFile` of the log numbered `logNumber` holding `records`: a log that does not open
returns its status, ignored without paranoid checks. -/
def recoverLogFile (env : RecoverEnv) (logNumber : Nat) (records : List Bytes) (limit : Nat)
    (recovery : Recovery) : Recovery × Status :=
  let opened := env.openLog logNumber
  if opened ≠ .ok then (recovery, maybeIgnoreError env.paranoidChecks opened)
  else replayRecords env limit recovery .ok records

/-- `GatherLogFile` over the numbers of the log files in the directory: the logs numbered from
`beginNum` on, and the last log before it when the first of those starts after `beginNum` or there is
none, in order. -/
def gatherLogFile (env : RecoverEnv) (beginNum : Nat) (logNumbers : List Nat) :
    List Nat × Status :=
  if env.getChildren ≠ .ok then ([], env.getChildren)
  else
    let logfiles := logNumbers.filter (beginNum ≤ ·)
    let lastNumber := (logNumbers.filter (· < beginNum)).foldl max 0
    let firstLogNum := (logfiles.insertionSort (· ≤ ·)).headD 0
    let logfiles :=
      if (0 < lastNumber ∧ beginNum < firstLogNum) ∨ (0 < lastNumber ∧ logfiles = []) then
        logfiles ++ [lastNumber]
      else logfiles
    (logfiles.insertionSort (· ≤ ·), .ok)

/-- The durable state a table is opened from: each group's tables, by the sequence number they
hold up to and their entries, and the log files, by number and records. -/
structure DurableTable where
  lgs : List (Nat × List MemEntry)
  logs : List (Nat × List Bytes)
deriving DecidableEq, Repr

/-- The records of the log numbered `number`. -/
def DurableTable.logRecords (d : DurableTable) (number : Nat) : List Bytes :=
  (d.logs.lookup number).getD []

/-- The loop of `Init` over the gathered logs: each log is replayed up to the next one's number,
and each replay's status overwrites the last. -/
def recoverLogFiles (env : RecoverEnv) (d : DurableTable) (recovery : Recovery) (status : Status) :
    List Nat → Recovery × Status
  | [] => (recovery, status)
  | number :: rest =>
    let limit := rest.headD kMaxSequenceNumber
    let (recovery, status) := recoverLogFile env number (d.logRecords number) limit recovery
    recoverLogFiles env d recovery status rest

/-- The loop of `Init` over the groups' tables: the first group that fails to recover ends it. -/
def recoverTables (env : RecoverEnv) (lgId : Nat) : List (Nat × List MemEntry) → Status
  | [] => .ok
  | _ :: rest => if env.recoverLG lgId ≠ .ok then env.recoverLG lgId else recoverTables env (lgId + 1) rest

/-- The loop of `Init` over the groups' `RecoverLastDumpToLevel0`: each status overwrites the last. -/
def dumpToLevel0 (env : RecoverEnv) (lgCount : Nat) (status : Status) : Status :=
  (List.range lgCount).foldl (fun _ lgId => env.dumpToLevel0 lgId) status

/-- `DeleteLogFile`: the logs are deleted in turn until one fails. A failure to delete any log but
the last goes through `MaybeIgnoreError`; the last must be gone before a new log is written. -/
def deleteLogFile (env : RecoverEnv) (logNumbers : List Nat) : Status :=
  logNumbers.zipIdx.foldl (fun status (number, i) =>
    if status = .ok then
      if i < logNumbers.length - 1 then maybeIgnoreError env.paranoidChecks (env.deleteLog number)
      else env.deleteLog number
    else status) .ok

/-- The loop of `Init` over the groups' `CommitNewDbTransaction`, from a status, until one fails. -/
def commitGroups (env : RecoverEnv) (lgCount : Nat) (status : Status) : Status :=
  (List.range lgCount).foldl (fun status lgId => if status = .ok then env.commit lgId else status) status

/-- `DBTable::Init`: the opened table and `OK`, or no table and the status that stopped it. The
group sequence numbers start `last_sequence_` and the smallest of them starts the logs. -/
def DBTable.init (env : RecoverEnv) (d : DurableTable) : Option DBTable × Status :=
  let s := recoverTables env 0 d.lgs
  if s ≠ .ok then (none, s)
  else
    let minLogSequence := (d.lgs.map Prod.fst).foldl min kMaxSequenceNumber
    let lastSequence := (d.lgs.map Prod.fst).foldl max 0
    let recovery : Recovery := ⟨lastSequence, d.lgs.map fun (last, entries) => ⟨last, 0, entries⟩⟩
    let (logfiles, s) := gatherLogFile env (minLogSequence + 1) (d.logs.map Prod.fst)
    let (recovery, s) := if s = .ok then recoverLogFiles env d recovery s logfiles else (recovery, s)
    let s := dumpToLevel0 env d.lgs.length s
    let s := if s = .ok then deleteLogFile env logfiles else s
    let s := if s = .ok then env.newLog else s
    let s := commitGroups env d.lgs.length s
    if s = .ok then
      (some ⟨recovery.lastSequence, recovery.lgs.map RecoverLG.entries, .ok⟩, .ok)
    else (none, s)

/-! ## What decides the status `Init` returns -/

/-- The dump loop leaves the status of the last group's dump. -/
theorem dumpToLevel0_of_pos (env : RecoverEnv) {lgCount : Nat} (positive : 0 < lgCount)
    (status : Status) : dumpToLevel0 env lgCount status = env.dumpToLevel0 (lgCount - 1) := by
  obtain ⟨groups, rfl⟩ : ∃ groups, lgCount = groups + 1 := Nat.exists_eq_add_one.mpr positive
  rw [dumpToLevel0, List.range_succ, List.foldl_append, List.foldl_cons, List.foldl_nil,
    Nat.add_sub_cancel]

theorem deleteLogFile_ok {env : RecoverEnv} (deleted : ∀ number, env.deleteLog number = .ok)
    (logNumbers : List Nat) : deleteLogFile env logNumbers = .ok := by
  unfold deleteLogFile
  -- a step from OK deletes one log and stays at OK, whichever branch it takes
  refine List.foldl_fixed' (fun ⟨number, i⟩ => ?_) _
  simp only [if_pos, deleted]
  split_ifs <;> simp [maybeIgnoreError]

/-- A file system and groups on which every call `Init` makes succeeds. -/
def healthyEnv : RecoverEnv where
  paranoidChecks := false
  recoverLG _ := .ok
  getChildren := .ok
  openLog _ := .ok
  insertMem _ _ := .ok
  dumpToLevel0 _ := .ok
  deleteLog _ := .ok
  newLog := .ok
  commit _ := .ok

/-- The same, but listing the table's directory fails. -/
def gatherFails : RecoverEnv := { healthyEnv with getChildren := .ioError "GetChildren" }

/-- One record, written through `DBTable::Write` to a table of one group. -/
def loggedBatch : List BatchRecord := [.put [107] [118]]

/-- The durable state after that write returned OK and the process stopped: the group's tables
hold nothing, and the log numbered 1 holds the batch the write numbered from sequence 1. -/
def oneLogTable : DurableTable := ⟨[(0, [])], [(1, [((ofRecords loggedBatch).setSequence 1).rep])]⟩

/-- A write acknowledged with OK is recovered when every call succeeds, but when listing the
directory fails `Init` still returns OK, with the group missing the write. -/
theorem init_gatherLogFile_failure_drops_write :
    (⟨0, [[]], .ok⟩ : DBTable).write (ofRecords loggedBatch) ⟨.ok, fun _ => .ok⟩ =
        (⟨1, [numbered 1 loggedBatch], .ok⟩, .ok) ∧
      DBTable.init healthyEnv oneLogTable = (some ⟨1, [numbered 1 loggedBatch], .ok⟩, .ok) ∧
      DBTable.init gatherFails oneLogTable = (some ⟨0, [[]], .ok⟩, .ok) := by
  decide

end Tera.LevelDB
