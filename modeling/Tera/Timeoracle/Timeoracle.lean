import Tera.Lib.Interleaving

/-! # The time oracle

`Timeoracle` hands out timestamps from the atomic `start_timestamp_` below the atomic
`limit_timestamp_`. `GetTimestamp(num)` takes `num` timestamps with a `fetch_add` and then checks
the limit; the main loop's `UpdateStartTimestamp` moves the start up to the clock, or down to the
limit when it has run past it, with `compare_exchange_strong`; `LeaseThread` persists a new limit
in the coordination service and then raises `limit_timestamp_` to it. A restarted server starts
from the larger of the persisted limit and the clock.

The server is a state of these threads, and each load, `fetch_add`, `compare_exchange_strong`,
persist and limit update is one step. Every run keeps the returned ranges below the persisted
limit and the ranges of a restarted server above those of the servers before it. Ranges of one
server can overlap: a `GetTimestamp` whose `fetch_add` ran past the limit can still pass its check
after `UpdateStartTimestamp` moved the start back down and the lease raised the limit.
-/

namespace Tera.TimeOracle

open Tera.Lib

/-- `kTimestampPerMilliSecond`. -/
def kTimestampPerMilliSecond : Nat := 10000

/-- `kTimestampPerSecond`. -/
def kTimestampPerSecond : Nat := kTimestampPerMilliSecond * 1000

/-- The lease flags in timestamps: `tera_timeoracle_refresh_lease_second` and
`tera_timeoracle_max_lease_second` times `kTimestampPerSecond`. -/
structure LeaseConfig where
  refreshLease : Nat
  maxLease : Nat

/-- The flags' defaults, 10 s and 30 s. -/
def LeaseConfig.default : LeaseConfig := ⟨10 * kTimestampPerSecond, 30 * kTimestampPerSecond⟩

/-- `Timeoracle`: its two atomics. -/
structure Timeoracle where
  startTimestamp : Nat
  limitTimestamp : Nat
deriving DecidableEq, Repr

/-- `Timeoracle::Timeoracle`. -/
def Timeoracle.new (startTimestamp : Nat) : Timeoracle := ⟨startTimestamp, 0⟩

/-- The limit check of `GetTimestamp` after its `fetch_add` returned `startTimestamp`: what the call
returns, `0` for a failure. -/
def Timeoracle.checkLimit (oracle : Timeoracle) (startTimestamp num : Nat) : Nat :=
  if startTimestamp + num ≥ oracle.limitTimestamp then 0 else startTimestamp

/-- `Timeoracle::UpdateLimitTimestamp`. -/
def Timeoracle.updateLimitTimestamp (oracle : Timeoracle) (limitTimestamp : Nat) : Timeoracle :=
  if limitTimestamp > oracle.limitTimestamp then { oracle with limitTimestamp } else oracle

/-- Where the main thread is in `UpdateStartTimestamp`, with the `CurrentTimestamp` it read on
entry: about to load `start_timestamp_`, having loaded it, having loaded `limit_timestamp_` too. -/
inductive UpdateStart
  | loadStart (cur : Nat)
  | loadedStart (cur start : Nat)
  | loadedLimit (cur start limit : Nat)
deriving DecidableEq, Repr

/-- A `GetTimestamp` call between its `fetch_add` and its limit check. -/
structure Caller where
  startTimestamp : Nat
  num : Nat
deriving DecidableEq, Repr

/-- A finished `GetTimestamp` call: the server start that answered it, what it returned and how
many timestamps it asked for. -/
structure Issued where
  epoch : Nat
  timestamp : Nat
  num : Nat
deriving DecidableEq, Repr

/-- The time oracle server: its `Timeoracle`, the timestamp persisted in the coordination service,
`TimeoracleEntry::startup_timestamp_`, where each thread is, how many times the server started
since the first, and what the finished calls returned. -/
structure TimeoracleEntry where
  oracle : Timeoracle
  persistedTimestamp : Nat
  startupTimestamp : Nat
  callers : List Caller
  updateStart : Option UpdateStart
  lease : Option Nat
  epoch : Nat
  issued : List Issued
deriving DecidableEq, Repr

/-- The steps of the server's threads. -/
inductive Action
  /-- An RPC handler's `fetch_add` of `num`. -/
  | getTimestamp (num : Nat)
  /-- The limit check of the call in flight at that position. -/
  | checkLimit (caller : Nat)
  /-- `Run` enters `UpdateStartTimestamp`, `CurrentTimestamp` reading `cur`. -/
  | updateStartTimestamp (cur : Nat)
  /-- The next load or `compare_exchange_strong` of `UpdateStartTimestamp`. -/
  | updateStartStep
  /-- A pass of `LeaseThread`: it reads the oracle and, when the lease is due, persists a new
  limit. -/
  | leasePersist
  /-- `LeaseThread`'s `UpdateLimitTimestamp` of the limit it persisted. -/
  | leaseUpdateLimit
  /-- A new server, `CurrentTimestamp` reading `clock`. -/
  | restart (clock : Nat)
deriving DecidableEq, Repr

/-- `TimeoracleEntry::Start` and `StartServer` on a server that reads `persisted` from the
coordination service and `clock` from the clock: the oracle starts at `startup_timestamp_`, the
larger of the two, and the RPC service is registered once the lease thread's first pass has
persisted and installed a limit `max_lease` above it. -/
def TimeoracleEntry.start (config : LeaseConfig) (persisted clock epoch : Nat)
    (issued : List Issued) : TimeoracleEntry :=
  let startupTimestamp := if persisted < clock then clock else persisted
  let limit := startupTimestamp + config.maxLease
  { oracle := (Timeoracle.new startupTimestamp).updateLimitTimestamp limit
    persistedTimestamp := limit
    startupTimestamp
    callers := []
    updateStart := none
    lease := none
    epoch
    issued }

/-- `start_timestamp_.compare_exchange_strong(expected, desired)` of `UpdateStartTimestamp`: on
success the call returns, on failure it loads the start again. -/
def TimeoracleEntry.compareExchangeStart (entry : TimeoracleEntry) (cur expected desired : Nat) :
    TimeoracleEntry :=
  if entry.oracle.startTimestamp = expected then
    { entry with oracle := { entry.oracle with startTimestamp := desired }, updateStart := none }
  else { entry with updateStart := some (.loadStart cur) }

/-- One step of a thread; `none` where no thread is at that step. -/
def TimeoracleEntry.step (config : LeaseConfig) (entry : TimeoracleEntry) :
    Action → Option TimeoracleEntry
  | .getTimestamp num =>
    some { entry with
      oracle := { entry.oracle with startTimestamp := entry.oracle.startTimestamp + num }
      callers := entry.callers ++ [⟨entry.oracle.startTimestamp, num⟩] }
  | .checkLimit index => do
    let caller ← entry.callers[index]?
    some { entry with
      callers := entry.callers.eraseIdx index
      issued := entry.issued ++
        [⟨entry.epoch, entry.oracle.checkLimit caller.startTimestamp caller.num, caller.num⟩] }
  | .updateStartTimestamp cur =>
    match entry.updateStart with
    | none => some { entry with updateStart := some (.loadStart cur) }
    | some _ => none
  | .updateStartStep =>
    match entry.updateStart with
    | none => none
    | some (.loadStart cur) =>
      some { entry with updateStart := some (.loadedStart cur entry.oracle.startTimestamp) }
    | some (.loadedStart cur start) =>
      if start < cur then some (entry.compareExchangeStart cur start cur)
      else some { entry with updateStart := some (.loadedLimit cur start entry.oracle.limitTimestamp) }
    | some (.loadedLimit cur start limit) =>
      if start > limit then some (entry.compareExchangeStart cur start limit)
      else some { entry with updateStart := none }
  | .leasePersist =>
    match entry.lease with
    | some _ => none
    | none =>
      let start := entry.oracle.startTimestamp
      let limit := entry.oracle.limitTimestamp
      if start + config.refreshLease ≥ limit then
        let next := (if limit < start then start else limit) + config.maxLease
        some { entry with persistedTimestamp := next, lease := some next }
      else some entry
  | .leaseUpdateLimit =>
    match entry.lease with
    | none => none
    | some next => some { entry with oracle := entry.oracle.updateLimitTimestamp next, lease := none }
  | .restart clock =>
    some (TimeoracleEntry.start config entry.persistedTimestamp clock (entry.epoch + 1) entry.issued)

/-! ## The small lemmas -/

theorem Timeoracle.checkLimit_ne_zero {oracle : Timeoracle} {startTimestamp num : Nat}
    (passed : oracle.checkLimit startTimestamp num ≠ 0) :
    oracle.checkLimit startTimestamp num = startTimestamp ∧
      startTimestamp + num < oracle.limitTimestamp := by
  unfold Timeoracle.checkLimit at *
  split at passed
  · exact absurd rfl passed
  · rw [if_neg ‹_›]
    exact ⟨rfl, by omega⟩

@[simp] theorem Timeoracle.updateLimitTimestamp_startTimestamp (oracle : Timeoracle)
    (limitTimestamp : Nat) :
    (oracle.updateLimitTimestamp limitTimestamp).startTimestamp = oracle.startTimestamp := by
  unfold Timeoracle.updateLimitTimestamp
  split <;> rfl

/-- The limit only grows, to the larger of the two. -/
theorem Timeoracle.updateLimitTimestamp_limitTimestamp (oracle : Timeoracle)
    (limitTimestamp : Nat) :
    (oracle.updateLimitTimestamp limitTimestamp).limitTimestamp =
      max oracle.limitTimestamp limitTimestamp := by
  unfold Timeoracle.updateLimitTimestamp
  split <;> simp only [Nat.max_def] <;> split <;> omega

namespace TimeoracleEntry

@[simp] theorem start_startupTimestamp (config : LeaseConfig) (persisted clock epoch : Nat)
    (issued : List Issued) :
    (start config persisted clock epoch issued).startupTimestamp =
      max persisted clock := by
  simp only [start, Nat.max_def]
  split <;> split <;> omega

@[simp] theorem start_startTimestamp (config : LeaseConfig) (persisted clock epoch : Nat)
    (issued : List Issued) :
    (start config persisted clock epoch issued).oracle.startTimestamp = max persisted clock := by
  rw [← start_startupTimestamp config persisted clock epoch issued]
  exact Timeoracle.updateLimitTimestamp_startTimestamp _ _

@[simp] theorem start_limitTimestamp (config : LeaseConfig) (persisted clock epoch : Nat)
    (issued : List Issued) :
    (start config persisted clock epoch issued).oracle.limitTimestamp =
      max persisted clock + config.maxLease := by
  rw [← start_startupTimestamp config persisted clock epoch issued]
  exact (Timeoracle.updateLimitTimestamp_limitTimestamp _ _).trans (Nat.zero_max _)

@[simp] theorem start_persistedTimestamp (config : LeaseConfig) (persisted clock epoch : Nat)
    (issued : List Issued) :
    (start config persisted clock epoch issued).persistedTimestamp =
      max persisted clock + config.maxLease := by
  rw [← start_startupTimestamp config persisted clock epoch issued]
  rfl

/-! ## What every run keeps -/

/-- What every run keeps: the installed limit is the persisted one unless the lease thread is
between its two steps; the start, the limit and every start in flight are at or above the
server's startup timestamp; the returned ranges lie below the persisted limit, those of earlier
servers below the startup timestamp and those of this server above it, and each server's ranges
above those of the servers before it. -/
structure Consistent (entry : TimeoracleEntry) : Prop where
  limit_le_persisted : entry.oracle.limitTimestamp ≤ entry.persistedTimestamp
  installed : entry.lease = none → entry.oracle.limitTimestamp = entry.persistedTimestamp
  lease_persisted : ∀ next, entry.lease = some next → next = entry.persistedTimestamp
  startup_le_limit : entry.startupTimestamp ≤ entry.oracle.limitTimestamp
  startup_le_start : entry.startupTimestamp ≤ entry.oracle.startTimestamp
  startup_le_loaded : ∀ cur start limit,
    entry.updateStart = some (.loadedLimit cur start limit) → entry.startupTimestamp ≤ limit
  callers_above : ∀ caller ∈ entry.callers, entry.startupTimestamp ≤ caller.startTimestamp
  epoch_le : ∀ issued ∈ entry.issued, issued.epoch ≤ entry.epoch
  issued_below : ∀ issued ∈ entry.issued, issued.timestamp ≠ 0 →
    issued.timestamp + issued.num < entry.persistedTimestamp
  earlier_below : ∀ issued ∈ entry.issued, issued.epoch < entry.epoch → issued.timestamp ≠ 0 →
    issued.timestamp + issued.num ≤ entry.startupTimestamp
  current_above : ∀ issued ∈ entry.issued, issued.epoch = entry.epoch → issued.timestamp ≠ 0 →
    entry.startupTimestamp ≤ issued.timestamp
  ordered : ∀ earlier ∈ entry.issued, ∀ later ∈ entry.issued, earlier.epoch < later.epoch →
    earlier.timestamp ≠ 0 → later.timestamp ≠ 0 → earlier.timestamp + earlier.num ≤ later.timestamp

/-- A server started after all the calls of `issued`, which lie below the persisted limit and in
order of their servers. -/
theorem consistent_start (config : LeaseConfig) (persisted clock epoch : Nat)
    (issued : List Issued) (earlier : ∀ old ∈ issued, old.epoch < epoch)
    (below : ∀ old ∈ issued, old.timestamp ≠ 0 → old.timestamp + old.num < persisted)
    (ordered : ∀ first ∈ issued, ∀ second ∈ issued, first.epoch < second.epoch →
      first.timestamp ≠ 0 → second.timestamp ≠ 0 → first.timestamp + first.num ≤ second.timestamp) :
    (start config persisted clock epoch issued).Consistent where
  limit_le_persisted := by simp
  installed _ := by simp
  lease_persisted _ leased := by simp [start] at leased
  startup_le_limit := by simp
  startup_le_start := by simp
  startup_le_loaded _ _ _ loaded := by simp [start] at loaded
  callers_above _ called := by simp [start] at called
  epoch_le old member := Nat.le_of_lt (earlier old member)
  issued_below old member passed := by
    have := below old member passed
    simp only [start_persistedTimestamp]
    omega
  earlier_below old member _ passed := by
    have := below old member passed
    simp only [start_startupTimestamp]
    omega
  current_above old member same := absurd same (Nat.ne_of_lt (earlier old member))
  ordered := ordered

namespace Consistent

variable {entry : TimeoracleEntry} (h : entry.Consistent)
include h

/-- A `fetch_add` moves the start up and puts the old start in flight. -/
theorem getTimestamp (num : Nat) :
    Consistent { entry with
      oracle := { entry.oracle with startTimestamp := entry.oracle.startTimestamp + num }
      callers := entry.callers ++ [⟨entry.oracle.startTimestamp, num⟩] } := by
  refine { h with startup_le_start := ?_, callers_above := ?_ }
  · exact Nat.le_add_right_of_le h.startup_le_start
  · intro caller member
    simp only [List.mem_append, List.mem_singleton] at member
    rcases member with old | rfl
    · exact h.callers_above caller old
    · exact h.startup_le_start

/-- A limit check returns the start of its call or `0`; a start it returns lies at or above the
startup timestamp and its range below the limit, so below the persisted limit. -/
theorem checkLimit {index : Nat} {caller : Caller} (found : entry.callers[index]? = some caller) :
    Consistent { entry with
      callers := entry.callers.eraseIdx index
      issued := entry.issued ++
        [⟨entry.epoch, entry.oracle.checkLimit caller.startTimestamp caller.num, caller.num⟩] } := by
  have above := h.callers_above caller (List.mem_of_getElem? found)
  refine { h with
    callers_above := ?_
    epoch_le := ?_
    issued_below := ?_
    earlier_below := ?_
    current_above := ?_
    ordered := ?_ }
  · intro other member
    exact h.callers_above other (List.mem_of_mem_eraseIdx member)
  · intro issued member
    simp only [List.mem_append, List.mem_singleton] at member
    rcases member with old | rfl
    · exact h.epoch_le issued old
    · exact Nat.le_refl _
  · intro issued member passed
    simp only [List.mem_append, List.mem_singleton] at member
    rcases member with old | rfl
    · exact h.issued_below issued old passed
    · obtain ⟨returned, below⟩ := Timeoracle.checkLimit_ne_zero passed
      rw [returned]
      exact Nat.lt_of_lt_of_le below h.limit_le_persisted
  · intro issued member earlier passed
    simp only [List.mem_append, List.mem_singleton] at member
    rcases member with old | rfl
    · exact h.earlier_below issued old earlier passed
    · exact absurd earlier (Nat.lt_irrefl _)
  · intro issued member same passed
    simp only [List.mem_append, List.mem_singleton] at member
    rcases member with old | rfl
    · exact h.current_above issued old same passed
    · rw [(Timeoracle.checkLimit_ne_zero passed).1]
      exact above
  · intro earlier earlierMember later laterMember before earlierPassed laterPassed
    simp only [List.mem_append, List.mem_singleton] at earlierMember laterMember
    rcases laterMember with laterOld | rfl
    · rcases earlierMember with earlierOld | rfl
      · exact h.ordered earlier earlierOld later laterOld before earlierPassed laterPassed
      · exact absurd (h.epoch_le later laterOld) (Nat.not_le_of_lt before)
    · -- the new range is this server's, and every earlier server's lies below its startup
      rcases earlierMember with earlierOld | rfl
      · rw [(Timeoracle.checkLimit_ne_zero laterPassed).1]
        exact Nat.le_trans (h.earlier_below earlier earlierOld before earlierPassed) above
      · exact absurd before (Nat.lt_irrefl _)

/-- A `compare_exchange_strong` that, where it succeeds, writes a start at or above the startup
timestamp. -/
theorem compareExchangeStart {cur expected desired : Nat}
    (above : entry.oracle.startTimestamp = expected → entry.startupTimestamp ≤ desired) :
    (entry.compareExchangeStart cur expected desired).Consistent := by
  unfold TimeoracleEntry.compareExchangeStart
  split
  case isTrue exchanged =>
    exact { h with
      startup_le_start := above exchanged
      startup_le_loaded := fun _ _ _ loaded => by simp at loaded }
  case isFalse =>
    exact { h with startup_le_loaded := fun _ _ _ loaded => by simp at loaded }

/-- The lease thread persists a limit `max_lease` above the larger of the start and the limit, so
at or above the persisted limit it replaces. -/
theorem leasePersist (config : LeaseConfig) (idle : entry.lease = none) :
    Consistent { entry with
      persistedTimestamp :=
        (if entry.oracle.limitTimestamp < entry.oracle.startTimestamp then
          entry.oracle.startTimestamp else entry.oracle.limitTimestamp) + config.maxLease
      lease := some ((if entry.oracle.limitTimestamp < entry.oracle.startTimestamp then
          entry.oracle.startTimestamp else entry.oracle.limitTimestamp) + config.maxLease) } := by
  have grows : entry.oracle.limitTimestamp ≤
      (if entry.oracle.limitTimestamp < entry.oracle.startTimestamp then
        entry.oracle.startTimestamp else entry.oracle.limitTimestamp) + config.maxLease := by
    split <;> omega
  have installed := h.installed idle
  refine { h with
    limit_le_persisted := grows
    installed := ?_
    lease_persisted := ?_
    issued_below := ?_ }
  · intro leased
    simp at leased
  · intro next leased
    simp only [Option.some.injEq] at leased
    exact leased.symm
  · intro issued member passed
    have below := h.issued_below issued member passed
    simp only
    omega

/-- The lease thread installs the limit it persisted, which is at least the limit it replaces. -/
theorem leaseUpdateLimit {next : Nat} (leased : entry.lease = some next) :
    Consistent { entry with oracle := entry.oracle.updateLimitTimestamp next, lease := none } := by
  have installedNow : (entry.oracle.updateLimitTimestamp next).limitTimestamp =
      entry.persistedTimestamp := by
    rw [Timeoracle.updateLimitTimestamp_limitTimestamp, h.lease_persisted next leased]
    exact Nat.max_eq_right h.limit_le_persisted
  refine { h with
    limit_le_persisted := Nat.le_of_eq installedNow
    installed := fun _ => installedNow
    lease_persisted := ?_
    startup_le_limit := ?_
    startup_le_start := ?_ }
  · intro next' leased'
    simp at leased'
  · rw [installedNow]
    exact Nat.le_trans h.startup_le_limit h.limit_le_persisted
  · rw [Timeoracle.updateLimitTimestamp_startTimestamp]
    exact h.startup_le_start

end Consistent

/-- Every step keeps the invariant. -/
theorem Consistent.step (config : LeaseConfig) {entry next : TimeoracleEntry} {action : Action}
    (h : entry.Consistent) (stepped : entry.step config action = some next) : next.Consistent := by
  cases action with
  | getTimestamp num =>
    cases stepped
    exact h.getTimestamp num
  | checkLimit index =>
    obtain ⟨caller, found, built⟩ := Option.bind_eq_some_iff.mp stepped
    cases built
    exact h.checkLimit found
  | updateStartTimestamp cur =>
    cases called : entry.updateStart with
    | none =>
      simp only [TimeoracleEntry.step, called, Option.some.injEq] at stepped
      subst stepped
      exact { h with startup_le_loaded := fun _ _ _ loaded => by simp at loaded }
    | some _ => simp [TimeoracleEntry.step, called] at stepped
  | updateStartStep =>
    cases called : entry.updateStart with
    | none => simp [TimeoracleEntry.step, called] at stepped
    | some pc =>
      cases pc with
      | loadStart cur =>
        simp only [TimeoracleEntry.step, called, Option.some.injEq] at stepped
        subst stepped
        exact { h with startup_le_loaded := fun _ _ _ loaded => by simp at loaded }
      | loadedStart cur start =>
        simp only [TimeoracleEntry.step, called] at stepped
        split at stepped
        case isTrue below =>
          -- moving up: the start exchanged is at or above the startup timestamp
          cases stepped
          exact h.compareExchangeStart fun exchanged =>
            Nat.le_of_lt (Nat.lt_of_le_of_lt (exchanged ▸ h.startup_le_start) below)
        case isFalse =>
          cases stepped
          -- the limit loaded now is the installed one, at or above the startup timestamp
          have loadedAbove : ∀ cur' start' limit',
              some (UpdateStart.loadedLimit cur start entry.oracle.limitTimestamp) =
                some (.loadedLimit cur' start' limit') → entry.startupTimestamp ≤ limit' := by
            intro cur' start' limit' loaded
            simp only [Option.some.injEq, UpdateStart.loadedLimit.injEq] at loaded
            rw [← loaded.2.2]
            exact h.startup_le_limit
          exact { h with startup_le_loaded := loadedAbove }
      | loadedLimit cur start limit =>
        simp only [TimeoracleEntry.step, called] at stepped
        split at stepped
        · -- moving down to a limit loaded in this server, at or above its startup timestamp
          cases stepped
          exact h.compareExchangeStart fun _ => h.startup_le_loaded cur start limit called
        · cases stepped
          exact { h with startup_le_loaded := fun _ _ _ loaded => by simp at loaded }
  | leasePersist =>
    cases leased : entry.lease with
    | some _ => simp [TimeoracleEntry.step, leased] at stepped
    | none =>
      simp only [TimeoracleEntry.step, leased] at stepped
      split at stepped
      · cases stepped
        exact h.leasePersist config leased
      · cases stepped
        exact h
  | leaseUpdateLimit =>
    cases leased : entry.lease with
    | none => simp [TimeoracleEntry.step, leased] at stepped
    | some limit =>
      simp only [TimeoracleEntry.step, leased, Option.some.injEq] at stepped
      subst stepped
      exact h.leaseUpdateLimit leased
  | restart clock =>
    cases stepped
    exact consistent_start config _ clock _ _
      (fun old member => Nat.lt_succ_of_le (h.epoch_le old member)) h.issued_below h.ordered

/-- Every run of a server started from the persisted limit and the clock keeps the invariant. -/
theorem consistent_runSteps (config : LeaseConfig) (persisted clock : Nat) (actions : List Action)
    {final : TimeoracleEntry}
    (ran : runSteps (step config) (start config persisted clock 0 []) actions = some final) :
    final.Consistent :=
  runSteps_invariant (step config) Consistent (fun _ _ _ h stepped => h.step config stepped)
    actions _ final (consistent_start config persisted clock 0 [] (by simp) (by simp) (by simp)) ran

/-! ## The returned ranges -/

/-- With the default lease flags, a server started at `1000000000` hands out timestamp
`1300000000` twice: a call takes `300000005` timestamps past the limit `1300000000`,
`UpdateStartTimestamp` moves the start back to the limit, the lease raises the limit to
`1600000000`, the call passes its check and a call for one timestamp gets `1300000000`. -/
theorem getTimestamp_overlaps_after_adjust :
    (runSteps (step LeaseConfig.default) (start LeaseConfig.default 1000000000 0 0 [])
      [.getTimestamp 300000005, .updateStartTimestamp 1, .updateStartStep, .updateStartStep,
        .updateStartStep, .leasePersist, .leaseUpdateLimit, .checkLimit 0, .getTimestamp 1,
        .checkLimit 0]).map issued =
      some [⟨0, 1000000000, 300000005⟩, ⟨0, 1300000000, 1⟩] := by
  decide +kernel

end TimeoracleEntry

end Tera.TimeOracle
