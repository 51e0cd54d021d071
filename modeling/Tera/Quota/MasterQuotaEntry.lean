import Mathlib

/-! # Table quotas on the master and on a tablet node

The master keeps the quota of each table that has one (`table_quotas_list_`) and, for each tablet
node, the table quotas the node has still to install (`delta_ts_table_quotas_list_`). A change of
a table's quota, or of where its tablets are, recomputes the table's share on the nodes
(`AddDeltaQuota`): a node hosting `k` of the table's `n` tablets gets each positive limit as
`ceil(limit / n) * k`, and a node with no entry in the delta yet gets the unlimited quota. Each
change moves the quota version on and marks it to be sent. A query to a tablet node carries the
node's entries and the version (`BuildReq`); the node resets its limiters to them and adopts the
version (`QuotaEntry::Update`).

Table names and node addresses are any types with decidable equality. The delta's inner maps are
association lists, so that `BuildReq` can list them. `std::ceil` of the double quotient is the
integer ceiling, which it is for limits below `2 ^ 53`. A meta record's table name is the one in
its `TableQuota`, as `NewMetaRecordFromQuota` writes it. Flow control and the dfs limits are not
modelled.
-/

namespace Tera.Quota

/-- `QuotaOperationType`. -/
inductive QuotaOperationType where
  | kQuotaWriteReqs
  | kQuotaWriteBytes
  | kQuotaReadReqs
  | kQuotaReadBytes
  | kQuotaScanReqs
  | kQuotaScanBytes
deriving DecidableEq, Repr

/-- `QuotaInfo`: the limit of one kind of operation per period. -/
structure QuotaInfo where
  type : QuotaOperationType
  limit : Int
  period : Int
deriving DecidableEq, Repr

/-- `TableQuota::TableQuotaType`. -/
inductive TableQuotaType where
  | kSetQuota
  | kDelQuota
deriving DecidableEq, Repr

/-- `TableQuota`. -/
structure TableQuota (Table : Type) where
  tableName : Table
  quotaInfos : List QuotaInfo
  type : TableQuotaType
deriving DecidableEq, Repr

/-- `QuotaUpdateStatus`. -/
inductive QuotaUpdateStatus where
  | WaitUpdate
  | Updating
  | FinishUpdated
deriving DecidableEq, Repr

variable {Node Table : Type}

/-- `CompareAndSetQuotaInfo`: the target's infos of the type of `quotaInfo` take its limit and
period; whether one of them changed. -/
def compareAndSetQuotaInfo (quotaInfo : QuotaInfo) (target : List QuotaInfo) :
    Bool × List QuotaInfo :=
  (target.any fun info => info.type == quotaInfo.type &&
      (info.limit != quotaInfo.limit || info.period != quotaInfo.period),
    target.map fun info =>
      if info.type = quotaInfo.type then { info with limit := quotaInfo.limit, period := quotaInfo.period }
      else info)

/-- The loop of `MergeTableQuota` over the new infos. -/
def mergeQuotaInfos (quotaInfos target : List QuotaInfo) : Bool × List QuotaInfo :=
  quotaInfos.foldl (fun (foundDelta, target) quotaInfo =>
    let (changed, target) := compareAndSetQuotaInfo quotaInfo target
    (foundDelta || changed, target)) (false, target)

/-- `MasterQuotaHelper::MergeTableQuota`: the stored quota with the limits and periods of the new
one for the kinds it already has; whether it changed. A kind it does not have is not added. -/
def mergeTableQuota (tableQuota target : TableQuota Table) : Bool × TableQuota Table :=
  let (foundDelta, quotaInfos) := mergeQuotaInfos tableQuota.quotaInfos target.quotaInfos
  (foundDelta, { target with quotaInfos })

/-- The quota with each positive limit mapped by `f`. -/
def TableQuota.mapPositiveLimits (f : Int → Int) (tableQuota : TableQuota Table) :
    TableQuota Table :=
  { tableQuota with
    quotaInfos := tableQuota.quotaInfos.map fun info =>
      if info.limit > 0 then { info with limit := f info.limit } else info }

/-- The unlimited copy of a quota that `AddDeltaQuota` gives a node without the table: every
limit and period `-1`. -/
def TableQuota.unlimited (tableQuota : TableQuota Table) : TableQuota Table :=
  { tableQuota with
    quotaInfos := tableQuota.quotaInfos.map fun info => { info with limit := -1, period := -1 } }

/-- The entry of a dropped table: `kDelQuota` and no infos. -/
def TableQuota.drop (tableName : Table) : TableQuota Table := ⟨tableName, [], .kDelQuota⟩

@[simp] theorem TableQuota.mapPositiveLimits_tableName (f : Int → Int) (tableQuota : TableQuota Table) :
    (tableQuota.mapPositiveLimits f).tableName = tableQuota.tableName := rfl

@[simp] theorem TableQuota.unlimited_tableName (tableQuota : TableQuota Table) :
    tableQuota.unlimited.tableName = tableQuota.tableName := rfl

@[simp] theorem mergeTableQuota_tableName (tableQuota target : TableQuota Table) :
    (mergeTableQuota tableQuota target).2.tableName = target.tableName := rfl

/-- The share of a table on a node hosting `count` of the table's tablets: the per-tablet quota
with each positive limit times `count`. -/
def nodeShare (tabletQuota : TableQuota Table) (count : Nat) : TableQuota Table :=
  tabletQuota.mapPositiveLimits (· * count)

@[simp] theorem nodeShare_tableName (tabletQuota : TableQuota Table) (count : Nat) :
    (nodeShare tabletQuota count).tableName = tabletQuota.tableName := rfl

/-- The delta of one node: the table quotas it has still to install, by table. -/
abbrev NodeDelta (Table : Type) := AList fun _ : Table => TableQuota Table

section Delta

variable [DecidableEq Node] [DecidableEq Table]

/-- `Table::GetTsAddrTabletsCount`: each node that hosts tablets of a table, with how many, from
the nodes of its tablets. -/
def getTsAddrTabletsCount (servers : List Node) : List (Node × Nat) :=
  servers.dedup.map fun addr => (addr, servers.count addr)

/-- `MasterQuotaEntry::AddDeltaQuota`, for a table found with its tablets on `servers` (`none` when
`FindTable` fails) and the quota stored for it. -/
def addDeltaQuota (tablets : Option (List Node)) (allTsAddr : List Node) (tableName : Table)
    (tableQuota : TableQuota Table) (delta : Node → NodeDelta Table) : Node → NodeDelta Table :=
  match tablets with
  | none => delta
  | some servers =>
    let tabletQuota :=
      tableQuota.mapPositiveLimits fun limit => (limit + servers.length - 1) / servers.length
    let delta := (getTsAddrTabletsCount servers).foldl (fun delta (addr, count) =>
      Function.update delta addr ((delta addr).insert tableName (nodeShare tabletQuota count)))
      delta
    -- the test is whether the node has any entry, not one for this table
    allTsAddr.foldl (fun delta addr =>
      if (delta addr).entries.isEmpty then
        Function.update delta addr ((delta addr).insert tableName tabletQuota.unlimited)
      else delta) delta

/-- `MasterQuotaEntry::AddDeltaDropQuota`: the nodes hosting the table's tablets are told to drop
its quota. -/
def addDeltaDropQuota (tablets : Option (List Node)) (tableName : Table)
    (delta : Node → NodeDelta Table) : Node → NodeDelta Table :=
  match tablets with
  | none => delta
  | some servers => (getTsAddrTabletsCount servers).foldl (fun delta (addr, _) =>
      Function.update delta addr ((delta addr).insert tableName (TableQuota.drop tableName))) delta

end Delta

/-- The part of `MasterQuotaEntry` the quota updates use, with `version_recorder_`'s version and
need-update flag. -/
structure MasterQuotaEntry (Node Table : Type) where
  tableQuotasList : Table → Option (TableQuota Table)
  deltaTsTableQuotasList : Node → NodeDelta Table
  quotaUpdateStatus : QuotaUpdateStatus
  version : Nat
  needUpdate : Bool

/-- A `QueryRequest`'s quota part: the table quotas, and the quota version when it has one. -/
structure QueryRequest (Table : Type) where
  tableQuotas : List (TableQuota Table)
  quotaVersion : Option Nat
deriving DecidableEq, Repr

namespace MasterQuotaEntry

/-- The constructed entry: no quotas, nothing to send, and version 1. -/
def new : MasterQuotaEntry Node Table :=
  ⟨fun _ => none, fun _ => ∅, .FinishUpdated, 1, false⟩

/-- `SwitchWaitingUpdateStatus`, with `PrepareUpdate`: a new version, to be sent. -/
def switchWaitingUpdateStatus (entry : MasterQuotaEntry Node Table) : MasterQuotaEntry Node Table :=
  { entry with quotaUpdateStatus := .WaitUpdate, version := entry.version + 1, needUpdate := true }

variable [DecidableEq Node] [DecidableEq Table]

/-- The quota `AddRecord` stores for a table, and whether it differs from the one stored before:
a new table's quota as it is, a known table's merged into the stored one. -/
def storedQuota (entry : MasterQuotaEntry Node Table) (tableQuota : TableQuota Table) :
    Bool × TableQuota Table :=
  match entry.tableQuotasList tableQuota.tableName with
  | none => (true, tableQuota)
  | some current => mergeTableQuota tableQuota current

/-- `MasterQuotaEntry::AddRecord` of a table quota read from a meta record, with the tablet
manager's `FindTable` and the tablet node manager's nodes: the quota is stored, and a change
recomputes the table's shares. -/
def addRecord (entry : MasterQuotaEntry Node Table) (findTable : Table → Option (List Node))
    (allTsAddr : List Node) (tableQuota : TableQuota Table) : MasterQuotaEntry Node Table :=
  let tableName := tableQuota.tableName
  let (foundDelta, stored) := entry.storedQuota tableQuota
  let entry := { entry with
    tableQuotasList := Function.update entry.tableQuotasList tableName (some stored) }
  if foundDelta then
    { entry.switchWaitingUpdateStatus with
      deltaTsTableQuotasList := addDeltaQuota (findTable tableName) allTsAddr tableName stored
        entry.deltaTsTableQuotasList }
  else entry

/-- `MasterQuotaEntry::DelRecord`: the quota of a table that has one is removed and its nodes
told to drop it. -/
def delRecord (entry : MasterQuotaEntry Node Table) (findTable : Table → Option (List Node))
    (tableName : Table) : Bool × MasterQuotaEntry Node Table :=
  match entry.tableQuotasList tableName with
  | none => (false, entry)
  | some _ =>
    (true, { entry.switchWaitingUpdateStatus with
      tableQuotasList := Function.update entry.tableQuotasList tableName none
      deltaTsTableQuotasList := addDeltaDropQuota (findTable tableName) tableName
        entry.deltaTsTableQuotasList })

/-- `MasterQuotaEntry::CaculateDeltaQuota`, after a tablet of the table was loaded. -/
def caculateDeltaQuota (entry : MasterQuotaEntry Node Table) (findTable : Table → Option (List Node))
    (allTsAddr : List Node) (tableName : Table) : MasterQuotaEntry Node Table :=
  match entry.tableQuotasList tableName with
  | none => entry
  | some tableQuota =>
    { entry.switchWaitingUpdateStatus with
      deltaTsTableQuotasList := addDeltaQuota (findTable tableName) allTsAddr tableName tableQuota
        entry.deltaTsTableQuotasList }

/-- `MasterQuotaEntry::BuildReq`: while a version is to be sent, the node's entries and the
version, and the update is under way. -/
def buildReq (entry : MasterQuotaEntry Node Table) (tsAddr : Node) :
    QueryRequest Table × MasterQuotaEntry Node Table :=
  if entry.needUpdate then
    (⟨(entry.deltaTsTableQuotasList tsAddr).entries.map Sigma.snd, some entry.version⟩,
      { entry with quotaUpdateStatus := .Updating })
  else (⟨[], none⟩, entry)

/-- `MasterQuotaEntry::ClearDeltaQuota`: the delta is dropped unless a change came after the last
request was built. -/
def clearDeltaQuota (entry : MasterQuotaEntry Node Table) : Bool × MasterQuotaEntry Node Table :=
  if entry.quotaUpdateStatus = .Updating then
    (true, { entry with quotaUpdateStatus := .FinishUpdated, deltaTsTableQuotasList := fun _ => ∅ })
  else (false, entry)

/-- `MasterQuotaEntry::SyncVersion`. -/
def syncVersion (entry : MasterQuotaEntry Node Table) (updated : Bool) :
    MasterQuotaEntry Node Table :=
  { entry with needUpdate := updated }

end MasterQuotaEntry

/-- The quota part of a tablet node's `QuotaEntry`: the quota each table's limiter was last reset
to, and `version_recorder_`'s version. -/
structure QuotaEntry (Table : Type) where
  tableQuotas : Table → Option (TableQuota Table)
  version : Nat

/-- What a limiter holds after a reset to a table quota: nothing for a dropped table. -/
def TableQuota.resetValue (tableQuota : TableQuota Table) : Option (TableQuota Table) :=
  if tableQuota.type = .kDelQuota then none else some tableQuota

namespace QuotaEntry

/-- A node before any query: version 0 and no limiters. -/
def new : QuotaEntry Table := ⟨fun _ => none, 0⟩

variable [DecidableEq Table]

/-- `QuotaLimiterContainer::ResetQuota`: a dropped table's limiter is removed, any other table's
created if missing and reset to the quota. The limiter type is the configured one, so creating it
does not fail. -/
def resetQuota (tableQuotas : Table → Option (TableQuota Table)) (tableQuota : TableQuota Table) :
    Table → Option (TableQuota Table) :=
  Function.update tableQuotas tableQuota.tableName tableQuota.resetValue

/-- `QuotaEntry::Update`: a request with a quota version resets the tables it carries and adopts
the version; the response carries the node's version. -/
def update (entry : QuotaEntry Table) (request : QueryRequest Table) : QuotaEntry Table × Nat :=
  match request.quotaVersion with
  | none => (entry, entry.version)
  | some quotaVersion =>
    (⟨request.tableQuotas.foldl resetQuota entry.tableQuotas, quotaVersion⟩, quotaVersion)

end QuotaEntry

/-! ## What the updates keep -/

/-- Every entry of a node's delta is the quota of the table it is filed under. -/
def DeltaNamed (delta : NodeDelta Table) : Prop :=
  ∀ entry ∈ delta.entries, entry.2.tableName = entry.1

/-- Every table quota the master stores, and every one in its delta, is filed under its own table. -/
structure MasterQuotaEntry.WellNamed (entry : MasterQuotaEntry Node Table) : Prop where
  listNamed : ∀ tableName tableQuota, entry.tableQuotasList tableName = some tableQuota →
    tableQuota.tableName = tableName
  deltaNamed : ∀ addr, DeltaNamed (entry.deltaTsTableQuotasList addr)

/-- What any operation of the master does to the version and the delta: it keeps the version, and
keeps or empties each node's delta, or it moves the version on. -/
def MasterQuotaEntry.Follows (entry next : MasterQuotaEntry Node Table) : Prop :=
  next.version = entry.version ∧
      (∀ node, next.deltaTsTableQuotasList node = entry.deltaTsTableQuotasList node ∨
        (next.deltaTsTableQuotasList node).entries = []) ∨
    next.version = entry.version + 1

/-- A node holds the entries of a delta: each table's limiter was last reset to its entry. -/
def QuotaEntry.Holds (entry : QuotaEntry Table) (delta : NodeDelta Table) : Prop :=
  ∀ quota ∈ delta.entries, entry.tableQuotas quota.2.tableName = quota.2.resetValue

section Named

variable [DecidableEq Node] [DecidableEq Table]

theorem DeltaNamed.insert {delta : NodeDelta Table} (named : DeltaNamed delta) {tableName : Table}
    {tableQuota : TableQuota Table} (name : tableQuota.tableName = tableName) :
    DeltaNamed (delta.insert tableName tableQuota) := by
  intro entry member
  rw [AList.entries_insert, List.mem_cons] at member
  rcases member with rfl | kept
  · exact name
  · exact named entry ((List.kerase_sublist _ _).subset kept)

omit [DecidableEq Table] in
theorem deltaNamed_update {delta : Node → NodeDelta Table} (named : ∀ addr, DeltaNamed (delta addr))
    {node : Node} {nodeDelta : NodeDelta Table} (named' : DeltaNamed nodeDelta) :
    ∀ addr, DeltaNamed (Function.update delta node nodeDelta addr) := by
  intro addr
  rw [Function.update_apply]
  split
  · exact named'
  · exact named addr

theorem addDeltaQuota_named (tablets : Option (List Node)) (allTsAddr : List Node)
    {tableName : Table} {tableQuota : TableQuota Table} (name : tableQuota.tableName = tableName)
    {delta : Node → NodeDelta Table} (named : ∀ addr, DeltaNamed (delta addr)) :
    ∀ addr, DeltaNamed (addDeltaQuota tablets allTsAddr tableName tableQuota delta addr) := by
  cases tablets with
  | none => exact named
  | some servers =>
    -- each pass of either loop files a quota of the table under the table
    dsimp only [addDeltaQuota]
    refine List.foldlRecOn
      (motive := fun delta : Node → NodeDelta Table => ∀ addr, DeltaNamed (delta addr)) _ _ ?_ ?_
    · refine List.foldlRecOn
        (motive := fun delta : Node → NodeDelta Table => ∀ addr, DeltaNamed (delta addr)) _ _
        named ?_
      intro delta named' share _
      exact deltaNamed_update named' ((named' share.1).insert (by simpa using name))
    · intro delta named' addr _
      split
      · exact deltaNamed_update named' ((named' addr).insert (by simpa using name))
      · exact named'

theorem addDeltaDropQuota_named (tablets : Option (List Node)) (tableName : Table)
    {delta : Node → NodeDelta Table} (named : ∀ addr, DeltaNamed (delta addr)) :
    ∀ addr, DeltaNamed (addDeltaDropQuota tablets tableName delta addr) := by
  cases tablets with
  | none => exact named
  | some servers =>
    refine List.foldlRecOn
      (motive := fun delta : Node → NodeDelta Table => ∀ addr, DeltaNamed (delta addr)) _ _
      named ?_
    intro delta named' share _
    exact deltaNamed_update named' ((named' share.1).insert rfl)

end Named

namespace MasterQuotaEntry

theorem wellNamed_new : (new : MasterQuotaEntry Node Table).WellNamed where
  listNamed := by simp [new]
  deltaNamed := by
    intro addr quota member
    simp [new] at member

variable {entry : MasterQuotaEntry Node Table}

theorem storedQuota_tableName (named : entry.WellNamed) (tableQuota : TableQuota Table) :
    (entry.storedQuota tableQuota).2.tableName = tableQuota.tableName := by
  unfold storedQuota
  split
  · rfl
  · rename_i current found
    rw [mergeTableQuota_tableName]
    exact named.listNamed _ _ found

theorem follows_of_delta {next : MasterQuotaEntry Node Table} (version : next.version = entry.version)
    (delta : next.deltaTsTableQuotasList = entry.deltaTsTableQuotasList) : entry.Follows next :=
  .inl ⟨version, fun node => .inl (congrFun delta node)⟩

@[simp] theorem buildReq_fst (tsAddr : Node) :
    (entry.buildReq tsAddr).1 = if entry.needUpdate then
      ⟨(entry.deltaTsTableQuotasList tsAddr).entries.map Sigma.snd, some entry.version⟩
    else ⟨[], none⟩ := by
  unfold MasterQuotaEntry.buildReq
  split <;> rfl

@[simp] theorem buildReq_version (tsAddr : Node) : (entry.buildReq tsAddr).2.version = entry.version := by
  unfold MasterQuotaEntry.buildReq
  split <;> rfl

@[simp] theorem buildReq_deltaTsTableQuotasList (tsAddr : Node) :
    (entry.buildReq tsAddr).2.deltaTsTableQuotasList = entry.deltaTsTableQuotasList := by
  unfold MasterQuotaEntry.buildReq
  split <;> rfl

/-- Clearing the delta keeps the version and the stored quotas, and empties every node's delta or
none. -/
theorem clearDeltaQuota_spec :
    (entry.clearDeltaQuota).2.version = entry.version ∧
      (entry.clearDeltaQuota).2.tableQuotasList = entry.tableQuotasList ∧
      ((entry.clearDeltaQuota).2.deltaTsTableQuotasList = entry.deltaTsTableQuotasList ∨
        ∀ node, ((entry.clearDeltaQuota).2.deltaTsTableQuotasList node).entries = []) := by
  unfold MasterQuotaEntry.clearDeltaQuota
  split
  · exact ⟨rfl, rfl, .inr fun _ => rfl⟩
  · exact ⟨rfl, rfl, .inl rfl⟩

theorem WellNamed.buildReq (named : entry.WellNamed) (tsAddr : Node) :
    (entry.buildReq tsAddr).2.WellNamed := by
  unfold MasterQuotaEntry.buildReq
  split
  · exact ⟨named.listNamed, named.deltaNamed⟩
  · exact named

theorem WellNamed.syncVersion (named : entry.WellNamed) (updated : Bool) :
    (entry.syncVersion updated).WellNamed :=
  ⟨named.listNamed, named.deltaNamed⟩

theorem WellNamed.clearDeltaQuota (named : entry.WellNamed) : entry.clearDeltaQuota.2.WellNamed := by
  unfold MasterQuotaEntry.clearDeltaQuota
  split
  · refine ⟨named.listNamed, fun node quota member => ?_⟩
    cases member
  · exact named

/-- Clearing the delta, then marking whether to send again, is a step of the master. -/
theorem clearDeltaQuota_follows (updated : Bool) :
    entry.Follows (entry.clearDeltaQuota.2.syncVersion updated) := by
  obtain ⟨version, -, delta⟩ := @clearDeltaQuota_spec _ _ entry
  rcases delta with same | emptied
  · exact follows_of_delta version same
  · exact .inl ⟨version, fun node => .inr (emptied node)⟩

variable [DecidableEq Node] [DecidableEq Table]

theorem WellNamed.addRecord (named : entry.WellNamed) (findTable : Table → Option (List Node))
    (allTsAddr : List Node) (tableQuota : TableQuota Table) :
    (entry.addRecord findTable allTsAddr tableQuota).WellNamed := by
  have stored := storedQuota_tableName named tableQuota
  rcases found : entry.storedQuota tableQuota with ⟨foundDelta, quota⟩
  rw [found] at stored
  -- the stored quota is filed under its own table
  have listNamed : ∀ tableName stored, Function.update entry.tableQuotasList tableQuota.tableName
      (some quota) tableName = some stored → stored.tableName = tableName := by
    intro tableName kept member
    rw [Function.update_apply] at member
    split at member
    · cases member
      rw [stored, ‹tableName = tableQuota.tableName›]
    · exact named.listNamed _ _ member
  unfold MasterQuotaEntry.addRecord
  rw [found]
  dsimp only
  split
  · exact ⟨listNamed, addDeltaQuota_named _ _ stored named.deltaNamed⟩
  · exact ⟨listNamed, named.deltaNamed⟩

theorem WellNamed.delRecord (named : entry.WellNamed) (findTable : Table → Option (List Node))
    (tableName : Table) : (entry.delRecord findTable tableName).2.WellNamed := by
  unfold MasterQuotaEntry.delRecord
  split
  · exact named
  · refine ⟨?_, addDeltaDropQuota_named _ _ named.deltaNamed⟩
    intro name quota member
    dsimp only at member
    rw [Function.update_apply] at member
    split at member
    · cases member
    · exact named.listNamed _ _ member

theorem WellNamed.caculateDeltaQuota (named : entry.WellNamed)
    (findTable : Table → Option (List Node)) (allTsAddr : List Node) (tableName : Table) :
    (entry.caculateDeltaQuota findTable allTsAddr tableName).WellNamed := by
  unfold MasterQuotaEntry.caculateDeltaQuota
  split
  · exact named
  · exact ⟨named.listNamed,
      addDeltaQuota_named _ _ (named.listNamed _ _ ‹_›) named.deltaNamed⟩

theorem addRecord_follows (findTable : Table → Option (List Node)) (allTsAddr : List Node)
    (tableQuota : TableQuota Table) : entry.Follows (entry.addRecord findTable allTsAddr tableQuota) := by
  unfold MasterQuotaEntry.addRecord
  split
  split
  · exact .inr rfl
  · exact follows_of_delta rfl rfl

theorem delRecord_follows (findTable : Table → Option (List Node)) (tableName : Table) :
    entry.Follows (entry.delRecord findTable tableName).2 := by
  unfold MasterQuotaEntry.delRecord
  split
  · exact follows_of_delta rfl rfl
  · exact .inr rfl

theorem caculateDeltaQuota_follows (findTable : Table → Option (List Node)) (allTsAddr : List Node)
    (tableName : Table) : entry.Follows (entry.caculateDeltaQuota findTable allTsAddr tableName) := by
  unfold MasterQuotaEntry.caculateDeltaQuota
  split
  · exact follows_of_delta rfl rfl
  · exact .inr rfl

end MasterQuotaEntry

namespace QuotaEntry

variable [DecidableEq Table]

@[simp] theorem update_some (entry : QuotaEntry Table) (tableQuotas : List (TableQuota Table))
    (quotaVersion : Nat) :
    entry.update ⟨tableQuotas, some quotaVersion⟩ =
      (⟨tableQuotas.foldl resetQuota entry.tableQuotas, quotaVersion⟩, quotaVersion) := rfl

/-- Resetting the limiters of other tables leaves a table's limiter alone. -/
theorem foldl_resetQuota_of_not_mem (tableName : Table) :
    ∀ (tableQuotas : List (TableQuota Table)) (installed : Table → Option (TableQuota Table)),
      tableName ∉ tableQuotas.map TableQuota.tableName →
      tableQuotas.foldl resetQuota installed tableName = installed tableName
  | [], _, _ => rfl
  | tableQuota :: rest, installed, absent => by
    rw [List.map_cons, List.mem_cons, not_or] at absent
    rw [List.foldl_cons, foldl_resetQuota_of_not_mem tableName rest _ absent.2, resetQuota,
      Function.update_of_ne absent.1]

/-- After resetting the limiters to quotas of distinct tables, each holds its quota. -/
theorem foldl_resetQuota_holds :
    ∀ (tableQuotas : List (TableQuota Table)) (installed : Table → Option (TableQuota Table)),
      (tableQuotas.map TableQuota.tableName).Nodup → ∀ tableQuota ∈ tableQuotas,
      tableQuotas.foldl resetQuota installed tableQuota.tableName = tableQuota.resetValue
  | [], _, _, _, member => absurd member List.not_mem_nil
  | head :: rest, installed, distinct, tableQuota, member => by
    rw [List.map_cons, List.nodup_cons] at distinct
    rw [List.foldl_cons]
    rcases List.mem_cons.mp member with rfl | later
    · rw [foldl_resetQuota_of_not_mem _ rest _ distinct.1, resetQuota, Function.update_self]
    · exact foldl_resetQuota_holds rest _ distinct.2 tableQuota later

/-- A node that installs a delta's entries at a version holds them, at that version. -/
theorem update_holds (entry : QuotaEntry Table) {delta : NodeDelta Table} (named : DeltaNamed delta)
    (quotaVersion : Nat) :
    (entry.update ⟨delta.entries.map Sigma.snd, some quotaVersion⟩).1.version = quotaVersion ∧
      (entry.update ⟨delta.entries.map Sigma.snd, some quotaVersion⟩).1.Holds delta := by
  -- the tables of the entries are the delta's keys, which are distinct
  have names : (delta.entries.map Sigma.snd).map TableQuota.tableName = delta.keys := by
    rw [List.map_map, AList.keys, List.keys]
    exact List.map_congr_left fun quota member => named quota member
  refine ⟨rfl, fun quota member => ?_⟩
  exact foldl_resetQuota_holds _ _ (names ▸ delta.keys_nodup) quota.2 (List.mem_map_of_mem member)

end QuotaEntry

end Tera.Quota
