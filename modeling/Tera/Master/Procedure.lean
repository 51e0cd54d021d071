import Tera.Master.Table

/-! # Splitting and merging tablets: `SplitTabletProcedure` and `MergeTabletProcedure`

A split takes its key from the request, checked by `PreSplitTabletPhaseHandler`, or else from the
tablet node's `ComputeSplitKey`, where `TabletIO::Split` checks the key it found; it then unloads the
tablet, checks its directory, writes the two halves to the meta table (`UpdateMeta`) and, once the
write is done, replaces the tablet by them (`UpdateMetaDone`, `Table::SplitTablet`).

A merge is proposed by `MasterImpl::TryMergeTablet`, whose `TabletManager::PickMergeTablet` pairs a
tablet with a neighbour in `tablets_list_`. The procedure's constructor goes on with any two ready
tablets one of which ends where the other starts; it then unloads both, writes the merged tablet to
the meta table (`UpdateMeta`) and replaces the two (`MergeUpdateMetaDone`, `Table::MergeTablets`).

Each procedure is taken here from its start to its end, as the change it makes to the table: the
phases in between touch no table state. Whether the unloads and the directory checks succeed, and
what the node answers, are inputs. `none` is a failed `CHECK` or a `FATAL` log: the master aborts.
-/

namespace Tera.Master

open Tera.Lib Tera.RawKey

/-- The check `TabletIO::Split` makes of the key it found before the node returns it. -/
def tabletIOSplitKeyValid (startKey endKey splitKey : Bytes) : Bool :=
  !splitKey.isEmpty && decide (startKey < splitKey) && (endKey.isEmpty || decide (splitKey < endKey))

/-- The split key a `SplitTabletProcedure` goes on with: the request's key where there is one,
unless `PreSplitTabletPhaseHandler` rejects it, or else the key the tablet node found (`none`: the
RPC failed), unless `TabletIO::Split` rejects it. `none` ends the procedure. -/
def splitKeyOf (tablet : Tablet) (requested : Bytes) (computed : Option Bytes) : Option Bytes :=
  if !requested.isEmpty then
    if (!tablet.keyStart.isEmpty && decide (requested ≤ tablet.keyStart)) ||
        (!tablet.keyEnd.isEmpty && decide (tablet.keyEnd ≤ requested)) then none
    else some requested
  else computed.bind fun key =>
    if tabletIOSplitKeyValid tablet.keyStart tablet.keyEnd key then some key else none

/-- What a split finds on the way, besides its key: whether the tablet is `kTabletOffline` once
its `UnloadTabletProcedure` is done, and whether `TabletStatusCheck` passes. -/
structure SplitEnv where
  computedKey : Option Bytes
  unloaded : Bool
  statusChecked : Bool

/-- A new tablet from `UpdateMeta`: the meta of `tablet` over a new range and path, offline, with
no inherited files and nothing reported. -/
def childTablet (tablet : Tablet) (keyStart keyEnd : Bytes) (number : Nat) (dataSize : Int) :
    Tablet :=
  { tablet with
    keyStart := keyStart
    keyEnd := keyEnd
    number := number
    dataSize := dataSize
    status := .kTabletOffline
    inhFiles := []
    gcReported := false }

@[simp] theorem childTablet_keyStart (tablet : Tablet) (keyStart keyEnd : Bytes) (number : Nat)
    (dataSize : Int) : (childTablet tablet keyStart keyEnd number dataSize).keyStart = keyStart := rfl

/-- `SplitTabletProcedure::UpdateMeta`: the two halves, numbered by `GetNextTabletNo`. -/
def splitUpdateMeta (table : Table) (tablet : Tablet) (splitKey : Bytes) :
    Table × Tablet × Tablet :=
  let dataSize := tablet.dataSize.tdiv 2
  ({ table with maxTabletNo := table.maxTabletNo + 2 },
    childTablet tablet tablet.keyStart splitKey (table.maxTabletNo + 1) dataSize,
    childTablet tablet splitKey tablet.keyEnd (table.maxTabletNo + 2) dataSize)

/-- A `SplitTabletProcedure` on a tablet of the table, from its constructor to `UpdateMetaDone`:
the table unchanged where the procedure gives up. -/
def splitTabletProcedure (table : Table) (tablet : Tablet) (requested : Bytes) (env : SplitEnv) :
    Option Table :=
  if tablet.status ≠ .kTabletReady then some table
  else match splitKeyOf tablet requested env.computedKey with
    | none => some table
    | some splitKey =>
      if !env.unloaded || !env.statusChecked then some table
      else
        let (table, first, second) := splitUpdateMeta table tablet splitKey
        table.splitTablet tablet first second

/-- The check of `MergeTabletProcedure`'s constructor: both tablets ready, and one of them ending
where the other starts. -/
def mergePeersAccepted (first second : Tablet) : Bool :=
  first.status == .kTabletReady && second.status == .kTabletReady &&
    !(first.keyEnd != second.keyStart && second.keyEnd != first.keyStart)

/-- `MergeTabletProcedure::UpdateMeta`: the merged tablet, from the meta of the tablet whose range
comes first, ending where the other one ends; `none` where the source logs `FATAL`. -/
def mergeUpdateMeta (table : Table) (first second : Tablet) : Option (Table × Tablet) :=
  let number := table.maxTabletNo + 1
  let dataSize := first.dataSize + second.dataSize
  let table := { table with maxTabletNo := number }
  if first.keyStart = second.keyEnd ∧ first.keyStart ≠ [] then
    some (table, childTablet second second.keyStart first.keyEnd number dataSize)
  else if first.keyEnd = second.keyStart then
    some (table, childTablet first first.keyStart second.keyEnd number dataSize)
  else none

/-- `MergeTabletProcedure::MergeUpdateMetaDone`: `Table::MergeTablets` on the two tablets, the one
the merged tablet starts with first. -/
def mergeUpdateMetaDone (table : Table) (first second merged : Tablet) : Option Table :=
  if first.keyStart = merged.keyStart then table.mergeTablets first second merged
  else table.mergeTablets second first merged

/-- What a merge finds on the way: whether both tablets are `kTabletOffline` once their
`UnloadTabletProcedure`s are done, and whether `TabletStateCheck` passes. -/
structure MergeEnv where
  unloaded : Bool
  stateChecked : Bool

/-- A `MergeTabletProcedure` on two tablets of the table, from its constructor to
`MergeUpdateMetaDone`: the table unchanged where the procedure gives up. -/
def mergeTabletProcedure (table : Table) (first second : Tablet) (env : MergeEnv) : Option Table :=
  if !mergePeersAccepted first second || !env.unloaded || !env.stateChecked then some table
  else (mergeUpdateMeta table first second).bind fun (table, merged) =>
    mergeUpdateMetaDone table first second merged

/-- The state of the tablets and nodes `PickMergeTablet` reads besides the table. -/
structure PickEnv where
  isBusy : Tablet → Bool
  nodeDown : Tablet → Bool
  writeWorkloadHigh : Tablet → Bool
  inTransition : Tablet → Bool

/-- The neighbour `PickMergeTablet` pairs the tablet at `index` with: the next one for the first
tablet, the previous one for the last, and otherwise the smaller of the two. -/
def mergeNeighbour (tabletsList : List (Bytes × Tablet)) (index : Nat) : Option Tablet :=
  if index = 0 then (tabletsList[1]?).map Prod.snd
  else if index + 1 = tabletsList.length then (tabletsList[index - 1]?).map Prod.snd
  else (tabletsList[index - 1]?).bind fun prev => (tabletsList[index + 1]?).map fun next =>
    if prev.2.dataSize > next.2.dataSize then next.2 else prev.2

/-- `TabletManager::PickMergeTablet`: the peer to merge the tablet with, if the tablet and the
peer can be merged now. -/
def pickMergeTablet (env : PickEnv) (tabletsList : List (Bytes × Tablet)) (tablet : Tablet) :
    Option Tablet :=
  if env.isBusy tablet || env.nodeDown tablet || tabletsList.length < 2 then none
  else (tabletsList.findIdx? fun entry => entry.1 == tablet.keyStart).bind fun index =>
    (mergeNeighbour tabletsList index).bind fun peer =>
      if peer.dataSize < 0 || peer.status != .kTabletReady || env.isBusy peer ||
          env.writeWorkloadHigh peer || env.inTransition peer then none
      else some peer

/-- `MasterImpl::TryMergeTablet`: a `MergeTabletProcedure` on the tablet and the peer picked for
it; the table unchanged where there is none. -/
def tryMergeTablet (pickEnv : PickEnv) (table : Table) (tablet : Tablet) (env : MergeEnv) :
    Option Table :=
  match pickMergeTablet pickEnv table.tabletsList tablet with
  | none => some table
  | some peer => mergeTabletProcedure table tablet peer env

end Tera.Master
