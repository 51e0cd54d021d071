import Tera.Lib.OrderedMap
import Tera.Key.RawKey

/-! # The master's view of a table: `Table`

For each table the master keeps `tablets_list_`, a `std::map` from a tablet's `key_start` to the
tablet, and the state of the trackable garbage collection of the files that tablets inherit from the
dead tablets they were split or merged from: `useful_inh_files_` (dead tablet → file → `ref`),
`gc_disabled_dead_tablets_`, `obsolete_inh_files_` and `reported_live_tablets_num_`.

`Table::SplitTablet` and `Table::MergeTablets` replace tablets in `tablets_list_` (erase by key,
then `operator[]` assignments) and pass the inherited files on, with the reference counts they
change; a failing `CHECK` aborts the master and is `none` here. `TabletManager::SearchTablet` and
`Table::FindOverlappedTablets` are the two key lookups over `tablets_list_`.

A tablet's path only matters through its number (`GetTabletNumFromPath`), which is kept in its
place; the counters, the locks, the schema and the tablet's node are left out.
-/

namespace Tera.Master

open Tera.Lib Tera.RawKey

/-- `TabletMeta::TabletStatus`. -/
inductive TabletStatus
  | kTabletNotInit | kTabletReady | kTabletLoading | kTabletOnSplit | kTabletMerged
  | kTabletSplitted | kTabletUnloading | kTabletOffline | kTabletLoadFail | kTabletUnloadFail
  | kTabletDisable | kTabletDelayOffline | kTabletUnloading2 | kTabletCorruption
  | kTabletManifestError
deriving DecidableEq, Repr

/-- `TabletFile`: an sst file of a dead tablet's directory, named by the dead tablet's number, the
locality group and the file's number. -/
structure TabletFile where
  tabletId : Nat
  lgId : Nat
  fileId : Nat
deriving DecidableEq, Repr

namespace TabletFile

/-- `TabletFile::operator<`: lexicographic on the tablet, the group and the file number. -/
def lt (file other : TabletFile) : Bool :=
  file.tabletId < other.tabletId || (file.tabletId == other.tabletId &&
    (file.lgId < other.lgId || (file.lgId == other.lgId && file.fileId < other.fileId)))

/-- The comparison a `std::map<TabletFile, _>` orders its entries by. -/
instance : Ord TabletFile :=
  ⟨fun file other => if file.lt other then .lt else if file = other then .eq else .gt⟩

end TabletFile

/-- `std::multiset<TabletFile>::insert`: the file goes after every file it is not below. -/
def insertFile (file : TabletFile) : List TabletFile → List TabletFile
  | [] => [file]
  | head :: rest => if file.lt head then file :: head :: rest else head :: insertFile file rest

/-- The master's record of a tablet (`Tablet`): its key range, the number of its path, its
status and data size, the inherited files it still reads (`inh_files_`, a multiset kept in order)
and whether it has reported them (`gc_reported_`). -/
structure Tablet where
  keyStart : Bytes
  keyEnd : Bytes
  number : Nat
  status : TabletStatus
  dataSize : Int
  inhFiles : List TabletFile
  gcReported : Bool
deriving DecidableEq, Repr

/-- `useful_inh_files_`: for each dead tablet, the reference count of each of its files still
referenced. -/
abbrev InheritedFiles := List (Nat × List (TabletFile × Nat))

/-- The master's state of one table (`Table`). -/
structure Table where
  tabletsList : List (Bytes × Tablet)
  usefulInhFiles : InheritedFiles
  obsoleteInhFiles : List TabletFile
  gcDisabledDeadTablets : List Nat
  reportedLiveTabletsNum : Nat
  maxTabletNo : Nat
deriving DecidableEq, Repr

/-- `useful_inh_files_[tablet_id]`, empty where the dead tablet has no entry. -/
def deadTabletFiles (useful : InheritedFiles) (tabletId : Nat) : List (TabletFile × Nat) :=
  (mapFind tabletId useful).getD []

/-- `useful_inh_files_[file.tablet_id][file].ref`, 0 where `operator[]` would create the entry. -/
def refOf (useful : InheritedFiles) (file : TabletFile) : Nat :=
  (mapFind file (deadTabletFiles useful file.tabletId)).getD 0

/-- Assign `useful_inh_files_[file.tablet_id][file].ref`, creating the entries as `operator[]`. -/
def setRef (useful : InheritedFiles) (file : TabletFile) (ref : Nat) : InheritedFiles :=
  mapAssign file.tabletId (mapAssign file ref (deadTabletFiles useful file.tabletId)) useful

/-- Every file is still referenced: the `CHECK_GT(file_info.ref, 0u)` made for each of them. -/
def allReferenced (useful : InheritedFiles) (files : List TabletFile) : Bool :=
  files.all fun file => 0 < refOf useful file

/-- The tablet with every file inserted into its `inh_files_`, in order. -/
def Tablet.inherit (tablet : Tablet) (files : List TabletFile) : Tablet :=
  { tablet with inhFiles := files.foldl (fun held file => insertFile file held) tablet.inhFiles }

@[simp] theorem Tablet.keyStart_inherit (tablet : Tablet) (files : List TabletFile) :
    (tablet.inherit files).keyStart = tablet.keyStart := rfl

@[simp] theorem Tablet.keyEnd_inherit (tablet : Tablet) (files : List TabletFile) :
    (tablet.inherit files).keyEnd = tablet.keyEnd := rfl

namespace Table

/-- `Table::MergeTablets`: the merged tablet takes both tablets' inherited files (their references
unchanged) and their place in `tablets_list_`; `none` when a `CHECK` fails. -/
def mergeTablets (table : Table) (first second merged : Tablet) : Option Table :=
  if first.keyStart = merged.keyStart ∧ second.keyEnd = merged.keyEnd ∧
      first.keyEnd = second.keyStart ∧
      allReferenced table.usefulInhFiles (first.inhFiles ++ second.inhFiles) then
    some { table with
      maxTabletNo := max table.maxTabletNo merged.number
      reportedLiveTabletsNum := table.reportedLiveTabletsNum - (if first.gcReported then 1 else 0) -
        (if second.gcReported then 1 else 0)
      tabletsList := mapStore merged.keyStart (merged.inherit (first.inhFiles ++ second.inhFiles))
        (mapErase second.keyStart (mapErase first.keyStart table.tabletsList)) }
  else none

/-- `Table::SplitTablet`: both halves inherit the tablet's files, each file one more reference, and
take its place in `tablets_list_`; `none` when a `CHECK` fails. -/
def splitTablet (table : Table) (splited first second : Tablet) : Option Table :=
  if splited.keyStart = first.keyStart ∧ splited.keyEnd = second.keyEnd ∧
      first.keyEnd = second.keyStart ∧ allReferenced table.usefulInhFiles splited.inhFiles then
    some { table with
      maxTabletNo := max (max table.maxTabletNo first.number) second.number
      usefulInhFiles := splited.inhFiles.foldl (fun useful file => setRef useful file (refOf useful file + 1))
        table.usefulInhFiles
      reportedLiveTabletsNum := table.reportedLiveTabletsNum - if splited.gcReported then 1 else 0
      tabletsList :=
        mapStore second.keyStart { second with inhFiles := splited.inhFiles }
          (mapStore first.keyStart { first with inhFiles := splited.inhFiles }
            (mapErase first.keyStart table.tabletsList)) }
  else none

/-- What `mergeTablets` does to `tablets_list_`, with the `CHECK`s on the key ranges it passed. -/
theorem tabletsList_mergeTablets {table table' : Table} {first second merged : Tablet}
    (done : table.mergeTablets first second merged = some table') :
    first.keyStart = merged.keyStart ∧ second.keyEnd = merged.keyEnd ∧
      first.keyEnd = second.keyStart ∧
      table'.tabletsList = mapStore merged.keyStart (merged.inherit (first.inhFiles ++ second.inhFiles))
        (mapErase second.keyStart (mapErase first.keyStart table.tabletsList)) := by
  unfold mergeTablets at done
  split at done
  · next checks =>
    cases done
    exact ⟨checks.1, checks.2.1, checks.2.2.1, rfl⟩
  · cases done

/-- What `splitTablet` does to `tablets_list_`, with the `CHECK`s on the key ranges it passed. -/
theorem tabletsList_splitTablet {table table' : Table} {splited first second : Tablet}
    (done : table.splitTablet splited first second = some table') :
    splited.keyStart = first.keyStart ∧ splited.keyEnd = second.keyEnd ∧
      first.keyEnd = second.keyStart ∧
      table'.tabletsList = mapStore second.keyStart { second with inhFiles := splited.inhFiles }
        (mapStore first.keyStart { first with inhFiles := splited.inhFiles }
          (mapErase first.keyStart table.tabletsList)) := by
  unfold splitTablet at done
  split at done
  · next checks =>
    cases done
    exact ⟨checks.1, checks.2.1, checks.2.2.1, rfl⟩
  · cases done

end Table

/-- `TabletManager::SearchTablet` within one table: the last tablet whose key is at or below `key`;
`none` where the source leaves the result unset (it still returns true). -/
def searchTablet (key : Bytes) (tabletsList : List (Bytes × Tablet)) : Option Tablet :=
  (tabletsList.reverse.find? fun entry => entry.1 ≤ key).map Prod.snd

/-- `Table::FindOverlappedTablets`: from the last tablet whose key is at or below `keyStart`
(`upper_bound`, then one back) on, the tablets while they start below `keyEnd` (empty: no bound);
`none` where `CHECK(it2 != tablets_list_.begin())` fails. -/
def findOverlappedTablets (keyStart keyEnd : Bytes) (tabletsList : List (Bytes × Tablet)) :
    Option (List Tablet) :=
  match (tabletsList.takeWhile fun entry => entry.1 ≤ keyStart).length with
  | 0 => none
  | upper + 1 => some (((tabletsList.drop upper).takeWhile fun entry =>
      keyEnd.isEmpty || entry.2.keyStart < keyEnd).map Prod.snd)

end Tera.Master
