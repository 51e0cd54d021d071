import Mathlib
import Tera.Lib.RangeSet
import Tera.Lib.OrderedMap
import Tera.Lib.Interleaving
import Tera.Key.RawKey

/-! # The SDK's tablet-location cache

A table of the SDK keeps the tablets it knows in `tablet_meta_list_` (`TableImpl`), a std::map
from a tablet's `key_start` to its node: the tablet's meta (key range and server), the time it was
learnt and a status. `GetTabletMetaNodeForKey` finds the node of a row as the node under the
greatest key at or below it, if that node's range holds the row. A row no node holds gets a
placeholder for the row alone, waiting for an update (`GetTabletAddrOrScheduleUpdateMeta`,
`ScheduleUpdateMeta`); `UpdateMetaAsync` marks the first run of waiting nodes whose ranges follow
on one another for one scan of the meta table, and each meta that scan returns goes through
`UpdateTabletMetaList`, which shrinks, splits or erases the nodes it overlaps and puts the new node
in their place.

The nodes stay disjoint (`NodesDisjoint`). On a disjoint map `UpdateTabletMetaList` of a meta with a
non-empty range gives the spliced map: the parts of the old nodes below the new range, the new
node, and the parts from its end on. A row of the new range then finds the new node; any other row
finds the part, on its side, of the node it found before. The meta table only returns non-empty
ranges; an empty range `[b, b)` makes the loop split a node at `b` and the new node then overwrites
the upper part, so rows above `b` lose their node.
-/

namespace Tera.Sdk

open Tera.Lib Tera.RawKey

/-- `TableImpl::TabletMetaStatus`. -/
inductive TabletMetaStatus
  | normal
  | delayUpdate
  | waitUpdate
  | updating
deriving DecidableEq, Repr

/-- The fields of a `TabletMeta` the cache reads: the key range and the server. -/
structure TabletMeta where
  keyStart : Bytes
  keyEnd : Bytes
  serverAddr : String
deriving DecidableEq, Repr

/-- `TableImpl::TabletMetaNode`; `tabletMeta` is its field `meta`. -/
structure TabletMetaNode where
  tabletMeta : TabletMeta
  updateTime : Int
  status : TabletMetaStatus
deriving DecidableEq, Repr

/-- `tablet_meta_list_`: a std::map from key to node, as its entries in key order. -/
abbrev TabletMetaList := List (Bytes × TabletMetaNode)

namespace TabletMeta

/-- The meta's key range, an empty end meaning no bound. -/
def range (tabletMeta : TabletMeta) : Bytes × Bytes := (tabletMeta.keyStart, tabletMeta.keyEnd)

/-- The range holds a key: it has no bound or starts below its end. The meta table returns only
such ranges. -/
def NonemptyRange (tabletMeta : TabletMeta) : Prop :=
  tabletMeta.keyEnd = [] ∨ tabletMeta.keyStart < tabletMeta.keyEnd

instance (tabletMeta : TabletMeta) : Decidable tabletMeta.NonemptyRange :=
  inferInstanceAs (Decidable (_ ∨ _))

end TabletMeta

namespace TabletMetaNode

/-- `TabletMetaNode()`: an empty meta, update time 0, status `NORMAL`. -/
def empty : TabletMetaNode := ⟨⟨[], [], ""⟩, 0, .normal⟩

/-- `set_key_start` on the node's meta. -/
def withKeyStart (keyStart : Bytes) (node : TabletMetaNode) : TabletMetaNode :=
  { node with tabletMeta := { node.tabletMeta with keyStart } }

/-- `set_key_end` on the node's meta. -/
def withKeyEnd (keyEnd : Bytes) (node : TabletMetaNode) : TabletMetaNode :=
  { node with tabletMeta := { node.tabletMeta with keyEnd } }

/-- An assignment to the node's `status`. -/
def withStatus (status : TabletMetaStatus) (node : TabletMetaNode) : TabletMetaNode :=
  { node with status }

end TabletMetaNode

/-- `GetTabletMetaNodeForKey`: the entry under the greatest key at or below `key` (`upper_bound`
stepped back), if its range holds `key`; the entry stands for the pointer into the map. -/
def getTabletMetaNodeForKey (list : TabletMetaList) (key : Bytes) : Option (Bytes × TabletMetaNode) :=
  match mapFloor key list with
  | none => none
  | some entry =>
    if entry.2.tabletMeta.keyEnd ≠ [] ∧ entry.2.tabletMeta.keyEnd ≤ key then none else some entry

/-- The placeholder of a row no node holds: `tablet_meta_list_[row]` given the range of the row
alone, `[row, row + '\0')`, and the status `WAIT_UPDATE`. -/
def insertPlaceholder (row : Bytes) (list : TabletMetaList) : TabletMetaList :=
  mapStore row ((((mapAt row list).getD TabletMetaNode.empty).withKeyStart row).withKeyEnd (row ++ [0])
    |>.withStatus .waitUpdate) list

/-! ## `UpdateTabletMetaList` -/

/-- One pass of the loop of `UpdateTabletMetaList` over `oldNode`, the node under `key`: keep it
(it ends before the new range), shrink it, split it around the new range, erase it, or move its
part above the new range to `newEnd`. `none` is the `break` at a node from the new end on. -/
def updateOldNode (newStart newEnd key : Bytes) (oldNode : TabletMetaNode) (list : TabletMetaList) :
    Option TabletMetaList :=
  if oldNode.tabletMeta.keyStart < newStart then
    if oldNode.tabletMeta.keyEnd ≠ [] ∧ oldNode.tabletMeta.keyEnd ≤ newStart then some list
    else if newEnd = [] ∨ (oldNode.tabletMeta.keyEnd ≠ [] ∧ oldNode.tabletMeta.keyEnd ≤ newEnd) then
      some (mapModify key (·.withKeyEnd newStart) list)
    else
      -- the copy is stored first, then the old node shrunk through its reference
      some (mapModify key (·.withKeyEnd newStart) (mapStore newEnd (oldNode.withKeyStart newEnd) list))
  else if newEnd = [] ∨ oldNode.tabletMeta.keyStart < newEnd then
    if newEnd = [] ∨ (oldNode.tabletMeta.keyEnd ≠ [] ∧ oldNode.tabletMeta.keyEnd ≤ newEnd) then
      some (mapErase key list)
    else some (mapErase key (mapStore newEnd (oldNode.withKeyStart newEnd) list))
  else none

/-- The loop of `UpdateTabletMetaList` from the node under `cursor` (the iterator `it`, `none` at
the map's end). The next key is taken before the pass, as `++it` is. Each pass visits a key above
the last one and only `newEnd` is ever added, so the loop makes at most one pass more than the map
has nodes; `none` is running out of fuel, or a cursor at no node. -/
def updateLoop (newStart newEnd : Bytes) : Nat → Option Bytes → TabletMetaList → Option TabletMetaList
  | _, none, list => some list
  | 0, some _, _ => none
  | fuel + 1, some key, list =>
    match mapAt key list with
    | none => none
    | some oldNode =>
      match updateOldNode newStart newEnd key oldNode list with
      | none => some list
      | some next =>
        updateLoop newStart newEnd fuel ((list.find? fun entry => key < entry.1).map Prod.fst) next

/-- Where the loop starts: `upper_bound(new_start)` stepped back to the node at or below the new
start, or the first node when there is none. -/
def updateStart (newStart : Bytes) (list : TabletMetaList) : Option Bytes :=
  match mapFloor newStart list with
  | some entry => some entry.1
  | none => list.head?.map Prod.fst

/-- `UpdateTabletMetaList(new_meta)` at time `now` (`get_micros() / 1000`): the loop, then the new
node under `new_start` with status `NORMAL`. -/
def updateTabletMetaList (newMeta : TabletMeta) (now : Int) (list : TabletMetaList) :
    Option TabletMetaList :=
  (updateLoop newMeta.keyStart newMeta.keyEnd (list.length + 1) (updateStart newMeta.keyStart list) list).map
    (mapStore newMeta.keyStart ⟨newMeta, now, .normal⟩)

/-! ## Scheduling updates -/

/-- The loop of `UpdateMetaAsync` over the nodes in key order. Once a `WAIT_UPDATE` node is taken
(`need_update`), `updateEnd` is `update_end_key`: a waiting node starting there is taken too, and
the loop stops at the first other node. Taken nodes become `UPDATING`. The result is the map and
`need_update`, or `none` where the `CHECK_GT` fails. -/
def markUpdating : Option Bytes → TabletMetaList → Option (TabletMetaList × Bool)
  | none, [] => some ([], false)
  | some _, [] => some ([], true)
  | none, (key, node) :: rest =>
    if node.status = .waitUpdate then
      (markUpdating (some node.tabletMeta.keyEnd) rest).map fun result =>
        ((key, node.withStatus .updating) :: result.1, result.2)
    else (markUpdating none rest).map fun result => ((key, node) :: result.1, result.2)
  | some updateEnd, (key, node) :: rest =>
    if node.status ≠ .waitUpdate then some ((key, node) :: rest, true)
    else if node.tabletMeta.keyStart = updateEnd then
      (markUpdating (some node.tabletMeta.keyEnd) rest).map fun result =>
        ((key, node.withStatus .updating) :: result.1, result.2)
    else if updateEnd < node.tabletMeta.keyStart then some ((key, node) :: rest, true)
    else none

/-- The cache's state: `tablet_meta_list_` and `meta_updating_count_`. -/
structure MetaCache where
  tabletMetaList : TabletMetaList
  metaUpdatingCount : Nat
deriving DecidableEq, Repr

namespace MetaCache

/-- A table's cache when it is opened. -/
def init : MetaCache := ⟨[], 0⟩

/-- `UpdateMetaAsync`: with fewer than `concurrency` scans going, mark the next run of waiting
nodes and count one more scan if there was one. -/
def updateMetaAsync (concurrency : Nat) (cache : MetaCache) : Option MetaCache :=
  if concurrency ≤ cache.metaUpdatingCount then some cache
  else (markUpdating none cache.tabletMetaList).map fun result =>
    ⟨result.1, if result.2 then cache.metaUpdatingCount + 1 else cache.metaUpdatingCount⟩

/-- The node under `key` given `status`, then `UpdateMetaAsync` when the status is
`WAIT_UPDATE`; `DELAY_UPDATE` leaves a `DelayUpdateMeta` to the timer. -/
def setStatusAndUpdate (concurrency : Nat) (key : Bytes) (status : TabletMetaStatus) (cache : MetaCache) :
    Option MetaCache :=
  let changed := { cache with tabletMetaList := mapModify key (·.withStatus status) cache.tabletMetaList }
  if status = .waitUpdate then updateMetaAsync concurrency changed else some changed

/-- A row no node holds gets its placeholder, then `UpdateMetaAsync`. -/
def placeholderAndUpdate (concurrency : Nat) (row : Bytes) (cache : MetaCache) : Option MetaCache :=
  updateMetaAsync concurrency { cache with tabletMetaList := insertPlaceholder row cache.tabletMetaList }

/-- `GetTabletAddrOrScheduleUpdateMeta` for a task on `row`: the server to send it to, or `none`
with the task left pending. `staleError` is whether the task failed with `kKeyNotInRange` or
`kConnectError`, `metaTimeStamp` the update time of the meta it was sent by, and the update is
due when `update_time + update_meta_internal - now` is not positive. -/
def getTabletAddrOrScheduleUpdateMeta (concurrency : Nat) (updateInterval : Int) (row : Bytes)
    (staleError : Bool) (metaTimeStamp now : Int) (cache : MetaCache) : Option (Option String × MetaCache) :=
  match getTabletMetaNodeForKey cache.tabletMetaList row with
  | none => (placeholderAndUpdate concurrency row cache).map (none, ·)
  | some (key, node) =>
    if node.status ≠ .normal then some (none, cache)
    else if staleError = true ∧ node.updateTime ≤ metaTimeStamp then
      (setStatusAndUpdate concurrency key
        (if node.updateTime + updateInterval - now ≤ 0 then .waitUpdate else .delayUpdate) cache).map (none, ·)
    else some (some node.tabletMeta.serverAddr, cache)

/-- `ScheduleUpdateMeta(row, meta_timestamp)`. -/
def scheduleUpdateMeta (concurrency : Nat) (updateInterval : Int) (row : Bytes) (metaTimeStamp now : Int)
    (cache : MetaCache) : Option MetaCache :=
  match getTabletMetaNodeForKey cache.tabletMetaList row with
  | none => placeholderAndUpdate concurrency row cache
  | some (key, node) =>
    if node.status = .normal ∧ node.updateTime ≤ metaTimeStamp then
      setStatusAndUpdate concurrency key
        (if node.updateTime + updateInterval - now ≤ 0 then .waitUpdate else .delayUpdate) cache
    else some cache

end MetaCache

/-- The loop of `DelayUpdateMeta` from `lower_bound(start_key)`: `DELAY_UPDATE` nodes become
`WAIT_UPDATE` until a node ends above `end_key` (compared as strings, an empty end being below
every other). -/
def delayUpdateLoop (endKey : Bytes) : TabletMetaList → TabletMetaList
  | [] => []
  | (key, node) :: rest =>
    if endKey < node.tabletMeta.keyEnd then (key, node) :: rest
    else if node.status ≠ .delayUpdate then (key, node) :: delayUpdateLoop endKey rest
    else (key, node.withStatus .waitUpdate) :: delayUpdateLoop endKey rest

namespace MetaCache

/-- `DelayUpdateMeta(start_key, end_key)`, run by the timer. -/
def delayUpdateMeta (concurrency : Nat) (startKey endKey : Bytes) (cache : MetaCache) : Option MetaCache :=
  updateMetaAsync concurrency
    { cache with
      tabletMetaList := cache.tabletMetaList.takeWhile (·.1 < startKey) ++
        delayUpdateLoop endKey (cache.tabletMetaList.dropWhile (·.1 < startKey)) }

/-- The end of a scan of the meta table that returned all it was asked for
(`ScanMetaTableCallBack`): one scan fewer, then `UpdateMetaAsync`. -/
def scanMetaTableDone (concurrency : Nat) (cache : MetaCache) : Option MetaCache :=
  updateMetaAsync concurrency { cache with metaUpdatingCount := cache.metaUpdatingCount - 1 }

end MetaCache

/-- What happens to a table's cache, each under `meta_mutex_`. -/
inductive MetaCacheAction
  /-- A meta the scan of the meta table returned. -/
  | updateTabletMetaList (newMeta : TabletMeta) (now : Int)
  | getTabletAddrOrScheduleUpdateMeta (row : Bytes) (staleError : Bool) (metaTimeStamp now : Int)
  | scheduleUpdateMeta (row : Bytes) (metaTimeStamp now : Int)
  | delayUpdateMeta (startKey endKey : Bytes)
  | scanMetaTableDone

/-- A meta the meta table returns has a non-empty range. -/
def MetaCacheAction.FromMetaTable : MetaCacheAction → Prop
  | .updateTabletMetaList newMeta _ => newMeta.NonemptyRange
  | _ => True

instance : DecidablePred MetaCacheAction.FromMetaTable := fun action => by
  cases action <;> unfold MetaCacheAction.FromMetaTable <;> infer_instance

namespace MetaCache

/-- One action on the cache; `none` is a failed `CHECK` or a loop out of fuel. -/
def step (concurrency : Nat) (updateInterval : Int) (cache : MetaCache) : MetaCacheAction → Option MetaCache
  | .updateTabletMetaList newMeta now =>
    (updateTabletMetaList newMeta now cache.tabletMetaList).map fun list => { cache with tabletMetaList := list }
  | .getTabletAddrOrScheduleUpdateMeta row staleError metaTimeStamp now =>
    (getTabletAddrOrScheduleUpdateMeta concurrency updateInterval row staleError metaTimeStamp now cache).map
      Prod.snd
  | .scheduleUpdateMeta row metaTimeStamp now =>
    scheduleUpdateMeta concurrency updateInterval row metaTimeStamp now cache
  | .delayUpdateMeta startKey endKey => delayUpdateMeta concurrency startKey endKey cache
  | .scanMetaTableDone => scanMetaTableDone concurrency cache

end MetaCache

example : (MetaCache.step 1 0 MetaCache.init (.scheduleUpdateMeta [3] 0 0)).map MetaCache.tabletMetaList =
    some [([3], ⟨⟨[3], [3, 0], ""⟩, 0, .updating⟩)] := by decide

/-! ## Disjoint nodes -/

/-- A meta's range is bounded and ends at or before another's start. -/
def TabletMeta.Before (tabletMeta other : TabletMeta) : Prop :=
  tabletMeta.keyEnd ≠ [] ∧ tabletMeta.keyEnd ≤ other.keyStart

/-- `tablet_meta_list_` as the cache keeps it: each node under its own `key_start`, each range
holding a key, and each node ending at or before the start of every later one. -/
structure NodesDisjoint (list : TabletMetaList) : Prop where
  keyed : ∀ entry ∈ list, entry.1 = entry.2.tabletMeta.keyStart
  nonempty : ∀ entry ∈ list, entry.2.tabletMeta.NonemptyRange
  ordered : list.Pairwise fun entry other => entry.2.tabletMeta.Before other.2.tabletMeta

/-- The keys and metas of a map: what a change of statuses leaves as it was. -/
def entryMetas (list : TabletMetaList) : List (Bytes × TabletMeta) :=
  list.map fun entry => (entry.1, entry.2.tabletMeta)

@[simp] theorem TabletMeta.inRange_range {tabletMeta : TabletMeta} {key : Bytes} :
    InRange [] tabletMeta.range key ↔
      tabletMeta.keyStart ≤ key ∧ (tabletMeta.keyEnd = [] ∨ key < tabletMeta.keyEnd) :=
  Iff.rfl

theorem TabletMeta.NonemptyRange.start_lt {tabletMeta other : TabletMeta} (nonempty : tabletMeta.NonemptyRange)
    (before : tabletMeta.Before other) : tabletMeta.keyStart < tabletMeta.keyEnd :=
  nonempty.resolve_left before.1

namespace NodesDisjoint

variable {list : TabletMetaList} (disjoint : NodesDisjoint list)
include disjoint

theorem key_lt {entry other : Bytes × TabletMetaNode} (member : entry ∈ list)
    (before : entry.2.tabletMeta.Before other.2.tabletMeta) (otherKeyed : other.1 = other.2.tabletMeta.keyStart) :
    entry.1 < other.1 := by
  rw [disjoint.keyed entry member, otherKeyed]
  exact Std.lt_of_lt_of_le ((disjoint.nonempty entry member).start_lt before) before.2

/-- The map is sorted by key. -/
theorem sorted : list.Pairwise fun entry other => entry.1 < other.1 :=
  disjoint.ordered.imp_of_mem fun member otherMember before =>
    disjoint.key_lt member before (disjoint.keyed _ otherMember)

theorem sublist {other : TabletMetaList} (sub : other.Sublist list) : NodesDisjoint other where
  keyed entry member := disjoint.keyed entry (sub.subset member)
  nonempty entry member := disjoint.nonempty entry (sub.subset member)
  ordered := disjoint.ordered.sublist sub

/-- Statuses do not matter: a map with the same keys and metas is disjoint too. -/
theorem of_entryMetas {other : TabletMetaList} (same : entryMetas other = entryMetas list) :
    NodesDisjoint other := by
  have source : ∀ entry ∈ other, ∃ original ∈ list, original.1 = entry.1 ∧
      original.2.tabletMeta = entry.2.tabletMeta := by
    intro entry member
    have listed : (entry.1, entry.2.tabletMeta) ∈ entryMetas list := same ▸ List.mem_map_of_mem member
    obtain ⟨original, originalMember, equal⟩ := List.mem_map.mp listed
    exact ⟨original, originalMember, (Prod.mk.inj equal).1, (Prod.mk.inj equal).2⟩
  refine ⟨fun entry member => ?_, fun entry member => ?_, ?_⟩
  · obtain ⟨original, originalMember, sameKey, sameMeta⟩ := source entry member
    rw [← sameKey, ← sameMeta]
    exact disjoint.keyed original originalMember
  · obtain ⟨original, originalMember, -, sameMeta⟩ := source entry member
    exact sameMeta ▸ disjoint.nonempty original originalMember
  · have mapped : (entryMetas list).Pairwise fun entry other => entry.2.Before other.2 :=
      List.pairwise_map.mpr disjoint.ordered
    rw [← same, entryMetas, List.pairwise_map] at mapped
    exact mapped

/-- `GetTabletMetaNodeForKey` finds the node whose range holds the key. -/
theorem getTabletMetaNodeForKey_eq_some_iff {key : Bytes} {entry : Bytes × TabletMetaNode} :
    getTabletMetaNodeForKey list key = some entry ↔ entry ∈ list ∧ InRange [] entry.2.tabletMeta.range key := by
  unfold getTabletMetaNodeForKey
  rw [TabletMeta.inRange_range]
  constructor
  · intro found
    cases floor : mapFloor key list with
    | none => simp [floor] at found
    | some floorEntry =>
      rw [floor] at found
      dsimp only at found
      split_ifs at found with endsBelow
      obtain rfl := Option.some_inj.mp found
      obtain ⟨member, within, -⟩ := (mapFloor_eq_some_iff disjoint.sorted).mp floor
      refine ⟨member, disjoint.keyed _ member ▸ within, ?_⟩
      by_cases unbounded : floorEntry.2.tabletMeta.keyEnd = []
      · exact .inl unbounded
      · exact .inr (Std.not_le.mp fun above => endsBelow ⟨unbounded, above⟩)
  · rintro ⟨member, within, below⟩
    -- no other node at or below the key starts above this one: a later one starts after its end
    have greatest : ∀ other ∈ list, other.1 ≤ key → other.1 ≤ entry.1 := by
      intro other otherMember otherWithin
      by_cases same : entry = other
      · exact same ▸ Std.le_refl _
      rcases pairwise_rel_or_rel disjoint.ordered member otherMember same with after | before
      · rw [disjoint.keyed other otherMember] at otherWithin
        rcases below with unbounded | inside
        · exact (after.1 unbounded).elim
        · exact (Std.lt_irrefl (Std.lt_of_lt_of_le inside (Std.le_trans after.2 otherWithin))).elim
      · exact Std.le_of_lt (disjoint.key_lt otherMember before (disjoint.keyed entry member))
    have floor : mapFloor key list = some entry := (mapFloor_eq_some_iff disjoint.sorted).mpr
      ⟨member, disjoint.keyed entry member ▸ within, greatest⟩
    rw [floor]
    refine if_neg fun ⟨bounded, above⟩ => ?_
    rcases below with unbounded | inside
    · exact bounded unbounded
    · exact Std.lt_irrefl (Std.lt_of_lt_of_le inside above)

theorem getTabletMetaNodeForKey_eq_none_iff {key : Bytes} :
    getTabletMetaNodeForKey list key = none ↔ ∀ entry ∈ list, ¬ InRange [] entry.2.tabletMeta.range key := by
  rw [Option.eq_none_iff_forall_ne_some]
  refine forall_congr' fun entry => ?_
  rw [Ne, disjoint.getTabletMetaNodeForKey_eq_some_iff]
  constructor
  · intro absent member
    exact fun within => absent ⟨member, within⟩
  · rintro absent ⟨member, within⟩
    exact absent member within

end NodesDisjoint

/-! ## The spliced map -/

/-- The part of an old node below a new range from `newStart`: the node cut at `newStart`, if it
starts below it. -/
def lowerPiece (newStart : Bytes) (entry : Bytes × TabletMetaNode) : Option (Bytes × TabletMetaNode) :=
  if entry.2.tabletMeta.keyStart < newStart then
    some (entry.1, entry.2.withKeyEnd (minEnd [] entry.2.tabletMeta.keyEnd newStart))
  else none

/-- The part of an old node from the end `newEnd` of a new range on, if the new range has an end
and the node reaches past it: the node, moved to start at `newEnd` if it started below it. -/
def upperPiece (newEnd : Bytes) (entry : Bytes × TabletMetaNode) : Option (Bytes × TabletMetaNode) :=
  if newEnd ≠ [] ∧ (entry.2.tabletMeta.keyEnd = [] ∨ newEnd < entry.2.tabletMeta.keyEnd) then
    if entry.2.tabletMeta.keyStart < newEnd then some (newEnd, entry.2.withKeyStart newEnd) else some entry
  else none

/-- The old nodes cut around a new range: the parts below it, then the parts from its end on. -/
def spliced (newStart newEnd : Bytes) (list : TabletMetaList) : TabletMetaList :=
  list.filterMap (lowerPiece newStart) ++ list.filterMap (upperPiece newEnd)

/-- The piece of an old node that a key outside a new range falls in: the piece below the range,
or the piece from its end on. -/
def pieceFor (newMeta : TabletMeta) (key : Bytes) (entry : Bytes × TabletMetaNode) :
    Option (Bytes × TabletMetaNode) :=
  if key < newMeta.keyStart then lowerPiece newMeta.keyStart entry else upperPiece newMeta.keyEnd entry

namespace TabletMetaNode

variable {node : TabletMetaNode}

@[simp] theorem withKeyEnd_keyStart (keyEnd : Bytes) :
    (node.withKeyEnd keyEnd).tabletMeta.keyStart = node.tabletMeta.keyStart := rfl
@[simp] theorem withKeyEnd_keyEnd (keyEnd : Bytes) : (node.withKeyEnd keyEnd).tabletMeta.keyEnd = keyEnd := rfl
@[simp] theorem withKeyStart_keyStart (keyStart : Bytes) :
    (node.withKeyStart keyStart).tabletMeta.keyStart = keyStart := rfl
@[simp] theorem withKeyStart_keyEnd (keyStart : Bytes) :
    (node.withKeyStart keyStart).tabletMeta.keyEnd = node.tabletMeta.keyEnd := rfl
@[simp] theorem withStatus_tabletMeta (status : TabletMetaStatus) :
    (node.withStatus status).tabletMeta = node.tabletMeta := rfl
@[simp] theorem withKeyEnd_self : node.withKeyEnd node.tabletMeta.keyEnd = node := rfl

end TabletMetaNode

section Pieces

variable {newStart newEnd key : Bytes} {entry piece : Bytes × TabletMetaNode}

theorem lowerPiece_eq_some : lowerPiece newStart entry = some piece ↔
    entry.2.tabletMeta.keyStart < newStart ∧
      piece = (entry.1, entry.2.withKeyEnd (minEnd [] entry.2.tabletMeta.keyEnd newStart)) := by
  unfold lowerPiece
  split_ifs with below
  · simp [below, eq_comm]
  · simp [below]

theorem lowerPiece_of_le (above : newStart ≤ entry.2.tabletMeta.keyStart) : lowerPiece newStart entry = none :=
  if_neg (Std.not_lt.mpr above)

/-- A node ending by the new start is its own lower piece. -/
theorem lowerPiece_of_ends (nonempty : entry.2.tabletMeta.NonemptyRange)
    (ends : entry.2.tabletMeta.keyEnd ≠ [] ∧ entry.2.tabletMeta.keyEnd ≤ newStart) :
    lowerPiece newStart entry = some entry := by
  have below := Std.lt_of_lt_of_le (nonempty.resolve_left ends.1) ends.2
  rw [lowerPiece, if_pos below, minEnd_eq_left ends.1 ends.2, TabletMetaNode.withKeyEnd_self]

/-- A node reaching past the new start is cut at it. -/
theorem lowerPiece_of_reaches (below : entry.2.tabletMeta.keyStart < newStart)
    (reaches : ¬ (entry.2.tabletMeta.keyEnd ≠ [] ∧ entry.2.tabletMeta.keyEnd ≤ newStart)) :
    lowerPiece newStart entry = some (entry.1, entry.2.withKeyEnd newStart) := by
  have bounded : newStart ≠ [] := by
    rintro rfl
    exact List.not_lt_nil _ below
  have above : entry.2.tabletMeta.keyEnd = [] ∨ newStart < entry.2.tabletMeta.keyEnd := by
    by_cases unbounded : entry.2.tabletMeta.keyEnd = []
    · exact .inl unbounded
    · exact .inr (Std.not_le.mp fun le => reaches ⟨unbounded, le⟩)
  rw [lowerPiece, if_pos below, minEnd_eq_right bounded above]

theorem upperPiece_eq_some : upperPiece newEnd entry = some piece ↔
    (newEnd ≠ [] ∧ (entry.2.tabletMeta.keyEnd = [] ∨ newEnd < entry.2.tabletMeta.keyEnd)) ∧
      piece = if entry.2.tabletMeta.keyStart < newEnd then (newEnd, entry.2.withKeyStart newEnd) else entry := by
  unfold upperPiece
  by_cases reaches : newEnd ≠ [] ∧ (entry.2.tabletMeta.keyEnd = [] ∨ newEnd < entry.2.tabletMeta.keyEnd)
  · rw [if_pos reaches]
    split_ifs <;> simp [reaches, eq_comm]
  · rw [if_neg reaches]
    simp only [reduceCtorEq, false_iff]
    exact fun found => reaches found.1

theorem upperPiece_of_within (within : newEnd = [] ∨
      (entry.2.tabletMeta.keyEnd ≠ [] ∧ entry.2.tabletMeta.keyEnd ≤ newEnd)) :
    upperPiece newEnd entry = none := by
  refine if_neg fun ⟨bounded, unboundedOrPast⟩ => ?_
  rcases within with unbounded | ⟨endBounded, le⟩
  · exact bounded unbounded
  · exact unboundedOrPast.elim endBounded fun past => Std.lt_irrefl (Std.lt_of_lt_of_le past le)

/-- A node starting below the new end and reaching past it moves its upper part to the new end. -/
theorem upperPiece_of_past (past : ¬ (newEnd = [] ∨
      (entry.2.tabletMeta.keyEnd ≠ [] ∧ entry.2.tabletMeta.keyEnd ≤ newEnd)))
    (below : entry.2.tabletMeta.keyStart < newEnd) :
    upperPiece newEnd entry = some (newEnd, entry.2.withKeyStart newEnd) := by
  have bounded : newEnd ≠ [] := fun unbounded => past (.inl unbounded)
  have reaches : entry.2.tabletMeta.keyEnd = [] ∨ newEnd < entry.2.tabletMeta.keyEnd := by
    by_cases unbounded : entry.2.tabletMeta.keyEnd = []
    · exact .inl unbounded
    · exact .inr (Std.not_le.mp fun le => past (.inr ⟨unbounded, le⟩))
  rw [upperPiece, if_pos ⟨bounded, reaches⟩, if_pos below]

/-- A node from the new end on is its own upper piece. -/
theorem upperPiece_of_starts (nonempty : entry.2.tabletMeta.NonemptyRange)
    (starts : newEnd ≠ [] ∧ newEnd ≤ entry.2.tabletMeta.keyStart) : upperPiece newEnd entry = some entry := by
  have reaches : entry.2.tabletMeta.keyEnd = [] ∨ newEnd < entry.2.tabletMeta.keyEnd :=
    nonempty.imp_right fun below => Std.lt_of_le_of_lt starts.2 below
  rw [upperPiece, if_pos ⟨starts.1, reaches⟩, if_neg (Std.not_lt.mpr starts.2)]

/-! What a piece keeps of its node. -/

theorem lowerPiece_keyed (found : lowerPiece newStart entry = some piece)
    (keyed : entry.1 = entry.2.tabletMeta.keyStart) : piece.1 = piece.2.tabletMeta.keyStart := by
  obtain ⟨-, rfl⟩ := lowerPiece_eq_some.mp found
  exact keyed

theorem upperPiece_keyed (found : upperPiece newEnd entry = some piece)
    (keyed : entry.1 = entry.2.tabletMeta.keyStart) : piece.1 = piece.2.tabletMeta.keyStart := by
  obtain ⟨-, rfl⟩ := upperPiece_eq_some.mp found
  split_ifs
  · rfl
  · exact keyed

theorem lowerPiece_nonempty (found : lowerPiece newStart entry = some piece)
    (nonempty : entry.2.tabletMeta.NonemptyRange) : piece.2.tabletMeta.NonemptyRange := by
  obtain ⟨below, rfl⟩ := lowerPiece_eq_some.mp found
  have bounded : newStart ≠ [] := by
    rintro rfl
    exact List.not_lt_nil _ below
  exact .inr ((lt_minEnd_iff bounded).mpr ⟨nonempty, below⟩)

theorem upperPiece_nonempty (found : upperPiece newEnd entry = some piece)
    (nonempty : entry.2.tabletMeta.NonemptyRange) : piece.2.tabletMeta.NonemptyRange := by
  obtain ⟨⟨-, reaches⟩, rfl⟩ := upperPiece_eq_some.mp found
  split_ifs
  · exact reaches
  · exact nonempty

/-- A lower piece ends by the new start. -/
theorem lowerPiece_ends (found : lowerPiece newStart entry = some piece) :
    piece.2.tabletMeta.keyEnd ≠ [] ∧ piece.2.tabletMeta.keyEnd ≤ newStart := by
  obtain ⟨below, rfl⟩ := lowerPiece_eq_some.mp found
  have bounded : newStart ≠ [] := by
    rintro rfl
    exact List.not_lt_nil _ below
  exact ⟨minEnd_ne_bot bounded, minEnd_le_right bounded⟩

/-- An upper piece starts from the new end on. -/
theorem upperPiece_starts (found : upperPiece newEnd entry = some piece) :
    newEnd ≠ [] ∧ newEnd ≤ piece.2.tabletMeta.keyStart := by
  obtain ⟨⟨bounded, -⟩, rfl⟩ := upperPiece_eq_some.mp found
  refine ⟨bounded, ?_⟩
  split_ifs with below
  · exact Std.le_refl _
  · exact Std.not_lt.mp below

/-- Pieces of two nodes keep the nodes' order. -/
theorem lowerPiece_before {other otherPiece : Bytes × TabletMetaNode}
    (found : lowerPiece newStart entry = some piece) (otherFound : lowerPiece newStart other = some otherPiece)
    (before : entry.2.tabletMeta.Before other.2.tabletMeta) : piece.2.tabletMeta.Before otherPiece.2.tabletMeta := by
  obtain ⟨below, rfl⟩ := lowerPiece_eq_some.mp found
  obtain ⟨-, rfl⟩ := lowerPiece_eq_some.mp otherFound
  have bounded : newStart ≠ [] := by
    rintro rfl
    exact List.not_lt_nil _ below
  exact ⟨minEnd_ne_bot bounded, Std.le_trans (minEnd_le_left before.1 bounded) before.2⟩

theorem upperPiece_before {other otherPiece : Bytes × TabletMetaNode}
    (found : upperPiece newEnd entry = some piece) (otherFound : upperPiece newEnd other = some otherPiece)
    (before : entry.2.tabletMeta.Before other.2.tabletMeta) : piece.2.tabletMeta.Before otherPiece.2.tabletMeta := by
  obtain ⟨-, rfl⟩ := upperPiece_eq_some.mp found
  obtain ⟨-, rfl⟩ := upperPiece_eq_some.mp otherFound
  have moved : other.2.tabletMeta.keyStart ≤
      (if other.2.tabletMeta.keyStart < newEnd then (newEnd, other.2.withKeyStart newEnd) else other).2.tabletMeta.keyStart := by
    split_ifs with below
    · exact Std.le_of_lt below
    · exact Std.le_refl _
  have kept : (if entry.2.tabletMeta.keyStart < newEnd then (newEnd, entry.2.withKeyStart newEnd) else entry).2.tabletMeta.keyEnd =
      entry.2.tabletMeta.keyEnd := by
    split_ifs <;> rfl
  rw [TabletMeta.Before, kept]
  exact ⟨before.1, Std.le_trans before.2 moved⟩

/-- A key lies in a lower piece exactly when it lies in the node below the new start. -/
theorem lowerPiece_inRange (found : lowerPiece newStart entry = some piece) :
    InRange [] piece.2.tabletMeta.range key ↔ InRange [] entry.2.tabletMeta.range key ∧ key < newStart := by
  obtain ⟨below, rfl⟩ := lowerPiece_eq_some.mp found
  have bounded : newStart ≠ [] := by
    rintro rfl
    exact List.not_lt_nil _ below
  simp only [TabletMeta.inRange_range, TabletMetaNode.withKeyEnd_keyStart, TabletMetaNode.withKeyEnd_keyEnd,
    minEnd_ne_bot bounded, false_or, lt_minEnd_iff bounded, and_assoc]

/-- A key lies in an upper piece exactly when it lies in the node from the new end on. -/
theorem upperPiece_inRange (found : upperPiece newEnd entry = some piece) :
    InRange [] piece.2.tabletMeta.range key ↔ InRange [] entry.2.tabletMeta.range key ∧ newEnd ≤ key := by
  obtain ⟨-, rfl⟩ := upperPiece_eq_some.mp found
  simp only [TabletMeta.inRange_range]
  split_ifs with below
  · simp only [TabletMetaNode.withKeyStart_keyStart, TabletMetaNode.withKeyStart_keyEnd]
    exact ⟨fun ⟨above, within⟩ => ⟨⟨Std.le_trans (Std.le_of_lt below) above, within⟩, above⟩,
      fun ⟨⟨_, within⟩, above⟩ => ⟨above, within⟩⟩
  · exact ⟨fun inside => ⟨inside, Std.le_trans (Std.not_lt.mp below) inside.1⟩, And.left⟩

/-- An upper piece stays below a later node: it moves at most to the new end, which its node
reaches past. -/
theorem upperPiece_key_lt {other : Bytes × TabletMetaNode} (found : upperPiece newEnd entry = some piece)
    (before : entry.2.tabletMeta.Before other.2.tabletMeta) (otherKeyed : other.1 = other.2.tabletMeta.keyStart)
    (keyLt : entry.1 < other.1) : piece.1 < other.1 := by
  obtain ⟨⟨-, reaches⟩, rfl⟩ := upperPiece_eq_some.mp found
  split_ifs
  · rw [otherKeyed]
    exact Std.lt_of_lt_of_le (reaches.resolve_left before.1) before.2
  · exact keyLt

/-- A piece is its node with the range cut: the server, update time and status stay. -/
theorem pieceFor_node {newMeta : TabletMeta} (found : pieceFor newMeta key entry = some piece) :
    piece.2.tabletMeta.serverAddr = entry.2.tabletMeta.serverAddr ∧ piece.2.updateTime = entry.2.updateTime ∧
      piece.2.status = entry.2.status := by
  unfold pieceFor at found
  split_ifs at found
  · obtain ⟨-, rfl⟩ := lowerPiece_eq_some.mp found
    exact ⟨rfl, rfl, rfl⟩
  · obtain ⟨-, rfl⟩ := upperPiece_eq_some.mp found
    split_ifs <;> exact ⟨rfl, rfl, rfl⟩

/-- A key of a node outside a new range lies in the node's piece on its side. -/
theorem pieceFor_holds {newMeta : TabletMeta} (inside : InRange [] entry.2.tabletMeta.range key)
    (outside : ¬ InRange [] newMeta.range key) :
    ∃ piece, pieceFor newMeta key entry = some piece ∧ InRange [] piece.2.tabletMeta.range key := by
  by_cases below : key < newMeta.keyStart
  · -- the key lies below the new range, in the node's lower piece
    have found : lowerPiece newMeta.keyStart entry =
        some (entry.1, entry.2.withKeyEnd (minEnd [] entry.2.tabletMeta.keyEnd newMeta.keyStart)) :=
      lowerPiece_eq_some.mpr ⟨Std.lt_of_le_of_lt inside.1 below, rfl⟩
    exact ⟨_, by rw [pieceFor, if_pos below, found], (lowerPiece_inRange found).mpr ⟨inside, below⟩⟩
  · -- the key lies from the new end on, in the node's upper piece
    have notWithin : ¬ (newMeta.keyEnd = [] ∨ key < newMeta.keyEnd) := fun within =>
      outside ⟨Std.not_lt.mp below, within⟩
    have past : newMeta.keyEnd ≠ [] ∧ newMeta.keyEnd ≤ key :=
      ⟨fun unbounded => notWithin (.inl unbounded), Std.not_lt.mp fun lt => notWithin (.inr lt)⟩
    have found := upperPiece_eq_some.mpr
      ⟨⟨past.1, inside.2.imp_right fun lt => Std.lt_of_le_of_lt past.2 lt⟩, rfl⟩
    exact ⟨_, by rw [pieceFor, if_neg below, found], (upperPiece_inRange found).mpr ⟨inside, past.2⟩⟩

end Pieces

/-! ## The loop refines the splice -/

section Loop

variable {newStart newEnd : Bytes}

theorem updateLoop_none (fuel : Nat) (list : TabletMetaList) :
    updateLoop newStart newEnd fuel none list = some list := by
  cases fuel <;> rfl

theorem updateLoop_break {fuel : Nat} {key : Bytes} {list : TabletMetaList} {oldNode : TabletMetaNode}
    (found : mapAt key list = some oldNode) (stops : updateOldNode newStart newEnd key oldNode list = none) :
    updateLoop newStart newEnd (fuel + 1) (some key) list = some list := by
  rw [updateLoop, found]
  dsimp only
  rw [stops]

theorem updateLoop_pass {fuel : Nat} {key : Bytes} {list next : TabletMetaList} {oldNode : TabletMetaNode}
    (found : mapAt key list = some oldNode) (passes : updateOldNode newStart newEnd key oldNode list = some next) :
    updateLoop newStart newEnd (fuel + 1) (some key) list =
      updateLoop newStart newEnd fuel ((list.find? fun entry => key < entry.1).map Prod.fst) next := by
  rw [updateLoop, found]
  dsimp only
  rw [passes]

/-- Past the first node no node starts below the new start: the splice goes node by node. -/
theorem spliced_cons {entry : Bytes × TabletMetaNode} {rest : TabletMetaList}
    (restAbove : ∀ other ∈ rest, lowerPiece newStart other = none) :
    spliced newStart newEnd (entry :: rest) =
      (lowerPiece newStart entry).toList ++ (upperPiece newEnd entry).toList ++ spliced newStart newEnd rest := by
  have lowerRest : rest.filterMap (lowerPiece newStart) = [] := List.filterMap_eq_nil_iff.mpr restAbove
  unfold spliced
  rw [List.filterMap_cons, List.filterMap_cons, lowerRest]
  cases lowerPiece newStart entry <;> cases upperPiece newEnd entry <;> simp

variable (nonempty : newEnd = [] ∨ newStart < newEnd)
include nonempty

/-- A disjoint map from the new end on is its own splice. -/
theorem spliced_of_starts {list : TabletMetaList} (disjoint : NodesDisjoint list)
    (starts : ∀ entry ∈ list, newEnd ≠ [] ∧ newEnd ≤ entry.2.tabletMeta.keyStart) :
    spliced newStart newEnd list = list := by
  have lower : list.filterMap (lowerPiece newStart) = [] := List.filterMap_eq_nil_iff.mpr fun entry member =>
    lowerPiece_of_le (Std.le_of_lt
      (Std.lt_of_lt_of_le (nonempty.resolve_left (starts entry member).1) (starts entry member).2))
  have upper : list.filterMap (upperPiece newEnd) = list := by
    rw [List.filterMap_congr fun entry member =>
      upperPiece_of_starts (disjoint.nonempty entry member) (starts entry member), List.filterMap_some]
  rw [spliced, lower, upper, List.nil_append]

/-- The loop stops at a node from the new end on. -/
theorem updateOldNode_eq_none {key : Bytes} {oldNode : TabletMetaNode} {list : TabletMetaList}
    (starts : newEnd ≠ [] ∧ newEnd ≤ oldNode.tabletMeta.keyStart) :
    updateOldNode newStart newEnd key oldNode list = none := by
  have above : newStart ≤ oldNode.tabletMeta.keyStart :=
    Std.le_of_lt (Std.lt_of_lt_of_le (nonempty.resolve_left starts.1) starts.2)
  rw [updateOldNode, if_neg (Std.not_lt.mpr above), if_neg]
  rintro (unbounded | below)
  · exact starts.1 unbounded
  · exact Std.lt_irrefl (Std.lt_of_lt_of_le below starts.2)

/-- One pass over a node of a disjoint map that starts below the new end: the node's pieces take
its place. -/
theorem updateOldNode_eq_pieces {done rest : TabletMetaList} {key : Bytes} {node : TabletMetaNode}
    (keyed : key = node.tabletMeta.keyStart) (nodeNonempty : node.tabletMeta.NonemptyRange)
    (doneBelow : ∀ entry ∈ done, entry.1 < key)
    (restAfter : ∀ entry ∈ rest, node.tabletMeta.Before entry.2.tabletMeta ∧ entry.1 = entry.2.tabletMeta.keyStart)
    (reaches : newEnd = [] ∨ node.tabletMeta.keyStart < newEnd) :
    updateOldNode newStart newEnd key node (done ++ (key, node) :: rest) =
      some (done ++ ((lowerPiece newStart (key, node)).toList ++ (upperPiece newEnd (key, node)).toList) ++ rest) := by
  have restAbove : ∀ entry ∈ rest, key < entry.1 := fun entry member => by
    obtain ⟨before, entryKeyed⟩ := restAfter entry member
    rw [keyed, entryKeyed]
    exact Std.lt_of_lt_of_le (nodeNonempty.start_lt before) before.2
  have doneAway : ∀ entry ∈ done, entry.1 ≠ key := fun entry member same =>
    Std.lt_irrefl (same ▸ doneBelow entry member)
  have restAway : ∀ entry ∈ rest, entry.1 ≠ key := fun entry member same =>
    Std.lt_irrefl (same ▸ restAbove entry member)
  -- a node reaching past the new end leaves its copy right after it: the rest starts from the
  -- node's end on, past the new end
  have copyBetween (past : ¬ (newEnd = [] ∨
        (node.tabletMeta.keyEnd ≠ [] ∧ node.tabletMeta.keyEnd ≤ newEnd))) (below : key < newEnd) :
      mapStore newEnd (node.withKeyStart newEnd) (done ++ (key, node) :: rest) =
        done ++ (key, node) :: (newEnd, node.withKeyStart newEnd) :: rest ∧
      ∀ entry ∈ (newEnd, node.withKeyStart newEnd) :: rest, key < entry.1 := by
    have restPast : ∀ entry ∈ rest, newEnd < entry.1 := fun entry member => by
      obtain ⟨before, entryKeyed⟩ := restAfter entry member
      rw [entryKeyed]
      exact Std.lt_of_lt_of_le (Std.not_le.mp fun le => past (.inr ⟨before.1, le⟩)) before.2
    have frontBelow : ∀ entry ∈ done ++ [(key, node)], entry.1 < newEnd := by
      intro entry member
      rcases List.mem_append.mp member with early | last
      · exact Std.lt_trans (doneBelow entry early) below
      · rw [List.mem_singleton.mp last]
        exact below
    have stored : mapStore newEnd (node.withKeyStart newEnd) ((done ++ [(key, node)]) ++ rest) =
        (done ++ [(key, node)]) ++ (newEnd, node.withKeyStart newEnd) :: rest :=
      mapStore_between rest restPast _ frontBelow
    simp only [List.append_assoc, List.singleton_append] at stored
    refine ⟨stored, fun entry member => ?_⟩
    rcases List.mem_cons.mp member with rfl | later
    · exact below
    · exact restAbove entry later
  by_cases below : node.tabletMeta.keyStart < newStart
  · have keyBelow (bounded : newEnd ≠ []) : key < newEnd :=
      keyed ▸ Std.lt_trans below (nonempty.resolve_left bounded)
    rw [updateOldNode, if_pos below]
    by_cases ends : node.tabletMeta.keyEnd ≠ [] ∧ node.tabletMeta.keyEnd ≤ newStart
    · -- the node ends by the new start and stays as it is
      have within : newEnd = [] ∨ (node.tabletMeta.keyEnd ≠ [] ∧ node.tabletMeta.keyEnd ≤ newEnd) := by
        by_cases unbounded : newEnd = []
        · exact .inl unbounded
        · exact .inr ⟨ends.1, Std.le_trans ends.2 (Std.le_of_lt (nonempty.resolve_left unbounded))⟩
      have lower : lowerPiece newStart (key, node) = some (key, node) := lowerPiece_of_ends nodeNonempty ends
      have upper : upperPiece newEnd (key, node) = none := upperPiece_of_within within
      rw [if_pos ends, lower, upper]
      simp
    · have lower : lowerPiece newStart (key, node) = some (key, node.withKeyEnd newStart) :=
        lowerPiece_of_reaches below ends
      rw [if_neg ends, lower]
      by_cases within : newEnd = [] ∨ (node.tabletMeta.keyEnd ≠ [] ∧ node.tabletMeta.keyEnd ≤ newEnd)
      · -- the node reaches into the new range and is shrunk to its start
        have upper : upperPiece newEnd (key, node) = none := upperPiece_of_within within
        rw [if_pos within, upper, mapModify_middle doneAway restAway]
        simp
      · -- the node reaches past the new range and is split around it
        have bounded : newEnd ≠ [] := fun unbounded => within (.inl unbounded)
        have upper : upperPiece newEnd (key, node) = some (newEnd, node.withKeyStart newEnd) :=
          upperPiece_of_past within (keyed ▸ keyBelow bounded)
        obtain ⟨stored, copyAbove⟩ := copyBetween within (keyBelow bounded)
        rw [if_neg within, upper, stored,
          mapModify_middle doneAway fun entry member same => Std.lt_irrefl (same ▸ copyAbove entry member)]
        simp
  · have lower : lowerPiece newStart (key, node) = none := lowerPiece_of_le (Std.not_lt.mp below)
    rw [updateOldNode, if_neg below, if_pos reaches, lower]
    by_cases within : newEnd = [] ∨ (node.tabletMeta.keyEnd ≠ [] ∧ node.tabletMeta.keyEnd ≤ newEnd)
    · -- the node lies in the new range and is erased
      have upper : upperPiece newEnd (key, node) = none := upperPiece_of_within within
      rw [if_pos within, upper, mapErase_between doneBelow restAbove]
      simp
    · -- the node reaches past the new range: its part from the new end on moves there
      have bounded : newEnd ≠ [] := fun unbounded => within (.inl unbounded)
      have startBelow : node.tabletMeta.keyStart < newEnd := reaches.resolve_left bounded
      have upper : upperPiece newEnd (key, node) = some (newEnd, node.withKeyStart newEnd) :=
        upperPiece_of_past within startBelow
      obtain ⟨stored, copyAbove⟩ := copyBetween within (keyed ▸ startBelow)
      rw [if_neg within, upper, stored, mapErase_between doneBelow copyAbove]
      simp

/-- The loop over a disjoint rest `todo` of the map, all of whose nodes but the first start above
the new start, replaces the rest by its splice. Induction on `todo`: each pass puts the pieces of
the first node in its place and moves the cursor to the next key. -/
theorem updateLoop_eq_spliced :
    ∀ (todo done : TabletMetaList) (fuel : Nat), todo.length < fuel → NodesDisjoint todo →
      (∀ entry ∈ todo.tail, newStart < entry.1) → (∀ entry ∈ done, ∀ other ∈ todo, entry.1 < other.1) →
      updateLoop newStart newEnd fuel (todo.head?.map Prod.fst) (done ++ todo) =
        some (done ++ spliced newStart newEnd todo)
  | [], done, fuel, _, _, _, _ => by
    rw [List.head?_nil, Option.map_none, updateLoop_none]
    simp [spliced]
  | _ :: _, _, 0, fits, _, _, _ => absurd fits (Nat.not_lt_zero _)
  | (key, node) :: rest, done, fuel + 1, fits, disjoint, later, ordered => by
    have keyed := disjoint.keyed (key, node) List.mem_cons_self
    have nodeNonempty := disjoint.nonempty (key, node) List.mem_cons_self
    have restAfter : ∀ entry ∈ rest, node.tabletMeta.Before entry.2.tabletMeta ∧
        entry.1 = entry.2.tabletMeta.keyStart := fun entry member =>
      ⟨List.rel_of_pairwise_cons disjoint.ordered member, disjoint.keyed entry (List.mem_cons_of_mem _ member)⟩
    have restAbove : ∀ entry ∈ rest, key < entry.1 := fun _ member =>
      List.rel_of_pairwise_cons disjoint.sorted member
    have doneBelow : ∀ entry ∈ done, entry.1 < key := fun entry member =>
      ordered entry member _ List.mem_cons_self
    have found : mapAt key (done ++ (key, node) :: rest) = some node :=
      mapAt_middle (fun entry member same => Std.lt_irrefl (same ▸ doneBelow entry member)) rest
    simp only [List.head?_cons, Option.map_some]
    by_cases starts : newEnd ≠ [] ∧ newEnd ≤ node.tabletMeta.keyStart
    · -- the loop stops at this node; it and every later node lie from the new end on
      have allStart : ∀ entry ∈ (key, node) :: rest, newEnd ≠ [] ∧ newEnd ≤ entry.2.tabletMeta.keyStart := by
        intro entry member
        rcases List.mem_cons.mp member with rfl | later
        · exact starts
        · obtain ⟨before, -⟩ := restAfter entry later
          exact ⟨starts.1, Std.le_trans starts.2
            (Std.le_trans (Std.le_of_lt (nodeNonempty.start_lt before)) before.2)⟩
      rw [updateLoop_break found (updateOldNode_eq_none nonempty starts),
        spliced_of_starts nonempty disjoint allStart]
    · have reaches : newEnd = [] ∨ node.tabletMeta.keyStart < newEnd := by
        by_cases unbounded : newEnd = []
        · exact .inl unbounded
        · exact .inr (Std.not_le.mp fun le => starts ⟨unbounded, le⟩)
      have next : ((done ++ (key, node) :: rest).find? fun entry => key < entry.1).map Prod.fst =
          rest.head?.map Prod.fst := by
        rw [find?_above_middle (fun entry member => Std.not_lt.mpr (Std.le_of_lt (doneBelow entry member)))
          Std.lt_irrefl restAbove]
      have restLower : ∀ entry ∈ rest, lowerPiece newStart entry = none := fun entry member =>
        lowerPiece_of_le (Std.le_of_lt ((restAfter entry member).2 ▸ later entry member))
      have piecesBelow : ∀ entry ∈ done ++ ((lowerPiece newStart (key, node)).toList ++
          (upperPiece newEnd (key, node)).toList), ∀ other ∈ rest, entry.1 < other.1 := by
        intro entry member other otherMember
        rcases List.mem_append.mp member with early | piece
        · exact Std.lt_trans (doneBelow entry early) (restAbove other otherMember)
        rcases List.mem_append.mp piece with lower | upper
        · obtain ⟨-, rfl⟩ := lowerPiece_eq_some.mp (Option.mem_toList.mp lower)
          exact restAbove other otherMember
        · exact upperPiece_key_lt (Option.mem_toList.mp upper) (restAfter other otherMember).1
            (restAfter other otherMember).2 (restAbove other otherMember)
      rw [updateLoop_pass found (updateOldNode_eq_pieces nonempty keyed nodeNonempty doneBelow restAfter reaches),
        next, updateLoop_eq_spliced rest _ fuel (by simpa using fits) (disjoint.sublist (List.sublist_cons_self _ _))
          (fun entry member => later entry (List.mem_of_mem_tail member)) piecesBelow,
        spliced_cons restLower]
      simp only [List.append_assoc]

end Loop

/-! ## `UpdateTabletMetaList` on a disjoint map -/

namespace NodesDisjoint

variable {list : TabletMetaList} (disjoint : NodesDisjoint list)
include disjoint

/-- From where it starts, the loop replaces a disjoint map by its splice. -/
theorem updateLoop_eq_spliced {newStart newEnd : Bytes} (nonempty : newEnd = [] ∨ newStart < newEnd) :
    updateLoop newStart newEnd (list.length + 1) (updateStart newStart list) list =
      some (spliced newStart newEnd list) := by
  cases floor : mapFloor newStart list with
  | none =>
    -- every node starts above the new start: the loop starts at the first node
    have above := (mapFloor_eq_none_iff disjoint.sorted).mp floor
    have start : updateStart newStart list = list.head?.map Prod.fst := by rw [updateStart, floor]
    have loop := Tera.Sdk.updateLoop_eq_spliced nonempty list [] (list.length + 1) (Nat.lt_succ_self _) disjoint
      (fun entry member => above entry (List.mem_of_mem_tail member)) (by simp)
    rw [start]
    simpa using loop
  | some entry =>
    -- the loop starts at the floor; the nodes before it end by it and are their own lower pieces
    obtain ⟨front, back, rfl, frontBelow, backAbove⟩ := mapFloor_split disjoint.sorted floor
    have within := ((mapFloor_eq_some_iff disjoint.sorted).mp floor).2.1
    have start : updateStart newStart (front ++ entry :: back) = some entry.1 := by rw [updateStart, floor]
    have frontEnds : ∀ other ∈ front, other.2.tabletMeta.keyEnd ≠ [] ∧ other.2.tabletMeta.keyEnd ≤ newStart := by
      intro other member
      have before := (List.pairwise_append.mp disjoint.ordered).2.2 other member entry List.mem_cons_self
      rw [disjoint.keyed entry (by simp)] at within
      exact ⟨before.1, Std.le_trans before.2 within⟩
    have frontLower : front.filterMap (lowerPiece newStart) = front := by
      rw [List.filterMap_congr fun other member =>
        lowerPiece_of_ends (disjoint.nonempty other (by simp [member])) (frontEnds other member), List.filterMap_some]
    have frontUpper : front.filterMap (upperPiece newEnd) = [] := by
      refine List.filterMap_eq_nil_iff.mpr fun other member => upperPiece_of_within ?_
      by_cases unbounded : newEnd = []
      · exact .inl unbounded
      · exact .inr ⟨(frontEnds other member).1,
          Std.le_trans (frontEnds other member).2 (Std.le_of_lt (nonempty.resolve_left unbounded))⟩
    have ordered : ∀ other ∈ front, ∀ later ∈ entry :: back, other.1 < later.1 := fun other member =>
      (List.pairwise_append.mp disjoint.sorted).2.2 other member
    have loop := Tera.Sdk.updateLoop_eq_spliced nonempty (entry :: back) front (front ++ entry :: back).length.succ
      (by simp) (disjoint.sublist (List.sublist_append_right _ _)) backAbove ordered
    rw [start]
    simp only [List.head?_cons, Option.map_some] at loop
    rw [loop, spliced, spliced, List.filterMap_append, List.filterMap_append, frontLower, frontUpper]
    simp only [List.nil_append, List.append_assoc]

/-- `UpdateTabletMetaList` of a meta with a non-empty range puts the new node between the old
nodes' parts below its range and their parts from its end on. -/
theorem updateTabletMetaList_eq {newMeta : TabletMeta} (nonempty : newMeta.NonemptyRange) (now : Int) :
    updateTabletMetaList newMeta now list =
      some (list.filterMap (lowerPiece newMeta.keyStart) ++
        (newMeta.keyStart, ⟨newMeta, now, .normal⟩) :: list.filterMap (upperPiece newMeta.keyEnd)) := by
  have lowerBelow : ∀ piece ∈ list.filterMap (lowerPiece newMeta.keyStart), piece.1 < newMeta.keyStart := by
    intro piece member
    obtain ⟨entry, entryMember, found⟩ := List.mem_filterMap.mp member
    obtain ⟨below, rfl⟩ := lowerPiece_eq_some.mp found
    exact disjoint.keyed entry entryMember ▸ below
  have upperAbove : ∀ piece ∈ list.filterMap (upperPiece newMeta.keyEnd), newMeta.keyStart < piece.1 := by
    intro piece member
    obtain ⟨entry, entryMember, found⟩ := List.mem_filterMap.mp member
    obtain ⟨bounded, starts⟩ := upperPiece_starts found
    rw [upperPiece_keyed found (disjoint.keyed entry entryMember)]
    exact Std.lt_of_lt_of_le (nonempty.resolve_left bounded) starts
  rw [updateTabletMetaList, disjoint.updateLoop_eq_spliced nonempty, Option.map_some, spliced,
    mapStore_between _ upperAbove _ lowerBelow]

/-- The spliced map with the new node is disjoint again. -/
theorem splice {newMeta : TabletMeta} (nonempty : newMeta.NonemptyRange) (node : TabletMetaNode)
    (nodeMeta : node.tabletMeta = newMeta) :
    NodesDisjoint (list.filterMap (lowerPiece newMeta.keyStart) ++
      (newMeta.keyStart, node) :: list.filterMap (upperPiece newMeta.keyEnd)) := by
  subst nodeMeta
  refine ⟨fun entry member => ?_, fun entry member => ?_, ?_⟩
  · rcases List.mem_append.mp member with lower | newOrUpper
    · obtain ⟨original, originalMember, found⟩ := List.mem_filterMap.mp lower
      exact lowerPiece_keyed found (disjoint.keyed original originalMember)
    rcases List.mem_cons.mp newOrUpper with rfl | upper
    · rfl
    · obtain ⟨original, originalMember, found⟩ := List.mem_filterMap.mp upper
      exact upperPiece_keyed found (disjoint.keyed original originalMember)
  · rcases List.mem_append.mp member with lower | newOrUpper
    · obtain ⟨original, originalMember, found⟩ := List.mem_filterMap.mp lower
      exact lowerPiece_nonempty found (disjoint.nonempty original originalMember)
    rcases List.mem_cons.mp newOrUpper with rfl | upper
    · exact nonempty
    · obtain ⟨original, originalMember, found⟩ := List.mem_filterMap.mp upper
      exact upperPiece_nonempty found (disjoint.nonempty original originalMember)
  · have lowerOrdered : (list.filterMap (lowerPiece node.tabletMeta.keyStart)).Pairwise
        fun entry other => entry.2.tabletMeta.Before other.2.tabletMeta :=
      List.pairwise_filterMap.mpr (disjoint.ordered.imp fun before _ found _ otherFound =>
        lowerPiece_before found otherFound before)
    have upperOrdered : (list.filterMap (upperPiece node.tabletMeta.keyEnd)).Pairwise
        fun entry other => entry.2.tabletMeta.Before other.2.tabletMeta :=
      List.pairwise_filterMap.mpr (disjoint.ordered.imp fun before _ found _ otherFound =>
        upperPiece_before found otherFound before)
    -- the new node ends where the upper pieces start
    have newBefore : ∀ other ∈ list.filterMap (upperPiece node.tabletMeta.keyEnd),
        node.tabletMeta.Before other.2.tabletMeta := fun other member => by
      obtain ⟨original, -, found⟩ := List.mem_filterMap.mp member
      exact upperPiece_starts found
    -- the lower pieces end by the new start, below the new end
    have lowerBefore : ∀ entry ∈ list.filterMap (lowerPiece node.tabletMeta.keyStart),
        ∀ other ∈ (node.tabletMeta.keyStart, node) :: list.filterMap (upperPiece node.tabletMeta.keyEnd),
          entry.2.tabletMeta.Before other.2.tabletMeta := by
      intro entry member other otherMember
      obtain ⟨original, -, found⟩ := List.mem_filterMap.mp member
      obtain ⟨bounded, ends⟩ := lowerPiece_ends found
      refine ⟨bounded, ?_⟩
      rcases List.mem_cons.mp otherMember with rfl | upper
      · exact ends
      · obtain ⟨upperOriginal, -, upperFound⟩ := List.mem_filterMap.mp upper
        obtain ⟨endBounded, starts⟩ := upperPiece_starts upperFound
        exact Std.le_trans ends (Std.le_trans (Std.le_of_lt (nonempty.resolve_left endBounded)) starts)
    exact List.pairwise_append.mpr ⟨lowerOrdered, List.pairwise_cons.mpr ⟨newBefore, upperOrdered⟩, lowerBefore⟩

/-- After `UpdateTabletMetaList` of a meta with a non-empty range on a disjoint map, the map is
disjoint; a key of the new range finds the new node, and any other key finds the piece, on its
side of the new range, of the node it found before. -/
theorem update {newMeta : TabletMeta} (nonempty : newMeta.NonemptyRange) (now : Int) :
    ∃ after, updateTabletMetaList newMeta now list = some after ∧ NodesDisjoint after ∧
      ∀ key, (InRange [] newMeta.range key →
          getTabletMetaNodeForKey after key = some (newMeta.keyStart, ⟨newMeta, now, .normal⟩)) ∧
        (¬ InRange [] newMeta.range key →
          getTabletMetaNodeForKey after key = (getTabletMetaNodeForKey list key).bind (pieceFor newMeta key)) := by
  have after := disjoint.splice nonempty ⟨newMeta, now, .normal⟩ rfl
  refine ⟨_, disjoint.updateTabletMetaList_eq nonempty now, after, fun key => ⟨fun inside => ?_, fun outside => ?_⟩⟩
  · exact after.getTabletMetaNodeForKey_eq_some_iff.mpr ⟨by simp, inside⟩
  cases before : getTabletMetaNodeForKey list key with
  | none =>
    -- no old node holds the key, so no piece of one does
    have absent := disjoint.getTabletMetaNodeForKey_eq_none_iff.mp before
    rw [Option.bind_none, after.getTabletMetaNodeForKey_eq_none_iff]
    intro piece member
    rcases List.mem_append.mp member with lower | newOrUpper
    · obtain ⟨original, originalMember, found⟩ := List.mem_filterMap.mp lower
      exact fun inside => absent original originalMember ((lowerPiece_inRange found).mp inside).1
    rcases List.mem_cons.mp newOrUpper with rfl | upper
    · exact outside
    · obtain ⟨original, originalMember, found⟩ := List.mem_filterMap.mp upper
      exact fun inside => absent original originalMember ((upperPiece_inRange found).mp inside).1
  | some entry =>
    obtain ⟨member, inside⟩ := disjoint.getTabletMetaNodeForKey_eq_some_iff.mp before
    obtain ⟨piece, found, holds⟩ := pieceFor_holds inside outside
    have pieceMember : piece ∈ list.filterMap (lowerPiece newMeta.keyStart) ++
        (newMeta.keyStart, ⟨newMeta, now, .normal⟩) :: list.filterMap (upperPiece newMeta.keyEnd) := by
      unfold pieceFor at found
      split_ifs at found
      · exact List.mem_append_left _ (List.mem_filterMap.mpr ⟨entry, member, found⟩)
      · exact List.mem_append_right _ (List.mem_cons_of_mem _ (List.mem_filterMap.mpr ⟨entry, member, found⟩))
    rw [Option.bind_some, found]
    exact after.getTabletMetaNodeForKey_eq_some_iff.mpr ⟨pieceMember, holds⟩

end NodesDisjoint

/-! ## Statuses and placeholders keep the nodes disjoint -/

@[simp] theorem entryMetas_cons (entry : Bytes × TabletMetaNode) (list : TabletMetaList) :
    entryMetas (entry :: list) = (entry.1, entry.2.tabletMeta) :: entryMetas list := rfl

theorem entryMetas_append (front back : TabletMetaList) :
    entryMetas (front ++ back) = entryMetas front ++ entryMetas back :=
  List.map_append

theorem entryMetas_mapModify_withStatus (key : Bytes) (status : TabletMetaStatus) (list : TabletMetaList) :
    entryMetas (mapModify key (·.withStatus status) list) = entryMetas list := by
  unfold entryMetas mapModify
  rw [List.map_map]
  refine List.map_congr_left fun entry _ => ?_
  simp only [Function.comp_apply]
  split <;> rfl

theorem entryMetas_delayUpdateLoop (endKey : Bytes) :
    ∀ list : TabletMetaList, entryMetas (delayUpdateLoop endKey list) = entryMetas list
  | [] => rfl
  | (key, node) :: rest => by
    rw [delayUpdateLoop]
    split_ifs
    · rfl
    · rw [entryMetas_cons, entryMetas_delayUpdateLoop endKey rest, entryMetas_cons]
    · rw [entryMetas_cons, entryMetas_delayUpdateLoop endKey rest, entryMetas_cons]
      rfl

/-- On a disjoint map the `CHECK_GT` of `UpdateMetaAsync` holds: a waiting node after a taken one
starts at or after the end reached, and is taken only if it starts there. The loop changes
statuses only. -/
theorem markUpdating_eq_some : ∀ {list : TabletMetaList}, NodesDisjoint list → ∀ updateEnd : Option Bytes,
    (∀ stop ∈ updateEnd, ∀ entry ∈ list, stop ≠ [] ∧ stop ≤ entry.2.tabletMeta.keyStart) →
      ∃ result, markUpdating updateEnd list = some result ∧ entryMetas result.1 = entryMetas list
  | [], _, none, _ => ⟨_, rfl, rfl⟩
  | [], _, some _, _ => ⟨_, rfl, rfl⟩
  | (key, node) :: rest, disjoint, updateEnd, reached => by
    have restDisjoint := disjoint.sublist (List.sublist_cons_self _ _)
    -- a taken node's end is at or before the start of every later node
    have takenEnd : ∀ stop ∈ some node.tabletMeta.keyEnd, ∀ entry ∈ rest,
        stop ≠ [] ∧ stop ≤ entry.2.tabletMeta.keyStart := by
      intro stop same entry member
      obtain rfl := Option.some_inj.mp (Option.mem_def.mp same)
      exact List.rel_of_pairwise_cons disjoint.ordered member
    cases updateEnd with
    | none =>
      by_cases waiting : node.status = .waitUpdate
      · obtain ⟨result, marked, metas⟩ := markUpdating_eq_some restDisjoint _ takenEnd
        refine ⟨_, by rw [markUpdating, if_pos waiting, marked]; rfl, ?_⟩
        simp [metas]
      · obtain ⟨result, marked, metas⟩ := markUpdating_eq_some restDisjoint none (by simp)
        refine ⟨_, by rw [markUpdating, if_neg waiting, marked]; rfl, ?_⟩
        simp [metas]
    | some stop =>
      by_cases waiting : node.status = .waitUpdate
      · by_cases adjacent : node.tabletMeta.keyStart = stop
        · obtain ⟨result, marked, metas⟩ := markUpdating_eq_some restDisjoint _ takenEnd
          refine ⟨_, by rw [markUpdating, if_neg (not_not_intro waiting), if_pos adjacent, marked]; rfl, ?_⟩
          simp [metas]
        · have after : stop < node.tabletMeta.keyStart := Std.lt_iff_le_and_ne.mpr
            ⟨(reached stop rfl (key, node) List.mem_cons_self).2, Ne.symm adjacent⟩
          exact ⟨_, by rw [markUpdating, if_neg (not_not_intro waiting), if_neg adjacent, if_pos after], rfl⟩
      · exact ⟨_, by rw [markUpdating, if_pos waiting], rfl⟩

namespace NodesDisjoint

variable {list : TabletMetaList} (disjoint : NodesDisjoint list)
include disjoint

/-- A placeholder for a row no node holds leaves the nodes disjoint: the nodes below the row end by
it, and the nodes above it start at or after `row + '\0'`. -/
theorem insertPlaceholder {row : Bytes} (absent : getTabletMetaNodeForKey list row = none) :
    NodesDisjoint (insertPlaceholder row list) := by
  have outside := disjoint.getTabletMetaNodeForKey_eq_none_iff.mp absent
  -- a node not holding the row ends by it once it starts at or below it
  have endsBy : ∀ entry ∈ list, entry.2.tabletMeta.keyStart ≤ row →
      entry.2.tabletMeta.keyEnd ≠ [] ∧ entry.2.tabletMeta.keyEnd ≤ row := by
    intro entry member started
    have notWithin : ¬ (entry.2.tabletMeta.keyEnd = [] ∨ row < entry.2.tabletMeta.keyEnd) := fun within =>
      outside entry member ⟨started, within⟩
    exact ⟨fun unbounded => notWithin (.inl unbounded), Std.not_lt.mp fun lt => notWithin (.inr lt)⟩
  have keyAbsent : ∀ entry ∈ list, entry.1 ≠ row := by
    intro entry member same
    rw [disjoint.keyed entry member] at same
    have ends := endsBy entry member (Std.le_of_eq same)
    exact Std.lt_irrefl (Std.lt_of_lt_of_le ((disjoint.nonempty entry member).resolve_left ends.1)
      (same ▸ ends.2))
  have found : mapAt row list = none := by
    rw [mapAt, List.find?_eq_none.mpr fun entry member same => keyAbsent entry member (of_decide_eq_true same)]
    rfl
  obtain ⟨front, back, rfl, frontBelow, backAbove⟩ := split_of_absent disjoint.sorted keyAbsent
  rw [Tera.Sdk.insertPlaceholder, found, Option.getD_none, mapStore_between back backAbove front frontBelow]
  have frontBefore : ∀ entry ∈ front,
      entry.2.tabletMeta.keyEnd ≠ [] ∧ entry.2.tabletMeta.keyEnd ≤ row := fun entry member =>
    endsBy entry (List.mem_append_left _ member)
      (disjoint.keyed entry (List.mem_append_left _ member) ▸ Std.le_of_lt (frontBelow entry member))
  have backAfter : ∀ entry ∈ back, row ++ [0] ≤ entry.2.tabletMeta.keyStart := fun entry member =>
    disjoint.keyed entry (List.mem_append_right _ member) ▸ append_zero_le_of_lt (backAbove entry member)
  obtain ⟨frontOrdered, backOrdered, across⟩ := List.pairwise_append.mp disjoint.ordered
  refine ⟨fun entry member => ?_, fun entry member => ?_, ?_⟩
  · rcases List.mem_append.mp member with early | newOrLate
    · exact disjoint.keyed entry (List.mem_append_left _ early)
    rcases List.mem_cons.mp newOrLate with rfl | late
    · rfl
    · exact disjoint.keyed entry (List.mem_append_right _ late)
  · rcases List.mem_append.mp member with early | newOrLate
    · exact disjoint.nonempty entry (List.mem_append_left _ early)
    rcases List.mem_cons.mp newOrLate with rfl | late
    · exact .inr (lt_append_zero row)
    · exact disjoint.nonempty entry (List.mem_append_right _ late)
  · refine List.pairwise_append.mpr ⟨frontOrdered, List.pairwise_cons.mpr
      ⟨fun entry member => ⟨by simp, backAfter entry member⟩, backOrdered⟩, fun entry member other otherMember => ?_⟩
    rcases List.mem_cons.mp otherMember with rfl | late
    · exact frontBefore entry member
    · exact across entry member other late

end NodesDisjoint

/-! ## Every step keeps the nodes disjoint -/

namespace MetaCache

variable {cache : MetaCache} (disjoint : NodesDisjoint cache.tabletMetaList) (concurrency : Nat)
include disjoint

theorem updateMetaAsync_disjoint :
    ∃ next, cache.updateMetaAsync concurrency = some next ∧ NodesDisjoint next.tabletMetaList := by
  unfold updateMetaAsync
  split_ifs
  · exact ⟨cache, rfl, disjoint⟩
  · obtain ⟨result, marked, metas⟩ := markUpdating_eq_some disjoint none (by simp)
    rw [marked]
    exact ⟨_, rfl, disjoint.of_entryMetas metas⟩

theorem setStatusAndUpdate_disjoint (key : Bytes) (status : TabletMetaStatus) :
    ∃ next, cache.setStatusAndUpdate concurrency key status = some next ∧ NodesDisjoint next.tabletMetaList := by
  have changed : NodesDisjoint (mapModify key (·.withStatus status) cache.tabletMetaList) :=
    disjoint.of_entryMetas (entryMetas_mapModify_withStatus key status _)
  unfold setStatusAndUpdate
  split_ifs
  · exact updateMetaAsync_disjoint changed concurrency
  · exact ⟨_, rfl, changed⟩

theorem getTabletAddrOrScheduleUpdateMeta_disjoint (updateInterval : Int) (row : Bytes) (staleError : Bool)
    (metaTimeStamp now : Int) :
    ∃ result, cache.getTabletAddrOrScheduleUpdateMeta concurrency updateInterval row staleError metaTimeStamp now =
      some result ∧ NodesDisjoint result.2.tabletMetaList := by
  unfold getTabletAddrOrScheduleUpdateMeta
  cases found : getTabletMetaNodeForKey cache.tabletMetaList row with
  | none =>
    have placed : NodesDisjoint
        ({ cache with tabletMetaList := insertPlaceholder row cache.tabletMetaList } : MetaCache).tabletMetaList :=
      disjoint.insertPlaceholder found
    obtain ⟨next, updated, nextDisjoint⟩ := updateMetaAsync_disjoint placed concurrency
    exact ⟨_, by rw [placeholderAndUpdate, updated]; rfl, nextDisjoint⟩
  | some entry =>
    dsimp only
    by_cases abnormal : entry.2.status ≠ .normal
    · rw [if_pos abnormal]
      exact ⟨_, rfl, disjoint⟩
    rw [if_neg abnormal]
    by_cases stale : staleError = true ∧ entry.2.updateTime ≤ metaTimeStamp
    · obtain ⟨next, updated, nextDisjoint⟩ := setStatusAndUpdate_disjoint disjoint concurrency entry.1
        (if entry.2.updateTime + updateInterval - now ≤ 0 then .waitUpdate else .delayUpdate)
      exact ⟨_, by rw [if_pos stale, updated]; rfl, nextDisjoint⟩
    · rw [if_neg stale]
      exact ⟨_, rfl, disjoint⟩

theorem scheduleUpdateMeta_disjoint (updateInterval : Int) (row : Bytes) (metaTimeStamp now : Int) :
    ∃ next, cache.scheduleUpdateMeta concurrency updateInterval row metaTimeStamp now = some next ∧
      NodesDisjoint next.tabletMetaList := by
  unfold scheduleUpdateMeta
  cases found : getTabletMetaNodeForKey cache.tabletMetaList row with
  | none =>
    have placed : NodesDisjoint
        ({ cache with tabletMetaList := insertPlaceholder row cache.tabletMetaList } : MetaCache).tabletMetaList :=
      disjoint.insertPlaceholder found
    exact updateMetaAsync_disjoint placed concurrency
  | some entry =>
    dsimp only
    by_cases due : entry.2.status = .normal ∧ entry.2.updateTime ≤ metaTimeStamp
    · rw [if_pos due]
      exact setStatusAndUpdate_disjoint disjoint concurrency entry.1 _
    · rw [if_neg due]
      exact ⟨_, rfl, disjoint⟩

theorem delayUpdateMeta_disjoint (startKey endKey : Bytes) :
    ∃ next, cache.delayUpdateMeta concurrency startKey endKey = some next ∧ NodesDisjoint next.tabletMetaList := by
  refine updateMetaAsync_disjoint (disjoint.of_entryMetas ?_) concurrency
  dsimp only
  rw [entryMetas_append, entryMetas_delayUpdateLoop, ← entryMetas_append, List.takeWhile_append_dropWhile]

/-- Every action keeps the nodes disjoint and goes through: no `CHECK` fails and no loop runs out of
fuel. -/
theorem step_disjoint (updateInterval : Int) (action : MetaCacheAction) (fromMetaTable : action.FromMetaTable) :
    ∃ next, cache.step concurrency updateInterval action = some next ∧ NodesDisjoint next.tabletMetaList := by
  cases action with
  | updateTabletMetaList newMeta now =>
    obtain ⟨after, updated, afterDisjoint, -⟩ := disjoint.update fromMetaTable now
    exact ⟨_, by rw [step, updated]; rfl, afterDisjoint⟩
  | getTabletAddrOrScheduleUpdateMeta row staleError metaTimeStamp now =>
    obtain ⟨result, found, resultDisjoint⟩ :=
      getTabletAddrOrScheduleUpdateMeta_disjoint disjoint concurrency updateInterval row staleError metaTimeStamp now
    exact ⟨_, by rw [step, found]; rfl, resultDisjoint⟩
  | scheduleUpdateMeta row metaTimeStamp now =>
    exact scheduleUpdateMeta_disjoint disjoint concurrency updateInterval row metaTimeStamp now
  | delayUpdateMeta startKey endKey => exact delayUpdateMeta_disjoint disjoint concurrency startKey endKey
  | scanMetaTableDone =>
    have counted : NodesDisjoint
        ({ cache with metaUpdatingCount := cache.metaUpdatingCount - 1 } : MetaCache).tabletMetaList := disjoint
    exact updateMetaAsync_disjoint counted concurrency

end MetaCache

/-- `tablet_meta_list_` is a correct interval map over every run of a table's cache in which the
metas come from the meta table, with non-empty ranges: each run goes through with the nodes keyed
by their starts and disjoint, the `CHECK_GT` of `UpdateMetaAsync` holds, and a further
`UpdateTabletMetaList(m)` gives `m` to the keys of its range and to every other key the piece, with
its server, of the node the key had. -/
theorem runSteps_tabletMetaList_interval_map (concurrency : Nat) (updateInterval : Int)
    (actions : List MetaCacheAction) (fromMetaTable : ∀ action ∈ actions, action.FromMetaTable) :
    ∃ final, runSteps (MetaCache.step concurrency updateInterval) MetaCache.init actions = some final ∧
      NodesDisjoint final.tabletMetaList ∧ markUpdating none final.tabletMetaList ≠ none ∧
      ∀ newMeta now, newMeta.NonemptyRange →
        ∃ after, updateTabletMetaList newMeta now final.tabletMetaList = some after ∧
          ∀ key, (InRange [] newMeta.range key →
              getTabletMetaNodeForKey after key = some (newMeta.keyStart, ⟨newMeta, now, .normal⟩)) ∧
            (¬ InRange [] newMeta.range key →
              getTabletMetaNodeForKey after key =
                (getTabletMetaNodeForKey final.tabletMetaList key).bind (pieceFor newMeta key) ∧
              (getTabletMetaNodeForKey after key).map (fun entry => entry.2.tabletMeta.serverAddr) =
                (getTabletMetaNodeForKey final.tabletMetaList key).map (fun entry => entry.2.tabletMeta.serverAddr)) := by
  obtain ⟨final, ran, disjoint⟩ := runSteps_progress (MetaCache.step concurrency updateInterval)
    MetaCacheAction.FromMetaTable (fun cache => NodesDisjoint cache.tabletMetaList)
    (fun _ action allowed disjoint => MetaCache.step_disjoint disjoint concurrency updateInterval action allowed)
    actions MetaCache.init fromMetaTable ⟨by simp [MetaCache.init], by simp [MetaCache.init], .nil⟩
  refine ⟨final, ran, disjoint, fun failed => ?_, fun newMeta now nonempty => ?_⟩
  · obtain ⟨result, marked, -⟩ := markUpdating_eq_some disjoint none (by simp)
    rw [failed] at marked
    cases marked
  obtain ⟨after, updated, -, finds⟩ := disjoint.update nonempty now
  refine ⟨after, updated, fun key => ⟨(finds key).1, fun outside => ⟨(finds key).2 outside, ?_⟩⟩⟩
  rw [(finds key).2 outside]
  -- a node the key had leaves a piece holding the key, with the node's server
  cases before : getTabletMetaNodeForKey final.tabletMetaList key with
  | none => rfl
  | some entry =>
    have inside := (disjoint.getTabletMetaNodeForKey_eq_some_iff.mp before).2
    obtain ⟨piece, found, -⟩ := pieceFor_holds inside outside
    rw [Option.bind_some, found, Option.map_some, Option.map_some, (pieceFor_node found).1]

/-- Metas of the meta table: a node learnt, then a row outside it placed, then a node reaching past
both. -/
def sampleMetaActions : List MetaCacheAction :=
  [.updateTabletMetaList ⟨[1], [3], "a"⟩ 0, .scheduleUpdateMeta [5] 0 0, .updateTabletMetaList ⟨[2], [], "b"⟩ 1]

theorem runSteps_tabletMetaList_interval_map_sample :
    (∀ action ∈ sampleMetaActions, action.FromMetaTable) ∧
      ∃ final, runSteps (MetaCache.step 1 0) MetaCache.init sampleMetaActions = some final ∧
        NodesDisjoint final.tabletMetaList ∧ markUpdating none final.tabletMetaList ≠ none ∧
        ∀ newMeta now, newMeta.NonemptyRange →
          ∃ after, updateTabletMetaList newMeta now final.tabletMetaList = some after ∧
            ∀ key, (InRange [] newMeta.range key →
                getTabletMetaNodeForKey after key = some (newMeta.keyStart, ⟨newMeta, now, .normal⟩)) ∧
              (¬ InRange [] newMeta.range key →
                getTabletMetaNodeForKey after key =
                  (getTabletMetaNodeForKey final.tabletMetaList key).bind (pieceFor newMeta key) ∧
                (getTabletMetaNodeForKey after key).map (fun entry => entry.2.tabletMeta.serverAddr) =
                  (getTabletMetaNodeForKey final.tabletMetaList key).map
                    (fun entry => entry.2.tabletMeta.serverAddr)) :=
  ⟨by decide, runSteps_tabletMetaList_interval_map 1 0 sampleMetaActions (by decide)⟩

/-- A meta with the empty range `[b, b)` inside a node `[a, c)`: the loop splits the node at `b`,
and the new node then overwrites the upper part, so `b`, outside the empty range, loses the node it
had. -/
theorem updateTabletMetaList_empty_range_drops_key :
    runSteps (MetaCache.step 1 0) MetaCache.init [.updateTabletMetaList ⟨[1], [3], "a"⟩ 0] =
        some ⟨[([1], ⟨⟨[1], [3], "a"⟩, 0, .normal⟩)], 0⟩ ∧
      getTabletMetaNodeForKey [([1], ⟨⟨[1], [3], "a"⟩, 0, .normal⟩)] [2] =
        some ([1], ⟨⟨[1], [3], "a"⟩, 0, .normal⟩) ∧
      ¬ InRange [] (TabletMeta.range ⟨[2], [2], "m"⟩) [2] ∧
      (updateTabletMetaList ⟨[2], [2], "m"⟩ 1 [([1], ⟨⟨[1], [3], "a"⟩, 0, .normal⟩)]).map
        (getTabletMetaNodeForKey · [2]) = some none := by
  decide

end Tera.Sdk
