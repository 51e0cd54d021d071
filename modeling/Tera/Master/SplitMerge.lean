import Mathlib
import Tera.Master.Partition

/-! # Runs of splits and merges keep `tablets_list_` a partition

One step of the master on a table is a `SplitTabletProcedure` on one of its tablets, a merge
proposed by `TryMergeTablet` for one of its tablets, or a tablet's status changed by a load, an
unload or a state transition (`MetaStep`). Each step keeps `tablets_list_` a partition: the split
key is strictly inside the tablet whichever check it passed (`splitKeyOf_inside`), and the peer
`PickMergeTablet` picks is the tablet's neighbour (`pickMergeTablet_neighbour`), for which
`UpdateMeta` and `MergeUpdateMetaDone` pass `Table::MergeTablets` the two tablets in key order. So
every run from a partition ends in one, where `SearchTablet` and `FindOverlappedTablets` are exact.

`MergeTabletProcedure`'s constructor alone accepts the last and the first tablet of a table of three
tablets, since the first starts and the last ends at `""`; `UpdateMeta` then gives a merged tablet
from the last tablet's start to the first tablet's end, and `Table::MergeTablets` passes its checks
and leaves a `tablets_list_` that no longer starts at `""`.
-/

namespace Tera.Master

open Tera.Lib Tera.RawKey

/-- A key accepted by `splitKeyOf`, from the request or from the node, lies strictly inside the
tablet. -/
theorem splitKeyOf_inside {tablet : Tablet} {requested key : Bytes} {computed : Option Bytes}
    (found : splitKeyOf tablet requested computed = some key) :
    tablet.keyStart < key ∧ (tablet.keyEnd = [] ∨ key < tablet.keyEnd) := by
  unfold splitKeyOf at found
  split at found
  · next given =>
    split at found
    · cases found
    · next accepted =>
      cases found
      simp only [Bool.not_eq_true', List.isEmpty_eq_false_iff, Bool.or_eq_true, Bool.and_eq_true,
        decide_eq_true_eq, not_or, not_and] at given accepted
      constructor
      · by_cases unbounded : tablet.keyStart = []
        · rw [unbounded]
          obtain ⟨head, rest, rfl⟩ := List.exists_cons_of_ne_nil given
          exact List.nil_lt_cons head rest
        · exact Std.not_le.mp (accepted.1 (by simpa using unbounded))
      · by_cases unbounded : tablet.keyEnd = []
        · exact .inl unbounded
        · exact .inr (Std.not_le.mp (accepted.2 (by simpa using unbounded)))
  · obtain ⟨candidate, -, valid⟩ := Option.bind_eq_some_iff.mp found
    split at valid
    · next checked =>
      cases valid
      simp only [tabletIOSplitKeyValid, Bool.and_eq_true, Bool.or_eq_true, decide_eq_true_eq,
        List.isEmpty_iff] at checked
      exact ⟨checked.1.2, checked.2⟩
    · cases valid

/-- A `SplitTabletProcedure` on a tablet of a partition leaves a partition. -/
theorem Partitioned.splitTabletProcedure {table table' : Table} {tablet : Tablet}
    {requested : Bytes} {env : SplitEnv} (parts : Partitioned table.tabletsList)
    (member : (tablet.keyStart, tablet) ∈ table.tabletsList)
    (done : splitTabletProcedure table tablet requested env = some table') :
    Partitioned table'.tabletsList := by
  unfold Tera.Master.splitTabletProcedure at done
  split at done
  · cases done
    exact parts
  · split at done
    · cases done
      exact parts
    · next splitKey found =>
      split at done
      · cases done
        exact parts
      · dsimp only [splitUpdateMeta] at done
        obtain ⟨-, -, -, result⟩ := Table.tabletsList_splitTablet done
        obtain ⟨inside, below⟩ := splitKeyOf_inside found
        obtain ⟨front, back, split_at⟩ := List.append_of_mem member
        rw [result, childTablet_keyStart, childTablet_keyStart]
        rw [split_at] at parts ⊢
        exact parts.split inside below rfl rfl

/-- `UpdateMeta` on a tablet and the neighbour after it merges them from the first one's meta. -/
theorem mergeUpdateMeta_of_next {table : Table} {first second : Tablet}
    (joined : second.keyStart = first.keyEnd) (ordered : first.keyStart < second.keyStart)
    (nonempty : second.keyEnd = [] ∨ second.keyStart < second.keyEnd) :
    mergeUpdateMeta table first second =
      some ({ table with maxTabletNo := table.maxTabletNo + 1 },
        childTablet first first.keyStart second.keyEnd (table.maxTabletNo + 1)
          (first.dataSize + second.dataSize)) := by
  have not_before : ¬ (first.keyStart = second.keyEnd ∧ first.keyStart ≠ []) := by
    rintro ⟨wraps, bounded⟩
    rcases nonempty with unbounded | shorter
    · exact bounded (wraps.trans unbounded)
    · exact Std.lt_irrefl (Std.lt_trans ordered (wraps ▸ shorter))
  rw [mergeUpdateMeta, if_neg not_before, if_pos joined.symm]

/-- `UpdateMeta` on a tablet and the neighbour before it merges them from the neighbour's meta. -/
theorem mergeUpdateMeta_of_prev {table : Table} {first second : Tablet}
    (joined : second.keyStart = first.keyEnd) (ordered : first.keyStart < second.keyStart) :
    mergeUpdateMeta table second first =
      some ({ table with maxTabletNo := table.maxTabletNo + 1 },
        childTablet first first.keyStart second.keyEnd (table.maxTabletNo + 1)
          (second.dataSize + first.dataSize)) := by
  have bounded : second.keyStart ≠ [] := fun unbounded =>
    Std.not_lt.mpr (nil_le_bytes first.keyStart) (unbounded ▸ ordered)
  rw [mergeUpdateMeta, if_pos ⟨joined, bounded⟩]

/-- A `MergeTabletProcedure` on two neighbours of a partition, in either order, leaves a
partition. -/
theorem Partitioned.mergeTabletProcedure {table table' : Table} {front back : List (Bytes × Tablet)}
    {first second tablet peer : Tablet} {env : MergeEnv} (parts : Partitioned table.tabletsList)
    (list : table.tabletsList = front ++ (first.keyStart, first) :: (second.keyStart, second) :: back)
    (pair : tablet = first ∧ peer = second ∨ tablet = second ∧ peer = first)
    (done : mergeTabletProcedure table tablet peer env = some table') :
    Partitioned table'.tabletsList := by
  rw [list] at parts
  have joined : second.keyStart = first.keyEnd := parts.next_start
  have ordered : first.keyStart < second.keyStart := parts.around.2 _ List.mem_cons_self
  have nonempty := parts.range_nonempty (List.mem_append_right _ (List.mem_cons_of_mem _
    List.mem_cons_self))
  unfold Tera.Master.mergeTabletProcedure at done
  split at done
  · cases done
    rw [list]
    exact parts
  · -- both orders reach `Table::MergeTablets` with the two tablets in key order
    obtain ⟨table'', merged, same, mergedRange, result⟩ : ∃ (table'' : Table) (merged : Tablet),
        table''.tabletsList = table.tabletsList ∧ merged.range = (first.keyStart, second.keyEnd) ∧
          table''.mergeTablets first second merged = some table' := by
      rcases pair with ⟨rfl, rfl⟩ | ⟨rfl, rfl⟩
      · rw [mergeUpdateMeta_of_next joined ordered nonempty, Option.bind_some] at done
        dsimp only at done
        rw [mergeUpdateMetaDone, childTablet_keyStart, if_pos rfl] at done
        refine ⟨_, _, ?_, ?_, done⟩ <;> rfl
      · rw [mergeUpdateMeta_of_prev joined ordered, Option.bind_some] at done
        dsimp only at done
        rw [mergeUpdateMetaDone, childTablet_keyStart, if_neg (Std.ne_of_lt ordered).symm] at done
        refine ⟨_, _, ?_, ?_, done⟩ <;> rfl
    obtain ⟨-, -, -, after⟩ := Table.tabletsList_mergeTablets result
    have starts : merged.keyStart = first.keyStart := congrArg Prod.fst mergedRange
    rw [after, same, list, starts]
    exact parts.merge (by simpa [Tablet.range] using mergedRange)

/-- The positions of a list around an index: those before, the two at it, those after. -/
theorem eq_take_append_getElem {α : Type} (items : List α) (index : Nat)
    (bound : index + 1 < items.length) :
    items = items.take index ++ items[index] :: items[index + 1] :: items.drop (index + 1 + 1) := by
  rw [← List.drop_eq_getElem_cons bound, ← List.drop_eq_getElem_cons (by omega),
    List.take_append_drop]

/-- The peer `mergeNeighbour` gives is the entry right after or right before the position. -/
theorem mergeNeighbour_adjacent {tabletsList : List (Bytes × Tablet)} {index : Nat} {peer : Tablet}
    (bound : index < tabletsList.length) (found : mergeNeighbour tabletsList index = some peer) :
    ∃ front back entry, entry.2 = peer ∧
      (tabletsList = front ++ tabletsList[index] :: entry :: back ∨
        tabletsList = front ++ entry :: tabletsList[index] :: back) := by
  unfold mergeNeighbour at found
  split at found
  · next first =>
    subst first
    obtain ⟨entry, looked, rfl⟩ := Option.map_eq_some_iff.mp found
    obtain ⟨bound', rfl⟩ := List.getElem?_eq_some_iff.mp looked
    exact ⟨_, _, _, rfl, .inl (eq_take_append_getElem tabletsList 0 bound')⟩
  · next notFirst =>
    obtain ⟨before, rfl⟩ : ∃ before, index = before + 1 := ⟨index - 1, by omega⟩
    split at found
    · obtain ⟨entry, looked, rfl⟩ := Option.map_eq_some_iff.mp found
      rw [Nat.add_sub_cancel] at looked
      obtain ⟨-, rfl⟩ := List.getElem?_eq_some_iff.mp looked
      exact ⟨_, _, _, rfl, .inr (eq_take_append_getElem tabletsList before bound)⟩
    · obtain ⟨prev, looked, found⟩ := Option.bind_eq_some_iff.mp found
      obtain ⟨next, looked', rfl⟩ := Option.map_eq_some_iff.mp found
      rw [Nat.add_sub_cancel] at looked
      obtain ⟨-, rfl⟩ := List.getElem?_eq_some_iff.mp looked
      obtain ⟨bound', rfl⟩ := List.getElem?_eq_some_iff.mp looked'
      split
      · exact ⟨_, _, _, rfl, .inl (eq_take_append_getElem tabletsList (before + 1) bound')⟩
      · exact ⟨_, _, _, rfl, .inr (eq_take_append_getElem tabletsList before bound)⟩

/-- The peer `PickMergeTablet` picks for a tablet of a partition is its neighbour. -/
theorem Partitioned.pickMergeTablet_neighbour {env : PickEnv} {tabletsList : List (Bytes × Tablet)}
    {tablet peer : Tablet} (parts : Partitioned tabletsList)
    (member : (tablet.keyStart, tablet) ∈ tabletsList)
    (picked : pickMergeTablet env tabletsList tablet = some peer) :
    ∃ front back,
      tabletsList = front ++ (tablet.keyStart, tablet) :: (peer.keyStart, peer) :: back ∨
        tabletsList = front ++ (peer.keyStart, peer) :: (tablet.keyStart, tablet) :: back := by
  unfold pickMergeTablet at picked
  split at picked
  · cases picked
  · obtain ⟨index, found, picked⟩ := Option.bind_eq_some_iff.mp picked
    obtain ⟨candidate, neighbour, picked⟩ := Option.bind_eq_some_iff.mp picked
    split at picked
    · cases picked
    · cases picked
      obtain ⟨bound, keyed, -⟩ := List.findIdx?_eq_some_iff_getElem.mp found
      have at_index : tabletsList[index] = (tablet.keyStart, tablet) :=
        parts.eq_of_key (List.getElem_mem bound) member (by simpa using keyed)
      obtain ⟨front, back, entry, rfl, split_at⟩ := mergeNeighbour_adjacent bound neighbour
      have entry_member : entry ∈ tabletsList := by
        rcases split_at with split_at | split_at <;> rw [split_at] <;> simp
      rw [at_index, parts.entry_eq entry_member] at split_at
      exact ⟨front, back, split_at⟩

/-- A merge `TryMergeTablet` proposes for a tablet of a partition leaves a partition. -/
theorem Partitioned.tryMergeTablet {table table' : Table} {tablet : Tablet} {pickEnv : PickEnv}
    {env : MergeEnv} (parts : Partitioned table.tabletsList)
    (member : (tablet.keyStart, tablet) ∈ table.tabletsList)
    (done : tryMergeTablet pickEnv table tablet env = some table') :
    Partitioned table'.tabletsList := by
  unfold Tera.Master.tryMergeTablet at done
  split at done
  · cases done
    exact parts
  · next peer picked =>
    obtain ⟨front, back, list | list⟩ := parts.pickMergeTablet_neighbour member picked
    · exact parts.mergeTabletProcedure list (.inl ⟨rfl, rfl⟩) done
    · exact parts.mergeTabletProcedure list (.inr ⟨rfl, rfl⟩) done

/-- A tablet's status changed through its entry in `tablets_list_`, by a load or an unload
procedure or a state transition (`Tablet::SetStatus`, `Tablet::DoStateTransition`). -/
def Table.setStatus (table : Table) (key : Bytes) (status : TabletStatus) : Table :=
  { table with
    tabletsList := table.tabletsList.map fun entry =>
      if entry.1 = key then (entry.1, { entry.2 with status := status }) else entry }

theorem Partitioned.setStatus {table : Table} (parts : Partitioned table.tabletsList) (key : Bytes)
    (status : TabletStatus) : Partitioned (table.setStatus key status).tabletsList := by
  constructor
  · intro entry member
    obtain ⟨original, member', rfl⟩ := List.mem_map.mp member
    split_ifs
    · exact parts.keyed original member'
    · exact parts.keyed original member'
  · rw [Table.setStatus, List.map_map]
    convert parts.tiles using 1
    apply List.map_congr_left
    intro entry _
    simp only [Function.comp_apply]
    split_ifs <;> rfl

/-- One step of the master on a table: a split of one of its tablets, a merge proposed for one of
its tablets, or a tablet's status changed. -/
inductive MetaStep : Table → Table → Prop
  | split {table table' : Table} (tablet : Tablet) (requested : Bytes) (env : SplitEnv) :
      (tablet.keyStart, tablet) ∈ table.tabletsList →
      splitTabletProcedure table tablet requested env = some table' → MetaStep table table'
  | merge {table table' : Table} (tablet : Tablet) (pickEnv : PickEnv) (env : MergeEnv) :
      (tablet.keyStart, tablet) ∈ table.tabletsList →
      tryMergeTablet pickEnv table tablet env = some table' → MetaStep table table'
  | setStatus (table : Table) (key : Bytes) (status : TabletStatus) :
      MetaStep table (table.setStatus key status)

theorem Partitioned.metaStep {table table' : Table} (parts : Partitioned table.tabletsList)
    (step : MetaStep table table') : Partitioned table'.tabletsList := by
  cases step with
  | split tablet requested env member done => exact parts.splitTabletProcedure member done
  | merge tablet pickEnv env member done => exact parts.tryMergeTablet member done
  | setStatus key status => exact parts.setStatus key status

theorem Partitioned.metaRun {table table' : Table} (parts : Partitioned table.tabletsList)
    (run : Relation.ReflTransGen MetaStep table table') : Partitioned table'.tabletsList := by
  induction run with
  | refl => exact parts
  | tail _ step ih => exact ih.metaStep step

/-- Over every run of splits, merges and status changes from a table whose `tablets_list_` is a
partition, `tablets_list_` stays a partition, `SearchTablet` finds for every key the one tablet
whose range holds it, and `FindOverlappedTablets` returns, for every non-empty key range, exactly the
tablets whose ranges meet it, in key order. -/
theorem metaRun_tabletsList_partitioned {table table' : Table}
    (initial : Partitioned table.tabletsList) (run : Relation.ReflTransGen MetaStep table table') :
    Partitioned table'.tabletsList ∧
      (∀ key, ∃ tablet, searchTablet key table'.tabletsList = some tablet ∧
        (tablet.keyStart, tablet) ∈ table'.tabletsList ∧ InRange [] tablet.range key ∧
        ∀ entry ∈ table'.tabletsList, InRange [] entry.2.range key → entry.2 = tablet) ∧
      ∀ keyStart keyEnd, (keyEnd = [] ∨ keyStart < keyEnd) →
        findOverlappedTablets keyStart keyEnd table'.tabletsList =
          some ((table'.tabletsList.filter fun entry =>
            Overlaps [] entry.2.range keyStart keyEnd).map Prod.snd) ∧
        ∀ entry ∈ table'.tabletsList, (Overlaps [] entry.2.range keyStart keyEnd ↔
          ∃ key, InRange [] entry.2.range key ∧ InRange [] (keyStart, keyEnd) key) := by
  have parts := initial.metaRun run
  refine ⟨parts, parts.searchTablet_unique, fun keyStart keyEnd nonempty => ?_⟩
  exact ⟨parts.findOverlappedTablets_exact keyStart keyEnd nonempty,
    fun entry member => parts.overlaps_iff_exists member nonempty⟩

/-- The first of three tablets cutting the keys at `a` and `b` (bytes 97 and 98). -/
def firstThird : Tablet := ⟨[], [97], 1, .kTabletReady, 0, [], false⟩

/-- The middle one of the three tablets. -/
def middleThird : Tablet := ⟨[97], [98], 2, .kTabletReady, 0, [], false⟩

/-- The last one of the three tablets. -/
def lastThird : Tablet := ⟨[98], [], 3, .kTabletReady, 0, [], false⟩

/-- A table of the three tablets. -/
def threeTablets : Table :=
  ⟨[([], firstThird), ([97], middleThird), ([98], lastThird)], [], [], [], 0, 3⟩

theorem metaRun_tabletsList_partitioned_split_middle :
    Partitioned threeTablets.tabletsList ∧
      Partitioned ((splitTabletProcedure threeTablets middleThird [97, 5] ⟨none, true, true⟩).getD
        threeTablets).tabletsList := by
  have run : Relation.ReflTransGen MetaStep threeTablets
      ((splitTabletProcedure threeTablets middleThird [97, 5] ⟨none, true, true⟩).getD threeTablets) :=
    .single (.split middleThird [97, 5] ⟨none, true, true⟩ (by decide) (by decide))
  exact ⟨by decide, (metaRun_tabletsList_partitioned (by decide) run).1⟩

/-- The merged tablet `MergeTabletProcedure` makes of the last and the first of the three tablets:
from the last one's start to the first one's end. -/
def wrappedTablet : Tablet := ⟨[98], [97], 4, .kTabletOffline, 0, [], false⟩

/-- `MergeTabletProcedure`'s constructor accepts the last and the first tablet, whose ends are both
`""`; the merge then leaves `tablets_list_` with no tablet starting at `""`: it is no partition,
`SearchTablet` finds no tablet for `""` and `FindOverlappedTablets` from `""` fails its `CHECK`.
And on a partition, `FindOverlappedTablets` on the empty range from the key `97 1` to the key
`97 0` returns the tablet holding its start, though no key lies in the range. -/
theorem mergeTabletProcedure_last_first_breaks_partition :
    Partitioned threeTablets.tabletsList ∧ mergePeersAccepted lastThird firstThird = true ∧
      mergeTabletProcedure threeTablets lastThird firstThird ⟨true, true⟩ =
        some ⟨[([97], middleThird), ([98], wrappedTablet)], [], [], [], 0, 4⟩ ∧
      ¬ Partitioned [([97], middleThird), ([98], wrappedTablet)] ∧
      searchTablet [] [([97], middleThird), ([98], wrappedTablet)] = none ∧
      findOverlappedTablets [] [] [([97], middleThird), ([98], wrappedTablet)] = none ∧
      findOverlappedTablets [97, 1] [97, 0] threeTablets.tabletsList = some [middleThird] ∧
      ∀ key : Bytes, ¬ InRange [] ([97, 1], [97, 0]) key := by
  refine ⟨by decide, by decide, by decide, by decide, by decide, by decide, by decide, ?_⟩
  rintro key ⟨above, below⟩
  have above : ([97, 1] : Bytes) ≤ key := above
  have apart : ([97, 0] : Bytes) < [97, 1] := by decide
  rcases below with unbounded | below
  · exact absurd unbounded (by decide)
  · have below : key < ([97, 0] : Bytes) := below
    exact Std.lt_irrefl (Std.lt_of_lt_of_le (Std.lt_trans below apart) above)

end Tera.Master
