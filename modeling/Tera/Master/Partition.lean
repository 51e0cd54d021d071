import Mathlib
import Tera.Lib.KeyRanges
import Tera.Master.Procedure

/-! # `tablets_list_` as a partition of the key space

A table's `tablets_list_` is a partition of the keys when every key is its tablet's `key_start` and
the tablets' ranges tile the keys from `""` on, `""` as an end standing for no bound
(`Partitioned`). Under a partition, `SearchTablet` finds the one tablet holding a key and
`FindOverlappedTablets` the tablets meeting a non-empty key range.

A split with a key strictly inside the tablet, which both the request check and the node's check
ensure, keeps a partition (`Partitioned.splitTabletProcedure`), and so does a merge of two
neighbours, which is what `PickMergeTablet` proposes (`Partitioned.tryMergeTablet`). The
constructor of `MergeTabletProcedure` itself accepts more: the first and the last tablet of a table
of three or more, since both ends are `""`, and that merge breaks the partition.
-/

namespace Tera.Master

open Tera.Lib Tera.RawKey

/-- A tablet's key range `[key_start, key_end)`. -/
def Tablet.range (tablet : Tablet) : Bytes × Bytes := (tablet.keyStart, tablet.keyEnd)

/-- An entry of `tablets_list_` as the range from its key to its tablet's end. -/
def entryRange (entry : Bytes × Tablet) : Bytes × Bytes := (entry.1, entry.2.keyEnd)

/-- `tablets_list_` is a partition of the key space: every key is its tablet's `key_start`, and the
ranges tile the keys from `""` on, each ending where the next begins, none empty, the last
unbounded. -/
structure Partitioned (tabletsList : List (Bytes × Tablet)) : Prop where
  keyed : ∀ entry ∈ tabletsList, entry.1 = entry.2.keyStart
  tiles : Tiles [] [] (tabletsList.map fun entry => entry.2.range)

instance {tabletsList : List (Bytes × Tablet)} : Decidable (Partitioned tabletsList) :=
  decidable_of_iff ((∀ entry ∈ tabletsList, entry.1 = entry.2.keyStart) ∧
      Tiles [] [] (tabletsList.map fun entry => entry.2.range))
    ⟨fun ⟨keyed, tiles⟩ => ⟨keyed, tiles⟩, fun ⟨keyed, tiles⟩ => ⟨keyed, tiles⟩⟩

theorem nil_le_bytes (key : Bytes) : [] ≤ key := List.nil_le key

private theorem takeWhile_congr {α : Type} {p q : α → Bool} :
    ∀ {items : List α}, (∀ item ∈ items, p item = q item) → items.takeWhile p = items.takeWhile q
  | [], _ => rfl
  | item :: items, same => by
    rw [List.takeWhile_cons, List.takeWhile_cons, same item List.mem_cons_self,
      takeWhile_congr fun later member => same later (List.mem_cons_of_mem _ member)]

namespace Partitioned

variable {tabletsList : List (Bytes × Tablet)}

theorem map_entryRange (parts : Partitioned tabletsList) :
    tabletsList.map entryRange = tabletsList.map fun entry => entry.2.range :=
  List.map_congr_left fun entry member => by
    rw [entryRange, Tablet.range, parts.keyed entry member]

theorem tiles_entryRange (parts : Partitioned tabletsList) : Tiles [] [] (tabletsList.map entryRange) :=
  parts.map_entryRange ▸ parts.tiles

/-- The keys of a partition increase. -/
theorem sorted (parts : Partitioned tabletsList) :
    tabletsList.Pairwise fun entry entry' => entry.1 < entry'.1 := by
  have increasing := parts.tiles_entryRange.pairwise_lt
  rw [List.pairwise_map] at increasing
  exact increasing

/-- No two entries of a partition share a key. -/
theorem eq_of_key (parts : Partitioned tabletsList) {entry entry' : Bytes × Tablet}
    (member : entry ∈ tabletsList) (member' : entry' ∈ tabletsList) (same : entry.1 = entry'.1) :
    entry = entry' := by
  have sorted := parts.sorted
  clear parts
  induction tabletsList with
  | nil => cases member
  | cons head rest ih =>
    obtain ⟨above, sorted⟩ := List.pairwise_cons.mp sorted
    rcases List.mem_cons.mp member with rfl | later <;>
      rcases List.mem_cons.mp member' with rfl | later'
    · rfl
    · exact absurd same (Std.ne_of_lt (above entry' later'))
    · exact absurd same.symm (Std.ne_of_lt (above entry later))
    · exact ih later later' sorted

/-- Under a partition, `SearchTablet` finds for every key the one tablet whose range holds it. -/
theorem searchTablet_unique (parts : Partitioned tabletsList) (key : Bytes) :
    ∃ tablet, searchTablet key tabletsList = some tablet ∧
      (tablet.keyStart, tablet) ∈ tabletsList ∧ InRange [] tablet.range key ∧
      ∀ entry ∈ tabletsList, InRange [] entry.2.range key → entry.2 = tablet := by
  obtain ⟨entry, member, found, covers⟩ :=
    parts.tiles_entryRange.searchRange key (nil_le_bytes key)
  have keyed := parts.keyed entry member
  have range_eq : entryRange entry = entry.2.range := by rw [entryRange, Tablet.range, keyed]
  refine ⟨entry.2, ?_, keyed ▸ member, range_eq ▸ covers, ?_⟩
  · show (searchRange entryRange key tabletsList).map Prod.snd = some entry.2
    rw [found]
    rfl
  · intro other member' covers'
    have same_range := parts.tiles.unique nil_le_bytes key _ _ (List.mem_map_of_mem member')
      (List.mem_map_of_mem member) covers' (range_eq ▸ covers)
    have same_key : other.1 = entry.1 := by
      rw [parts.keyed other member', keyed]
      exact congrArg Prod.fst same_range
    rw [parts.eq_of_key member' member same_key]

/-- `FindOverlappedTablets` over a partition is the library's `overlapping` on the entries. -/
theorem findOverlappedTablets_eq_overlapping (parts : Partitioned tabletsList)
    (keyStart keyEnd : Bytes) :
    findOverlappedTablets keyStart keyEnd tabletsList =
      (overlapping entryRange [] keyStart keyEnd tabletsList).map (List.map Prod.snd) := by
  unfold findOverlappedTablets overlapping
  -- both sides split on the number of entries that start at or below the key
  have count : (tabletsList.takeWhile fun entry => entry.1 ≤ keyStart).length =
      (tabletsList.takeWhile fun entry => (entryRange entry).1 ≤ keyStart).length := rfl
  rw [count]
  cases (tabletsList.takeWhile fun entry => (entryRange entry).1 ≤ keyStart).length with
  | zero => rfl
  | succ upper =>
    rw [Option.map_some, takeWhile_congr]
    intro entry member
    rw [entryRange, parts.keyed entry (List.mem_of_mem_drop member)]
    cases keyEnd <;> simp

/-- Under a partition, `FindOverlappedTablets` on a non-empty key range returns exactly the tablets
whose ranges meet it, in key order. -/
theorem findOverlappedTablets_exact (parts : Partitioned tabletsList) (keyStart keyEnd : Bytes)
    (nonempty : keyEnd = [] ∨ keyStart < keyEnd) :
    findOverlappedTablets keyStart keyEnd tabletsList =
      some ((tabletsList.filter fun entry => Overlaps [] entry.2.range keyStart keyEnd).map
        Prod.snd) := by
  rw [parts.findOverlappedTablets_eq_overlapping, parts.tiles_entryRange.overlapping nil_le_bytes
    (nil_le_bytes keyStart) nonempty, Option.map_some, List.filter_congr]
  intro entry member
  rw [entryRange, Tablet.range, parts.keyed entry member]

/-- Every entry of a partition is its tablet under the tablet's `key_start`. -/
theorem entry_eq (parts : Partitioned tabletsList) {entry : Bytes × Tablet}
    (member : entry ∈ tabletsList) : entry = (entry.2.keyStart, entry.2) :=
  Prod.ext (parts.keyed entry member) rfl

/-- The range of every tablet of a partition is non-empty: it is unbounded or ends above its
start. -/
theorem range_nonempty (parts : Partitioned tabletsList) {tablet : Tablet}
    (member : (tablet.keyStart, tablet) ∈ tabletsList) :
    tablet.keyEnd = [] ∨ tablet.keyStart < tablet.keyEnd := by
  obtain ⟨front, back, split_at⟩ := List.append_of_mem member
  have tiles := parts.tiles_entryRange
  rw [split_at, List.map_append, List.map_cons] at tiles
  obtain ⟨-, ⟨-, unbounded⟩ | ⟨shorter, -⟩⟩ := tiles_cons_iff.mp (tiles.suffix _)
  · exact .inl unbounded
  · exact .inr shorter

/-- The entries around a member of a partition: smaller keys before it, larger after it. -/
theorem around {front back : List (Bytes × Tablet)} {entry : Bytes × Tablet}
    (parts : Partitioned (front ++ entry :: back)) :
    (∀ other ∈ front, other.1 < entry.1) ∧ ∀ other ∈ back, entry.1 < other.1 := by
  obtain ⟨-, after, across⟩ := List.pairwise_append.mp parts.sorted
  exact ⟨fun other member => across other member entry List.mem_cons_self,
    (List.pairwise_cons.mp after).1⟩

/-- Past a member of a partition its tablet is bounded, and every key is at or above its end. -/
theorem end_after {front back : List (Bytes × Tablet)} {tablet : Tablet}
    (parts : Partitioned (front ++ (tablet.keyStart, tablet) :: back)) :
    ∀ other ∈ back, tablet.keyEnd ≠ [] ∧ tablet.keyEnd ≤ other.1 := by
  intro other member
  have tiles := parts.tiles_entryRange
  rw [List.map_append, List.map_cons] at tiles
  obtain ⟨-, ⟨ends, -⟩ | ⟨shorter, rest⟩⟩ := tiles_cons_iff.mp (tiles.suffix _)
  · exact absurd (List.map_eq_nil_iff.mp ends) (List.ne_nil_of_mem member)
  · refine ⟨fun unbounded => ?_, rest.start_le _ (List.mem_map_of_mem member)⟩
    have nonempty : tablet.keyStart < tablet.keyEnd := shorter
    rw [unbounded] at nonempty
    exact Std.not_lt.mpr (nil_le_bytes _) nonempty

/-- In a partition a tablet's neighbour starts where it ends. -/
theorem next_start {front back : List (Bytes × Tablet)} {first : Tablet} {next : Bytes × Tablet}
    (parts : Partitioned (front ++ (first.keyStart, first) :: next :: back)) :
    next.1 = first.keyEnd := by
  have tiles := parts.tiles_entryRange
  rw [List.map_append, List.map_cons] at tiles
  obtain ⟨-, ⟨ends, -⟩ | ⟨-, rest⟩⟩ := tiles_cons_iff.mp (tiles.suffix _)
  · cases ends
  · exact (tiles_cons_iff.mp rest).1

/-- Cutting a tablet of a partition at a key strictly inside it into two halves, as
`Table::SplitTablet` updates `tablets_list_`, keeps a partition. -/
theorem split {front back : List (Bytes × Tablet)} {tablet first second : Tablet} {key : Bytes}
    (parts : Partitioned (front ++ (tablet.keyStart, tablet) :: back))
    (inside : tablet.keyStart < key) (below : tablet.keyEnd = [] ∨ key < tablet.keyEnd)
    (firstRange : first.range = (tablet.keyStart, key))
    (secondRange : second.range = (key, tablet.keyEnd)) :
    Partitioned (mapStore key second (mapStore tablet.keyStart first
      (mapErase tablet.keyStart (front ++ (tablet.keyStart, tablet) :: back)))) := by
  obtain ⟨before, after⟩ := parts.around
  have above_key : ∀ other ∈ back, key < other.1 := fun other member => by
    obtain ⟨bounded, ends⟩ := parts.end_after other member
    exact Std.lt_of_lt_of_le (below.resolve_left bounded) ends
  have below_key : ∀ other ∈ front ++ [(tablet.keyStart, first)], other.1 < key := by
    intro other member
    rcases List.mem_append.mp member with early | self
    · exact Std.lt_trans (before other early) inside
    · rw [List.mem_singleton.mp self]
      exact inside
  rw [mapErase_between before after, mapStore_between back after front before,
    ← List.singleton_append, ← List.append_assoc, mapStore_between back above_key _ below_key]
  constructor
  · intro entry member
    simp only [List.mem_append, List.mem_cons, List.not_mem_nil, or_false] at member
    rcases member with (early | rfl) | rfl | late
    · exact parts.keyed entry (List.mem_append_left _ early)
    · exact (congrArg Prod.fst firstRange).symm
    · exact (congrArg Prod.fst secondRange).symm
    · exact parts.keyed entry (List.mem_append_right _ (List.mem_cons_of_mem _ late))
  · have tiles := parts.tiles
    simp only [List.map_append, List.map_cons, List.singleton_append,
      List.append_assoc] at tiles ⊢
    rw [firstRange, secondRange]
    exact Tiles.split nil_le_bytes _ tiles inside below

/-- Joining two neighbouring tablets of a partition into one, as `Table::MergeTablets` updates
`tablets_list_`, keeps a partition. -/
theorem merge {front back : List (Bytes × Tablet)} {first second merged : Tablet}
    (parts : Partitioned (front ++ (first.keyStart, first) :: (second.keyStart, second) :: back))
    (mergedRange : merged.range = (first.keyStart, second.keyEnd)) :
    Partitioned (mapStore first.keyStart merged (mapErase second.keyStart (mapErase first.keyStart
      (front ++ (first.keyStart, first) :: (second.keyStart, second) :: back)))) := by
  obtain ⟨before, after⟩ := parts.around
  have joined : second.keyStart = first.keyEnd := parts.next_start
  have parts' : Partitioned ((front ++ [(first.keyStart, first)]) ++ (second.keyStart, second) :: back) := by
    simpa using parts
  obtain ⟨before', after'⟩ := parts'.around
  rw [mapErase_between before after,
    mapErase_between (fun other member => before' other (List.mem_append_left _ member)) after',
    mapStore_between back (fun other member => after other (List.mem_cons_of_mem _ member)) front
      before]
  constructor
  · intro entry member
    rcases List.mem_append.mp member with early | later
    · exact parts.keyed entry (List.mem_append_left _ early)
    · rcases List.mem_cons.mp later with rfl | late
      · exact (congrArg Prod.fst mergedRange).symm
      · exact parts.keyed entry (List.mem_append_right _ (List.mem_cons_of_mem _
          (List.mem_cons_of_mem _ late)))
  · have tiles := parts.tiles
    simp only [List.map_append, List.map_cons] at tiles ⊢
    rw [mergedRange]
    rw [Tablet.range, Tablet.range, joined] at tiles
    exact Tiles.merge _ tiles

/-- Over a partition, a tablet meets a non-empty key range, as `Overlaps` tests it, exactly when
some key lies in both. -/
theorem overlaps_iff_exists (parts : Partitioned tabletsList) {entry : Bytes × Tablet}
    (member : entry ∈ tabletsList) {keyStart keyEnd : Bytes}
    (nonempty : keyEnd = [] ∨ keyStart < keyEnd) :
    Overlaps [] entry.2.range keyStart keyEnd ↔
      ∃ key, InRange [] entry.2.range key ∧ InRange [] (keyStart, keyEnd) key :=
  Lib.overlaps_iff_exists (parts.range_nonempty (parts.entry_eq member ▸ member)) nonempty

end Partitioned

end Tera.Master
