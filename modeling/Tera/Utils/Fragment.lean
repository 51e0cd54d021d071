import Tera.Lib.RangeSet
import Tera.Key.RawKey

/-! # `RangeFragment`: the key ranges seen so far

`RangeFragment` (utils/fragment.cc) collects key ranges `[start, end)` of byte strings, an empty end
standing for no bound, in the list `range_`. `AddToRange` searches for the first range that does
not end below the new start, erases every range from there on that starts at or below the new
end, and puts one range from the smaller start to the larger end in their place. `IsCoverRange`
looks at the range the same search finds, and `IsCompleteRange` at whether the list is the single
unbounded range from `""`.

`range_` stays separated (`Tera.Lib.Separated`): in key order, no two ranges overlapping or
touching. Its union is always the union of the ranges added, and the two queries answer for that
union.
-/

namespace Tera.Utils

open Tera.Lib Tera.RawKey

/-- `CompareTwoEndKey`: two ends compared as keys, the empty end being above every other. -/
def compareTwoEndKey (a b : Bytes) : Ordering :=
  if a = [] ∧ b = [] then .eq
  else if a = [] then .gt
  else if b = [] then .lt
  else compareOfLessAndEq a b

/-- `RangeFragment`, with its list `range_`. -/
structure RangeFragment where
  range : List (Bytes × Bytes)
deriving DecidableEq, Repr

namespace RangeFragment

/-- `IsCoverRange`: the first range that does not end below `start` holds `[start, endKey)`. -/
def isCoverRange (fragment : RangeFragment) (start endKey : Bytes) : Bool :=
  match fragment.range.dropWhile (endsBelow [] start) with
  | [] => false
  | range :: _ => decide (range.1 ≤ start) && compareTwoEndKey endKey range.2 != .gt

/-- The `while` loop of `AddToRange`: erase the ranges that start at or below `endKey`, each time
taking `new_end` as the larger of `endKey` and the erased range's end. -/
def mergeRanges (endKey newEnd : Bytes) : List (Bytes × Bytes) → Bytes × List (Bytes × Bytes)
  | [] => (newEnd, [])
  | range :: rest =>
    if endKey = [] ∨ range.1 ≤ endKey then
      mergeRanges endKey (if compareTwoEndKey endKey range.2 = .gt then endKey else range.2) rest
    else (newEnd, range :: rest)

/-- `AddToRange`: `false`, with nothing added, for a range whose end is below its start; otherwise
the range joins the ranges it overlaps or touches. -/
def addToRange (fragment : RangeFragment) (start endKey : Bytes) : Bool × RangeFragment :=
  if endKey ≠ [] ∧ endKey < start then (false, fragment)
  else
    match fragment.range.dropWhile (endsBelow [] start) with
    | [] => (true, ⟨fragment.range ++ [(start, endKey)]⟩)
    | range :: rest =>
      let newStart := if start < range.1 then start else range.1
      let merged := mergeRanges endKey endKey (range :: rest)
      (true, ⟨fragment.range.takeWhile (endsBelow [] start) ++ (newStart, merged.1) :: merged.2⟩)

/-- `IsCompleteRange`: the list is the single range from `""` with no bound. -/
def isCompleteRange (fragment : RangeFragment) : Bool :=
  match fragment.range with
  | [range] => range.1 == [] && range.2 == []
  | _ => false

/-- A fresh fragment after `AddToRange` on each range of `ranges` in turn. -/
def addRanges (ranges : List (Bytes × Bytes)) : RangeFragment :=
  ranges.foldl (fun fragment range => (fragment.addToRange range.1 range.2).2) ⟨[]⟩

example : (addRanges [([5], [7]), ([1], [2]), ([2], [5])]).range = [([1], [7])] := by decide

end RangeFragment

/-! ## Ends -/

theorem compareTwoEndKey_ne_gt_iff {a b : Bytes} : compareTwoEndKey a b ≠ .gt ↔ EndLE [] a b := by
  unfold compareTwoEndKey EndLE
  by_cases aEmpty : a = [] <;> by_cases bEmpty : b = [] <;>
    simp only [aEmpty, bEmpty, and_self, and_true, true_and, and_false, if_true, if_false, ne_eq,
      not_true_eq_false, not_false_eq_true, true_or, false_or, reduceCtorEq]
  · simp only [false_and]
  · rw [compareOfLessAndEq]
    split_ifs with below same
    · exact ⟨fun _ => Std.le_of_lt below, fun _ => by simp⟩
    · exact ⟨fun _ => same ▸ Std.le_refl a, fun _ => by simp⟩
    · refine ⟨fun absurd => (absurd rfl).elim, fun le => ?_⟩
      exact (same (Std.le_antisymm le (Std.not_lt.mp below))).elim

/-- The end `AddToRange` keeps is `maxEnd`. -/
theorem chosenEnd_eq_maxEnd (endKey other : Bytes) :
    (if compareTwoEndKey endKey other = .gt then endKey else other) = maxEnd [] endKey other := by
  unfold compareTwoEndKey maxEnd
  by_cases endEmpty : endKey = [] <;> by_cases otherEmpty : other = [] <;>
    simp only [endEmpty, otherEmpty, and_self, and_true, and_false, if_true, if_false,
      or_self, or_true, true_or, reduceCtorEq]
  rw [compareOfLessAndEq]
  by_cases below : endKey < other
  · simp [below]
  · by_cases same : endKey = other
    · simp [same]
    · simp [below, same]

namespace RangeFragment

/-! ## The merge loop -/

variable {endKey : Bytes}

/-- What the loop leaves after the erased ranges. -/
theorem mergeRanges_snd (newEnd : Bytes) (ranges : List (Bytes × Bytes)) :
    (mergeRanges endKey newEnd ranges).2 = ranges.dropWhile fun range => decide (endKey = [] ∨ range.1 ≤ endKey) := by
  induction ranges generalizing newEnd with
  | nil => rfl
  | cons range rest ih =>
    by_cases erased : endKey = [] ∨ range.1 ≤ endKey
    · rw [mergeRanges, if_pos erased, ih, List.dropWhile_cons_of_pos (by simpa using erased)]
    · rw [mergeRanges, if_neg erased, List.dropWhile_cons_of_neg (by simpa using erased)]

/-- The new end after erasing a range, the larger of `endKey` and the range's end, is `endKey` or lies
apart below every range left, and is at or above `endKey`. -/
theorem maxEnd_apart (low : Bytes) {range : Bytes × Bytes} {rest : List (Bytes × Bytes)}
    (separated : Separated [] (range :: rest)) :
    (maxEnd [] endKey range.2 = endKey ∨ ∀ other ∈ rest, Apart [] (low, maxEnd [] endKey range.2) other) ∧
      EndLE [] endKey (maxEnd [] endKey range.2) := by
  obtain ⟨-, rangeBelow, -⟩ := separated_cons.mp separated
  by_cases endEmpty : endKey = []
  · simp [maxEnd, endEmpty, EndLE]
  by_cases rangeEmpty : range.2 = []
  · have last : rest = [] := List.eq_nil_iff_forall_not_mem.mpr fun other member =>
      (rangeBelow other member).1 rangeEmpty
    simp [maxEnd, rangeEmpty, last, EndLE]
  rw [maxEnd_of_bounded endEmpty rangeEmpty]
  split_ifs with later
  · exact ⟨.inr fun other member => rangeBelow other member, .inr ⟨endEmpty, Std.le_of_lt later⟩⟩
  · exact ⟨.inl rfl, .inr ⟨endEmpty, Std.le_refl _⟩⟩

/-- The range joined with an erased range starts at or below its end. -/
theorem proper_maxEnd {low : Bytes} {range : Bytes × Bytes} (lower : low ≤ range.1)
    (rangeProper : Proper [] range) (erased : endKey = [] ∨ range.1 ≤ endKey) :
    Proper [] (low, maxEnd [] endKey range.2) := by
  unfold maxEnd
  split_ifs with unbounded later
  · exact .inl rfl
  · exact .inr (Std.le_trans lower (rangeProper.resolve_left fun empty => unbounded (.inr empty)))
  · exact .inr (Std.le_trans lower (erased.resolve_left fun empty => unbounded (.inl empty)))

/-- The merge loop from a range `[low, newEnd)` that starts below every range left: the joined
range and the ranges after it hold the same keys as before, and the list they form is separated.
Along the loop `newEnd` is `endKey` or lies apart below every range left. -/
theorem mergeRanges_spec {low : Bytes} :
    ∀ (ranges : List (Bytes × Bytes)) (newEnd : Bytes), Separated [] ranges →
      (∀ range ∈ ranges, low ≤ range.1) → Proper [] (low, newEnd) → EndLE [] endKey newEnd →
      (newEnd = endKey ∨ ∀ range ∈ ranges, Apart [] (low, newEnd) range) →
      (∀ key, InRange [] (low, (mergeRanges endKey newEnd ranges).1) key ∨
          Covered [] (mergeRanges endKey newEnd ranges).2 key ↔
        InRange [] (low, newEnd) key ∨ Covered [] ranges key) ∧
      Separated [] ((low, (mergeRanges endKey newEnd ranges).1) :: (mergeRanges endKey newEnd ranges).2)
  | [], newEnd, _, _, proper, _, _ =>
    ⟨fun _ => Iff.rfl, separated_cons.mpr ⟨proper, by simp [mergeRanges], separated_nil⟩⟩
  | range :: rest, newEnd, separated, lower, proper, below, apart => by
    have rangeProper := separated.proper range List.mem_cons_self
    by_cases erased : endKey = [] ∨ range.1 ≤ endKey
    · -- the range is erased: `[low, newEnd)` joins it, and the loop goes on with the larger end
      have touches : newEnd = [] ∨ range.1 ≤ newEnd := by
        rcases erased with endEmpty | reached
        · exact .inl ((below.resolve_right fun bounded => bounded.1 endEmpty))
        · rcases below with unbounded | ⟨-, le⟩
          · exact .inl unbounded
          · exact .inr (Std.le_trans reached le)
      have sameEnd : maxEnd [] newEnd range.2 = maxEnd [] endKey range.2 := by
        rcases apart with rfl | apart
        · rfl
        · have bounded := (apart range List.mem_cons_self).1
          by_cases rangeEmpty : range.2 = []
          · simp [maxEnd, rangeEmpty]
          have past : newEnd < range.2 := Std.lt_of_lt_of_le (apart range List.mem_cons_self).2
            (rangeProper.resolve_left rangeEmpty)
          have endBounded : endKey ≠ [] := (below.resolve_left bounded).1
          rw [maxEnd_of_bounded bounded rangeEmpty, maxEnd_of_bounded endBounded rangeEmpty, if_pos past,
            if_pos (Std.lt_of_le_of_lt (below.resolve_left bounded).2 past)]
      obtain ⟨nextApart, nextBelow⟩ := maxEnd_apart low separated
      rw [mergeRanges, if_pos erased, chosenEnd_eq_maxEnd]
      obtain ⟨covers, separates⟩ := mergeRanges_spec rest (maxEnd [] endKey range.2) separated.tail
        (fun other member => lower other (List.mem_cons_of_mem _ member))
        (proper_maxEnd (lower range List.mem_cons_self) rangeProper erased) nextBelow nextApart
      refine ⟨fun key => ?_, separates⟩
      rw [covers key, covered_cons, ← or_assoc, inRange_join (lower range List.mem_cons_self) touches, sameEnd]
    · -- the loop stops here: `[low, newEnd)` lies apart below every range left
      rw [mergeRanges, if_neg erased]
      refine ⟨fun _ => Iff.rfl, separated_cons.mpr ⟨proper, fun other member => ?_, separated⟩⟩
      rcases apart with rfl | apart
      · simp only [not_or, Std.not_le] at erased
        rcases List.mem_cons.mp member with rfl | later
        · exact ⟨erased.1, erased.2⟩
        · obtain ⟨bounded, gap⟩ := (separated_cons.mp separated).2.1 other later
          exact ⟨erased.1, Std.lt_trans erased.2 (Std.lt_of_le_of_lt (rangeProper.resolve_left bounded) gap)⟩
      · exact apart other member

/-! ## `AddToRange` -/

/-- On a separated list, `AddToRange` of a range that starts at or below its end adds exactly the
keys of that range, and the list stays separated. -/
theorem addToRange_spec {fragment : RangeFragment} (separated : Separated [] fragment.range)
    {start endKey : Bytes} (proper : Proper [] (start, endKey)) :
    Separated [] (fragment.addToRange start endKey).2.range ∧
      ∀ key, Covered [] (fragment.addToRange start endKey).2.range key ↔
        Covered [] fragment.range key ∨ InRange [] (start, endKey) key := by
  have accepted : ¬ (endKey ≠ [] ∧ endKey < start) := fun ⟨bounded, below⟩ =>
    Std.lt_irrefl (Std.lt_of_lt_of_le below (proper.resolve_left bounded))
  -- the ranges the search passes over lie apart below the new start
  have passed : ∀ range ∈ fragment.range.takeWhile (endsBelow [] start), range.2 ≠ [] ∧ range.2 < start := by
    intro range member
    simpa [endsBelow] using List.mem_takeWhile_imp member
  have original := (List.takeWhile_append_dropWhile (p := endsBelow [] start) (l := fragment.range)).symm
  unfold addToRange
  rw [if_neg accepted]
  cases found : fragment.range.dropWhile (endsBelow [] start) with
  | nil =>
    -- every range ends below `start`: the new one goes last
    refine ⟨separated_append.mpr ⟨separated, separated_cons.mpr ⟨proper, by simp, separated_nil⟩, ?_⟩,
      fun key => by simp⟩
    intro range member other otherMember
    rw [List.mem_singleton.mp otherMember]
    simpa [endsBelow, Apart] using List.dropWhile_eq_nil_iff.mp found range member
  | cons range rest =>
    rw [found] at original
    have restSeparated : Separated [] (range :: rest) := separated.sublist (found ▸ List.dropWhile_sublist _)
    obtain ⟨rangeProper, rangeBelow, -⟩ := separated_cons.mp restSeparated
    obtain ⟨-, -, across⟩ := separated_append.mp (original ▸ separated)
    have reaches := endsBelow_head found
    -- the joined range starts at the smaller of `start` and the first range's start
    have lowBelow : (if start < range.1 then start else range.1) ≤ start := by
      split_ifs with lower
      · exact Std.le_refl _
      · exact Std.not_lt.mp lower
    have lowRange : (if start < range.1 then start else range.1) ≤ range.1 := by
      split_ifs with lower
      · exact Std.le_of_lt lower
      · exact Std.le_refl _
    have lower : ∀ other ∈ range :: rest, (if start < range.1 then start else range.1) ≤ other.1 := by
      intro other member
      rcases List.mem_cons.mp member with rfl | later
      · exact lowRange
      · obtain ⟨bounded, gap⟩ := rangeBelow other later
        exact Std.le_trans lowRange (Std.le_trans (rangeProper.resolve_left bounded) (Std.le_of_lt gap))
    obtain ⟨covers, separates⟩ := mergeRanges_spec (range :: rest) endKey restSeparated lower
      (proper.imp_right fun le => Std.le_trans lowBelow le)
      (by by_cases empty : endKey = [] <;> simp [EndLE, empty, Std.le_refl]) (.inl rfl)
    refine ⟨separated_append.mpr ⟨separated.sublist (List.takeWhile_sublist _), separates, ?_⟩, fun key => ?_⟩
    · intro before member other otherMember
      rcases List.mem_cons.mp otherMember with rfl | later
      · refine ⟨(passed before member).1, ?_⟩
        split_ifs
        · exact (passed before member).2
        · exact (across before member range List.mem_cons_self).2
      · rw [mergeRanges_snd] at later
        exact across before member other ((List.dropWhile_sublist _).subset later)
    · rw [covered_append, covered_cons, covers key, covered_cons]
      conv_rhs => rw [original, covered_append, covered_cons]
      -- moving the start down to the first range's start adds only keys of that range
      by_cases lower : start < range.1
      · simp only [if_pos lower]
        tauto
      · have join := inRange_lower_start endKey (Std.not_lt.mp lower) (Std.le_refl _) reaches key
        simp only [if_neg lower]
        tauto

/-- `AddToRange` calls from a separated fragment, on ranges that each start at or below their end,
keep it separated and add exactly the keys of those ranges. -/
theorem foldl_addToRange_spec (ranges : List (Bytes × Bytes)) (proper : ∀ range ∈ ranges, Proper [] range) :
    ∀ fragment : RangeFragment, Separated [] fragment.range →
      Separated [] (ranges.foldl (fun fragment range => (fragment.addToRange range.1 range.2).2) fragment).range ∧
        ∀ key, Covered [] (ranges.foldl (fun fragment range => (fragment.addToRange range.1 range.2).2) fragment).range key ↔
          Covered [] fragment.range key ∨ Covered [] ranges key := by
  induction ranges with
  | nil => exact fun fragment separated => ⟨separated, by simp⟩
  | cons range rest ih =>
    intro fragment separated
    obtain ⟨added, covers⟩ := addToRange_spec separated (proper range List.mem_cons_self)
    obtain ⟨kept, later⟩ := ih (fun other member => proper other (List.mem_cons_of_mem _ member)) _ added
    refine ⟨kept, fun key => ?_⟩
    rw [List.foldl_cons, later key, covers key, covered_cons]
    tauto

/-! ## The queries -/

/-- On a separated list, `IsCoverRange` of a non-empty range answers whether the union holds it. -/
theorem isCoverRange_iff {fragment : RangeFragment} (separated : Separated [] fragment.range)
    {start endKey : Bytes} (nonempty : endKey = [] ∨ start < endKey) :
    fragment.isCoverRange start endKey = true ↔
      ∀ key, InRange [] (start, endKey) key → Covered [] fragment.range key := by
  unfold isCoverRange
  cases found : fragment.range.dropWhile (endsBelow [] start) with
  | nil => exact ⟨nofun, fun contained => (not_forall_covered_of_dropWhile_nil found nonempty contained).elim⟩
  | cons range rest =>
    rw [separated.forall_covered_iff found nonempty]
    simp only [Bool.and_eq_true, decide_eq_true_eq, bne_iff_ne, compareTwoEndKey_ne_gt_iff]

/-- On a separated list, `IsCompleteRange` answers whether the union is every key. -/
theorem isCompleteRange_iff {fragment : RangeFragment} (separated : Separated [] fragment.range) :
    fragment.isCompleteRange = true ↔ ∀ key, Covered [] fragment.range key := by
  rw [separated.forall_covered_iff_eq List.nil_le]
  unfold isCompleteRange
  rcases fragment with ⟨_ | ⟨⟨first, stop⟩, _ | ⟨next, rest⟩⟩⟩ <;> simp

/-- Over every sequence of `AddToRange` calls on ranges that start at or below their end (an empty
end being no bound), `range_` stays separated, in key order with no two ranges overlapping or
touching, and its union is the union of the ranges added. `IsCoverRange` of a non-empty range
answers whether that union holds it, and `IsCompleteRange` whether the union is every key. -/
theorem addRanges_separated_covers (ranges : List (Bytes × Bytes)) (proper : ∀ range ∈ ranges, Proper [] range) :
    Separated [] (addRanges ranges).range ∧
      (∀ key, Covered [] (addRanges ranges).range key ↔ Covered [] ranges key) ∧
      (∀ start endKey, endKey = [] ∨ start < endKey →
        ((addRanges ranges).isCoverRange start endKey = true ↔
          ∀ key, InRange [] (start, endKey) key → Covered [] ranges key)) ∧
      ((addRanges ranges).isCompleteRange = true ↔ ∀ key, Covered [] ranges key) := by
  obtain ⟨separated, covers⟩ := foldl_addToRange_spec ranges proper ⟨[]⟩ separated_nil
  have separated : Separated [] (addRanges ranges).range := separated
  have union : ∀ key, Covered [] (addRanges ranges).range key ↔ Covered [] ranges key :=
    fun key => (covers key).trans (by simp)
  refine ⟨separated, union, fun start endKey nonempty => ?_, ?_⟩
  · rw [isCoverRange_iff separated nonempty]
    simp only [union]
  · rw [isCompleteRange_iff separated]
    simp only [union]

/-- Three ranges added out of order, the last touching both others. -/
def touchingRanges : List (Bytes × Bytes) := [([5], [7]), ([1], [2]), ([2], [5])]

theorem addRanges_separated_covers_touching :
    (∀ range ∈ touchingRanges, Proper [] range) ∧
      Separated [] (addRanges touchingRanges).range ∧
      (∀ key, Covered [] (addRanges touchingRanges).range key ↔ Covered [] touchingRanges key) ∧
      (∀ start endKey, endKey = [] ∨ start < endKey →
        ((addRanges touchingRanges).isCoverRange start endKey = true ↔
          ∀ key, InRange [] (start, endKey) key → Covered [] touchingRanges key)) ∧
      ((addRanges touchingRanges).isCompleteRange = true ↔ ∀ key, Covered [] touchingRanges key) :=
  ⟨by decide, addRanges_separated_covers touchingRanges (by decide)⟩

end RangeFragment

end Tera.Utils
