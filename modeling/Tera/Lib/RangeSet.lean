import Tera.Lib.KeyRanges

/-! # Sets of keys kept as separated ranges

A set of keys of a linear order kept as a list of ranges `[start, stop)` in key order, an end at
the least key `bot` standing for no bound. The list is separated when every range starts at or
below its end and every bounded range ends strictly below the start of each later one: no two
ranges overlap or touch, and only the last may be unbounded. The set is the union of the ranges.

Under separation the union has one shape only. A range of keys lies in the union exactly when it
lies in the first range that does not end below its start, and the union is the whole key space
exactly when the list is the single unbounded range from `bot`. Two ranges that overlap or touch
join into the range from the smaller start to the larger end. Nothing here names a particular
store.
-/

namespace Tera.Lib

variable {κ : Type}

section Ranges

variable [LE κ] [LT κ] (bot : κ)

/-- A range that starts at or below its end, or has no bound; it may be empty. -/
def Proper (range : κ × κ) : Prop := range.2 = bot ∨ range.1 ≤ range.2

/-- A range lies apart below another: it has a bound, strictly below the other's start. -/
def Apart (range other : κ × κ) : Prop := range.2 ≠ bot ∧ range.2 < other.1

/-- Ranges in key order, none overlapping or touching another; only the last may be unbounded. -/
structure Separated (ranges : List (κ × κ)) : Prop where
  proper : ∀ range ∈ ranges, Proper bot range
  apart : ranges.Pairwise (Apart bot)

/-- `key` lies in one of the ranges. -/
def Covered (ranges : List (κ × κ)) (key : κ) : Prop := ∃ range ∈ ranges, InRange bot range key

/-- `stop` is at or below `other` as an end: `other` has no bound, or both have and `stop` is the
smaller. -/
def EndLE (stop other : κ) : Prop := other = bot ∨ stop ≠ bot ∧ stop ≤ other

/-- The larger of two ends, no bound being above every bound. -/
def maxEnd [DecidableEq κ] [DecidableLT κ] (stop other : κ) : κ :=
  if stop = bot ∨ other = bot then bot else if stop < other then other else stop

/-- The smaller of two ends, no bound being above every bound. -/
def minEnd [DecidableEq κ] [DecidableLT κ] (stop other : κ) : κ :=
  if stop = bot then other else if other = bot then stop else if stop < other then stop else other

/-- `range` has a bound below `key`: a search for `key` passes it over. -/
def endsBelow [DecidableEq κ] [DecidableLT κ] (key : κ) (range : κ × κ) : Bool :=
  range.2 != bot && decide (range.2 < key)

instance [DecidableEq κ] [DecidableLE κ] {range : κ × κ} : Decidable (Proper bot range) :=
  inferInstanceAs (Decidable (_ ∨ _))

variable {bot}

@[simp] theorem covered_nil (key : κ) : ¬ Covered bot [] key := by
  simp [Covered]

@[simp] theorem covered_cons {range : κ × κ} {ranges : List (κ × κ)} {key : κ} :
    Covered bot (range :: ranges) key ↔ InRange bot range key ∨ Covered bot ranges key := by
  simp [Covered]

@[simp] theorem covered_append {front back : List (κ × κ)} {key : κ} :
    Covered bot (front ++ back) key ↔ Covered bot front key ∨ Covered bot back key := by
  simp only [Covered, List.mem_append]
  constructor
  · rintro ⟨range, front | back, inside⟩
    · exact .inl ⟨range, front, inside⟩
    · exact .inr ⟨range, back, inside⟩
  · rintro (⟨range, front, inside⟩ | ⟨range, back, inside⟩)
    · exact ⟨range, .inl front, inside⟩
    · exact ⟨range, .inr back, inside⟩

theorem separated_nil : Separated bot ([] : List (κ × κ)) := ⟨by simp, .nil⟩

theorem separated_cons {range : κ × κ} {ranges : List (κ × κ)} :
    Separated bot (range :: ranges) ↔
      Proper bot range ∧ (∀ other ∈ ranges, Apart bot range other) ∧ Separated bot ranges := by
  constructor
  · rintro ⟨proper, apart⟩
    obtain ⟨below, rest⟩ := List.pairwise_cons.mp apart
    exact ⟨proper range List.mem_cons_self, below,
      ⟨fun other member => proper other (List.mem_cons_of_mem _ member), rest⟩⟩
  · rintro ⟨proper, below, rest⟩
    refine ⟨fun other member => ?_, List.pairwise_cons.mpr ⟨below, rest.apart⟩⟩
    rcases List.mem_cons.mp member with rfl | later
    · exact proper
    · exact rest.proper other later

theorem separated_append {front back : List (κ × κ)} :
    Separated bot (front ++ back) ↔
      Separated bot front ∧ Separated bot back ∧ ∀ range ∈ front, ∀ other ∈ back, Apart bot range other := by
  constructor
  · rintro ⟨proper, apart⟩
    obtain ⟨early, late, across⟩ := List.pairwise_append.mp apart
    exact ⟨⟨fun range member => proper range (List.mem_append_left _ member), early⟩,
      ⟨fun range member => proper range (List.mem_append_right _ member), late⟩, across⟩
  · rintro ⟨early, late, across⟩
    refine ⟨fun range member => ?_, List.pairwise_append.mpr ⟨early.apart, late.apart, across⟩⟩
    rcases List.mem_append.mp member with front | back
    · exact early.proper range front
    · exact late.proper range back

theorem Separated.tail {range : κ × κ} {ranges : List (κ × κ)} (separated : Separated bot (range :: ranges)) :
    Separated bot ranges :=
  (separated_cons.mp separated).2.2

theorem Separated.sublist {ranges others : List (κ × κ)} (separated : Separated bot ranges)
    (sub : others.Sublist ranges) : Separated bot others :=
  ⟨fun range member => separated.proper range (sub.subset member), separated.apart.sublist sub⟩

omit [LE κ] in
theorem maxEnd_bot_left [DecidableEq κ] [DecidableLT κ] {stop : κ} (unbounded : stop = bot) (other : κ) :
    maxEnd bot stop other = bot := by
  simp [maxEnd, unbounded]

omit [LE κ] in
theorem maxEnd_bot_right [DecidableEq κ] [DecidableLT κ] (stop : κ) {other : κ} (unbounded : other = bot) :
    maxEnd bot stop other = bot := by
  simp [maxEnd, unbounded]

omit [LE κ] in
theorem maxEnd_of_bounded [DecidableEq κ] [DecidableLT κ] {stop other : κ} (bounded : stop ≠ bot)
    (otherBounded : other ≠ bot) : maxEnd bot stop other = if stop < other then other else stop := by
  simp [maxEnd, bounded, otherBounded]

section Order

variable [Std.IsLinearOrder κ] [Std.LawfulOrderLT κ]

omit [Std.IsLinearOrder κ] [Std.LawfulOrderLT κ] in
/-- Two members of a separated list are one range, or one lies apart below the other. -/
theorem Separated.trichotomy {ranges : List (κ × κ)} (separated : Separated bot ranges)
    {range other : κ × κ} (member : range ∈ ranges) (otherMember : other ∈ ranges) :
    range = other ∨ Apart bot range other ∨ Apart bot other range := by
  induction ranges with
  | nil => simp at member
  | cons head rest ih =>
    obtain ⟨-, below, tail⟩ := separated_cons.mp separated
    rcases List.mem_cons.mp member with rfl | later <;>
      rcases List.mem_cons.mp otherMember with rfl | otherLater
    · exact .inl rfl
    · exact .inr (.inl (below other otherLater))
    · exact .inr (.inr (below range later))
    · exact ih tail later otherLater

/-- The end of a bounded range of a separated list is a key none of its ranges holds. -/
theorem Separated.not_covered_stop {ranges : List (κ × κ)} (separated : Separated bot ranges)
    {range : κ × κ} (member : range ∈ ranges) (bounded : range.2 ≠ bot) :
    ¬ Covered bot ranges range.2 := by
  rintro ⟨other, otherMember, inside⟩
  have start_le : range.1 ≤ range.2 := (separated.proper range member).resolve_left bounded
  rcases separated.trichotomy member otherMember with rfl | apart | apart
  · exact inside.2.elim bounded (Std.lt_irrefl)
  · exact Std.lt_irrefl (Std.lt_of_lt_of_le apart.2 inside.1)
  · exact Std.lt_irrefl (Std.lt_trans (inside.2.resolve_left apart.1) (Std.lt_of_lt_of_le apart.2 start_le))

/-- A search for `key` passes over no range that holds a key at or above `key`. -/
theorem covered_dropWhile_endsBelow [DecidableEq κ] [DecidableLT κ] {key other : κ}
    (above : key ≤ other) (ranges : List (κ × κ)) :
    Covered bot (ranges.dropWhile (endsBelow bot key)) other ↔ Covered bot ranges other := by
  conv => rhs; rw [← List.takeWhile_append_dropWhile (p := endsBelow bot key) (l := ranges)]
  rw [covered_append, iff_or_self]
  rintro ⟨range, member, inside⟩
  have passed := List.mem_takeWhile_imp member
  simp only [endsBelow, Bool.and_eq_true, bne_iff_ne, ne_eq, decide_eq_true_eq] at passed
  exact (Std.lt_irrefl (Std.lt_of_lt_of_le (Std.lt_trans (inside.2.resolve_left passed.1) passed.2) above)).elim

/-- The first range a search for `key` stops at does not end below `key`. -/
theorem endsBelow_head [DecidableEq κ] [DecidableLT κ] {key : κ} {ranges after : List (κ × κ)}
    {range : κ × κ} (found : ranges.dropWhile (endsBelow bot key) = range :: after) :
    range.2 = bot ∨ key ≤ range.2 := by
  have nonempty : ranges.dropWhile (endsBelow bot key) ≠ [] := by simp [found]
  have stopped := List.head_dropWhile_not (endsBelow bot key) nonempty
  have head : (ranges.dropWhile (endsBelow bot key)).head nonempty = range := by simp [found]
  rw [head] at stopped
  simp only [endsBelow, Bool.and_eq_false_iff, bne_eq_false_iff_eq, decide_eq_false_iff_not] at stopped
  rcases stopped with unbounded | notBelow
  · exact .inl unbounded
  · exact .inr (Std.not_lt.mp notBelow)

/-- Under separation, a non-empty range of keys lies in the union exactly when it lies in the
first range that does not end below its start. -/
theorem Separated.forall_covered_iff [DecidableEq κ] [DecidableLT κ] {ranges after : List (κ × κ)}
    (separated : Separated bot ranges) {start stop : κ} {range : κ × κ}
    (found : ranges.dropWhile (endsBelow bot start) = range :: after)
    (nonempty : stop = bot ∨ start < stop) :
    (∀ key, InRange bot (start, stop) key → Covered bot ranges key) ↔
      range.1 ≤ start ∧ EndLE bot stop range.2 := by
  have rest : Separated bot (range :: after) :=
    separated.sublist (found ▸ List.dropWhile_sublist _)
  have member : range ∈ ranges :=
    (List.dropWhile_sublist _).subset (by rw [found]; exact List.mem_cons_self)
  obtain ⟨-, below, -⟩ := separated_cons.mp rest
  have reaches := endsBelow_head found
  -- a key at or above `start` that the union holds lies in `range` or in a range after it
  have located : ∀ key, start ≤ key → Covered bot ranges key →
      InRange bot range key ∨ ∃ other ∈ after, InRange bot other key := by
    intro key above covered
    rw [← covered_dropWhile_endsBelow above, found, covered_cons] at covered
    exact covered
  constructor
  · intro contained
    have startInside : InRange bot range start := by
      rcases located start (Std.le_refl _) (contained start ⟨Std.le_refl _, nonempty⟩) with
        inside | ⟨other, member, inside⟩
      · exact inside
      · have := below other member
        rcases reaches with unbounded | reached
        · exact (this.1 unbounded).elim
        · exact (Std.lt_irrefl (Std.lt_of_le_of_lt reached (Std.lt_of_lt_of_le this.2 inside.1))).elim
    refine ⟨startInside.1, ?_⟩
    by_cases unbounded : range.2 = bot
    · exact .inl unbounded
    -- otherwise the end of `range`, a key the union lacks, would lie in `[start, stop)`
    · refine .inr ⟨fun stopUnbounded => ?_, Std.not_lt.mp fun beyond => ?_⟩
      · exact separated.not_covered_stop member unbounded (contained range.2
          ⟨Std.le_of_lt (startInside.2.resolve_left unbounded), .inl stopUnbounded⟩)
      · exact separated.not_covered_stop member unbounded (contained range.2
          ⟨Std.le_of_lt (startInside.2.resolve_left unbounded), .inr beyond⟩)
  · rintro ⟨startAbove, stopBelow⟩ key ⟨keyAbove, keyBelow⟩
    rw [← covered_dropWhile_endsBelow keyAbove, found, covered_cons]
    refine .inl ⟨Std.le_trans startAbove keyAbove, ?_⟩
    rcases stopBelow with unbounded | ⟨bounded, le⟩
    · exact .inl unbounded
    · exact .inr (Std.lt_of_lt_of_le (keyBelow.resolve_left bounded) le)

/-- A search that passes over every range finds a non-empty range of keys outside the union. -/
theorem not_forall_covered_of_dropWhile_nil [DecidableEq κ] [DecidableLT κ] {ranges : List (κ × κ)}
    {start stop : κ} (found : ranges.dropWhile (endsBelow bot start) = [])
    (nonempty : stop = bot ∨ start < stop) :
    ¬ ∀ key, InRange bot (start, stop) key → Covered bot ranges key := by
  intro contained
  have covered := contained start ⟨Std.le_refl _, nonempty⟩
  rw [← covered_dropWhile_endsBelow (Std.le_refl start), found] at covered
  exact covered_nil _ covered

/-- Under separation, the union is the whole key space exactly when the list is the single
unbounded range from `bot`. -/
theorem Separated.forall_covered_iff_eq (least : ∀ key : κ, bot ≤ key) {ranges : List (κ × κ)}
    (separated : Separated bot ranges) : (∀ key, Covered bot ranges key) ↔ ranges = [(bot, bot)] := by
  constructor
  · intro whole
    obtain ⟨range, member, inside⟩ := whole bot
    have atBot : range.1 = bot := Std.le_antisymm inside.1 (least _)
    -- no range lies below the one at `bot`, and a bounded one would leave its end out
    have first : ∀ other ∈ ranges, other = range ∨ Apart bot range other := by
      intro other otherMember
      rcases separated.trichotomy member otherMember with same | apart | apart
      · exact .inl same.symm
      · exact .inr apart
      · exact (Std.lt_irrefl (Std.lt_of_lt_of_le apart.2 (atBot ▸ least _))).elim
    by_cases unbounded : range.2 = bot
    · have only : ∀ other ∈ ranges, other = range := fun other otherMember =>
        (first other otherMember).resolve_right fun apart => apart.1 unbounded
      have single : ranges = [range] := by
        obtain ⟨front, back, split⟩ := List.append_of_mem member
        have noFront : front = [] := List.eq_nil_iff_forall_not_mem.mpr fun other inFront => by
          have := (separated_append.mp (split ▸ separated)).2.2 other inFront range List.mem_cons_self
          rw [only other (split ▸ List.mem_append_left _ inFront)] at this
          exact this.1 unbounded
        have noBack : back = [] := List.eq_nil_iff_forall_not_mem.mpr fun other inBack => by
          have := (separated_cons.mp (separated_append.mp (split ▸ separated)).2.1).2.1 other inBack
          exact this.1 unbounded
        rw [split, noFront, noBack]
        rfl
      rw [single, show range = (bot, bot) from Prod.ext atBot unbounded]
    · exact (separated.not_covered_stop member unbounded (whole range.2)).elim
  · rintro rfl key
    exact covered_cons.mpr (.inl ⟨least key, .inl rfl⟩)

/-- A range that a range from below reaches joins it: the keys of both are those from the lower
start to the larger end. -/
theorem inRange_join [DecidableEq κ] [DecidableLT κ] {start stop : κ} {range : κ × κ}
    (lower : start ≤ range.1) (touches : stop = bot ∨ range.1 ≤ stop) (key : κ) :
    InRange bot (start, stop) key ∨ InRange bot range key ↔
      InRange bot (start, maxEnd bot stop range.2) key := by
  -- `maxEnd` is no bound, or a bound at or above both ends
  have stopBelow : ∀ {key}, key < stop → maxEnd bot stop range.2 = bot ∨ key < maxEnd bot stop range.2 := by
    intro key below
    unfold maxEnd
    split_ifs with unbounded later
    · exact .inl rfl
    · exact .inr (Std.lt_trans below later)
    · exact .inr below
  have rangeStopBelow : ∀ {key}, key < range.2 →
      maxEnd bot stop range.2 = bot ∨ key < maxEnd bot stop range.2 := by
    intro key below
    unfold maxEnd
    split_ifs with unbounded later
    · exact .inl rfl
    · exact .inr below
    · exact .inr (Std.lt_of_lt_of_le below (Std.not_lt.mp later))
  constructor
  · rintro (⟨above, unbounded | below⟩ | ⟨above, unbounded | below⟩)
    · exact ⟨above, .inl (maxEnd_bot_left (show stop = bot from unbounded) _)⟩
    · exact ⟨above, stopBelow below⟩
    · exact ⟨Std.le_trans lower above, .inl (maxEnd_bot_right _ unbounded)⟩
    · exact ⟨Std.le_trans lower above, rangeStopBelow below⟩
  · rintro ⟨above, joined⟩
    by_cases beforeRange : key < range.1
    -- a key below `range` lies in `[start, stop)`, which reaches up to `range`
    · refine .inl ⟨above, ?_⟩
      rcases touches with unbounded | reached
      · exact .inl unbounded
      · exact .inr (Std.lt_of_lt_of_le beforeRange reached)
    · by_cases withinRange : range.2 = bot ∨ key < range.2
      · exact .inr ⟨Std.not_lt.mp beforeRange, withinRange⟩
      -- a key past a bounded `range` lies in `[start, stop)`, which then ends above it
      · have bounded : range.2 ≠ bot := fun unbounded => withinRange (.inl unbounded)
        have past : range.2 ≤ key := Std.not_lt.mp fun below => withinRange (.inr below)
        refine .inl ⟨above, ?_⟩
        by_cases unbounded : stop = bot
        · exact .inl unbounded
        · have joined : maxEnd bot stop range.2 = bot ∨ key < maxEnd bot stop range.2 := joined
          rw [maxEnd_of_bounded unbounded bounded] at joined
          split_ifs at joined with later
          · exact (joined.elim bounded fun below => Std.lt_irrefl (Std.lt_of_lt_of_le below past)).elim
          · exact .inr (joined.resolve_left unbounded)

/-- Moving a range's start down into another range that reaches up to the old start adds only keys
of that other range. -/
theorem inRange_lower_start {low start : κ} (stop : κ) {range : κ × κ} (below : low ≤ start)
    (holds : range.1 ≤ low) (reaches : range.2 = bot ∨ start ≤ range.2) (key : κ) :
    InRange bot (low, stop) key ∨ InRange bot range key ↔
      InRange bot (start, stop) key ∨ InRange bot range key := by
  constructor
  · rintro (⟨above, within⟩ | inside)
    · by_cases reached : start ≤ key
      · exact .inl ⟨reached, within⟩
      · refine .inr ⟨Std.le_trans holds above, ?_⟩
        rcases reaches with unbounded | le
        · exact .inl unbounded
        · exact .inr (Std.lt_of_lt_of_le (Std.not_le.mp reached) le)
    · exact .inr inside
  · rintro (⟨above, within⟩ | inside)
    · exact .inl ⟨Std.le_trans below above, within⟩
    · exact .inr inside

section MinEnd

variable [DecidableEq κ] [DecidableLT κ] {stop other : κ}

/-- The smaller end of a bounded end and one above it is the first. -/
theorem minEnd_eq_left (bounded : stop ≠ bot) (below : stop ≤ other) : minEnd bot stop other = stop := by
  unfold minEnd
  rw [if_neg bounded]
  split_ifs with otherUnbounded earlier
  · rfl
  · rfl
  · exact (Std.le_antisymm below (Std.not_lt.mp earlier)).symm

/-- The smaller end of an end and a bounded one below it is the second. -/
theorem minEnd_eq_right (otherBounded : other ≠ bot) (above : stop = bot ∨ other < stop) :
    minEnd bot stop other = other := by
  unfold minEnd
  by_cases unbounded : stop = bot
  · rw [if_pos unbounded]
  · rw [if_neg unbounded, if_neg otherBounded,
      if_neg (Std.not_lt.mpr (Std.le_of_lt (above.resolve_left unbounded)))]

omit [LE κ] [Std.IsLinearOrder κ] [Std.LawfulOrderLT κ] in
theorem minEnd_ne_bot (otherBounded : other ≠ bot) : minEnd bot stop other ≠ bot := by
  unfold minEnd
  split_ifs with unbounded
  · exact otherBounded
  · exact unbounded
  · exact otherBounded

theorem minEnd_le_left (bounded : stop ≠ bot) (otherBounded : other ≠ bot) : minEnd bot stop other ≤ stop := by
  rw [minEnd, if_neg bounded, if_neg otherBounded]
  split_ifs with earlier
  · exact Std.le_refl _
  · exact Std.not_lt.mp earlier

theorem minEnd_le_right (otherBounded : other ≠ bot) : minEnd bot stop other ≤ other := by
  unfold minEnd
  split_ifs with unbounded earlier
  · exact Std.le_refl _
  · exact Std.le_of_lt earlier
  · exact Std.le_refl _

/-- A key is below the smaller of two ends, the second bounded, when it is below both. -/
theorem lt_minEnd_iff (otherBounded : other ≠ bot) {key : κ} :
    key < minEnd bot stop other ↔ (stop = bot ∨ key < stop) ∧ key < other := by
  unfold minEnd
  by_cases unbounded : stop = bot
  · simp [unbounded]
  · rw [if_neg unbounded, if_neg otherBounded]
    simp only [unbounded, false_or]
    split_ifs with earlier
    · exact ⟨fun below => ⟨below, Std.lt_trans below earlier⟩, And.left⟩
    · exact ⟨fun below => ⟨Std.lt_of_lt_of_le below (Std.not_lt.mp earlier), below⟩, And.right⟩

end MinEnd

end Order

end Ranges

end Tera.Lib
