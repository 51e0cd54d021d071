import Mathlib

/-! # A key space cut into consecutive ranges

A list of ranges `[start, stop)` over a linearly ordered key space whose least key `bot` also
stands, as an end, for "no bound". The ranges tile the keys from some start on when the first one
begins there, each ends where the next begins, none is empty and the last is unbounded. Under a
tiling that starts at `bot` every key lies in exactly one range, and that range is the last one
starting at or below the key. Cutting a range at a key inside it, or joining two neighbouring ranges,
keeps a tiling. Nothing here names a particular store.
-/

namespace Tera.Lib

variable {κ : Type}

section Tiles

variable [LT κ] (bot : κ)

/-- `key` lies in `range`, whose end at `bot` means no bound. -/
def InRange [LE κ] (range : κ × κ) (key : κ) : Prop :=
  range.1 ≤ key ∧ (range.2 = bot ∨ key < range.2)

instance [LE κ] [DecidableLE κ] [DecidableLT κ] [DecidableEq κ] {range : κ × κ} {key : κ} :
    Decidable (InRange bot range key) :=
  inferInstanceAs (Decidable (_ ∧ _))

/-- The ranges tile the keys from `start` on: each ends where the next begins, none is empty, and
the last one has no bound. -/
inductive Tiles : κ → List (κ × κ) → Prop
  | last (start : κ) : Tiles start [(start, bot)]
  | cons {start stop : κ} {rest : List (κ × κ)} : start < stop → Tiles stop rest →
      Tiles start ((start, stop) :: rest)

/-- The tiling test, run range by range. -/
def tilesFrom [DecidableEq κ] [DecidableLT κ] : κ → List (κ × κ) → Bool
  | _, [] => false
  | start, range :: rest =>
    decide (range.1 = start) &&
      (decide (rest = [] ∧ range.2 = bot) || decide (range.1 < range.2) && tilesFrom range.2 rest)

variable {bot}

/-- A tiling's first range begins at its start and is either the last one, unbounded, or a
non-empty range followed by a tiling from its end. -/
theorem tiles_cons_iff {start : κ} {range : κ × κ} {rest : List (κ × κ)} :
    Tiles bot start (range :: rest) ↔
      range.1 = start ∧ (rest = [] ∧ range.2 = bot ∨ range.1 < range.2 ∧ Tiles bot range.2 rest) := by
  constructor
  · intro tiles
    cases tiles with
    | last => exact ⟨rfl, .inl ⟨rfl, rfl⟩⟩
    | cons shorter rest_tiles => exact ⟨rfl, .inr ⟨shorter, rest_tiles⟩⟩
  · obtain ⟨first, stop⟩ := range
    rintro ⟨rfl, ⟨rfl, unbounded⟩ | ⟨shorter, rest_tiles⟩⟩
    · rw [show stop = bot from unbounded]
      exact .last first
    · exact .cons shorter rest_tiles

theorem tilesFrom_iff [DecidableEq κ] [DecidableLT κ] {start : κ} {ranges : List (κ × κ)} :
    tilesFrom bot start ranges = true ↔ Tiles bot start ranges := by
  induction ranges generalizing start with
  | nil => exact ⟨nofun, nofun⟩
  | cons range rest ih => simp [tilesFrom, tiles_cons_iff, ih]

instance [DecidableEq κ] [DecidableLT κ] {start : κ} {ranges : List (κ × κ)} :
    Decidable (Tiles bot start ranges) :=
  decidable_of_iff _ tilesFrom_iff

example : Tiles 0 0 [(0, 3), (3, 5), (5, 0)] ∧ ¬ Tiles 0 0 [(0, 3), (4, 0)] := by decide

/-- The ranges of a tiling from any one of them on tile the keys from its start. -/
theorem Tiles.suffix {range : κ × κ} {back : List (κ × κ)} :
    ∀ {first : κ} (front : List (κ × κ)), Tiles bot first (front ++ range :: back) →
      Tiles bot range.1 (range :: back) := by
  intro first front
  induction front generalizing first with
  | nil =>
    intro tiles
    rw [(tiles_cons_iff.mp tiles).1]
    exact tiles
  | cons head front ih =>
    intro tiles
    obtain ⟨-, ⟨ends, -⟩ | ⟨-, rest_tiles⟩⟩ := tiles_cons_iff.mp tiles
    · simp at ends
    · exact ih rest_tiles

section Order

variable [LE κ] [Std.IsLinearOrder κ] [Std.LawfulOrderLT κ]

/-- Every range of a tiling begins at or after the tiling's start. -/
theorem Tiles.start_le {start : κ} {ranges : List (κ × κ)} (tiles : Tiles bot start ranges) :
    ∀ range ∈ ranges, start ≤ range.1 := by
  induction tiles with
  | last start =>
    intro range member
    rw [List.mem_singleton.mp member]
    exact Std.le_refl _
  | @cons start stop rest shorter _ ih =>
    intro range member
    rcases List.mem_cons.mp member with rfl | later
    · exact Std.le_refl _
    · exact Std.le_trans (Std.le_of_lt shorter) (ih range later)

/-- The ranges of a tiling start in increasing order. -/
theorem Tiles.pairwise_lt {start : κ} {ranges : List (κ × κ)} (tiles : Tiles bot start ranges) :
    ranges.Pairwise fun range range' => range.1 < range'.1 := by
  induction tiles with
  | last => exact List.pairwise_singleton _ _
  | @cons start stop rest shorter rest_tiles ih =>
    exact .cons (fun range later => Std.lt_of_lt_of_le shorter (rest_tiles.start_le range later)) ih

/-- Two neighbouring ranges of a tiling joined into one leave a tiling. -/
theorem Tiles.merge {start middle stop : κ} {back : List (κ × κ)} :
    ∀ {first : κ} (front : List (κ × κ)),
      Tiles bot first (front ++ (start, middle) :: (middle, stop) :: back) →
      Tiles bot first (front ++ (start, stop) :: back) := by
  intro first front
  induction front generalizing first with
  | nil =>
    intro tiles
    cases tiles with
    | cons shorter rest =>
      cases rest with
      | last => exact .last start
      | cons shorter' rest' => exact .cons (Std.lt_trans shorter shorter') rest'
  | cons range front ih =>
    intro tiles
    rw [List.cons_append] at tiles ⊢
    generalize appended : front ++ (start, middle) :: (middle, stop) :: back = rest at tiles
    cases tiles with
    | last => simp at appended
    | cons shorter rest =>
      subst appended
      exact .cons shorter (ih rest)

section Least

variable (least : ∀ key, bot ≤ key)
include least

/-- No key lies in two ranges of a tiling. -/
theorem Tiles.unique {start : κ} {ranges : List (κ × κ)} (tiles : Tiles bot start ranges) :
    ∀ key range range', range ∈ ranges → range' ∈ ranges → InRange bot range key →
      InRange bot range' key → range = range' := by
  induction tiles with
  | last start =>
    intro key range range' member member' _ _
    rw [List.mem_singleton.mp member, List.mem_singleton.mp member']
  | @cons start stop rest shorter rest_tiles ih =>
    have ends : stop ≠ bot := fun atBot => by
      rw [atBot] at shorter
      exact Std.lt_irrefl (Std.lt_of_le_of_lt (least start) shorter)
    -- a key in the first range lies below every later range
    have before : ∀ key range, range ∈ rest → InRange bot (start, stop) key →
        ¬ InRange bot range key := by
      intro key range later inFirst inLater
      have below : key < stop := inFirst.2.resolve_left ends
      exact Std.lt_irrefl (Std.lt_of_lt_of_le below
        (Std.le_trans (rest_tiles.start_le range later) inLater.1))
    intro key range range' member member' covers covers'
    rcases List.mem_cons.mp member with rfl | later <;>
      rcases List.mem_cons.mp member' with rfl | later'
    · rfl
    · exact absurd covers' (before key _ later' covers)
    · exact absurd covers (before key _ later covers')
    · exact ih key range range' later later' covers covers'

/-- A tiling cut at a key inside one of its ranges is a tiling. -/
theorem Tiles.split {key : κ} {start stop : κ} {back : List (κ × κ)} :
    ∀ {first : κ} (front : List (κ × κ)), Tiles bot first (front ++ (start, stop) :: back) →
      start < key → (stop = bot ∨ key < stop) →
      Tiles bot first (front ++ (start, key) :: (key, stop) :: back) := by
  intro first front
  induction front generalizing first with
  | nil =>
    intro tiles above below
    cases tiles with
    | last => exact .cons above (.last key)
    | cons shorter rest =>
      have bounded : stop ≠ bot := fun atBot => by
        rw [atBot] at shorter
        exact Std.lt_irrefl (Std.lt_of_le_of_lt (least start) shorter)
      exact .cons above (.cons (below.resolve_left bounded) rest)
  | cons range front ih =>
    intro tiles above below
    rw [List.cons_append] at tiles ⊢
    generalize appended : front ++ (start, stop) :: back = rest at tiles
    cases tiles with
    | last => simp at appended
    | cons shorter rest =>
      subst appended
      exact .cons shorter (ih rest above below)

end Least

end Order

end Tiles

section Search

variable {α : Type} [LE κ] [DecidableLE κ] (range : α → κ × κ)

/-- The last item whose range starts at or below `key`. -/
def searchRange (key : κ) (items : List α) : Option α :=
  items.reverse.find? fun item => (range item).1 ≤ key

theorem searchRange_cons (key : κ) (item : α) (items : List α) :
    searchRange range key (item :: items) =
      (searchRange range key items).or (if (range item).1 ≤ key then some item else none) := by
  simp [searchRange, List.find?_append, List.find?_singleton]

theorem searchRange_of_lt [LT κ] [Std.IsLinearOrder κ] [Std.LawfulOrderLT κ] (key : κ) (items : List α)
    (above : ∀ item ∈ items, key < (range item).1) : searchRange range key items = none := by
  apply List.find?_eq_none.mpr
  intro item member
  simpa using Std.not_le.mpr (above item (List.mem_reverse.mp member))

variable [LT κ] [Std.IsLinearOrder κ] [Std.LawfulOrderLT κ] {bot : κ} {range}

/-- In a tiling, the last item starting at or below a key is the one whose range holds the key. -/
theorem Tiles.searchRange {start : κ} {items : List α} (tiles : Tiles bot start (items.map range))
    (key : κ) (above : start ≤ key) :
    ∃ item ∈ items, Lib.searchRange range key items = some item ∧ InRange bot (range item) key := by
  induction items generalizing start with
  | nil => cases tiles
  | cons item rest ih =>
    rw [List.map_cons, tiles_cons_iff] at tiles
    obtain ⟨starts, ⟨ends, unbounded⟩ | ⟨shorter, rest_tiles⟩⟩ := tiles
    · obtain rfl := List.map_eq_nil_iff.mp ends
      refine ⟨item, List.mem_singleton_self _, ?_, starts ▸ above, .inl unbounded⟩
      rw [searchRange_cons, if_pos (starts ▸ above)]
      rfl
    · by_cases inside : key < (range item).2
      · -- every later item starts at or above this one's end
        have none_later : Lib.searchRange range key rest = none :=
          searchRange_of_lt range key rest fun later member =>
            Std.lt_of_lt_of_le inside (rest_tiles.start_le _ (List.mem_map_of_mem member))
        refine ⟨item, List.mem_cons_self, ?_, starts ▸ above, .inr inside⟩
        rw [searchRange_cons, none_later, if_pos (starts ▸ above)]
        rfl
      · obtain ⟨found, member, search, covers⟩ := ih rest_tiles (Std.not_lt.mp inside)
        refine ⟨found, List.mem_cons_of_mem _ member, ?_, covers⟩
        rw [searchRange_cons, search]
        rfl

end Search

section Overlap

variable {α : Type} [LE κ] [LT κ] [DecidableEq κ] [DecidableLE κ] [DecidableLT κ] (range : α → κ × κ)
  (bot : κ)

/-- `range` meets the keys from `low` up to `high`, where an end at `bot` means no bound. -/
def Overlaps (range : κ × κ) (low high : κ) : Prop :=
  (range.2 = bot ∨ low < range.2) ∧ (high = bot ∨ range.1 < high)

instance {range : κ × κ} {low high : κ} : Decidable (Overlaps bot range low high) :=
  inferInstanceAs (Decidable (_ ∧ _))

/-- The items from the last one starting at or below `low` on, as long as they start below `high`
(`bot`: no bound); none when no item starts at or below `low`. -/
def overlapping (low high : κ) (items : List α) : Option (List α) :=
  match (items.takeWhile fun item => (range item).1 ≤ low).length with
  | 0 => none
  | upper + 1 => some ((items.drop upper).takeWhile fun item => high = bot ∨ (range item).1 < high)

theorem overlapping_cons_of_le {low high : κ} {item : α} (items : List α)
    (below : (range item).1 ≤ low) :
    overlapping range bot low high (item :: items) =
      if (items.takeWhile fun item => (range item).1 ≤ low).length = 0 then
        some ((item :: items).takeWhile fun item => high = bot ∨ (range item).1 < high)
      else overlapping range bot low high items := by
  unfold overlapping
  rw [List.takeWhile_cons_of_pos (by simpa using below), List.length_cons]
  cases (items.takeWhile fun item => (range item).1 ≤ low).length <;> rfl

variable [Std.IsLinearOrder κ] [Std.LawfulOrderLT κ] {range bot}

omit [DecidableEq κ] [DecidableLE κ] [DecidableLT κ] in
/-- For a non-empty range and a non-empty query, `Overlaps` says that some key lies in both. -/
theorem overlaps_iff_exists {range : κ × κ} {low high : κ} (nonempty : range.2 = bot ∨ range.1 < range.2)
    (query : high = bot ∨ low < high) :
    Overlaps bot range low high ↔ ∃ key, InRange bot range key ∧ InRange bot (low, high) key := by
  constructor
  · rintro ⟨ends, starts⟩
    by_cases before : range.1 ≤ low
    · exact ⟨low, ⟨before, ends⟩, Std.le_refl low, query⟩
    · exact ⟨range.1, ⟨Std.le_refl _, nonempty⟩, Std.le_of_lt (Std.not_le.mp before), starts⟩
  · rintro ⟨key, ⟨above, below⟩, above', below'⟩
    exact ⟨below.imp_right (Std.lt_of_le_of_lt above'), below'.imp_right (Std.lt_of_le_of_lt above)⟩

omit [DecidableLE κ] in
/-- Past the range holding `low`, taking items while they start below `high` keeps exactly those
that meet the keys from `low` to `high`. -/
theorem Tiles.takeWhile_above {start low high : κ} {items : List α}
    (tiles : Tiles bot start (items.map range)) (below : low < start) :
    items.takeWhile (fun item => decide (high = bot ∨ (range item).1 < high)) =
      items.filter fun item => decide (Overlaps bot (range item) low high) := by
  induction items generalizing start with
  | nil => rfl
  | cons item rest ih =>
    rw [List.map_cons, tiles_cons_iff] at tiles
    obtain ⟨starts, ⟨ends, unbounded⟩ | ⟨shorter, rest_tiles⟩⟩ := tiles
    · obtain rfl := List.map_eq_nil_iff.mp ends
      by_cases taken : high = bot ∨ (range item).1 < high <;> simp [Overlaps, taken, unbounded]
    · have meets : Overlaps bot (range item) low high ↔ (high = bot ∨ (range item).1 < high) :=
        ⟨And.right, fun taken => ⟨.inr (Std.lt_trans (starts ▸ below) shorter), taken⟩⟩
      by_cases taken : high = bot ∨ (range item).1 < high
      · rw [List.takeWhile_cons_of_pos (by simpa using taken),
          List.filter_cons_of_pos (by simpa using meets.mpr taken),
          ih rest_tiles (Std.lt_trans (starts ▸ below) shorter)]
      · -- the items start in increasing order, so none after this one starts below `high`
        rw [List.takeWhile_cons_of_neg (by simpa using taken),
          List.filter_cons_of_neg (by simpa using mt meets.mp taken)]
        symm
        apply List.filter_eq_nil_iff.mpr
        intro later member overlaps
        have bounded : ¬ high = bot ∧ high ≤ (range item).1 := by
          simpa [Std.not_lt] using taken
        have after := rest_tiles.start_le _ (List.mem_map_of_mem member)
        have within := ((decide_eq_true_iff.mp overlaps).2).resolve_left bounded.1
        exact Std.lt_irrefl (Std.lt_of_lt_of_le within
          (Std.le_trans bounded.2 (Std.le_of_lt (Std.lt_of_lt_of_le shorter after))))

/-- Over a tiling that starts at the least key, the items from the one holding `low` on while they
start below `high` are exactly the items meeting a non-empty query from `low` to `high`. -/
theorem Tiles.overlapping (least : ∀ key, bot ≤ key) {start low high : κ} {items : List α}
    (tiles : Tiles bot start (items.map range)) (above : start ≤ low)
    (nonempty : high = bot ∨ low < high) :
    Lib.overlapping range bot low high items =
      some (items.filter fun item => Overlaps bot (range item) low high) := by
  induction items generalizing start with
  | nil => cases tiles
  | cons item rest ih =>
    rw [List.map_cons, tiles_cons_iff] at tiles
    obtain ⟨starts, ⟨ends, unbounded⟩ | ⟨shorter, rest_tiles⟩⟩ := tiles
    · obtain rfl := List.map_eq_nil_iff.mp ends
      have taken : high = bot ∨ (range item).1 < high :=
        nonempty.imp_right (Std.lt_of_le_of_lt (starts ▸ above))
      rw [overlapping_cons_of_le range bot [] (starts ▸ above)]
      simp [Overlaps, taken, unbounded]
    · have taken : high = bot ∨ (range item).1 < high :=
        nonempty.imp_right (Std.lt_of_le_of_lt (starts ▸ above))
      rw [overlapping_cons_of_le range bot rest (starts ▸ above)]
      by_cases inside : low < (range item).2
      · -- the next item starts at this one's end, above `low`
        have none_below : (rest.takeWhile fun item => (range item).1 ≤ low) = [] := by
          cases rest with
          | nil => cases rest_tiles
          | cons next rest =>
            rw [List.map_cons, tiles_cons_iff] at rest_tiles
            rw [List.takeWhile_cons_of_neg (by simpa [rest_tiles.1] using Std.not_le.mpr inside)]
        rw [none_below, List.length_nil, if_pos rfl, List.takeWhile_cons_of_pos (by simpa using taken),
          List.filter_cons_of_pos (by simpa using (show Overlaps bot (range item) low high from
            ⟨.inr inside, taken⟩)),
          rest_tiles.takeWhile_above inside]
      · have bounded : (range item).2 ≠ bot := fun atBot =>
          Std.lt_irrefl (Std.lt_of_le_of_lt (least _) (atBot ▸ shorter))
        have later := ih rest_tiles (Std.not_lt.mp inside)
        have some_below : (rest.takeWhile fun item => (range item).1 ≤ low).length ≠ 0 := by
          intro none_below
          rw [Lib.overlapping, none_below] at later
          cases later
        rw [if_neg some_below, later, List.filter_cons_of_neg (by
          intro meets
          exact inside ((of_decide_eq_true meets).1.resolve_left bounded))]

end Overlap

end Tera.Lib
