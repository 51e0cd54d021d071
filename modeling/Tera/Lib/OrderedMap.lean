import Mathlib

/-! # Ordered sets and maps as sorted lists

A set or a map kept in key order, as a red-black tree would keep it, represented by the list of
its elements or its entries in that order. Keys are compared with `compare`; two keys are the same
element when they compare equal. The operations are the few a caller of an ordered container uses:
insert an element, assign a key (replacing its value), look a key up and test membership. Nothing
here names a particular container's user.
-/

namespace Tera.Lib

variable {κ ν : Type}

section Compare

variable [Ord κ]

/-- Insert an element into a sorted set; an element already present is kept. -/
def setInsert (key : κ) : List κ → List κ
  | [] => [key]
  | head :: rest =>
    match compare key head with
    | .lt => key :: head :: rest
    | .eq => head :: rest
    | .gt => head :: setInsert key rest

/-- The set holds an element that compares equal to the key. -/
def setContains (key : κ) (set : List κ) : Bool :=
  set.any fun element => compare element key == .eq

/-- Assign a value to a key of a sorted map: the entry is added in order, or its value replaced. -/
def mapAssign (key : κ) (value : ν) : List (κ × ν) → List (κ × ν)
  | [] => [(key, value)]
  | (head, old) :: rest =>
    match compare key head with
    | .lt => (key, value) :: (head, old) :: rest
    | .eq => (key, value) :: rest
    | .gt => (head, old) :: mapAssign key value rest

/-- The value of the first entry whose key compares equal to the given one. -/
def mapFind (key : κ) (map : List (κ × ν)) : Option ν :=
  (map.find? fun entry => compare entry.1 key == .eq).map Prod.snd

end Compare

section Strict

/-! A map ordered by a strict order `<` on its keys, as std::map with its default comparator. -/

variable [LT κ] [DecidableLT κ] [DecidableEq κ]

/-- Assign a value to a key (std::map::operator[] followed by an assignment): the entry is added
before the first larger key, or its value replaced. -/
def mapStore (key : κ) (value : ν) : List (κ × ν) → List (κ × ν)
  | [] => [(key, value)]
  | (head, old) :: rest =>
    if key < head then (key, value) :: (head, old) :: rest
    else if key = head then (key, value) :: rest
    else (head, old) :: mapStore key value rest

/-- Remove the entry of a key (std::map::erase by key). -/
def mapErase (key : κ) (map : List (κ × ν)) : List (κ × ν) :=
  map.filter fun entry => entry.1 ≠ key

variable [LE κ] [Std.IsLinearOrder κ] [Std.LawfulOrderLT κ]

/-- A key above every key of a map's front and below every key of its back is stored between them. -/
theorem mapStore_between {key : κ} {value : ν} (back : List (κ × ν)) (after : ∀ entry ∈ back, key < entry.1) :
    ∀ front : List (κ × ν), (∀ entry ∈ front, entry.1 < key) →
      mapStore key value (front ++ back) = front ++ (key, value) :: back
  | [], _ => by
    cases back with
    | nil => rfl
    | cons head rest => exact if_pos (after head List.mem_cons_self)
  | (head, old) :: front, before => by
    have below : head < key := before (head, old) List.mem_cons_self
    rw [List.cons_append, mapStore, if_neg (Std.not_lt.mpr (Std.le_of_lt below)),
      if_neg (fun same => Std.lt_irrefl (same ▸ below)),
      mapStore_between back after front fun entry member => before entry (List.mem_cons_of_mem _ member)]
    rfl

omit [DecidableLT κ] [Std.IsLinearOrder κ] in
/-- Erasing a key stored between a front of smaller and a back of larger keys leaves the two. -/
theorem mapErase_between {key : κ} {value : ν} {front back : List (κ × ν)}
    (before : ∀ entry ∈ front, entry.1 < key) (after : ∀ entry ∈ back, key < entry.1) :
    mapErase key (front ++ (key, value) :: back) = front ++ back := by
  have kept : ∀ entry ∈ front ++ back, entry.1 ≠ key := by
    intro entry member same
    rcases List.mem_append.mp member with early | late
    · exact Std.lt_irrefl (same ▸ before entry early)
    · exact Std.lt_irrefl (same ▸ after entry late)
  rw [mapErase, List.filter_append, List.filter_cons_of_neg (by simp), ← List.filter_append]
  exact List.filter_eq_self.mpr fun entry member => by simpa using kept entry member

end Strict

section Positions

/-! Reading and changing one entry of a map, and finding the entry below or above a key, as a
caller holding an iterator into a std::map does. -/

variable [DecidableEq κ]

/-- The value under a key (dereferencing an iterator found for it). -/
def mapAt (key : κ) (map : List (κ × ν)) : Option ν :=
  (map.find? fun entry => entry.1 = key).map Prod.snd

/-- Change the value under a key (an assignment through a reference to the map's element). -/
def mapModify (key : κ) (change : ν → ν) (map : List (κ × ν)) : List (κ × ν) :=
  map.map fun entry => if entry.1 = key then (entry.1, change entry.2) else entry

theorem mapAt_middle {key : κ} {value : ν} {front : List (κ × ν)} (away : ∀ entry ∈ front, entry.1 ≠ key)
    (back : List (κ × ν)) : mapAt key (front ++ (key, value) :: back) = some value := by
  rw [mapAt, List.find?_append, List.find?_eq_none.mpr (by simpa using away)]
  simp

theorem mapModify_of_forall_ne {key : κ} {change : ν → ν} {map : List (κ × ν)}
    (away : ∀ entry ∈ map, entry.1 ≠ key) : mapModify key change map = map := by
  rw [mapModify, List.map_congr_left fun entry member => if_neg (away entry member), List.map_id']

theorem mapModify_middle {key : κ} {change : ν → ν} {value : ν} {front back : List (κ × ν)}
    (away : ∀ entry ∈ front, entry.1 ≠ key) (backAway : ∀ entry ∈ back, entry.1 ≠ key) :
    mapModify key change (front ++ (key, value) :: back) = front ++ (key, change value) :: back := by
  have frontKept : mapModify key change front = front := mapModify_of_forall_ne away
  have backKept : mapModify key change back = back := mapModify_of_forall_ne backAway
  simp only [mapModify] at frontKept backKept ⊢
  rw [List.map_append, List.map_cons, frontKept, backKept, if_pos rfl]

end Positions

/-- Two members of a pairwise related list are related one way or the other. -/
theorem pairwise_rel_or_rel {α : Type} {R : α → α → Prop} {list : List α} (pairwise : list.Pairwise R)
    {a b : α} (member : a ∈ list) (otherMember : b ∈ list) (distinct : a ≠ b) : R a b ∨ R b a := by
  have : Std.Symm fun x y => R x y ∨ R y x := ⟨fun _ _ either => either.symm⟩
  have either : list.Pairwise fun x y => R x y ∨ R y x := pairwise.imp Or.inl
  exact either.forall member otherMember distinct

/-- On a list where no dropped element follows a kept one (a seek over a sorted container),
`dropWhile` keeps exactly the elements the predicate rejects. -/
theorem dropWhile_eq_filter {α : Type} {p : α → Bool} :
    ∀ {list : List α}, list.Pairwise (fun a b => p b = true → p a = true) →
      list.dropWhile p = list.filter fun a => !p a
  | [], _ => rfl
  | a :: rest, sorted => by
    obtain ⟨later, sortedRest⟩ := List.pairwise_cons.mp sorted
    cases kept : p a
    · -- the drop stops at `a`, and no later element is dropped either
      have rejected : ∀ b ∈ rest, (!p b) = true := fun b member => by
        cases dropped : p b
        · rfl
        · exact absurd (later b member dropped) (by simp [kept])
      rw [List.dropWhile_cons_of_neg (by simp [kept]), List.filter_cons_of_pos (by simp [kept]),
        List.filter_eq_self.mpr rejected]
    · rw [List.dropWhile_cons_of_pos kept, List.filter_cons_of_neg (by simp [kept]),
        dropWhile_eq_filter sortedRest]

section Floor

variable [LT κ] [DecidableLT κ]

/-- The first entry above a key (`++it` from the entry of that key). -/
theorem find?_above_middle {key : κ} {value : ν} {front back : List (κ × ν)}
    (below : ∀ entry ∈ front, ¬ key < entry.1) (irrefl : ¬ key < key) (above : ∀ entry ∈ back, key < entry.1) :
    (front ++ (key, value) :: back).find? (fun entry => key < entry.1) = back.head? := by
  rw [List.find?_append, List.find?_eq_none.mpr (by simpa using below), Option.none_or,
    List.find?_cons_of_neg (by simpa using irrefl)]
  cases back with
  | nil => rfl
  | cons head rest => exact List.find?_cons_of_pos (by simpa using above head List.mem_cons_self)

variable [LE κ] [DecidableLE κ]

/-- `upper_bound(key)` stepped back one entry: the entry of the greatest key at or below `key`. -/
def mapFloor (key : κ) (map : List (κ × ν)) : Option (κ × ν) :=
  (map.takeWhile fun entry => entry.1 ≤ key).getLast?

omit [LT κ] [DecidableLT κ] in
theorem mapFloor_cons (key : κ) (head : κ × ν) (rest : List (κ × ν)) :
    mapFloor key (head :: rest) = if head.1 ≤ key then some ((mapFloor key rest).getD head) else none := by
  unfold mapFloor
  by_cases reached : head.1 ≤ key
  · rw [List.takeWhile_cons_of_pos (by simpa using reached), List.getLast?_cons, if_pos reached]
  · rw [List.takeWhile_cons_of_neg (by simpa using reached), if_neg reached]
    rfl

variable [Std.IsLinearOrder κ] [Std.LawfulOrderLT κ]

omit [DecidableLT κ] in
/-- In a map sorted by key, a key has no floor exactly when every key is above it. -/
theorem mapFloor_eq_none_iff {key : κ} {map : List (κ × ν)}
    (sorted : map.Pairwise fun entry other => entry.1 < other.1) :
    mapFloor key map = none ↔ ∀ entry ∈ map, key < entry.1 := by
  cases map with
  | nil => simp [mapFloor]
  | cons head rest =>
    obtain ⟨headBelow, -⟩ := List.pairwise_cons.mp sorted
    rw [mapFloor_cons]
    by_cases reached : head.1 ≤ key
    · simp only [if_pos reached, reduceCtorEq, false_iff, not_forall]
      exact ⟨head, List.mem_cons_self, Std.not_lt.mpr reached⟩
    · simp only [if_neg reached, true_iff]
      intro entry member
      rcases List.mem_cons.mp member with rfl | later
      · exact Std.not_le.mp reached
      · exact Std.lt_trans (Std.not_le.mp reached) (headBelow entry later)

omit [DecidableLT κ] in
/-- In a map sorted by key, the floor of a key is the entry of the greatest key at or below it. -/
theorem mapFloor_eq_some_iff {key : κ} {entry : κ × ν} :
    ∀ {map : List (κ × ν)}, map.Pairwise (fun entry other => entry.1 < other.1) →
      (mapFloor key map = some entry ↔
        entry ∈ map ∧ entry.1 ≤ key ∧ ∀ other ∈ map, other.1 ≤ key → other.1 ≤ entry.1)
  | [], _ => by simp [mapFloor]
  | head :: rest, sorted => by
    obtain ⟨headBelow, restSorted⟩ := List.pairwise_cons.mp sorted
    rw [mapFloor_cons]
    by_cases reached : head.1 ≤ key
    · rw [if_pos reached, Option.some_inj]
      cases restFloor : mapFloor key rest with
      | none =>
        -- every later key is above `key`: the head is the floor
        have above := (mapFloor_eq_none_iff restSorted).mp restFloor
        simp only [Option.getD_none]
        constructor
        · rintro rfl
          refine ⟨List.mem_cons_self, reached, fun other member within => ?_⟩
          rcases List.mem_cons.mp member with rfl | later
          · exact Std.le_refl _
          · exact (Std.not_lt.mpr within (above other later)).elim
        · rintro ⟨member, within, -⟩
          rcases List.mem_cons.mp member with rfl | later
          · rfl
          · exact (Std.not_lt.mpr within (above entry later)).elim
      | some last =>
        -- a later key is at or below `key`: the floor of the rest is the floor
        obtain ⟨lastMember, lastWithin, lastGreatest⟩ := (mapFloor_eq_some_iff restSorted).mp restFloor
        simp only [Option.getD_some]
        constructor
        · rintro rfl
          refine ⟨List.mem_cons_of_mem _ lastMember, lastWithin, fun other member within => ?_⟩
          rcases List.mem_cons.mp member with rfl | later
          · exact Std.le_of_lt (headBelow _ lastMember)
          · exact lastGreatest other later within
        · rintro ⟨member, within, greatest⟩
          rcases List.mem_cons.mp member with rfl | later
          · exact (Std.not_lt.mpr (greatest last (List.mem_cons_of_mem _ lastMember) lastWithin)
              (headBelow last lastMember)).elim
          · exact Option.some_inj.mp (restFloor.symm.trans ((mapFloor_eq_some_iff restSorted).mpr
              ⟨later, within, fun other otherMember => greatest other (List.mem_cons_of_mem _ otherMember)⟩))
    · rw [if_neg reached]
      simp only [reduceCtorEq, List.mem_cons, false_iff, not_and]
      rintro (rfl | member) within
      · exact (reached within).elim
      · exact (reached (Std.le_trans (Std.le_of_lt (headBelow entry member)) within)).elim

omit [DecidableLT κ] in
/-- In a map sorted by key, the floor of a key splits the map: smaller keys before it, keys above
the key after it. -/
theorem mapFloor_split {key : κ} {entry : κ × ν} {map : List (κ × ν)}
    (sorted : map.Pairwise fun entry other => entry.1 < other.1) (found : mapFloor key map = some entry) :
    ∃ front back, map = front ++ entry :: back ∧ (∀ other ∈ front, other.1 < entry.1) ∧
      ∀ other ∈ back, key < other.1 := by
  obtain ⟨member, -, greatest⟩ := (mapFloor_eq_some_iff sorted).mp found
  obtain ⟨front, back, rfl⟩ := List.append_of_mem member
  have around := List.pairwise_append.mp sorted
  obtain ⟨below, -⟩ := List.pairwise_cons.mp around.2.1
  refine ⟨front, back, rfl, fun other frontMember => around.2.2 other frontMember entry List.mem_cons_self,
    fun other backMember => Std.not_le.mp fun within => ?_⟩
  exact Std.not_lt.mpr (greatest other (by simp [backMember]) within) (below other backMember)

omit [DecidableLT κ] [DecidableLE κ] in
/-- A map sorted by key without an entry for `key` splits into the entries below `key` and the
entries above it. -/
theorem split_of_absent {key : κ} : ∀ {map : List (κ × ν)}, map.Pairwise (fun entry other => entry.1 < other.1) →
    (∀ entry ∈ map, entry.1 ≠ key) →
    ∃ front back, map = front ++ back ∧ (∀ entry ∈ front, entry.1 < key) ∧ ∀ entry ∈ back, key < entry.1
  | [], _, _ => ⟨[], [], rfl, by simp, by simp⟩
  | head :: rest, sorted, absent => by
    obtain ⟨headBelow, restSorted⟩ := List.pairwise_cons.mp sorted
    by_cases below : head.1 < key
    · obtain ⟨front, back, rfl, frontBelow, backAbove⟩ :=
        split_of_absent restSorted fun entry member => absent entry (List.mem_cons_of_mem _ member)
      refine ⟨head :: front, back, rfl, fun entry member => ?_, backAbove⟩
      rcases List.mem_cons.mp member with rfl | later
      · exact below
      · exact frontBelow entry later
    · -- the head is above the key, and so is every later entry
      have above : key < head.1 :=
        Std.lt_iff_le_and_ne.mpr ⟨Std.not_lt.mp below, (absent head List.mem_cons_self).symm⟩
      refine ⟨[], head :: rest, rfl, by simp, fun entry member => ?_⟩
      rcases List.mem_cons.mp member with rfl | later
      · exact above
      · exact Std.lt_trans above (headBelow entry later)

end Floor

end Tera.Lib
