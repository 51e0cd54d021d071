import Mathlib

/-! # Multi-version columns with delete watermarks

A column of a multi-version store keeps values by timestamp, newest first, and a put at a
timestamp it already holds replaces that version. A delete up to a timestamp hides every version at
or below it, also those put later, so the column keeps that watermark beside the versions it still
shows. Nothing here names a particular store.
-/

namespace Tera.Lib

/-- The versions a column shows, newest first, and the timestamp up to which a delete hides every
version. -/
structure Column (α : Type) where
  versions : List (Int × α)
  deletedTo : Int
deriving DecidableEq, Repr

namespace Column

variable {α : Type}

/-- A column nothing was written to or deleted from. -/
def empty : Column α := ⟨[], -1⟩

/-- Insert a version before the first older one, replacing a version at the same timestamp. -/
def insertVersion (ts : Int) (value : α) : List (Int × α) → List (Int × α)
  | [] => [(ts, value)]
  | version :: rest =>
    if version.1 < ts then (ts, value) :: version :: rest
    else if version.1 = ts then (ts, value) :: rest
    else version :: insertVersion ts value rest

/-- Put a value at a timestamp; a put at or below the delete watermark stays hidden. -/
def put (ts : Int) (value : α) (column : Column α) : Column α :=
  if ts ≤ column.deletedTo then column
  else { column with versions := insertVersion ts value column.versions }

/-- Delete every version at or below a timestamp. -/
def deleteUpTo (ts : Int) (column : Column α) : Column α :=
  ⟨column.versions.filter fun version => ts < version.1, max column.deletedTo ts⟩

@[simp] theorem empty_versions : (empty : Column α).versions = [] := rfl

@[simp] theorem empty_deletedTo : (empty : Column α).deletedTo = -1 := rfl

theorem mem_insertVersion_self (ts : Int) (value : α) (versions : List (Int × α)) :
    (ts, value) ∈ insertVersion ts value versions := by
  induction versions with
  | nil => simp [insertVersion]
  | cons version rest ih =>
    unfold insertVersion
    split_ifs <;> simp [ih]

theorem mem_of_mem_insertVersion {ts : Int} {value : α} {versions : List (Int × α)}
    {entry : Int × α} (mem : entry ∈ insertVersion ts value versions) :
    entry = (ts, value) ∨ entry ∈ versions := by
  induction versions with
  | nil => simpa [insertVersion] using mem
  | cons version rest ih =>
    unfold insertVersion at mem
    split_ifs at mem with older same
    · simpa using mem
    · rcases List.mem_cons.mp mem with rfl | inRest
      · exact .inl rfl
      · exact .inr (List.mem_cons_of_mem _ inRest)
    · rcases List.mem_cons.mp mem with rfl | inRest
      · exact .inr List.mem_cons_self
      · rcases ih inRest with new | old
        · exact .inl new
        · exact .inr (List.mem_cons_of_mem _ old)

theorem mem_insertVersion_of_mem {ts : Int} {value : α} {versions : List (Int × α)}
    {entry : Int × α} (mem : entry ∈ versions) (other : entry.1 ≠ ts) :
    entry ∈ insertVersion ts value versions := by
  induction versions with
  | nil => simp at mem
  | cons version rest ih =>
    unfold insertVersion
    rcases List.mem_cons.mp mem with rfl | inRest
    · simp only [other, if_false]
      split_ifs <;> simp
    · split_ifs
      · exact List.mem_cons_of_mem _ (List.mem_cons_of_mem _ inRest)
      · exact List.mem_cons_of_mem _ inRest
      · exact List.mem_cons_of_mem _ (ih inRest)

@[simp] theorem put_deletedTo (ts : Int) (value : α) (column : Column α) :
    (column.put ts value).deletedTo = column.deletedTo := by
  unfold put
  split_ifs <;> rfl

/-- A put above the watermark shows its version. -/
theorem mem_put_self {ts : Int} (value : α) {column : Column α} (above : column.deletedTo < ts) :
    (ts, value) ∈ (column.put ts value).versions := by
  simp only [put, show ¬ ts ≤ column.deletedTo by omega, if_false]
  exact mem_insertVersion_self ts value column.versions

/-- A put shows its own version and the versions it does not replace, and no others. -/
theorem mem_of_mem_put {ts : Int} {value : α} {column : Column α} {entry : Int × α}
    (mem : entry ∈ (column.put ts value).versions) : entry = (ts, value) ∨ entry ∈ column.versions := by
  unfold put at mem
  split_ifs at mem
  · exact .inr mem
  · exact mem_of_mem_insertVersion mem

theorem mem_put_of_mem {ts : Int} {value : α} {column : Column α} {entry : Int × α}
    (mem : entry ∈ column.versions) (other : entry.1 ≠ ts) : entry ∈ (column.put ts value).versions := by
  unfold put
  split_ifs
  · exact mem
  · exact mem_insertVersion_of_mem mem other

/-- A put keeps a version at every timestamp the column showed one at. -/
theorem exists_put_of_exists {ts : Int} {value : α} {column : Column α} {stamp : Int}
    (shown : ∃ version ∈ column.versions, version.1 = stamp) :
    ∃ version ∈ (column.put ts value).versions, version.1 = stamp := by
  obtain ⟨version, mem, rfl⟩ := shown
  by_cases same : version.1 = ts
  · unfold put
    split_ifs
    · exact ⟨version, mem, rfl⟩
    · exact ⟨(ts, value), mem_insertVersion_self ts value column.versions, same.symm⟩
  · exact ⟨version, mem_put_of_mem mem same, rfl⟩

@[simp] theorem mem_deleteUpTo {ts : Int} {column : Column α} {entry : Int × α} :
    entry ∈ (column.deleteUpTo ts).versions ↔ entry ∈ column.versions ∧ ts < entry.1 := by
  simp [deleteUpTo]

@[simp] theorem deleteUpTo_deletedTo (ts : Int) (column : Column α) :
    (column.deleteUpTo ts).deletedTo = max column.deletedTo ts := rfl

end Column

end Tera.Lib
