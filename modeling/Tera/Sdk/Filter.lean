import Tera.Lib.ByteOrder
import Tera.Key.RawKey

/-! # The filter of a scan: `ValueFilter` and `FilterList`

A scan's filter is a tree. A `ValueFilter` compares the value of one column with a comparator's
value, and a `FilterList` joins filters with AND or OR. For each row
`TabletIO::ShouldFilterRowBuffer` resets the filter, feeds it the row's cells in order until one is
answered `kNotIncludeCurAndLeftCellOfRow`, and asks `FilterRow` whether to drop the row. A
`ValueFilter` is a three-state machine; `FilterListWithAND` feeds each cell to every filter, and
`FilterListWithOR` remembers each filter's last answer and stops feeding a filter once it has
answered `kNotIncludeCurAndLeftCellOfRow`. A `FilterList` made with an operator other than `kAnd`
and `kOr` has no list behind it.

The decision is compared with the Boolean meaning of the tree, `Filter.holds`: a value filter
holds where the first cell of its column passes the comparison, or where the row has no such cell
and `filter_if_missing` is off; a list is the conjunction or the disjunction of its filters.
-/

namespace Tera.Sdk

open Tera.Lib Tera.RawKey

/-- `CompareOperator`. -/
inductive CompareOperator
  | kLess | kLessOrEqual | kEqual | kNotEqual | kGreaterOrEqual | kGreater | kNoOp
deriving DecidableEq, Repr

/-- `IntegerValueType`. -/
inductive IntegerValueType
  | kInt64 | kUint64 | kInt32 | kUint32 | kInt16 | kUint16 | kInt8 | kUint8 | kUnknown
deriving DecidableEq, Repr

/-- The width in bytes and the signedness of an integer type; `none` for `kUnknown`. -/
def IntegerValueType.layout : IntegerValueType → Option (Nat × Bool)
  | .kInt64 => some (8, true)
  | .kUint64 => some (8, false)
  | .kInt32 => some (4, true)
  | .kUint32 => some (4, false)
  | .kInt16 => some (2, true)
  | .kUint16 => some (2, false)
  | .kInt8 => some (1, true)
  | .kUint8 => some (1, false)
  | .kUnknown => none

/-- The `static_cast` of a number to an integer type of `width` bytes: its low bytes, read in
two's complement where the type is signed. -/
def castInteger (width : Nat) (signed : Bool) (raw : Nat) : Int :=
  let low := raw % 2 ^ (8 * width)
  if signed && 2 ^ (8 * width - 1) ≤ low then (low : Int) - 2 ^ (8 * width) else low

/-- `IntegerComparator::Compare`: `-1`, `1` or `0`. -/
def compareSign (left right : Int) : Int :=
  if left < right then -1 else if left > right then 1 else 0

/-- `IntegerComparator::CompareWith`: the value's first bytes as the comparator's type against the
comparator's value cast to it; `0` for `kUnknown`. `DecodeInteger` copies the bytes into a zeroed
`uint64_t` of a little-endian host; past the value's end it reads the terminating zero, and the
bytes beyond that are taken as zero here. -/
def integerCompareWith (valueType : IntegerValueType) (integerValue : UInt64) (value : Bytes) :
    Int :=
  match valueType.layout with
  | none => 0
  | some (width, signed) =>
    let decoded := decodeLittleEndian ((value ++ List.replicate width 0).take width)
    compareSign (castInteger width signed decoded) (castInteger width signed integerValue.toNat)

/-- `BinaryComparator::CompareWith`: the byte order of the value against the comparator's. -/
def binaryCompareWith (comparatorValue value : Bytes) : Int :=
  if value > comparatorValue then 1 else if value < comparatorValue then -1 else 0

/-- A comparator: an `IntegerComparator` or a `BinaryComparator`. -/
inductive FilterComparator
  | integerComparator (valueType : IntegerValueType) (integerValue : UInt64)
  | binaryComparator (value : Bytes)
deriving DecidableEq, Repr

/-- `FilterComparator::CompareWith`. -/
def FilterComparator.compareWith : FilterComparator → Bytes → Int
  | .integerComparator valueType integerValue, value => integerCompareWith valueType integerValue value
  | .binaryComparator comparatorValue, value => binaryCompareWith comparatorValue value

/-- `ValueFilter::MatchOp`: the operator applied to the comparison and zero; false for `kNoOp`. -/
def matchOp (op : CompareOperator) (compareResult : Int) : Bool :=
  match op with
  | .kLess => decide (compareResult < 0)
  | .kLessOrEqual => decide (compareResult ≤ 0)
  | .kEqual => decide (compareResult = 0)
  | .kNotEqual => decide (compareResult ≠ 0)
  | .kGreaterOrEqual => decide (compareResult ≥ 0)
  | .kGreater => decide (compareResult > 0)
  | .kNoOp => false

/-- `ValueFilter::MatchValue`. -/
def matchValue (op : CompareOperator) (comparator : FilterComparator) (value : Bytes) : Bool :=
  matchOp op (comparator.compareWith value)

/-- `ValueFilter::MatchStatus`. -/
inductive MatchStatus
  | kNotMatchAnything | kMatchColumnButNotValue | kMatchColumnAndValue
deriving DecidableEq, Repr

/-- `Filter::ReturnCode`. -/
inductive ReturnCode
  | kIncludeCurCell | kNotIncludeCurAndLeftCellOfRow | kUndefinedRC
deriving DecidableEq, Repr

/-- A cell of a row as the filter sees it: its column family, qualifier and value. -/
structure Cell where
  columnFamily : Bytes
  qualifier : Bytes
  value : Bytes
deriving DecidableEq, Repr

/-- A filter and its state: a `ValueFilter` with its `match_status_`, or a `FilterList` by the list
behind it, `FilterListWithOR` with its `prev_filter_rc_list_`. -/
inductive Filter
  | valueFilter (columnFamily columnQualifier : Bytes) (op : CompareOperator)
      (comparator : FilterComparator) (filterIfMissing : Bool) (matchStatus : MatchStatus)
  | filterListWithAND (filters : List Filter)
  | filterListWithOR (filters : List Filter) (prevFilterRcList : List ReturnCode)
  | filterListWithoutBase

/-! ## One cell -/

/-- `ValueFilter::FilterCellWithEmptyQualifier`: the new status, and the answer. -/
def filterCellWithEmptyQualifier (columnFamily : Bytes) (op : CompareOperator)
    (comparator : FilterComparator) (matchStatus : MatchStatus) (cell : Cell) :
    MatchStatus × ReturnCode :=
  if matchStatus = .kMatchColumnButNotValue then (matchStatus, .kNotIncludeCurAndLeftCellOfRow)
  else if cell.columnFamily ≠ columnFamily then (matchStatus, .kIncludeCurCell)
  else if matchValue op comparator cell.value then (.kMatchColumnAndValue, .kIncludeCurCell)
  else (.kMatchColumnButNotValue, .kNotIncludeCurAndLeftCellOfRow)

/-- `ValueFilter::FilterCellWithNotEmptyQualifier`: the new status, and the answer. -/
def filterCellWithNotEmptyQualifier (columnFamily columnQualifier : Bytes) (op : CompareOperator)
    (comparator : FilterComparator) (matchStatus : MatchStatus) (cell : Cell) :
    MatchStatus × ReturnCode :=
  if matchStatus = .kMatchColumnAndValue then (matchStatus, .kIncludeCurCell)
  else if matchStatus = .kMatchColumnButNotValue then (matchStatus, .kNotIncludeCurAndLeftCellOfRow)
  else if cell.columnFamily ≠ columnFamily ∨ cell.qualifier ≠ columnQualifier then
    (matchStatus, .kIncludeCurCell)
  else if matchValue op comparator cell.value then (.kMatchColumnAndValue, .kIncludeCurCell)
  else (.kMatchColumnButNotValue, .kNotIncludeCurAndLeftCellOfRow)

/-- `FilterListWithAND::MergeReturnCode`. -/
def mergeReturnCodeAND (rc curRc : ReturnCode) : ReturnCode :=
  match curRc with
  | .kIncludeCurCell => rc
  | _ => .kNotIncludeCurAndLeftCellOfRow

/-- `FilterListWithOR::MergeReturnCode`. -/
def mergeReturnCodeOR (rc curRc : ReturnCode) : ReturnCode :=
  match curRc with
  | .kIncludeCurCell => .kIncludeCurCell
  | .kNotIncludeCurAndLeftCellOfRow =>
    if rc = .kIncludeCurCell ∨ rc = .kNotIncludeCurAndLeftCellOfRow then rc
    else .kNotIncludeCurAndLeftCellOfRow
  | .kUndefinedRC => .kNotIncludeCurAndLeftCellOfRow

/-- `FilterListWithOR::NeedFilter`: whether a filter is fed, by its last answer. -/
def needFilter (prevRc : ReturnCode) : Bool :=
  match prevRc with
  | .kUndefinedRC => true
  | .kIncludeCurCell => true
  | .kNotIncludeCurAndLeftCellOfRow => false

mutual

/-- `Filter::FilterCell`: the filter after the cell, and its answer. -/
def Filter.filterCell (cell : Cell) : Filter → Filter × ReturnCode
  | .valueFilter columnFamily columnQualifier op comparator filterIfMissing matchStatus =>
    let fed :=
      if columnQualifier.isEmpty then
        filterCellWithEmptyQualifier columnFamily op comparator matchStatus cell
      else filterCellWithNotEmptyQualifier columnFamily columnQualifier op comparator matchStatus cell
    (.valueFilter columnFamily columnQualifier op comparator filterIfMissing fed.1, fed.2)
  | .filterListWithAND filters =>
    if filters.isEmpty then (.filterListWithAND filters, .kIncludeCurCell)
    else
      let fed := filterCellAND cell .kIncludeCurCell filters
      (.filterListWithAND fed.1, fed.2)
  | .filterListWithOR filters prevFilterRcList =>
    if filters.isEmpty then (.filterListWithOR filters prevFilterRcList, .kIncludeCurCell)
    else
      let fed := filterCellOR cell .kIncludeCurCell filters prevFilterRcList
      (.filterListWithOR fed.1 fed.2.1, fed.2.2)
  | .filterListWithoutBase => (.filterListWithoutBase, .kUndefinedRC)

/-- The loop of `FilterListWithAND::FilterCell`: every filter is fed the cell. -/
def filterCellAND (cell : Cell) (rc : ReturnCode) : List Filter → List Filter × ReturnCode
  | [] => ([], rc)
  | filter :: rest =>
    let fed := filter.filterCell cell
    let restFed := filterCellAND cell (mergeReturnCodeAND rc fed.2) rest
    (fed.1 :: restFed.1, restFed.2)

/-- The loop of `FilterListWithOR::FilterCell`: a filter is fed the cell unless its last answer
was `kNotIncludeCurAndLeftCellOfRow`, and its answer is kept. -/
def filterCellOR (cell : Cell) (rc : ReturnCode) :
    List Filter → List ReturnCode → List Filter × List ReturnCode × ReturnCode
  | filter :: rest, prevRc :: prevRest =>
    if !needFilter prevRc then
      let restFed := filterCellOR cell rc rest prevRest
      (filter :: restFed.1, prevRc :: restFed.2.1, restFed.2.2)
    else
      let fed := filter.filterCell cell
      let restFed := filterCellOR cell (mergeReturnCodeOR rc fed.2) rest prevRest
      (fed.1 :: restFed.1, fed.2 :: restFed.2.1, restFed.2.2)
  | filters, prevFilterRcList => (filters, prevFilterRcList, rc)

end

/-! ## Reset and the row's verdict -/

mutual

/-- `Filter::Reset`: value filters back to `kNotMatchAnything`, and every remembered answer of an
OR list to `kUndefinedRC`. -/
def Filter.reset : Filter → Filter
  | .valueFilter columnFamily columnQualifier op comparator filterIfMissing _ =>
    .valueFilter columnFamily columnQualifier op comparator filterIfMissing .kNotMatchAnything
  | .filterListWithAND filters => .filterListWithAND (resetAll filters)
  | .filterListWithOR filters prevFilterRcList =>
    .filterListWithOR (resetAll filters) (prevFilterRcList.map fun _ => .kUndefinedRC)
  | .filterListWithoutBase => .filterListWithoutBase

/-- `Reset` on every filter of a list. -/
def resetAll : List Filter → List Filter
  | [] => []
  | filter :: rest => filter.reset :: resetAll rest

end

mutual

/-- `Filter::FilterRow`: whether to drop the row. -/
def Filter.filterRow : Filter → Bool
  | .valueFilter _ _ _ _ filterIfMissing matchStatus =>
    match matchStatus with
    | .kNotMatchAnything => filterIfMissing
    | .kMatchColumnButNotValue => true
    | .kMatchColumnAndValue => false
  | .filterListWithAND filters => if filters.isEmpty then false else anyFilterRow filters
  | .filterListWithOR filters _ => if filters.isEmpty then false else allFilterRow filters
  | .filterListWithoutBase => false

/-- The loop of `FilterListWithAND::FilterRow`: true at the first filter that drops the row. -/
def anyFilterRow : List Filter → Bool
  | [] => false
  | filter :: rest => if filter.filterRow then true else anyFilterRow rest

/-- The loop of `FilterListWithOR::FilterRow`: false at the first filter that keeps the row. -/
def allFilterRow : List Filter → Bool
  | [] => true
  | filter :: rest => if !filter.filterRow then false else allFilterRow rest

end

/-- The cell loop of `ShouldFilterRowBuffer`: the cells fed in order, up to the first answered
`kNotIncludeCurAndLeftCellOfRow`. -/
def filterCells : Filter → List Cell → Filter
  | filter, [] => filter
  | filter, cell :: rest =>
    let fed := filter.filterCell cell
    if fed.2 = .kNotIncludeCurAndLeftCellOfRow then fed.1 else filterCells fed.1 rest

/-- `TabletIO::ShouldFilterRowBuffer`: whether the scan drops a row, given the scan's filter. -/
def shouldFilterRowBuffer (filter : Option Filter) (row : List Cell) : Bool :=
  if row.length ≤ 0 then true
  else match filter with
    | none => false
    | some filter => (filterCells filter.reset row).filterRow

/-! ## What a filter means -/

/-- The first cell of a column in a row. -/
def firstCellOf (family qualifier : Bytes) (row : List Cell) : Option Cell :=
  row.find? fun cell => cell.columnFamily == family && cell.qualifier == qualifier

mutual

/-- Whether a filter holds of a row: a value filter where the first cell of its column passes the
comparison, or where there is no such cell and `filter_if_missing` is off; an AND list where all
its filters hold, an OR list where one does. A list with no base filters nothing. -/
def Filter.holds (row : List Cell) : Filter → Bool
  | .valueFilter columnFamily columnQualifier op comparator filterIfMissing _ =>
    match firstCellOf columnFamily columnQualifier row with
    | some cell => matchValue op comparator cell.value
    | none => !filterIfMissing
  | .filterListWithAND filters => allHold row filters
  | .filterListWithOR filters _ => anyHolds row filters
  | .filterListWithoutBase => true

/-- All the filters hold of the row. -/
def allHold (row : List Cell) : List Filter → Bool
  | [] => true
  | filter :: rest => filter.holds row && allHold row rest

/-- One of the filters holds of the row. -/
def anyHolds (row : List Cell) : List Filter → Bool
  | [] => false
  | filter :: rest => filter.holds row || anyHolds row rest

end

mutual

/-- The trees the Boolean meaning is about: value filters with a qualifier, AND lists, and OR lists
with at least one filter and an answer remembered for each. -/
def Filter.WellFormed : Filter → Prop
  | .valueFilter _ columnQualifier _ _ _ _ => columnQualifier ≠ []
  | .filterListWithAND filters => AllWellFormed filters
  | .filterListWithOR filters prevFilterRcList =>
    filters ≠ [] ∧ prevFilterRcList.length = filters.length ∧ AllWellFormed filters
  | .filterListWithoutBase => False

/-- Every filter of a list is well formed. -/
def AllWellFormed : List Filter → Prop
  | [] => True
  | filter :: rest => filter.WellFormed ∧ AllWellFormed rest

end

/-! ## Feeding a cell keeps what the filter means -/

mutual

theorem Filter.holds_filterCell (row : List Cell) (cell : Cell) (filter : Filter) :
    (filter.filterCell cell).1.holds row = filter.holds row := by
  cases filter with
  | valueFilter => rfl
  | filterListWithAND filters =>
    unfold Filter.filterCell
    split
    · rfl
    · exact allHold_filterCellAND row cell _ filters
  | filterListWithOR filters prevFilterRcList =>
    unfold Filter.filterCell
    split
    · rfl
    · exact anyHolds_filterCellOR row cell _ filters prevFilterRcList
  | filterListWithoutBase => rfl
termination_by sizeOf filter

theorem allHold_filterCellAND (row : List Cell) (cell : Cell) (rc : ReturnCode)
    (filters : List Filter) :
    allHold row (filterCellAND cell rc filters).1 = allHold row filters := by
  cases filters with
  | nil => rfl
  | cons filter rest =>
    simp only [filterCellAND, allHold, Filter.holds_filterCell row cell filter,
      allHold_filterCellAND row cell _ rest]
termination_by sizeOf filters

theorem anyHolds_filterCellOR (row : List Cell) (cell : Cell) (rc : ReturnCode)
    (filters : List Filter) (prevFilterRcList : List ReturnCode) :
    anyHolds row (filterCellOR cell rc filters prevFilterRcList).1 = anyHolds row filters := by
  match filters, prevFilterRcList with
  | filter :: rest, prevRc :: prevRest =>
    unfold filterCellOR
    split
    · simp only [anyHolds, anyHolds_filterCellOR row cell rc rest prevRest]
    · simp only [anyHolds, Filter.holds_filterCell row cell filter,
        anyHolds_filterCellOR row cell _ rest prevRest]
  | [], _ => rfl
  | _ :: _, [] => rfl
termination_by sizeOf filters

end

theorem length_filterCellOR (cell : Cell) :
    ∀ (rc : ReturnCode) (filters : List Filter) (prevFilterRcList : List ReturnCode),
      prevFilterRcList.length = filters.length →
      (filterCellOR cell rc filters prevFilterRcList).1.length = filters.length ∧
        (filterCellOR cell rc filters prevFilterRcList).2.1.length = prevFilterRcList.length
  | _, [], [], _ => ⟨rfl, rfl⟩
  | rc, filter :: rest, prevRc :: prevRest, same => by
    simp only [List.length_cons, Nat.add_right_cancel_iff] at same
    unfold filterCellOR
    split <;> simp only [List.length_cons, (length_filterCellOR cell _ rest prevRest same).1,
      (length_filterCellOR cell _ rest prevRest same).2, and_self]

mutual

theorem Filter.wellFormed_filterCell (cell : Cell) (filter : Filter) (wf : filter.WellFormed) :
    (filter.filterCell cell).1.WellFormed := by
  cases filter with
  | valueFilter => exact wf
  | filterListWithAND filters =>
    unfold Filter.filterCell
    split
    · exact wf
    · exact allWellFormed_filterCellAND cell _ filters wf
  | filterListWithOR filters prevFilterRcList =>
    obtain ⟨nonempty, same, children⟩ := wf
    obtain ⟨length, rcLength⟩ := length_filterCellOR cell .kIncludeCurCell filters prevFilterRcList same
    unfold Filter.filterCell
    split
    · exact ⟨nonempty, same, children⟩
    · refine ⟨fun empty => nonempty ?_, by rw [length, rcLength, same], ?_⟩
      · rw [← List.length_eq_zero_iff, ← length, empty, List.length_nil]
      · exact allWellFormed_filterCellOR cell _ filters prevFilterRcList children
  | filterListWithoutBase => exact wf.elim
termination_by sizeOf filter

theorem allWellFormed_filterCellAND (cell : Cell) (rc : ReturnCode) (filters : List Filter)
    (wf : AllWellFormed filters) : AllWellFormed (filterCellAND cell rc filters).1 := by
  cases filters with
  | nil => trivial
  | cons filter rest =>
    exact ⟨Filter.wellFormed_filterCell cell filter wf.1,
      allWellFormed_filterCellAND cell _ rest wf.2⟩
termination_by sizeOf filters

theorem allWellFormed_filterCellOR (cell : Cell) (rc : ReturnCode) (filters : List Filter)
    (prevFilterRcList : List ReturnCode) (wf : AllWellFormed filters) :
    AllWellFormed (filterCellOR cell rc filters prevFilterRcList).1 := by
  match filters, prevFilterRcList with
  | filter :: rest, prevRc :: prevRest =>
    unfold filterCellOR
    split
    · exact ⟨wf.1, allWellFormed_filterCellOR cell rc rest prevRest wf.2⟩
    · exact ⟨Filter.wellFormed_filterCell cell filter wf.1,
        allWellFormed_filterCellOR cell _ rest prevRest wf.2⟩
  | [], _ => exact wf
  | _ :: _, [] => exact wf
termination_by sizeOf filters

end

/-! ## The state of a filter within a row -/

/-- The status the cells fed to a value filter with a qualifier give it: none of its column yet,
or the first cell of its column with or without a matching value. -/
def statusAfter (columnFamily columnQualifier : Bytes) (op : CompareOperator)
    (comparator : FilterComparator) (fed : List Cell) : MatchStatus :=
  match firstCellOf columnFamily columnQualifier fed with
  | none => .kNotMatchAnything
  | some cell =>
    if matchValue op comparator cell.value then .kMatchColumnAndValue else .kMatchColumnButNotValue

/-- A filter refuted by the first cells of a row: it fails on every row that starts with them. -/
def Filter.Refuted (filter : Filter) (fed : List Cell) : Prop :=
  ∀ rest, filter.holds (fed ++ rest) = false

mutual

/-- The state of a filter fed the first cells of a row since its reset: a value filter has the
status those cells give; an OR list's filter has been fed all of them, or else answered
`kNotIncludeCurAndLeftCellOfRow`, drops the row and is refuted by them. -/
def Filter.Fed (fed : List Cell) : Filter → Prop
  | .valueFilter columnFamily columnQualifier op comparator _ matchStatus =>
    matchStatus = statusAfter columnFamily columnQualifier op comparator fed
  | .filterListWithAND filters => AllFed fed filters
  | .filterListWithOR filters prevFilterRcList => OrFed fed filters prevFilterRcList
  | .filterListWithoutBase => True

/-- Every filter of an AND list has been fed the cells. -/
def AllFed (fed : List Cell) : List Filter → Prop
  | [] => True
  | filter :: rest => filter.Fed fed ∧ AllFed fed rest

/-- Every filter of an OR list has been fed the cells, or stopped being fed refuted. -/
def OrFed (fed : List Cell) : List Filter → List ReturnCode → Prop
  | filter :: rest, prevRc :: prevRest =>
    (if prevRc = .kNotIncludeCurAndLeftCellOfRow then filter.filterRow = true ∧ filter.Refuted fed
      else filter.Fed fed) ∧ OrFed fed rest prevRest
  | _, _ => True

end

mutual

theorem Filter.fed_reset (filter : Filter) : filter.reset.Fed [] := by
  cases filter with
  | valueFilter => rfl
  | filterListWithAND filters => exact allFed_resetAll filters
  | filterListWithOR filters prevFilterRcList => exact orFed_reset filters prevFilterRcList
  | filterListWithoutBase => trivial
termination_by sizeOf filter

theorem allFed_resetAll (filters : List Filter) : AllFed [] (resetAll filters) := by
  cases filters with
  | nil => trivial
  | cons filter rest => exact ⟨Filter.fed_reset filter, allFed_resetAll rest⟩
termination_by sizeOf filters

theorem orFed_reset (filters : List Filter) (prevFilterRcList : List ReturnCode) :
    OrFed [] (resetAll filters) (prevFilterRcList.map fun _ => .kUndefinedRC) := by
  match filters, prevFilterRcList with
  | filter :: rest, _ :: prevRest =>
    exact ⟨by simpa using Filter.fed_reset filter, orFed_reset rest prevRest⟩
  | [], _ => simp [resetAll, OrFed]
  | _ :: _, [] => simp [resetAll, OrFed]
termination_by sizeOf filters

end

mutual

theorem Filter.holds_reset (row : List Cell) (filter : Filter) :
    filter.reset.holds row = filter.holds row := by
  cases filter with
  | valueFilter => rfl
  | filterListWithAND filters => exact allHold_resetAll row filters
  | filterListWithOR filters _ => exact anyHolds_resetAll row filters
  | filterListWithoutBase => rfl
termination_by sizeOf filter

theorem allHold_resetAll (row : List Cell) (filters : List Filter) :
    allHold row (resetAll filters) = allHold row filters := by
  cases filters with
  | nil => rfl
  | cons filter rest =>
    simp only [resetAll, allHold, Filter.holds_reset row filter, allHold_resetAll row rest]
termination_by sizeOf filters

theorem anyHolds_resetAll (row : List Cell) (filters : List Filter) :
    anyHolds row (resetAll filters) = anyHolds row filters := by
  cases filters with
  | nil => rfl
  | cons filter rest =>
    simp only [resetAll, anyHolds, Filter.holds_reset row filter, anyHolds_resetAll row rest]
termination_by sizeOf filters

end

theorem length_resetAll : ∀ filters : List Filter, (resetAll filters).length = filters.length
  | [] => rfl
  | _ :: rest => by simp [resetAll, length_resetAll rest]

mutual

theorem Filter.wellFormed_reset (filter : Filter) (wf : filter.WellFormed) :
    filter.reset.WellFormed := by
  cases filter with
  | valueFilter => exact wf
  | filterListWithAND filters => exact allWellFormed_resetAll filters wf
  | filterListWithOR filters prevFilterRcList =>
    obtain ⟨nonempty, same, children⟩ := wf
    refine ⟨?_, by simp [length_resetAll, same], allWellFormed_resetAll filters children⟩
    cases filters with
    | nil => exact absurd rfl nonempty
    | cons _ _ => simp [resetAll]
  | filterListWithoutBase => exact wf.elim
termination_by sizeOf filter

theorem allWellFormed_resetAll (filters : List Filter) (wf : AllWellFormed filters) :
    AllWellFormed (resetAll filters) := by
  cases filters with
  | nil => trivial
  | cons filter rest =>
    exact ⟨Filter.wellFormed_reset filter wf.1, allWellFormed_resetAll rest wf.2⟩
termination_by sizeOf filters

end

/-! ## The answers and the verdict -/

/-- An AND list answers what it started with, or `kNotIncludeCurAndLeftCellOfRow`. -/
theorem filterCellAND_answer (cell : Cell) :
    ∀ (rc : ReturnCode) (filters : List Filter),
      (filterCellAND cell rc filters).2 = rc ∨
        (filterCellAND cell rc filters).2 = .kNotIncludeCurAndLeftCellOfRow
  | _, [] => .inl rfl
  | rc, filter :: rest => by
    simp only [filterCellAND]
    rcases filterCellAND_answer cell (mergeReturnCodeAND rc (filter.filterCell cell).2) rest with
      same | refused
    · rw [same]
      unfold mergeReturnCodeAND
      split <;> simp
    · exact .inr refused

/-- An OR list answers what it started with, `kIncludeCurCell` or
`kNotIncludeCurAndLeftCellOfRow`. -/
theorem filterCellOR_answer (cell : Cell) :
    ∀ (rc : ReturnCode) (filters : List Filter) (prevFilterRcList : List ReturnCode),
      (filterCellOR cell rc filters prevFilterRcList).2.2 = rc ∨
        (filterCellOR cell rc filters prevFilterRcList).2.2 = .kIncludeCurCell ∨
        (filterCellOR cell rc filters prevFilterRcList).2.2 = .kNotIncludeCurAndLeftCellOfRow
  | rc, filter :: rest, prevRc :: prevRest => by
    unfold filterCellOR
    split
    · exact filterCellOR_answer cell rc rest prevRest
    · rcases filterCellOR_answer cell (mergeReturnCodeOR rc (filter.filterCell cell).2) rest prevRest
        with same | included | refused
      · simp only [same]
        unfold mergeReturnCodeOR
        split
        · exact .inr (.inl rfl)
        · split <;> simp
        · exact .inr (.inr rfl)
      · exact .inr (.inl included)
      · exact .inr (.inr refused)
  | _, [], _ => .inl rfl
  | _, _ :: _, [] => .inl rfl

/-- A well-formed filter answers `kIncludeCurCell` or `kNotIncludeCurAndLeftCellOfRow`. -/
theorem Filter.filterCell_ne_undefined (cell : Cell) {filter : Filter} (wf : filter.WellFormed) :
    (filter.filterCell cell).2 ≠ .kUndefinedRC := by
  cases filter with
  | valueFilter columnFamily columnQualifier op comparator filterIfMissing matchStatus =>
    simp only [Filter.filterCell, filterCellWithEmptyQualifier, filterCellWithNotEmptyQualifier]
    split <;> split_ifs <;> simp
  | filterListWithAND filters =>
    simp only [Filter.filterCell]
    split
    · simp
    · rcases filterCellAND_answer cell .kIncludeCurCell filters with same | refused <;> simp [*]
  | filterListWithOR filters prevFilterRcList =>
    simp only [Filter.filterCell]
    split
    · simp
    · rcases filterCellOR_answer cell .kIncludeCurCell filters prevFilterRcList with
        same | included | refused <;> simp [*]
  | filterListWithoutBase => exact wf.elim

/-- The filters of a well-formed OR list never answer `kUndefinedRC`, so the list always answers
`kIncludeCurCell`. -/
theorem filterCellOR_include (cell : Cell) :
    ∀ (filters : List Filter) (prevFilterRcList : List ReturnCode), AllWellFormed filters →
      (filterCellOR cell .kIncludeCurCell filters prevFilterRcList).2.2 = .kIncludeCurCell
  | filter :: rest, prevRc :: prevRest, wf => by
    unfold filterCellOR
    split
    · exact filterCellOR_include cell rest prevRest wf.2
    · have answered := Filter.filterCell_ne_undefined cell wf.1
      have merged : mergeReturnCodeOR .kIncludeCurCell (filter.filterCell cell).2 = .kIncludeCurCell := by
        unfold mergeReturnCodeOR
        split <;> simp_all
      simp only [merged]
      exact filterCellOR_include cell rest prevRest wf.2
  | [], _, _ => rfl
  | _ :: _, [], _ => rfl

mutual

/-- The verdict of a filter fed the first cells of a row is the negation of what the filter means
for them. -/
theorem Filter.filterRow_of_fed {fed : List Cell} (filter : Filter) (wf : filter.WellFormed)
    (state : filter.Fed fed) : filter.filterRow = !filter.holds fed := by
  cases filter with
  | valueFilter columnFamily columnQualifier op comparator filterIfMissing matchStatus =>
    simp only [Filter.Fed] at state
    subst state
    simp only [Filter.filterRow, Filter.holds, statusAfter]
    cases firstCellOf columnFamily columnQualifier fed with
    | none => simp
    | some cell => cases matched : matchValue op comparator cell.value <;> simp [matched]
  | filterListWithAND filters =>
    cases filters with
    | nil => rfl
    | cons filter rest =>
      simp only [Filter.filterRow, Filter.holds, List.isEmpty_cons, Bool.false_eq_true, if_false]
      exact anyFilterRow_of_allFed _ wf state
  | filterListWithOR filters prevFilterRcList =>
    obtain ⟨nonempty, same, children⟩ := wf
    cases filters with
    | nil => exact absurd rfl nonempty
    | cons filter rest =>
      simp only [Filter.filterRow, Filter.holds, List.isEmpty_cons, Bool.false_eq_true, if_false]
      exact allFilterRow_of_orFed _ prevFilterRcList same children state
  | filterListWithoutBase => exact wf.elim
termination_by sizeOf filter

theorem anyFilterRow_of_allFed {fed : List Cell} (filters : List Filter)
    (wf : AllWellFormed filters) (state : AllFed fed filters) :
    anyFilterRow filters = !allHold fed filters := by
  cases filters with
  | nil => rfl
  | cons filter rest =>
    simp only [anyFilterRow, allHold, Filter.filterRow_of_fed filter wf.1 state.1,
      anyFilterRow_of_allFed rest wf.2 state.2]
    cases filter.holds fed <;> rfl
termination_by sizeOf filters

theorem allFilterRow_of_orFed {fed : List Cell} (filters : List Filter)
    (prevFilterRcList : List ReturnCode) (same : prevFilterRcList.length = filters.length)
    (wf : AllWellFormed filters) (state : OrFed fed filters prevFilterRcList) :
    allFilterRow filters = !anyHolds fed filters := by
  match filters, prevFilterRcList with
  | filter :: rest, prevRc :: prevRest =>
    simp only [List.length_cons, Nat.add_right_cancel_iff] at same
    obtain ⟨child, others⟩ := state
    -- a filter no longer fed was refuted when it stopped, and drops the row
    have verdict : filter.filterRow = !filter.holds fed := by
      split at child
      · rw [child.1, ← List.append_nil fed, child.2 []]
        rfl
      · exact Filter.filterRow_of_fed filter wf.1 child
    simp only [allFilterRow, anyHolds, verdict, allFilterRow_of_orFed rest prevRest same wf.2 others]
    cases filter.holds fed <;> rfl
  | [], [] => rfl
termination_by sizeOf filters

end

/-! ## One cell of the row -/

theorem firstCellOf_append (family qualifier : Bytes) (row more : List Cell) :
    firstCellOf family qualifier (row ++ more) =
      (firstCellOf family qualifier row).or (firstCellOf family qualifier more) :=
  List.find?_append

/-- A value filter with a qualifier, in the status the cells before give it, moves to the status
one more cell gives it, and refuses the cell just when that status is a failed first cell. -/
theorem filterCellWithNotEmptyQualifier_statusAfter (columnFamily columnQualifier : Bytes)
    (op : CompareOperator) (comparator : FilterComparator) (fed : List Cell) (cell : Cell) :
    filterCellWithNotEmptyQualifier columnFamily columnQualifier op comparator
        (statusAfter columnFamily columnQualifier op comparator fed) cell =
      (statusAfter columnFamily columnQualifier op comparator (fed ++ [cell]),
        if statusAfter columnFamily columnQualifier op comparator (fed ++ [cell]) =
            .kMatchColumnButNotValue then .kNotIncludeCurAndLeftCellOfRow
        else .kIncludeCurCell) := by
  unfold statusAfter
  rw [firstCellOf_append]
  cases firstCellOf columnFamily columnQualifier fed with
  | some first =>
    cases matched : matchValue op comparator first.value <;>
      simp [filterCellWithNotEmptyQualifier, matched]
  | none =>
    by_cases column : cell.columnFamily = columnFamily ∧ cell.qualifier = columnQualifier
    · cases matched : matchValue op comparator cell.value <;>
        simp [filterCellWithNotEmptyQualifier, firstCellOf, column, matched]
    · have other : cell.columnFamily ≠ columnFamily ∨ cell.qualifier ≠ columnQualifier := by
        tauto
      simp_all [filterCellWithNotEmptyQualifier, firstCellOf]

theorem Filter.refuted_of_statusAfter {columnFamily columnQualifier : Bytes} {op : CompareOperator}
    {comparator : FilterComparator} {filterIfMissing : Bool} {matchStatus : MatchStatus}
    {fed : List Cell}
    (refused : statusAfter columnFamily columnQualifier op comparator fed = .kMatchColumnButNotValue) :
    (Filter.valueFilter columnFamily columnQualifier op comparator filterIfMissing matchStatus).Refuted
      fed := by
  intro rest
  unfold statusAfter at refused
  cases found : firstCellOf columnFamily columnQualifier fed with
  | none => simp [found] at refused
  | some first =>
    simp only [found] at refused
    simp only [Filter.holds, firstCellOf_append, found, Option.some_or]
    split at refused <;> simp_all

theorem Filter.Refuted.append {filter : Filter} {fed : List Cell} (refuted : filter.Refuted fed)
    (more : List Cell) : filter.Refuted (fed ++ more) := fun rest => by
  rw [List.append_assoc]
  exact refuted (more ++ rest)

theorem Filter.Refuted.holds_eq_false {filter : Filter} {fed : List Cell}
    (refuted : filter.Refuted fed) : filter.holds fed = false := by
  simpa using refuted []

mutual

/-- One cell fed to a well-formed filter leaves it in the state of the cells fed so far, and a
cell it does not include refutes it. -/
theorem Filter.fed_filterCell {fed : List Cell} (cell : Cell) (filter : Filter)
    (wf : filter.WellFormed) (state : filter.Fed fed) :
    (filter.filterCell cell).1.Fed (fed ++ [cell]) ∧
      ((filter.filterCell cell).2 ≠ .kIncludeCurCell → filter.Refuted (fed ++ [cell])) := by
  cases filter with
  | valueFilter columnFamily columnQualifier op comparator filterIfMissing matchStatus =>
    simp only [Filter.Fed] at state
    subst state
    have qualified : columnQualifier.isEmpty = false := List.isEmpty_eq_false_iff.mpr wf
    simp only [Filter.filterCell, qualified, Bool.false_eq_true, if_false,
      filterCellWithNotEmptyQualifier_statusAfter]
    refine ⟨rfl, fun refused => Filter.refuted_of_statusAfter ?_⟩
    split at refused
    · assumption
    · exact absurd rfl refused
  | filterListWithAND filters =>
    cases filters with
    | nil => exact ⟨trivial, fun refused => absurd rfl refused⟩
    | cons first rest =>
      simp only [Filter.filterCell, List.isEmpty_cons, Bool.false_eq_true, if_false]
      exact allFed_filterCellAND cell .kIncludeCurCell (first :: rest) wf state
  | filterListWithOR filters prevFilterRcList =>
    obtain ⟨nonempty, same, children⟩ := wf
    cases filters with
    | nil => exact absurd rfl nonempty
    | cons first rest =>
      simp only [Filter.filterCell, List.isEmpty_cons, Bool.false_eq_true, if_false]
      -- a well-formed OR list includes every cell, so only its state is at stake
      exact ⟨orFed_filterCellOR cell _ (first :: rest) prevFilterRcList same children state,
        fun refused => absurd (filterCellOR_include cell _ prevFilterRcList children) refused⟩
  | filterListWithoutBase => exact wf.elim
termination_by sizeOf filter

theorem allFed_filterCellAND {fed : List Cell} (cell : Cell) (rc : ReturnCode)
    (filters : List Filter) (wf : AllWellFormed filters) (state : AllFed fed filters) :
    AllFed (fed ++ [cell]) (filterCellAND cell rc filters).1 ∧
      ((filterCellAND cell rc filters).2 ≠ rc →
        ∀ rest, allHold (fed ++ [cell] ++ rest) filters = false) := by
  cases filters with
  | nil => exact ⟨trivial, fun refused => absurd rfl refused⟩
  | cons filter rest =>
    obtain ⟨fedFirst, refutedFirst⟩ := Filter.fed_filterCell cell filter wf.1 state.1
    obtain ⟨fedRest, refutedRest⟩ :=
      allFed_filterCellAND cell (mergeReturnCodeAND rc (filter.filterCell cell).2) rest wf.2 state.2
    refine ⟨⟨fedFirst, fedRest⟩, fun refused more => ?_⟩
    simp only [filterCellAND] at refused
    simp only [allHold, Bool.and_eq_false_iff]
    -- the list refuses the cell because this filter did, or because one after it did
    by_cases included : (filter.filterCell cell).2 = .kIncludeCurCell
    · have merged : mergeReturnCodeAND rc (filter.filterCell cell).2 = rc := by
        simp [mergeReturnCodeAND, included]
      rw [merged] at refused refutedRest
      exact .inr (refutedRest refused more)
    · exact .inl (refutedFirst included more)
termination_by sizeOf filters

theorem orFed_filterCellOR {fed : List Cell} (cell : Cell) (rc : ReturnCode)
    (filters : List Filter) (prevFilterRcList : List ReturnCode)
    (same : prevFilterRcList.length = filters.length) (wf : AllWellFormed filters)
    (state : OrFed fed filters prevFilterRcList) :
    OrFed (fed ++ [cell]) (filterCellOR cell rc filters prevFilterRcList).1
      (filterCellOR cell rc filters prevFilterRcList).2.1 := by
  match filters, prevFilterRcList with
  | filter :: rest, prevRc :: prevRest =>
    simp only [List.length_cons, Nat.add_right_cancel_iff] at same
    obtain ⟨child, others⟩ := state
    have fedRest := fun rc => orFed_filterCellOR cell rc rest prevRest same wf.2 others
    unfold filterCellOR
    split
    case isTrue skipped =>
      have refusedBefore : prevRc = .kNotIncludeCurAndLeftCellOfRow := by
        cases prevRc <;> simp_all [needFilter]
      rw [if_pos refusedBefore] at child
      refine ⟨?_, fedRest rc⟩
      rw [if_pos refusedBefore]
      exact ⟨child.1, child.2.append [cell]⟩
    case isFalse fedNow =>
      have notRefused : prevRc ≠ .kNotIncludeCurAndLeftCellOfRow := by
        rintro rfl
        simp [needFilter] at fedNow
      rw [if_neg notRefused] at child
      obtain ⟨fedFirst, refutedFirst⟩ := Filter.fed_filterCell cell filter wf.1 child
      refine ⟨?_, fedRest _⟩
      split
      case isTrue refused =>
        -- the filter stops here: it is refuted, so its verdict drops the row
        have refuted : (filter.filterCell cell).1.Refuted (fed ++ [cell]) := fun more => by
          rw [Filter.holds_filterCell]
          exact refutedFirst (by simp [refused]) more
        refine ⟨?_, refuted⟩
        rw [Filter.filterRow_of_fed _ (Filter.wellFormed_filterCell cell filter wf.1) fedFirst,
          refuted.holds_eq_false]
        rfl
      case isFalse => exact fedFirst
  | [], [] => trivial
termination_by sizeOf filters

end

/-- The cell loop of the scan, from a well-formed filter in the state of the cells before the
row's rest: its verdict is the negation of what the filter means for the whole row. -/
theorem filterRow_filterCells :
    ∀ (row fed : List Cell) (filter : Filter), filter.WellFormed → filter.Fed fed →
      (filterCells filter row).filterRow = !filter.holds (fed ++ row)
  | [], fed, filter, wf, state => by
    rw [List.append_nil]
    exact Filter.filterRow_of_fed filter wf state
  | cell :: rest, fed, filter, wf, state => by
    obtain ⟨fedNext, refuted⟩ := Filter.fed_filterCell cell filter wf state
    have wfNext := Filter.wellFormed_filterCell cell filter wf
    have whole : fed ++ cell :: rest = fed ++ [cell] ++ rest := by simp
    simp only [filterCells]
    split
    case isTrue refused =>
      -- the loop stops at a refused cell, which refutes the filter for any rest of the row
      have refutedNow := refuted (by simp [refused])
      rw [Filter.filterRow_of_fed _ wfNext fedNext, Filter.holds_filterCell,
        refutedNow.holds_eq_false, whole, refutedNow rest]
    case isFalse =>
      rw [filterRow_filterCells rest (fed ++ [cell]) _ wfNext fedNext, Filter.holds_filterCell,
        whole]

/-- `ShouldFilterRowBuffer` with a well-formed filter drops a row of visible cells just when the
filter does not hold of it. -/
theorem shouldFilterRowBuffer_eq_not_holds (filter : Filter) (wf : filter.WellFormed)
    (row : List Cell) (nonempty : row ≠ []) :
    shouldFilterRowBuffer (some filter) row = !filter.holds row := by
  have long : ¬ row.length ≤ 0 := by simpa [List.length_eq_zero_iff] using nonempty
  simp only [shouldFilterRowBuffer, long, if_false]
  rw [filterRow_filterCells row [] filter.reset (Filter.wellFormed_reset filter wf)
    (Filter.fed_reset filter), List.nil_append, Filter.holds_reset]

end Tera.Sdk
