import Tera.Sdk.Filter

/-! # Sending a filter with a scan

`ScanDescImpl::SetFilter` writes the scan's filter as a `FilterDesc`: its type, and in
`serialized_filter` what the filter's `SerializeTo` writes, a `FilterListDesc` with a `FilterDesc`
for each filter of a list or a `ValueFilterDesc`. `TabletIO::SetupFilter` makes a filter of that
type and calls its `ParseFrom`. The protobuf messages of `filter.proto` are taken as the trees of
their fields: `ParseFromString` gives back the message `SerializeToString` wrote.

`SerializeTo` fails on a value filter without a comparison operator and on an integer comparator of
unknown type, and `ParseFrom` rebuilds the filter in its state after `Reset`, so the scan decides
every row as it would with the filter sent.
-/

namespace Tera.Sdk

open Tera.RawKey

/-! ## The messages -/

/-- `CompareType`. -/
inductive CompareType
  | kLess | kLessOrEqual | kEqual | kNotEqual | kGreaterOrEqual | kGreater | kNoOp
deriving DecidableEq, Repr

/-- `FilterValueType`. -/
inductive FilterValueType
  | kINT64 | kUINT64 | kINT32 | kUINT32 | kINT16 | kUINT16 | kINT8 | kUINT8 | kUnknownValueType
deriving DecidableEq, Repr

/-- `FilterListDesc::Operator`. -/
inductive FilterListDesc.Operator
  | kAnd | kOr | kInvalidOp
deriving DecidableEq, Repr

/-- A `ComparatorDesc` with the message its `serialized_comparator` holds. -/
inductive ComparatorDesc
  | kIntegerComparator (valueType : FilterValueType) (integerValue : UInt64)
  | kBinaryComparator (value : Bytes)
  | kUnknownComparator
deriving DecidableEq, Repr

/-- `ValueFilterDesc`. -/
structure ValueFilterDesc where
  columnFamily : Bytes
  columnQualifier : Bytes
  compareOp : CompareType
  comparator : ComparatorDesc
  filterIfMissing : Bool
deriving DecidableEq, Repr

/-- A `FilterDesc` with the message its `serialized_filter` holds: a `FilterListDesc`, its operator
and its filters, or a `ValueFilterDesc`; or a type no filter is made for. -/
inductive FilterDesc
  | kFilterList (op : FilterListDesc.Operator) (filters : List FilterDesc)
  | kValueFilter (desc : ValueFilterDesc)
  | kUnknownType

/-! ## The translations of `filter_utils.cc` -/

/-- `TransCompareOperator`. -/
def transCompareOperator : CompareOperator → CompareType
  | .kLess => .kLess
  | .kLessOrEqual => .kLessOrEqual
  | .kEqual => .kEqual
  | .kNotEqual => .kNotEqual
  | .kGreaterOrEqual => .kGreaterOrEqual
  | .kGreater => .kGreater
  | .kNoOp => .kNoOp

/-- `TransCompareType`. -/
def transCompareType : CompareType → CompareOperator
  | .kLess => .kLess
  | .kLessOrEqual => .kLessOrEqual
  | .kEqual => .kEqual
  | .kNotEqual => .kNotEqual
  | .kGreaterOrEqual => .kGreaterOrEqual
  | .kGreater => .kGreater
  | .kNoOp => .kNoOp

/-- `TransIntegerValueType`. -/
def transIntegerValueType : IntegerValueType → FilterValueType
  | .kInt64 => .kINT64
  | .kUint64 => .kUINT64
  | .kInt32 => .kINT32
  | .kUint32 => .kUINT32
  | .kInt16 => .kINT16
  | .kUint16 => .kUINT16
  | .kInt8 => .kINT8
  | .kUint8 => .kUINT8
  | .kUnknown => .kUnknownValueType

/-- `TransFilterValueType`. -/
def transFilterValueType : FilterValueType → IntegerValueType
  | .kINT64 => .kInt64
  | .kUINT64 => .kUint64
  | .kINT32 => .kInt32
  | .kUINT32 => .kUint32
  | .kINT16 => .kInt16
  | .kUINT16 => .kUint16
  | .kINT8 => .kInt8
  | .kUINT8 => .kUint8
  | .kUnknownValueType => .kUnknown

@[simp]
theorem transCompareType_transCompareOperator (op : CompareOperator) :
    transCompareType (transCompareOperator op) = op := by
  cases op <;> rfl

@[simp]
theorem transFilterValueType_transIntegerValueType (valueType : IntegerValueType) :
    transFilterValueType (transIntegerValueType valueType) = valueType := by
  cases valueType <;> rfl

@[simp]
theorem transIntegerValueType_eq_kUnknownValueType_iff (valueType : IntegerValueType) :
    transIntegerValueType valueType = .kUnknownValueType ↔ valueType = .kUnknown := by
  cases valueType <;> simp [transIntegerValueType]

/-! ## `SerializeTo` -/

/-- `IntegerComparator::SerializeTo` and `BinaryComparator::SerializeTo`, under the comparator's
`TransComparatorType`. -/
def FilterComparator.serializeTo : FilterComparator → Option ComparatorDesc
  | .integerComparator valueType integerValue =>
    let filterValueType := transIntegerValueType valueType
    if filterValueType = .kUnknownValueType then none
    else some (.kIntegerComparator filterValueType integerValue)
  | .binaryComparator value => some (.kBinaryComparator value)

/-- `ValueFilter::SerializeTo`. -/
def valueFilterSerializeTo (columnFamily columnQualifier : Bytes) (op : CompareOperator)
    (comparator : FilterComparator) (filterIfMissing : Bool) : Option ValueFilterDesc :=
  if op = .kNoOp then none
  else do
    let comparatorDesc ← comparator.serializeTo
    some ⟨columnFamily, columnQualifier, transCompareOperator op, comparatorDesc, filterIfMissing⟩

mutual

/-- The `FilterDesc` of a filter: its `TransFilterType` and what its `SerializeTo` writes, as
`SetFilter` and the loop of `FilterList::SerializeTo` make it; `none` where `SerializeTo` fails. A
list without a base has operator `kInvalidOp`, which `TransFilterListOp` refuses. -/
def Filter.serializeTo : Filter → Option FilterDesc
  | .valueFilter columnFamily columnQualifier op comparator filterIfMissing _ =>
    (valueFilterSerializeTo columnFamily columnQualifier op comparator filterIfMissing).map
      .kValueFilter
  | .filterListWithAND filters => (serializeAll filters).map (.kFilterList .kAnd)
  | .filterListWithOR filters _ => (serializeAll filters).map (.kFilterList .kOr)
  | .filterListWithoutBase => none

/-- The loop of `FilterList::SerializeTo`: the `FilterDesc` of every filter, in order. -/
def serializeAll : List Filter → Option (List FilterDesc)
  | [] => some []
  | filter :: rest => do
    let desc ← filter.serializeTo
    let descs ← serializeAll rest
    some (desc :: descs)

end

/-! ## `ParseFrom` -/

/-- `IntegerComparator::ParseFrom` and `BinaryComparator::ParseFrom`, for the type
`ValueFilter::ParseFrom` makes a comparator of. -/
def ComparatorDesc.parseFrom : ComparatorDesc → Option FilterComparator
  | .kIntegerComparator filterValueType integerValue =>
    let valueType := transFilterValueType filterValueType
    if valueType = .kUnknown then none else some (.integerComparator valueType integerValue)
  | .kBinaryComparator value => some (.binaryComparator value)
  | .kUnknownComparator => none

/-- `ValueFilter::ParseFrom` on a new `ValueFilter`, whose `match_status_` is
`kNotMatchAnything`. -/
def ValueFilterDesc.parseFrom (desc : ValueFilterDesc) : Option Filter :=
  let op := transCompareType desc.compareOp
  if op = .kNoOp then none
  else do
    let comparator ← desc.comparator.parseFrom
    some (.valueFilter desc.columnFamily desc.columnQualifier op comparator desc.filterIfMissing
      .kNotMatchAnything)

mutual

/-- The filter of a `FilterDesc`, as `TabletIO::SetupFilter` makes it: a new filter of its type,
and its `ParseFrom`. `FilterListWithOR::AddFilter` resizes `prev_filter_rc_list_`, which gives each
new filter the answer `0`, `kIncludeCurCell`. -/
def FilterDesc.parseFrom : FilterDesc → Option Filter
  | .kFilterList op filters =>
    match op with
    | .kAnd => (parseAll filters).map .filterListWithAND
    | .kOr =>
      (parseAll filters).map fun parsed =>
        .filterListWithOR parsed (List.replicate parsed.length .kIncludeCurCell)
    | .kInvalidOp => none
  | .kValueFilter desc => desc.parseFrom
  | .kUnknownType => none

/-- The loop of `FilterList::ParseFrom`: a `FilterDesc` of unknown type makes no filter and is
passed over, and any other must parse. -/
def parseAll : List FilterDesc → Option (List Filter)
  | [] => some []
  | desc :: rest =>
    match desc with
    | .kUnknownType => parseAll rest
    | _ => do
      let filter ← desc.parseFrom
      let parsed ← parseAll rest
      some (filter :: parsed)

end

/-! ## What `SerializeTo` writes -/

/-- A comparator `SerializeTo` writes: a binary one, or an integer one of a known type. -/
def FilterComparator.Serializable : FilterComparator → Prop
  | .integerComparator valueType _ => valueType ≠ .kUnknown
  | .binaryComparator _ => True

mutual

/-- The filters `SerializeTo` writes: value filters with one of the six comparisons and a comparator
it writes, in lists with an operator. -/
def Filter.Serializable : Filter → Prop
  | .valueFilter _ _ op comparator _ _ => op ≠ .kNoOp ∧ comparator.Serializable
  | .filterListWithAND filters => AllSerializable filters
  | .filterListWithOR filters _ => AllSerializable filters
  | .filterListWithoutBase => False

/-- Every filter of a list is one `SerializeTo` writes. -/
def AllSerializable : List Filter → Prop
  | [] => True
  | filter :: rest => filter.Serializable ∧ AllSerializable rest

end

theorem FilterComparator.serializeTo_isSome_iff (comparator : FilterComparator) :
    comparator.serializeTo.isSome ↔ comparator.Serializable := by
  cases comparator with
  | integerComparator valueType integerValue =>
    simp only [FilterComparator.serializeTo, FilterComparator.Serializable]
    split <;> simp_all
  | binaryComparator value => simp [FilterComparator.serializeTo, FilterComparator.Serializable]

mutual

/-- `SerializeTo` fails just on a filter it does not write. -/
theorem Filter.serializeTo_isSome_iff (filter : Filter) :
    filter.serializeTo.isSome ↔ filter.Serializable := by
  cases filter with
  | valueFilter columnFamily columnQualifier op comparator filterIfMissing matchStatus =>
    simp only [Filter.serializeTo, Filter.Serializable, Option.isSome_map, valueFilterSerializeTo,
      ← FilterComparator.serializeTo_isSome_iff]
    split
    · simp_all
    · cases comparator.serializeTo <;> simp_all
  | filterListWithAND filters =>
    simp only [Filter.serializeTo, Filter.Serializable, Option.isSome_map]
    exact serializeAll_isSome_iff filters
  | filterListWithOR filters _ =>
    simp only [Filter.serializeTo, Filter.Serializable, Option.isSome_map]
    exact serializeAll_isSome_iff filters
  | filterListWithoutBase => simp [Filter.serializeTo, Filter.Serializable]
termination_by sizeOf filter

theorem serializeAll_isSome_iff (filters : List Filter) :
    (serializeAll filters).isSome ↔ AllSerializable filters := by
  cases filters with
  | nil => simp [serializeAll, AllSerializable]
  | cons filter rest =>
    simp only [AllSerializable, ← Filter.serializeTo_isSome_iff filter,
      ← serializeAll_isSome_iff rest, serializeAll]
    cases filter.serializeTo <;> cases serializeAll rest <;> simp
termination_by sizeOf filters

end

/-! ## `ParseFrom` after `SerializeTo` -/

theorem ComparatorDesc.parseFrom_serializeTo {comparator : FilterComparator}
    {desc : ComparatorDesc} (serialized : comparator.serializeTo = some desc) :
    desc.parseFrom = some comparator := by
  cases comparator with
  | integerComparator valueType integerValue =>
    simp only [FilterComparator.serializeTo] at serialized
    split at serialized
    · contradiction
    · cases serialized
      simp_all [ComparatorDesc.parseFrom]
  | binaryComparator value =>
    cases serialized
    rfl

theorem ValueFilterDesc.parseFrom_serializeTo {columnFamily columnQualifier : Bytes}
    {op : CompareOperator} {comparator : FilterComparator} {filterIfMissing : Bool}
    {desc : ValueFilterDesc}
    (serialized : valueFilterSerializeTo columnFamily columnQualifier op comparator filterIfMissing =
      some desc) :
    desc.parseFrom = some (.valueFilter columnFamily columnQualifier op comparator filterIfMissing
      .kNotMatchAnything) := by
  simp only [valueFilterSerializeTo] at serialized
  split at serialized
  · contradiction
  · obtain ⟨comparatorDesc, written, built⟩ := Option.bind_eq_some_iff.mp serialized
    cases built
    simp [ValueFilterDesc.parseFrom, *, ComparatorDesc.parseFrom_serializeTo written]

mutual

/-- `ParseFrom` of what `SerializeTo` wrote rebuilds a well-formed filter up to its state, which
`Reset` clears. -/
theorem Filter.parseFrom_serializeTo (filter : Filter) (wf : filter.WellFormed)
    {desc : FilterDesc} (serialized : filter.serializeTo = some desc) :
    ∃ parsed, desc.parseFrom = some parsed ∧ parsed.reset = filter.reset := by
  cases filter with
  | valueFilter columnFamily columnQualifier op comparator filterIfMissing matchStatus =>
    obtain ⟨valueDesc, written, rfl⟩ := Option.map_eq_some_iff.mp serialized
    exact ⟨_, ValueFilterDesc.parseFrom_serializeTo written, rfl⟩
  | filterListWithAND filters =>
    obtain ⟨descs, written, rfl⟩ := Option.map_eq_some_iff.mp serialized
    obtain ⟨parsed, parsedAll, same⟩ := parseAll_serializeAll filters wf written
    exact ⟨.filterListWithAND parsed, by simp [FilterDesc.parseFrom, parsedAll],
      by simp [Filter.reset, same]⟩
  | filterListWithOR filters prevFilterRcList =>
    obtain ⟨_, sameLength, children⟩ := wf
    obtain ⟨descs, written, rfl⟩ := Option.map_eq_some_iff.mp serialized
    obtain ⟨parsed, parsedAll, same⟩ := parseAll_serializeAll filters children written
    refine ⟨.filterListWithOR parsed (List.replicate parsed.length .kIncludeCurCell),
      by simp [FilterDesc.parseFrom, parsedAll], ?_⟩
    -- the answers `AddFilter` gives are as many as the answers of the filter sent
    have lengths : parsed.length = prevFilterRcList.length := by
      rw [sameLength, ← length_resetAll parsed, same, length_resetAll]
    simp only [Filter.reset, same, List.map_replicate, lengths, Filter.filterListWithOR.injEq,
      true_and]
    exact List.map_const'.symm
  | filterListWithoutBase => exact wf.elim
termination_by sizeOf filter

theorem parseAll_serializeAll (filters : List Filter) (wf : AllWellFormed filters)
    {descs : List FilterDesc} (serialized : serializeAll filters = some descs) :
    ∃ parsed, parseAll descs = some parsed ∧ resetAll parsed = resetAll filters := by
  cases filters with
  | nil =>
    cases serialized
    exact ⟨[], rfl, rfl⟩
  | cons filter rest =>
    simp only [serializeAll] at serialized
    obtain ⟨desc, written, serializedRest⟩ := Option.bind_eq_some_iff.mp serialized
    obtain ⟨descsRest, writtenRest, listed⟩ := Option.bind_eq_some_iff.mp serializedRest
    cases listed
    obtain ⟨parsedFirst, parsedOne, sameFirst⟩ := Filter.parseFrom_serializeTo filter wf.1 written
    obtain ⟨parsedRest, parsedAll, sameRest⟩ := parseAll_serializeAll rest wf.2 writtenRest
    refine ⟨parsedFirst :: parsedRest, ?_, by simp [resetAll, sameFirst, sameRest]⟩
    -- what `SerializeTo` writes has a known type, so the loop parses it
    cases desc with
    | kUnknownType => simp [FilterDesc.parseFrom] at parsedOne
    | kFilterList op fs => simp [parseAll, parsedOne, parsedAll]
    | kValueFilter valueDesc => simp [parseAll, parsedOne, parsedAll]
termination_by sizeOf filters

end

/-- The scan's decision reads a filter only after `Reset`. -/
theorem shouldFilterRowBuffer_of_reset_eq {filter parsed : Filter}
    (same : parsed.reset = filter.reset) (row : List Cell) :
    shouldFilterRowBuffer (some parsed) row = shouldFilterRowBuffer (some filter) row := by
  simp only [shouldFilterRowBuffer, same]

/-- A well-formed filter that `SerializeTo` writes drops a row of visible cells just when it does
not hold of it, and the filter the tablet server parses from what was written decides every row
the same way. -/
theorem shouldFilterRowBuffer_decides_by_holds (filter : Filter) (wf : filter.WellFormed)
    (serializable : filter.Serializable) :
    (∀ row : List Cell, row ≠ [] → shouldFilterRowBuffer (some filter) row = !filter.holds row) ∧
      ∃ desc parsed, filter.serializeTo = some desc ∧ desc.parseFrom = some parsed ∧
        ∀ row : List Cell,
          shouldFilterRowBuffer (some parsed) row = shouldFilterRowBuffer (some filter) row := by
  obtain ⟨desc, written⟩ :=
    Option.isSome_iff_exists.mp ((Filter.serializeTo_isSome_iff filter).mpr serializable)
  obtain ⟨parsed, parsedOne, same⟩ := Filter.parseFrom_serializeTo filter wf written
  exact ⟨fun row nonempty => shouldFilterRowBuffer_eq_not_holds filter wf row nonempty,
    desc, parsed, written, parsedOne, shouldFilterRowBuffer_of_reset_eq same⟩

theorem shouldFilterRowBuffer_decides_by_holds_or :
    ((Filter.filterListWithOR
        [.valueFilter [99, 102] [113] .kEqual (.binaryComparator [49]) false .kNotMatchAnything,
          .valueFilter [99, 102] [114] .kGreater (.integerComparator .kUint8 7) true
            .kNotMatchAnything]
        [.kUndefinedRC, .kUndefinedRC]).WellFormed ∧
      (Filter.filterListWithOR
        [.valueFilter [99, 102] [113] .kEqual (.binaryComparator [49]) false .kNotMatchAnything,
          .valueFilter [99, 102] [114] .kGreater (.integerComparator .kUint8 7) true
            .kNotMatchAnything]
        [.kUndefinedRC, .kUndefinedRC]).Serializable) ∧
      ((∀ row : List Cell, row ≠ [] →
        shouldFilterRowBuffer (some (Filter.filterListWithOR
          [.valueFilter [99, 102] [113] .kEqual (.binaryComparator [49]) false .kNotMatchAnything,
            .valueFilter [99, 102] [114] .kGreater (.integerComparator .kUint8 7) true
              .kNotMatchAnything]
          [.kUndefinedRC, .kUndefinedRC])) row =
          !(Filter.filterListWithOR
            [.valueFilter [99, 102] [113] .kEqual (.binaryComparator [49]) false
                .kNotMatchAnything,
              .valueFilter [99, 102] [114] .kGreater (.integerComparator .kUint8 7) true
                .kNotMatchAnything]
            [.kUndefinedRC, .kUndefinedRC]).holds row) ∧
        ∃ desc parsed, (Filter.filterListWithOR
            [.valueFilter [99, 102] [113] .kEqual (.binaryComparator [49]) false
                .kNotMatchAnything,
              .valueFilter [99, 102] [114] .kGreater (.integerComparator .kUint8 7) true
                .kNotMatchAnything]
            [.kUndefinedRC, .kUndefinedRC]).serializeTo = some desc ∧
          desc.parseFrom = some parsed ∧
          ∀ row : List Cell, shouldFilterRowBuffer (some parsed) row =
            shouldFilterRowBuffer (some (Filter.filterListWithOR
              [.valueFilter [99, 102] [113] .kEqual (.binaryComparator [49]) false
                  .kNotMatchAnything,
                .valueFilter [99, 102] [114] .kGreater (.integerComparator .kUint8 7) true
                  .kNotMatchAnything]
              [.kUndefinedRC, .kUndefinedRC])) row) :=
  have wf : (Filter.filterListWithOR
      [.valueFilter [99, 102] [113] .kEqual (.binaryComparator [49]) false .kNotMatchAnything,
        .valueFilter [99, 102] [114] .kGreater (.integerComparator .kUint8 7) true
          .kNotMatchAnything]
      [.kUndefinedRC, .kUndefinedRC]).WellFormed := by
    simp [Filter.WellFormed, AllWellFormed]
  have serializable : (Filter.filterListWithOR
      [.valueFilter [99, 102] [113] .kEqual (.binaryComparator [49]) false .kNotMatchAnything,
        .valueFilter [99, 102] [114] .kGreater (.integerComparator .kUint8 7) true
          .kNotMatchAnything]
      [.kUndefinedRC, .kUndefinedRC]).Serializable := by
    simp [Filter.Serializable, AllSerializable, FilterComparator.Serializable]
  ⟨⟨wf, serializable⟩, shouldFilterRowBuffer_decides_by_holds _ wf serializable⟩

/-- An OR list with no filters keeps every row though no filter of it holds, and a value filter
without a comparison operator cannot be sent. -/
theorem shouldFilterRowBuffer_keeps_empty_or :
    shouldFilterRowBuffer (some (.filterListWithOR [] [])) [⟨[99, 102], [113], [49]⟩] = false ∧
      (Filter.filterListWithOR [] []).holds [⟨[99, 102], [113], [49]⟩] = false ∧
      (Filter.valueFilter [99, 102] [113] .kNoOp (.binaryComparator [49]) false
        .kNotMatchAnything).serializeTo = none :=
  ⟨by decide, by decide, rfl⟩

end Tera.Sdk
