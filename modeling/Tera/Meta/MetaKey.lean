import Tera.Lib.KeyRanges
import Tera.Key.RawKey

/-! # Meta table keys: `MakeMetaTableKey`, `ParseMetaTableKey` and `MetaTableScanRange`

The meta table holds three kinds of record in one key space: a table's record at `@` and the
table's name, a user's at `~` and the user's name, and a tablet's at its table's name, `#` and the
tablet's start key. The master and the SDK read a table's tablets by scanning the meta table from
`name#start` to `name#end`, or to `name$` where the range has no end (`MetaTableScanRange`).
`#` and `$` are adjacent bytes, so a table's scan covers exactly the keys that start with its name
and `#`. The tables are kept apart as long as no table name holds a `#`; `IsValidName` admits one.
-/

namespace Tera.Meta

open Tera.Lib Tera.RawKey

/-- `isdigit` of the C locale, on a byte. -/
def isdigit (c : UInt8) : Bool := 48 ≤ c && c ≤ 57

/-- `isupper` of the C locale, on a byte. -/
def isupper (c : UInt8) : Bool := 65 ≤ c && c ≤ 90

/-- `islower` of the C locale, on a byte. -/
def islower (c : UInt8) : Bool := 97 ≤ c && c ≤ 122

def kNameLenMin : Nat := 1

def kNameLenMax : Nat := 512

/-- The characters `IsValidName` admits in a name: digits, letters, `_`, `.`, `-` and `#`. -/
def isNameChar (c : UInt8) : Bool :=
  isdigit c || isupper c || islower c || c == 95 || c == 46 || c == 45 || c == 35

/-- `IsValidName`: between `kNameLenMin` and `kNameLenMax` characters, a letter first, and only
name characters. -/
def isValidName (str : Bytes) : Bool :=
  if str.length < kNameLenMin || kNameLenMax < str.length then false
  else match str with
    | [] => false
    | first :: _ => (isupper first || islower first) && str.all isNameChar

/-- `IsValidTableName`. -/
def isValidTableName (str : Bytes) : Bool := isValidName str

/-- `MakeMetaTableKey` of a tablet record: the table's name, `#` and the tablet's start key. -/
def makeMetaTableKey (tableName keyStart : Bytes) : Bytes := tableName ++ 35 :: keyStart

/-- `MakeMetaTableKey` of a table's own record (`MakeMetaTableKeyValue` of a `TableMeta`): `@` and
the name. -/
def TableMeta.makeMetaTableKey (tableName : Bytes) : Bytes := 64 :: tableName

/-- The key `User::ToMetaTableKeyValue` gives a user's record: `~` and the name. -/
def User.toMetaTableKey (userName : Bytes) : Bytes := 126 :: userName

/-- `ParseMetaTableKey` of a tablet record: the key up to its first `#`, and what follows that
`#` (empty where nothing follows it, or where there is none). -/
def parseMetaTableKey (key : Bytes) : Bytes × Bytes :=
  let pos := key.idxOf 35
  (key.take pos, if pos + 1 < key.length then key.drop (pos + 1) else [])

/-- `MetaTableScanRange` of a table: from `name#` to `name$`. -/
def metaTableScanRange (tableName : Bytes) : Bytes × Bytes :=
  (tableName ++ [35], tableName ++ [36])

/-- `MetaTableScanRange` of the tablets of a table from `tabletKeyStart` to `tabletKeyEnd` (empty:
no bound), which `TeraMasterEnv::ScanMetaTableAsync` and `TableImpl::ScanMetaTableAsync` scan. -/
def metaTableScanRangeBetween (tableName tabletKeyStart tabletKeyEnd : Bytes) : Bytes × Bytes :=
  (tableName ++ 35 :: tabletKeyStart,
    if tabletKeyEnd.isEmpty then tableName ++ [36] else tableName ++ 35 :: tabletKeyEnd)

/-- A record of the meta table, by the kind its key encodes. -/
inductive MetaRecord
  | table (tableName : Bytes)
  | user (userName : Bytes)
  | tablet (tableName keyStart : Bytes)
deriving DecidableEq, Repr

/-- The key a record is written under. -/
def MetaRecord.key : MetaRecord → Bytes
  | .table tableName => TableMeta.makeMetaTableKey tableName
  | .user userName => User.toMetaTableKey userName
  | .tablet tableName keyStart => makeMetaTableKey tableName keyStart

/-- A tablet record's table name holds no `#`; the other records are not constrained. -/
def MetaRecord.HashFree : MetaRecord → Prop
  | .tablet tableName _ => 35 ∉ tableName
  | _ => True

/-! ## Parsing a tablet record's key -/

theorem idxOf_makeMetaTableKey {tableName : Bytes} (noHash : 35 ∉ tableName) (keyStart : Bytes) :
    (makeMetaTableKey tableName keyStart).idxOf 35 = tableName.length := by
  simp [makeMetaTableKey, List.idxOf_append_of_notMem noHash]

/-- Where the table name holds no `#`, parsing a tablet record's key gives back the name and the
start key. -/
theorem parseMetaTableKey_makeMetaTableKey {tableName : Bytes} (noHash : 35 ∉ tableName)
    (keyStart : Bytes) :
    parseMetaTableKey (makeMetaTableKey tableName keyStart) = (tableName, keyStart) := by
  simp only [parseMetaTableKey, idxOf_makeMetaTableKey noHash]
  have name : (makeMetaTableKey tableName keyStart).take tableName.length = tableName :=
    List.take_left
  have rest : (makeMetaTableKey tableName keyStart).drop (tableName.length + 1) = keyStart := by
    simp [makeMetaTableKey]
  rw [name, rest]
  -- an empty start key fails the `pos + 1 < key.size` test and is cleared, which is what it was
  cases keyStart with
  | nil => simp [makeMetaTableKey]
  | cons head tail => simp [makeMetaTableKey]

/-- A `#` in the start key is no obstacle: the first `#` is the one after the name. -/
theorem parseMetaTableKey_makeMetaTableKey_hashInStart :
    parseMetaTableKey (makeMetaTableKey [97] [98, 35]) = ([97], [98, 35]) :=
  parseMetaTableKey_makeMetaTableKey (by decide) [98, 35]

theorem makeMetaTableKey_injective {tableName other : Bytes} (noHash : 35 ∉ tableName)
    (otherNoHash : 35 ∉ other) {keyStart otherKeyStart : Bytes}
    (same : makeMetaTableKey tableName keyStart = makeMetaTableKey other otherKeyStart) :
    tableName = other ∧ keyStart = otherKeyStart := by
  -- the first `#` ends both names, so they have one length and the keys split alike
  have lengths : tableName.length = other.length := by
    rw [← idxOf_makeMetaTableKey noHash keyStart, same, idxOf_makeMetaTableKey otherNoHash]
  obtain ⟨names, rest⟩ := List.append_inj same lengths
  exact ⟨names, List.cons_injective rest⟩

/-! ## Scan ranges -/

theorem makeMetaTableKey_eq_append (tableName keyStart : Bytes) :
    makeMetaTableKey tableName keyStart = tableName ++ [35] ++ keyStart := by
  simp [makeMetaTableKey]

/-- A table's scan range holds exactly the keys that start with its name and `#`. -/
theorem inRange_metaTableScanRange_iff (tableName key : Bytes) :
    InRange [] (metaTableScanRange tableName) key ↔ tableName ++ [35] <+: key := by
  have adjacent : ∀ a : UInt8, ¬ (35 < a ∧ a < 36) := by
    rintro a ⟨lower, upper⟩
    rw [UInt8.lt_iff_toNat_lt] at lower upper
    simp only [UInt8.reduceToNat] at lower upper
    omega
  simp only [InRange, metaTableScanRange, List.append_eq_nil_iff, reduceCtorEq, and_false,
    false_or]
  exact prefixRange_iff (by decide) adjacent tableName key

/-- Where neither name holds a `#`, a tablet record lies in a table's scan range exactly when it
is a record of that table. -/
theorem inRange_metaTableScanRange_makeMetaTableKey {tableName other : Bytes}
    (noHash : 35 ∉ tableName) (otherNoHash : 35 ∉ other) (keyStart : Bytes) :
    InRange [] (metaTableScanRange tableName) (makeMetaTableKey other keyStart) ↔
      other = tableName := by
  rw [inRange_metaTableScanRange_iff]
  constructor
  · rintro ⟨rest, joined⟩
    have same : makeMetaTableKey tableName rest = makeMetaTableKey other keyStart := by
      rw [makeMetaTableKey_eq_append, joined]
    exact (makeMetaTableKey_injective noHash otherNoHash same).1.symm
  · rintro rfl
    exact ⟨keyStart, (makeMetaTableKey_eq_append other keyStart).symm⟩

/-- The scan range of a table's tablets between two keys lies in the table's scan range. -/
theorem inRange_metaTableScanRange_of_between {tableName tabletKeyStart tabletKeyEnd key : Bytes}
    (inside : InRange [] (metaTableScanRangeBetween tableName tabletKeyStart tabletKeyEnd) key) :
    InRange [] (metaTableScanRange tableName) key := by
  obtain ⟨atLeast, atMost⟩ := inside
  have start : tableName ++ [35] ≤ tableName ++ 35 :: tabletKeyStart :=
    ((List.prefix_append_right_inj tableName).mpr (by simp)).le
  have below : key < tableName ++ [36] := by
    simp only [metaTableScanRangeBetween] at atMost
    split at atMost
    · simpa using atMost
    · refine Std.lt_trans (by simpa using atMost) ((append_left_lt_iff tableName).mpr ?_)
      exact List.cons_lt_cons_iff.mpr (.inl (by decide))
  exact ⟨Std.le_trans start atLeast, .inr below⟩

/-- Within its own table, a tablet record lies in the scan range between two keys exactly when
its start key lies between them. -/
theorem inRange_metaTableScanRangeBetween_self (tableName tabletKeyStart tabletKeyEnd
    keyStart : Bytes) :
    InRange [] (metaTableScanRangeBetween tableName tabletKeyStart tabletKeyEnd)
        (makeMetaTableKey tableName keyStart) ↔
      InRange [] (tabletKeyStart, tabletKeyEnd) keyStart := by
  have start : tableName ++ 35 :: tabletKeyStart = tableName ++ [35] ++ tabletKeyStart := by simp
  simp only [InRange, metaTableScanRangeBetween]
  rw [start, makeMetaTableKey_eq_append, append_left_le_iff]
  cases tabletKeyEnd with
  | nil =>
    have below : tableName ++ 35 :: keyStart < tableName ++ [36] :=
      (append_left_lt_iff tableName).mpr (List.cons_lt_cons_iff.mpr (.inl (by decide)))
    simp [below]
  | cons head tail =>
    have stop : tableName ++ 35 :: head :: tail = tableName ++ [35] ++ head :: tail := by simp
    simp only [List.isEmpty_cons, Bool.false_eq_true, if_false, stop, append_left_lt_iff,
      List.append_eq_nil_iff, reduceCtorEq, and_false, false_or]

/-- Where neither name holds a `#`, a tablet record lies in the scan range of a table's tablets
between two keys exactly when it is a record of that table starting between them. -/
theorem inRange_metaTableScanRangeBetween_makeMetaTableKey {tableName other : Bytes}
    (noHash : 35 ∉ tableName) (otherNoHash : 35 ∉ other)
    (tabletKeyStart tabletKeyEnd keyStart : Bytes) :
    InRange [] (metaTableScanRangeBetween tableName tabletKeyStart tabletKeyEnd)
        (makeMetaTableKey other keyStart) ↔
      other = tableName ∧ InRange [] (tabletKeyStart, tabletKeyEnd) keyStart := by
  constructor
  · intro inside
    have same := (inRange_metaTableScanRange_makeMetaTableKey noHash otherNoHash keyStart).mp
      (inRange_metaTableScanRange_of_between inside)
    subst same
    exact ⟨rfl, (inRange_metaTableScanRangeBetween_self _ _ _ _).mp inside⟩
  · rintro ⟨rfl, within⟩
    exact (inRange_metaTableScanRangeBetween_self _ _ _ _).mpr within

/-! ## The records a scan meets -/

theorem isValidName_cons {str : Bytes} (valid : isValidName str = true) :
    ∃ first rest, str = first :: rest ∧ (isupper first || islower first) = true := by
  cases str with
  | nil => simp [isValidName] at valid
  | cons first rest =>
    refine ⟨first, rest, rfl, ?_⟩
    simp only [isValidName] at valid
    split at valid
    · cases valid
    · rw [Bool.and_eq_true] at valid
      exact valid.1

/-- A key that starts with `@` or `~`, a table's or a user's record, lies outside the scan range
of every valid table name: a name starts with a letter. -/
theorem not_inRange_metaTableScanRange_of_head {tableName : Bytes}
    (valid : isValidTableName tableName = true) {head : UInt8} (mark : head = 64 ∨ head = 126)
    (rest : Bytes) : ¬ InRange [] (metaTableScanRange tableName) (head :: rest) := by
  obtain ⟨first, name, rfl, letter⟩ := isValidName_cons valid
  rw [inRange_metaTableScanRange_iff, List.cons_append, List.cons_prefix_cons]
  rintro ⟨rfl, -⟩
  rcases mark with rfl | rfl <;> simp [isupper, islower] at letter

/-- For a valid table name without `#`, the scan of its tablets between two keys meets, of the
records of the meta table whose table names hold no `#`, exactly the table's tablet records whose
start keys lie between the two keys. -/
theorem inRange_metaTableScanRangeBetween_key {tableName : Bytes}
    (valid : isValidTableName tableName = true) (noHash : 35 ∉ tableName)
    (tabletKeyStart tabletKeyEnd : Bytes) {record : MetaRecord} (hashFree : record.HashFree) :
    InRange [] (metaTableScanRangeBetween tableName tabletKeyStart tabletKeyEnd) record.key ↔
      ∃ keyStart, record = .tablet tableName keyStart ∧
        InRange [] (tabletKeyStart, tabletKeyEnd) keyStart := by
  cases record with
  | table name =>
    simp only [MetaRecord.key, TableMeta.makeMetaTableKey, reduceCtorEq, false_and, exists_false,
      iff_false]
    exact fun inside => not_inRange_metaTableScanRange_of_head valid (.inl rfl) name
      (inRange_metaTableScanRange_of_between inside)
  | user name =>
    simp only [MetaRecord.key, User.toMetaTableKey, reduceCtorEq, false_and, exists_false,
      iff_false]
    exact fun inside => not_inRange_metaTableScanRange_of_head valid (.inr rfl) name
      (inRange_metaTableScanRange_of_between inside)
  | tablet other keyStart =>
    simp only [MetaRecord.key, MetaRecord.tablet.injEq,
      inRange_metaTableScanRangeBetween_makeMetaTableKey noHash hashFree]
    constructor
    · rintro ⟨rfl, within⟩
      exact ⟨keyStart, ⟨rfl, rfl⟩, within⟩
    · rintro ⟨_, ⟨rfl, rfl⟩, within⟩
      exact ⟨rfl, within⟩

/-- The tablet records of table `ab` lie outside the scan of all of table `a`'s tablets. -/
theorem inRange_metaTableScanRangeBetween_key_prefix :
    ¬ InRange [] (metaTableScanRangeBetween [97] [] []) (MetaRecord.tablet [97, 98] []).key := by
  have hashFree : (MetaRecord.tablet [97, 98] []).HashFree := show 35 ∉ ([97, 98] : Bytes) by decide
  rw [inRange_metaTableScanRangeBetween_key (by decide) (by decide) [] [] hashFree]
  rintro ⟨keyStart, other, -⟩
  cases other

/-- `IsValidName` admits the name `a#b`. Its tablet record with an empty start key parses as a
record of the table `a` with start key `b#`, and it lies in the range `a#` to `a$` that both
`ScanMetaTableAsync`s read for the tablets of `a`. -/
theorem metaTableScanRange_admits_hash_name :
    isValidTableName [97] = true ∧ isValidTableName [97, 35, 98] = true ∧
      parseMetaTableKey (makeMetaTableKey [97, 35, 98] []) = ([97], [98, 35]) ∧
      InRange [] (metaTableScanRange [97]) (makeMetaTableKey [97, 35, 98] []) ∧
      InRange [] (metaTableScanRangeBetween [97] [] []) (makeMetaTableKey [97, 35, 98] []) := by
  decide

end Tera.Meta
