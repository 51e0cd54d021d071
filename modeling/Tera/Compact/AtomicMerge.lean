import Tera.Compact.Visibility

/-! # Merging atomic operations

Atomic operations (`ADD`, `ADDINT64`, `PUT_IFABSENT`, `APPEND`) are stored as entries of their cell
and merged when read. `AtomicMergeStrategy` (`io/atomic_merge_strategy.cc`) folds the entries of a
cell, newest first, into one value: counters are summed modulo `2 ^ 64`, an append puts the older
value in front, and a put-if-absent keeps the oldest value. `InternalMergeProcess` drives that fold
over an iterator for two callers: a read (`ScanMergedValue`) merges the run of atomic entries and
the one value behind it; a compaction (`MergeAtomicOPs`) merges the run only and writes the result
back under the newest entry's key.
-/

namespace Tera.Compact

open Tera.RawKey Tera.Lib

/-- An entry under an iterator: a tera key with, for compaction input, the sequence number of its
internal key, and the value. -/
structure IterEntry where
  key : Bytes
  sequence : Nat
  value : Bytes
deriving DecidableEq, Repr

/-- The member data of `AtomicMergeStrategy` together with the two strings it writes through:
the merged key and the merged value. -/
structure AtomicMergeStrategy where
  mergedKey : Bytes × Nat := ([], 0)
  mergedValue : Bytes := []
  latestKeyType : TeraKeyType := TeraKeyType.forSeek
  counter : Nat := 0
  int64 : Nat := 0
  appendBuffer : Bytes := []
deriving DecidableEq, Repr

namespace AtomicMergeStrategy

/-- `io::DecodeBigEndain`: the counter an `ADD` value holds. -/
def decodeCounter (value : Bytes) : Nat :=
  decodeBigEndian (value.take 8)

/-- `*(int64_t*)value.data()`: the native little-endian word an `ADDINT64` value holds. -/
def decodeInt64 (value : Bytes) : Nat :=
  decodeLittleEndian (value.take 8)

/-- `AtomicMergeStrategy::Init` on a fresh strategy and empty output strings: start from the
newest entry of the cell. -/
def init (latestKey : Bytes × Nat) (latestValue : Bytes) (latestKeyType : TeraKeyType) :
    AtomicMergeStrategy :=
  if latestKeyType = TeraKeyType.add then
    { latestKeyType, mergedKey := latestKey, counter := decodeCounter latestValue }
  else if latestKeyType = TeraKeyType.addInt64 then
    { latestKeyType, mergedKey := latestKey, int64 := decodeInt64 latestValue }
  else if latestKeyType = TeraKeyType.putIfAbsent then
    { latestKeyType, mergedKey := latestKey, mergedValue := latestValue }
  else if latestKeyType = TeraKeyType.append then
    { latestKeyType, mergedKey := latestKey, appendBuffer := latestValue }
  else { latestKeyType }

/-- `AtomicMergeStrategy::MergeStep`: fold in an older entry of the same kind or a value; entries
of another atomic kind leave the state as it is. The signed sums wrap modulo `2 ^ 64`. -/
def mergeStep (st : AtomicMergeStrategy) (value : Bytes) (keyType : TeraKeyType) :
    AtomicMergeStrategy :=
  if st.latestKeyType = TeraKeyType.add then
    if keyType = TeraKeyType.add ∨ keyType = TeraKeyType.value then
      { st with counter := (st.counter + decodeCounter value) % 2 ^ 64 }
    else st
  else if st.latestKeyType = TeraKeyType.addInt64 then
    if keyType = TeraKeyType.addInt64 ∨ keyType = TeraKeyType.value then
      { st with int64 := (st.int64 + decodeInt64 value) % 2 ^ 64 }
    else st
  else if st.latestKeyType = TeraKeyType.putIfAbsent then
    if keyType = TeraKeyType.putIfAbsent ∨ keyType = TeraKeyType.value then
      { st with mergedValue := value }
    else st
  else if st.latestKeyType = TeraKeyType.append then
    if keyType = TeraKeyType.append ∨ keyType = TeraKeyType.value then
      { st with appendBuffer := value ++ st.appendBuffer }
    else st
  else st

/-- `AtomicMergeStrategy::Finish`: write the merged value. -/
def finish (st : AtomicMergeStrategy) : AtomicMergeStrategy :=
  if st.latestKeyType = TeraKeyType.add then { st with mergedValue := encodeBigEndian 8 st.counter }
  else if st.latestKeyType = TeraKeyType.addInt64 then
    { st with mergedValue := encodeLittleEndian 8 st.int64 }
  else if st.latestKeyType = TeraKeyType.append then { st with mergedValue := st.appendBuffer }
  else st

end AtomicMergeStrategy

/-- The loop of `InternalMergeProcess` over the entries behind the newest one. It stops after one
merged value (`version_num`), at an internal key newer than the snapshot, at a key that does not
decode or belongs to another cell, at a tag, and at a value unless the caller merges puts. An entry
with the timestamp of the one before it is consumed without being merged. -/
def internalMergeLoop (s : DefaultCompactStrategy) (mergePutFlag isInternalKey : Bool) :
    Nat → Int → AtomicMergeStrategy → Nat → List IterEntry →
      AtomicMergeStrategy × Nat × List IterEntry
  | _, _, atomMerge, mergedNum, [] => (atomMerge, mergedNum, [])
  | versionNum, lastTsAtomic, atomMerge, mergedNum, entry :: rest =>
    if versionNum ≥ 1 then (atomMerge, mergedNum, entry :: rest)
    else if isInternalKey ∧ entry.sequence > s.snapshot then (atomMerge, mergedNum, entry :: rest)
    else match extractTeraKey entry.key with
      | none => (atomMerge, mergedNum, entry :: rest)
      | some cell =>
        if s.lastQual ≠ cell.qualifier ∨ s.lastCol ≠ cell.family ∨ s.lastKey ≠ cell.rowKey then
          (atomMerge, mergedNum, entry :: rest)
        else if isAtomicOP cell.type = false ∧ cell.type ≠ TeraKeyType.value then
          (atomMerge, mergedNum, entry :: rest)
        else if cell.type = TeraKeyType.value ∧ (mergePutFlag = false ∨ versionNum + 1 > 1) then
          (atomMerge, mergedNum, entry :: rest)
        else
          internalMergeLoop s mergePutFlag isInternalKey
            (if cell.type = TeraKeyType.value then versionNum + 1 else versionNum) cell.timestamp
            (if cell.timestamp ≠ lastTsAtomic ∨ cell.type = TeraKeyType.value then
              atomMerge.mergeStep entry.value cell.type else atomMerge)
            (mergedNum + 1) rest

/-- `DefaultCompactStrategy::InternalMergeProcess` at the iterator's entry, which the strategy has
just accepted (its type and timestamp are `cur_type_` and `cur_ts_`): `none` when that entry is not
an atomic operation, otherwise the finished merge, the number of entries merged and the iterator
after them. -/
def internalMergeProcess (s : DefaultCompactStrategy) (mergePutFlag isInternalKey : Bool)
    (it : List IterEntry) : Option (AtomicMergeStrategy × Nat × List IterEntry) :=
  if isAtomicOP s.curType = false then none
  else match it with
    | [] => none
    | entry :: rest =>
      let (atomMerge, mergedNum, remaining) :=
        internalMergeLoop s mergePutFlag isInternalKey 0 s.curTs
          (AtomicMergeStrategy.init (entry.key, entry.sequence) entry.value s.curType) 1 rest
      some (atomMerge.finish, mergedNum, remaining)

/-- `DefaultCompactStrategy::ScanMergedValue`, the read: the merged value, the number of entries
merged and the iterator after them. -/
def scanMergedValue (s : DefaultCompactStrategy) (it : List IterEntry) :
    Option (Bytes × Nat × List IterEntry) :=
  (internalMergeProcess s true false it).map fun (atomMerge, mergedNum, remaining) =>
    (atomMerge.mergedValue, mergedNum, remaining)

/-- `DefaultCompactStrategy::MergeAtomicOPs`, the compaction: the merged key and value, and the
iterator after the merged entries. -/
def mergeAtomicOPs (s : DefaultCompactStrategy) (it : List IterEntry) :
    Option ((Bytes × Nat) × Bytes × List IterEntry) :=
  (internalMergeProcess s false true it).map fun (atomMerge, _, remaining) =>
    (atomMerge.mergedKey, atomMerge.mergedValue, remaining)

/-- The merge loop only moves the iterator forward. -/
theorem internalMergeLoop_suffix (s : DefaultCompactStrategy) (mergePutFlag isInternalKey : Bool)
    (versionNum : Nat) (lastTs : Int) (st : AtomicMergeStrategy) (n : Nat) (it : List IterEntry) :
    (internalMergeLoop s mergePutFlag isInternalKey versionNum lastTs st n it).2.2 <:+ it := by
  fun_induction internalMergeLoop s mergePutFlag isInternalKey versionNum lastTs st n it <;>
    first | exact List.suffix_refl _ | exact ‹_ <:+ _›.trans (List.suffix_cons _ _)

/-- A read that merges leaves the iterator past the entry it started at. -/
theorem scanMergedValue_suffix {s : DefaultCompactStrategy} {entry : IterEntry}
    {rest remaining : List IterEntry} {value : Bytes} {n : Nat}
    (merged : scanMergedValue s (entry :: rest) = some (value, n, remaining)) :
    remaining <:+ rest := by
  unfold scanMergedValue internalMergeProcess at merged
  split_ifs at merged
  · simp at merged
  · have suffix := internalMergeLoop_suffix s true false 0 s.curTs
      (AtomicMergeStrategy.init (entry.key, entry.sequence) entry.value s.curType) 1 rest
    rcases loop : internalMergeLoop s true false 0 s.curTs
      (AtomicMergeStrategy.init (entry.key, entry.sequence) entry.value s.curType) 1 rest with
      ⟨atomMerge, mergedNum, left⟩
    dsimp only at merged
    rw [loop] at merged suffix
    simp only [Option.map_some, Option.some.injEq, Prod.mk.injEq] at merged
    obtain ⟨-, -, rfl⟩ := merged
    exact suffix

namespace AtomicMergeStrategy

/-- The merge state once `MergeStep` has seen each older entry in turn. -/
def mergeAll (st : AtomicMergeStrategy) (entries : List (Bytes × TeraKeyType)) :
    AtomicMergeStrategy :=
  entries.foldl (fun acc entry => acc.mergeStep entry.1 entry.2) st

/-- The values a merge of the given kind takes in: entries of that kind and plain values. -/
def joined (kind : TeraKeyType) (entries : List (Bytes × TeraKeyType)) : List Bytes :=
  (entries.filter fun entry => entry.2 = kind ∨ entry.2 = TeraKeyType.value).map Prod.fst

/-- What merging the entries of a cell means, newest first, for the kind of the newest one:
counters add up modulo `2 ^ 64`, appends concatenate with the oldest first, and a put-if-absent
keeps the oldest value. -/
def mergedValueSpec (kind : TeraKeyType) (entries : List (Bytes × TeraKeyType)) : Bytes :=
  let values := joined kind entries
  if kind = TeraKeyType.add then encodeBigEndian 8 (values.map decodeCounter).sum
  else if kind = TeraKeyType.addInt64 then encodeLittleEndian 8 (values.map decodeInt64).sum
  else if kind = TeraKeyType.putIfAbsent then values.getLast?.getD []
  else if kind = TeraKeyType.append then values.reverse.flatten
  else []

theorem init_add (key : Bytes × Nat) (value : Bytes) :
    init key value TeraKeyType.add =
      { latestKeyType := TeraKeyType.add, mergedKey := key, counter := decodeCounter value } := by
  rw [init, if_pos rfl]

theorem init_addInt64 (key : Bytes × Nat) (value : Bytes) :
    init key value TeraKeyType.addInt64 =
      { latestKeyType := TeraKeyType.addInt64, mergedKey := key, int64 := decodeInt64 value } := by
  rw [init, if_neg (by decide), if_pos rfl]

theorem init_putIfAbsent (key : Bytes × Nat) (value : Bytes) :
    init key value TeraKeyType.putIfAbsent =
      { latestKeyType := TeraKeyType.putIfAbsent, mergedKey := key, mergedValue := value } := by
  rw [init, if_neg (by decide), if_neg (by decide), if_pos rfl]

theorem init_append (key : Bytes × Nat) (value : Bytes) :
    init key value TeraKeyType.append =
      { latestKeyType := TeraKeyType.append, mergedKey := key, appendBuffer := value } := by
  rw [init, if_neg (by decide), if_neg (by decide), if_neg (by decide), if_pos rfl]

theorem mergedKey_init (key : Bytes × Nat) (value : Bytes) {kind : TeraKeyType}
    (atomic : isAtomicOP kind = true) : (init key value kind).mergedKey = key := by
  rcases (isAtomicOP_iff kind).mp atomic with add | int64 | putIfAbsent | append
  · rw [add, init_add]
  · rw [int64, init_addInt64]
  · rw [putIfAbsent, init_putIfAbsent]
  · rw [append, init_append]

section Step

variable {st : AtomicMergeStrategy} (value : Bytes)

theorem mergeStep_add (current : st.latestKeyType = TeraKeyType.add) :
    st.mergeStep value TeraKeyType.add =
      { st with counter := (st.counter + decodeCounter value) % 2 ^ 64 } := by
  rw [mergeStep, if_pos current, if_pos (Or.inl rfl)]

theorem mergeStep_addInt64 (current : st.latestKeyType = TeraKeyType.addInt64) :
    st.mergeStep value TeraKeyType.addInt64 =
      { st with int64 := (st.int64 + decodeInt64 value) % 2 ^ 64 } := by
  rw [mergeStep, if_neg (by rw [current]; decide), if_pos current, if_pos (Or.inl rfl)]

theorem mergeStep_putIfAbsent (current : st.latestKeyType = TeraKeyType.putIfAbsent) :
    st.mergeStep value TeraKeyType.putIfAbsent = { st with mergedValue := value } := by
  rw [mergeStep, if_neg (by rw [current]; decide), if_neg (by rw [current]; decide),
    if_pos current, if_pos (Or.inl rfl)]

theorem mergeStep_append (current : st.latestKeyType = TeraKeyType.append) :
    st.mergeStep value TeraKeyType.append = { st with appendBuffer := value ++ st.appendBuffer } := by
  rw [mergeStep, if_neg (by rw [current]; decide), if_neg (by rw [current]; decide),
    if_neg (by rw [current]; decide), if_pos current, if_pos (Or.inl rfl)]

/-- A value, or an entry of the state's own kind, is merged as an entry of that kind. -/
theorem mergeStep_of_joins {kind : TeraKeyType} (current : st.latestKeyType = kind)
    {keyType : TeraKeyType} (joins : keyType = kind ∨ keyType = TeraKeyType.value) :
    st.mergeStep value keyType = st.mergeStep value kind := by
  subst current
  unfold mergeStep
  rcases joins with same | plain
  · rw [same]
  · split_ifs <;> simp_all

/-- An entry of another atomic kind leaves the merge as it is. -/
theorem mergeStep_of_not_joins {kind : TeraKeyType} (current : st.latestKeyType = kind)
    {keyType : TeraKeyType} (skips : ¬ (keyType = kind ∨ keyType = TeraKeyType.value)) :
    st.mergeStep value keyType = st := by
  subst current
  unfold mergeStep
  split_ifs <;> simp_all

@[simp] theorem latestKeyType_mergeStep (keyType : TeraKeyType) :
    (st.mergeStep value keyType).latestKeyType = st.latestKeyType := by
  unfold mergeStep
  split_ifs <;> rfl

@[simp] theorem mergedKey_mergeStep (keyType : TeraKeyType) :
    (st.mergeStep value keyType).mergedKey = st.mergedKey := by
  unfold mergeStep
  split_ifs <;> rfl

end Step

@[simp] theorem mergedKey_finish (st : AtomicMergeStrategy) : st.finish.mergedKey = st.mergedKey := by
  unfold finish
  split_ifs <;> rfl

theorem mergedValue_finish_add {st : AtomicMergeStrategy}
    (current : st.latestKeyType = TeraKeyType.add) :
    st.finish.mergedValue = encodeBigEndian 8 st.counter := by
  rw [finish, if_pos current]

theorem mergedValue_finish_addInt64 {st : AtomicMergeStrategy}
    (current : st.latestKeyType = TeraKeyType.addInt64) :
    st.finish.mergedValue = encodeLittleEndian 8 st.int64 := by
  rw [finish, if_neg (by rw [current]; decide), if_pos current]

theorem mergedValue_finish_putIfAbsent {st : AtomicMergeStrategy}
    (current : st.latestKeyType = TeraKeyType.putIfAbsent) :
    st.finish.mergedValue = st.mergedValue := by
  rw [finish, if_neg (by rw [current]; decide), if_neg (by rw [current]; decide),
    if_neg (by rw [current]; decide)]

theorem mergedValue_finish_append {st : AtomicMergeStrategy}
    (current : st.latestKeyType = TeraKeyType.append) :
    st.finish.mergedValue = st.appendBuffer := by
  rw [finish, if_neg (by rw [current]; decide), if_neg (by rw [current]; decide), if_pos current]

theorem latestKeyType_foldl (st : AtomicMergeStrategy) (kind : TeraKeyType) (values : List Bytes) :
    (values.foldl (fun acc value => acc.mergeStep value kind) st).latestKeyType =
      st.latestKeyType := by
  induction values generalizing st with
  | nil => rfl
  | cons value rest ih => rw [List.foldl_cons, ih, latestKeyType_mergeStep]

theorem mergedKey_mergeAll (st : AtomicMergeStrategy) (entries : List (Bytes × TeraKeyType)) :
    (st.mergeAll entries).mergedKey = st.mergedKey := by
  induction entries generalizing st with
  | nil => rfl
  | cons entry rest ih =>
    change ((st.mergeStep entry.1 entry.2).mergeAll rest).mergedKey = st.mergedKey
    rw [ih, mergedKey_mergeStep]

/-- A merge folds in exactly the joined values, each as an entry of the merge's kind. -/
theorem mergeAll_eq_joined {st : AtomicMergeStrategy} {kind : TeraKeyType}
    (current : st.latestKeyType = kind) (entries : List (Bytes × TeraKeyType)) :
    st.mergeAll entries =
      (joined kind entries).foldl (fun acc value => acc.mergeStep value kind) st := by
  induction entries generalizing st with
  | nil => rfl
  | cons entry rest ih =>
    have next : (st.mergeStep entry.1 entry.2).latestKeyType = kind := by
      rw [latestKeyType_mergeStep, current]
    by_cases joins : entry.2 = kind ∨ entry.2 = TeraKeyType.value
    · simp only [mergeAll, List.foldl_cons, joined, List.filter_cons, joins, decide_true,
        if_true, List.map_cons] at ih ⊢
      rw [ih next, mergeStep_of_joins entry.1 current joins]
    · simp only [mergeAll, List.foldl_cons, joined, List.filter_cons, joins, decide_false] at ih ⊢
      rw [ih next, mergeStep_of_not_joins entry.1 current joins]
      rfl

section Accumulators

variable (st : AtomicMergeStrategy)

theorem counter_foldl (current : st.latestKeyType = TeraKeyType.add) (bound : st.counter < 2 ^ 64)
    (values : List Bytes) :
    (values.foldl (fun acc value => acc.mergeStep value TeraKeyType.add) st).counter =
      (st.counter + (values.map decodeCounter).sum) % 2 ^ 64 := by
  induction values generalizing st with
  | nil => rw [List.foldl_nil, List.map_nil, List.sum_nil, Nat.add_zero, Nat.mod_eq_of_lt bound]
  | cons value rest ih =>
    rw [List.foldl_cons, mergeStep_add value current,
      ih { st with counter := (st.counter + decodeCounter value) % 2 ^ 64 } current
        (Nat.mod_lt _ (Nat.two_pow_pos 64))]
    simp only [List.map_cons, List.sum_cons, Nat.mod_add_mod, Nat.add_assoc]

theorem int64_foldl (current : st.latestKeyType = TeraKeyType.addInt64) (bound : st.int64 < 2 ^ 64)
    (values : List Bytes) :
    (values.foldl (fun acc value => acc.mergeStep value TeraKeyType.addInt64) st).int64 =
      (st.int64 + (values.map decodeInt64).sum) % 2 ^ 64 := by
  induction values generalizing st with
  | nil => rw [List.foldl_nil, List.map_nil, List.sum_nil, Nat.add_zero, Nat.mod_eq_of_lt bound]
  | cons value rest ih =>
    rw [List.foldl_cons, mergeStep_addInt64 value current,
      ih { st with int64 := (st.int64 + decodeInt64 value) % 2 ^ 64 } current
        (Nat.mod_lt _ (Nat.two_pow_pos 64))]
    simp only [List.map_cons, List.sum_cons, Nat.mod_add_mod, Nat.add_assoc]

theorem mergedValue_foldl (current : st.latestKeyType = TeraKeyType.putIfAbsent)
    (values : List Bytes) :
    (values.foldl (fun acc value => acc.mergeStep value TeraKeyType.putIfAbsent) st).mergedValue =
      values.getLast?.getD st.mergedValue := by
  induction values generalizing st with
  | nil => rfl
  | cons value rest ih =>
    rw [List.foldl_cons, mergeStep_putIfAbsent value current,
      ih { st with mergedValue := value } current, List.getLast?_cons]
    cases rest.getLast? <;> rfl

theorem appendBuffer_foldl (current : st.latestKeyType = TeraKeyType.append)
    (values : List Bytes) :
    (values.foldl (fun acc value => acc.mergeStep value TeraKeyType.append) st).appendBuffer =
      values.reverse.flatten ++ st.appendBuffer := by
  induction values generalizing st with
  | nil => simp
  | cons value rest ih =>
    rw [List.foldl_cons, mergeStep_append value current,
      ih { st with appendBuffer := value ++ st.appendBuffer } current]
    simp

end Accumulators

private theorem pow_length_take_le (value : Bytes) :
    (256 : Nat) ^ (value.take 8).length ≤ 2 ^ 64 :=
  calc (256 : Nat) ^ (value.take 8).length ≤ 256 ^ 8 :=
        Nat.pow_le_pow_right (by decide) (List.length_take_le 8 value)
    _ = 2 ^ 64 := by decide

theorem decodeCounter_lt (value : Bytes) : decodeCounter value < 2 ^ 64 :=
  Nat.lt_of_lt_of_le (decodeBigEndian_lt (value.take 8)) (pow_length_take_le value)

theorem decodeInt64_lt (value : Bytes) : decodeInt64 value < 2 ^ 64 :=
  Nat.lt_of_lt_of_le (decodeLittleEndian_lt (value.take 8)) (pow_length_take_le value)

theorem decodeCounter_encodeBigEndian (counter : Nat) :
    decodeCounter (encodeBigEndian 8 counter) = counter % 2 ^ 64 := by
  rw [decodeCounter, List.take_of_length_le (by simp), decodeBigEndian_encodeBigEndian,
    show (256 : Nat) ^ 8 = 2 ^ 64 by decide]

theorem decodeInt64_encodeLittleEndian (int64 : Nat) :
    decodeInt64 (encodeLittleEndian 8 int64) = int64 % 2 ^ 64 := by
  rw [decodeInt64, List.take_of_length_le (by simp), decodeLittleEndian_encodeLittleEndian,
    show (256 : Nat) ^ 8 = 2 ^ 64 by decide]

@[simp] theorem joined_cons_self (kind : TeraKeyType) (value : Bytes)
    (entries : List (Bytes × TeraKeyType)) :
    joined kind ((value, kind) :: entries) = value :: joined kind entries := by
  simp [joined]

theorem joined_append (kind : TeraKeyType) (front back : List (Bytes × TeraKeyType)) :
    joined kind (front ++ back) = joined kind front ++ joined kind back := by
  simp [joined]

section Spec

variable (entries : List (Bytes × TeraKeyType))

theorem mergedValueSpec_add :
    mergedValueSpec TeraKeyType.add entries =
      encodeBigEndian 8 ((joined TeraKeyType.add entries).map decodeCounter).sum := by
  rw [mergedValueSpec, if_pos rfl]

theorem mergedValueSpec_addInt64 :
    mergedValueSpec TeraKeyType.addInt64 entries =
      encodeLittleEndian 8 ((joined TeraKeyType.addInt64 entries).map decodeInt64).sum := by
  rw [mergedValueSpec, if_neg (by decide), if_pos rfl]

theorem mergedValueSpec_putIfAbsent :
    mergedValueSpec TeraKeyType.putIfAbsent entries =
      (joined TeraKeyType.putIfAbsent entries).getLast?.getD [] := by
  rw [mergedValueSpec, if_neg (by decide), if_neg (by decide), if_pos rfl]

theorem mergedValueSpec_append :
    mergedValueSpec TeraKeyType.append entries =
      (joined TeraKeyType.append entries).reverse.flatten := by
  rw [mergedValueSpec, if_neg (by decide), if_neg (by decide), if_neg (by decide), if_pos rfl]

end Spec

/-- The code's merge computes what merging means: `Init` on the newest entry, `MergeStep` on each
older one and `Finish` write the value `mergedValueSpec` describes. -/
theorem mergedValue_finish_mergeAll (key : Bytes × Nat) (value : Bytes) {kind : TeraKeyType}
    (atomic : isAtomicOP kind = true) (entries : List (Bytes × TeraKeyType)) :
    ((init key value kind).mergeAll entries).finish.mergedValue =
      mergedValueSpec kind ((value, kind) :: entries) := by
  rcases (isAtomicOP_iff kind).mp atomic with add | int64 | putIfAbsent | append
  · subst add
    rw [init_add, mergeAll_eq_joined rfl, mergedValue_finish_add (by rw [latestKeyType_foldl]),
      counter_foldl _ rfl (decodeCounter_lt value), mergedValueSpec_add, joined_cons_self,
      List.map_cons, List.sum_cons]
    exact encodeBigEndian_mod 8 _
  · subst int64
    rw [init_addInt64, mergeAll_eq_joined rfl,
      mergedValue_finish_addInt64 (by rw [latestKeyType_foldl]),
      int64_foldl _ rfl (decodeInt64_lt value), mergedValueSpec_addInt64, joined_cons_self,
      List.map_cons, List.sum_cons]
    exact encodeLittleEndian_mod 8 _
  · subst putIfAbsent
    rw [init_putIfAbsent, mergeAll_eq_joined rfl,
      mergedValue_finish_putIfAbsent (by rw [latestKeyType_foldl]), mergedValue_foldl _ rfl,
      mergedValueSpec_putIfAbsent, joined_cons_self, List.getLast?_cons]
    rfl
  · subst append
    rw [init_append, mergeAll_eq_joined rfl, mergedValue_finish_append (by rw [latestKeyType_foldl]),
      appendBuffer_foldl _ rfl, mergedValueSpec_append, joined_cons_self]
    simp

/-- Merging in two steps merges in one: the merged value of a front part, stored under the newest
entry's kind, merges with the older entries as the front part itself would. This is the law that
lets a compaction merge any leading part of a cell's atomic operations ahead of a read. -/
theorem mergedValueSpec_merged {kind : TeraKeyType} (atomic : isAtomicOP kind = true)
    (value : Bytes) (front back : List (Bytes × TeraKeyType)) :
    mergedValueSpec kind ((mergedValueSpec kind ((value, kind) :: front), kind) :: back) =
      mergedValueSpec kind ((value, kind) :: (front ++ back)) := by
  rcases (isAtomicOP_iff kind).mp atomic with add | int64 | putIfAbsent | append
  · subst add
    rw [mergedValueSpec_add, mergedValueSpec_add, mergedValueSpec_add, joined_cons_self,
      joined_cons_self, joined_cons_self, joined_append, List.map_cons, List.map_cons,
      List.map_cons, List.sum_cons, List.sum_cons, List.sum_cons, List.map_append, List.sum_append,
      decodeCounter_encodeBigEndian, ← encodeBigEndian_mod 8 (_ % 2 ^ 64 + _),
      ← encodeBigEndian_mod 8 (_ + (_ + _))]
    congr 1
    simp only [show (256 : Nat) ^ 8 = 2 ^ 64 by decide, Nat.mod_add_mod, Nat.add_assoc]
  · subst int64
    rw [mergedValueSpec_addInt64, mergedValueSpec_addInt64, mergedValueSpec_addInt64,
      joined_cons_self, joined_cons_self, joined_cons_self, joined_append, List.map_cons,
      List.map_cons, List.map_cons, List.sum_cons, List.sum_cons, List.sum_cons, List.map_append,
      List.sum_append, decodeInt64_encodeLittleEndian, ← encodeLittleEndian_mod 8 (_ % 2 ^ 64 + _),
      ← encodeLittleEndian_mod 8 (_ + (_ + _))]
    congr 1
    simp only [show (256 : Nat) ^ 8 = 2 ^ 64 by decide, Nat.mod_add_mod, Nat.add_assoc]
  · subst putIfAbsent
    rw [mergedValueSpec_putIfAbsent, mergedValueSpec_putIfAbsent, mergedValueSpec_putIfAbsent,
      joined_cons_self, joined_cons_self, joined_cons_self, joined_append, List.getLast?_cons,
      List.getLast?_cons, List.getLast?_cons, List.getLast?_append]
    cases (joined TeraKeyType.putIfAbsent back).getLast? <;> rfl
  · subst append
    rw [mergedValueSpec_append, mergedValueSpec_append, mergedValueSpec_append, joined_cons_self,
      joined_cons_self, joined_cons_self, joined_append]
    simp

end AtomicMergeStrategy

end Tera.Compact
