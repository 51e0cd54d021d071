import Mathlib
import Tera.Io.RowRead

/-! # The sharded memtable

A locality group with `memtable_shard_num > 1` writes into a `ShardedMemTable`: `Add` hands the
entries round-robin to `MemTableOnLevelDB` shards, each an in-memory LevelDB of its own, and
`NewIterator` merges the shards' iterators in internal key order. Each shard's inner DB flushes its
memtable with `BuildTable`, which runs the table's compact strategy: `Drop`, then `MergeAtomicOPs`
over the entries that follow in that shard.

A shard's entries are the list of them in internal key order, and a flush replaces them by what
`BuildTable` writes. The merge of atomic operations in one shard reads only that shard's entries,
so it can fold in an operation the unsharded read never reaches.
-/

namespace Tera.LevelDB

open Tera.RawKey Tera.Lib Tera.Compact Tera.Io

/-- The `InternalKeyComparator` order: user keys by the tera key order, then newer sequence numbers
first. -/
def internalKeyBefore (first second : IterEntry) : Bool :=
  match binaryCompare first.key second.key with
  | .lt => true
  | .gt => false
  | .eq => second.sequence ≤ first.sequence

/-- A `MemTableOnLevelDB` shard: the entries of its inner DB in internal key order. -/
structure MemTableOnLevelDB where
  entries : List IterEntry := []
deriving DecidableEq, Repr

/-- `MemTableOnLevelDB::Add`: a write batch of one entry into the inner DB. -/
def MemTableOnLevelDB.add (mem : MemTableOnLevelDB) (entry : IterEntry) : MemTableOnLevelDB :=
  ⟨mem.entries.orderedInsert (fun first second => internalKeyBefore first second = true) entry⟩

/-- One pass of `BuildTable`'s loop at the iterator's entry, with the compact strategy and the
entries written so far. An entry visible to the snapshot that `Drop` rejects is skipped; one it
keeps is merged with the atomic operations behind it by `MergeAtomicOPs`, which moves the iterator
past them, or else written as it is. -/
def buildTablePass (schema : TableSchema) (now : Int)
    (state : DefaultCompactStrategy × List IterEntry) (entry : IterEntry)
    (rest : List IterEntry) : Pass (DefaultCompactStrategy × List IterEntry) IterEntry :=
  let (s, built) := state
  if entry.sequence ≤ s.snapshot then
    let (dropped, s) := drop schema now [] s entry.key entry.sequence
    if dropped then .next (s, built) rest
    else match mergeAtomicOPs s (entry :: rest) with
      | some ((mergedKey, mergedSequence), mergedValue, remaining) =>
        .next (s, built ++ [⟨mergedKey, mergedSequence, mergedValue⟩]) remaining
      | none => .next (s, built ++ [entry]) rest
  else .next (s, built ++ [entry]) rest

/-- `BuildTable` of a shard's entries with a strategy whose snapshot is `snapshot`: the entries of
the table it writes. -/
def buildTable (schema : TableSchema) (now : Int) (snapshot : Nat) (entries : List IterEntry) :
    List IterEntry :=
  (iterate (buildTablePass schema now) entries.length ({ snapshot }, []) entries).2

/-- `ShardedMemTable`: its shards and the next one `Add` writes to. -/
structure ShardedMemTable where
  shardedMemtable : List MemTableOnLevelDB
  currentMemtable : Nat := 0
deriving DecidableEq, Repr

/-- A `ShardedMemTable` of `shardNum` empty shards. -/
def ShardedMemTable.new (shardNum : Nat) : ShardedMemTable :=
  ⟨List.replicate shardNum {}, 0⟩

/-- `ShardedMemTable::Add`: the entry goes to the current shard, and the next shard becomes
current, back to the first after the last. -/
def ShardedMemTable.add (table : ShardedMemTable) (entry : IterEntry) : ShardedMemTable :=
  let current :=
    if table.currentMemtable = table.shardedMemtable.length then 0 else table.currentMemtable
  { shardedMemtable := table.shardedMemtable.modify current (·.add entry)
    currentMemtable := current + 1 }

/-- `ShardedMemTable::NewIterator`: the merging iterator over the shards, which yields all their
entries in internal key order. -/
def ShardedMemTable.newIterator (table : ShardedMemTable) : List IterEntry :=
  (table.shardedMemtable.flatMap MemTableOnLevelDB.entries).insertionSort
    fun first second => internalKeyBefore first second = true

/-- A flush of one shard's inner DB: its entries become those `BuildTable` writes. -/
def ShardedMemTable.flushShard (schema : TableSchema) (now : Int) (snapshot : Nat)
    (table : ShardedMemTable) (index : Nat) : ShardedMemTable :=
  { table with
    shardedMemtable := table.shardedMemtable.modify index
      fun mem => ⟨buildTable schema now snapshot mem.entries⟩ }

/-! ## Before any flush -/

theorem MemTableOnLevelDB.entries_add_perm (mem : MemTableOnLevelDB) (entry : IterEntry) :
    (mem.add entry).entries.Perm (entry :: mem.entries) :=
  List.perm_orderedInsert _ entry mem.entries

/-- Changing one shard changes the entries of all shards as it changes that shard's. -/
theorem flatMap_modify_perm {entry : IterEntry} {f : MemTableOnLevelDB → MemTableOnLevelDB}
    (added : ∀ mem, (f mem).entries.Perm (entry :: mem.entries)) :
    ∀ (shards : List MemTableOnLevelDB) (index : Nat), index < shards.length →
      ((shards.modify index f).flatMap MemTableOnLevelDB.entries).Perm
        (entry :: shards.flatMap MemTableOnLevelDB.entries)
  | mem :: rest, 0, _ => by
    rw [List.modify_zero_cons, List.flatMap_cons, List.flatMap_cons]
    exact (added mem).append_right _
  | mem :: rest, index + 1, inRange => by
    rw [List.modify_succ_cons, List.flatMap_cons, List.flatMap_cons]
    have restAdded := flatMap_modify_perm added rest index (by simpa using inRange)
    exact (restAdded.append_left mem.entries).trans List.perm_middle

/-- `Add` writes to a shard that exists: the current shard is at most the number of shards, and
the one written below it. -/
theorem ShardedMemTable.add_shape (table : ShardedMemTable) (entry : IterEntry)
    (shards : 0 < table.shardedMemtable.length)
    (current : table.currentMemtable ≤ table.shardedMemtable.length) :
    (table.add entry).shardedMemtable.length = table.shardedMemtable.length ∧
      (table.add entry).currentMemtable ≤ table.shardedMemtable.length ∧
      ((table.add entry).shardedMemtable.flatMap MemTableOnLevelDB.entries).Perm
        (entry :: table.shardedMemtable.flatMap MemTableOnLevelDB.entries) := by
  -- the shard written is the current one, or the first after the last
  have written : (if table.currentMemtable = table.shardedMemtable.length then 0
      else table.currentMemtable) < table.shardedMemtable.length := by
    split <;> omega
  refine ⟨List.length_modify _ _ _, written, ?_⟩
  exact flatMap_modify_perm (fun mem => mem.entries_add_perm entry) _ _ written

/-- Adding entries one by one to a sharded memtable puts each into exactly one shard. -/
theorem flatMap_foldl_add_perm :
    ∀ (entries : List IterEntry) (table : ShardedMemTable),
      0 < table.shardedMemtable.length →
      table.currentMemtable ≤ table.shardedMemtable.length →
      ((entries.foldl ShardedMemTable.add table).shardedMemtable.flatMap
          MemTableOnLevelDB.entries).Perm
        (entries.reverse ++ table.shardedMemtable.flatMap MemTableOnLevelDB.entries)
  | [], _, _, _ => by simp
  | entry :: rest, table, shards, current => by
    obtain ⟨length, current', added⟩ := table.add_shape entry shards current
    have restAdded := flatMap_foldl_add_perm rest (table.add entry) (length ▸ shards)
      (length ▸ current')
    rw [List.foldl_cons, List.reverse_cons, List.append_assoc, List.singleton_append]
    exact restAdded.trans (added.append_left rest.reverse)

/-- Adding entries one by one to one memtable keeps them all. -/
theorem entries_foldl_add_perm :
    ∀ (entries : List IterEntry) (mem : MemTableOnLevelDB),
      (entries.foldl MemTableOnLevelDB.add mem).entries.Perm (entries.reverse ++ mem.entries)
  | [], _ => by simp
  | entry :: rest, mem => by
    rw [List.foldl_cons, List.reverse_cons, List.append_assoc, List.singleton_append]
    exact (entries_foldl_add_perm rest (mem.add entry)).trans
      ((mem.entries_add_perm entry).append_left rest.reverse)

/-- Until a shard flushes, the sharded memtable's iterator yields the entries a single memtable
holds after the same writes, no entry lost or doubled. -/
theorem newIterator_perm_entries (shardNum : Nat) (positive : 0 < shardNum)
    (entries : List IterEntry) :
    (entries.foldl ShardedMemTable.add (ShardedMemTable.new shardNum)).newIterator.Perm
      (entries.foldl MemTableOnLevelDB.add {}).entries := by
  have sharded := flatMap_foldl_add_perm entries (ShardedMemTable.new shardNum)
    (by simpa [ShardedMemTable.new] using positive) (Nat.zero_le _)
  have single := entries_foldl_add_perm entries {}
  have emptyShards :
      (ShardedMemTable.new shardNum).shardedMemtable.flatMap MemTableOnLevelDB.entries = [] := by
    simp [ShardedMemTable.new]
  rw [emptyShards] at sharded
  exact (List.perm_insertionSort _ _).trans (sharded.trans single.symm)

/-! ## A counter split over two shards -/

/-- A table with one family `cf` of ten versions and no time to live. -/
def counterSchema : TableSchema := ⟨[⟨[99, 102], 10, 0⟩]⟩

/-- The entry of a cell of column `cf:q` in row `r`, with its sequence number and value. -/
def counterEntry (timestamp : Int) (type : TeraKeyType) (sequence value : Nat) : IterEntry :=
  ⟨(⟨[114], [99, 102], [113], timestamp, type⟩ : TeraKey).encode, sequence, encodeBigEndian 8 value⟩

/-- An add of 1 at timestamp 3, a put of 10 at timestamp 4 and an add of 100 at timestamp 5,
written in that order into two shards, so the adds share a shard; then that shard flushes. -/
def counterShards : ShardedMemTable :=
  ((((ShardedMemTable.new 2).add (counterEntry 3 .add 1 1)).add (counterEntry 4 .value 2 10)).add
    (counterEntry 5 .add 3 100)).flushShard counterSchema 0 3 0

/-- The same three entries in one memtable. -/
def counterMemTable : MemTableOnLevelDB :=
  (((({} : MemTableOnLevelDB).add (counterEntry 3 .add 1 1)).add (counterEntry 4 .value 2 10)).add
    (counterEntry 5 .add 3 100))

/-- A scan of row `r` for its newest version reads 110 from the one memtable: the add at 5 over the
put at 4. Over the two shards it reads 111: the flush of the shard with both adds merged the add
at 3 into the add at 5, though the put between them lies in the other shard. -/
theorem lowLevelScan_shardedMemTable_counter :
    lowLevelScan counterSchema 0 counterMemTable.entries
        (encodeTeraKey [114] [] [] kLatestTs TeraKeyType.value) [114, 0] { maxVersions := 1 } =
      [⟨[114], [99, 102], [113], 5, encodeBigEndian 8 110⟩] ∧
    lowLevelScan counterSchema 0 counterShards.newIterator
        (encodeTeraKey [114] [] [] kLatestTs TeraKeyType.value) [114, 0] { maxVersions := 1 } =
      [⟨[114], [99, 102], [113], 5, encodeBigEndian 8 111⟩] := by
  decide +kernel

/-- Before the flush, the two shards' iterator over the counter's three entries yields the one
memtable's entries. -/
theorem newIterator_perm_entries_counter :
    ([counterEntry 3 .add 1 1, counterEntry 4 .value 2 10, counterEntry 5 .add 3 100].foldl
        ShardedMemTable.add (ShardedMemTable.new 2)).newIterator.Perm counterMemTable.entries :=
  newIterator_perm_entries 2 (by decide) _

end Tera.LevelDB
