import Mathlib

/-! # The load balancer's cluster

`Cluster` is the load balancer's working copy of a table's placement: the node every tablet is on
(`tablet_index_to_node_index_`) and the node it started on, the list of every node's tablets
(`tablets_per_node_`) and six running sums over them (data size, flash data size, read, write and
scan load, lread), and the number of tablets off their initial node (`tablet_moved_num_`), which
the move-count cost reads. The search of `UnityBalancer::BalanceCluster` does a generated move with
`DoAction` and, unless the cost drops, undoes it with the move's `UndoAction`; `CreatePlans` turns
the tablets off their initial node into plans.

The abstract model is a placement, a function from tablets to nodes. `Consistent` says that the
lists, the sums and the count all describe the cluster's placement. Every generated move keeps it,
so it holds of every cluster the search reaches (`Searched.consistent`); an undone move restores
the cluster, up to the order of a node's list (`doAction_undoAction`); and the plans are the
tablets the placement moved, as many as the count says (`createPlans_length`).
-/

namespace Tera.LoadBalancer

/-- The six per-node sums of `Cluster`, each over one quantity of the node's tablets:
`size_per_node_` of `GetDataSize`, `flash_size_per_node_` of `GetDataSizeOnFlash`,
`read_load_per_node_`, `write_load_per_node_` and `scan_load_per_node_` of the read, write and
scan qps, `lread_per_node_` of `GetLRead`. -/
inductive Metric where
  | size
  | flashSize
  | readLoad
  | writeLoad
  | scanLoad
  | lread
deriving DecidableEq, Repr

/-- The actions the generators return: `EmptyAction` and `MoveAction`, without the generator's
name, which only the logs read. -/
inductive Action where
  | empty
  | move (tabletIndex sourceNodeIndex destNodeIndex : Nat)
deriving DecidableEq, Repr

namespace Action

/-- `UndoAction`: a move back from the destination to the source. -/
def undoAction : Action → Action
  | empty => empty
  | move tabletIndex sourceNodeIndex destNodeIndex => move tabletIndex destNodeIndex sourceNodeIndex

/-- `Cluster::ValidAction`. -/
def valid : Action → Bool
  | empty => false
  | move .. => true

end Action

/-- `CreatePlans`' `Plan`: a tablet, its initial node and its new node, by index. -/
structure Plan where
  tabletIndex : Nat
  sourceNodeIndex : Nat
  destNodeIndex : Nat
deriving DecidableEq, Repr

/-- `Cluster`, with the fields `DoAction`, `CreatePlans` and the generators read and write. A node
without an entry in `tablets_per_node_` is `none`; the sums and the index maps are read through
`operator[]`. -/
structure Cluster where
  tabletNodeNum : Nat
  tabletNum : Nat
  tabletMovedNum : UInt32
  /-- The quantities of `tablets_[i]->tablet_ptr`, cast to `uint64_t`. -/
  value : Nat → Metric → UInt64
  tabletsPerNode : Nat → Option (List Nat)
  load : Metric → Nat → UInt64
  tabletIndexToNodeIndex : Nat → Nat
  initialTabletIndexToNodeIndex : Nat → Nat

/-! ## Counting a predicate that changes at one element -/

section Counting

variable {α : Type} [DecidableEq α]

/-- Over a list without duplicates, changing a predicate at one element changes its count by that
element alone. -/
theorem countP_add_of_agree {l : List α} (nodup : l.Nodup) {x : α} (mem : x ∈ l) (p q : α → Bool)
    (agree : ∀ y ∈ l, y ≠ x → p y = q y) :
    l.countP q + (if p x then 1 else 0) = l.countP p + (if q x then 1 else 0) := by
  induction l with
  | nil => simp at mem
  | cons y rest ih =>
    obtain ⟨fresh, nodupRest⟩ := List.nodup_cons.mp nodup
    simp only [List.countP_cons]
    by_cases same : y = x
    · subst same
      -- the rest does not hold the changed element, so both predicates count it alike
      have unchanged : rest.countP p = rest.countP q :=
        List.countP_congr fun z member => by
          rw [agree z (List.mem_cons_of_mem y member) fun h => fresh (h ▸ member)]
      omega
    · have member : x ∈ rest := (List.mem_cons.mp mem).resolve_left (Ne.symm same)
      have head := agree y List.mem_cons_self same
      have counted := ih nodupRest member fun z zMem => agree z (List.mem_cons_of_mem y zMem)
      rw [head]
      omega

end Counting

namespace Cluster

/-- A node's tablets, as `tablets_per_node_[node_index]` reads them. -/
def tabletsOf (c : Cluster) (nodeIndex : Nat) : List Nat := (c.tabletsPerNode nodeIndex).getD []

/-- `Cluster::AddTablet`: the tablet is appended to the node's list and added to its sums. -/
def addTablet (c : Cluster) (tabletIndex toNodeIndex : Nat) : Cluster :=
  { c with
    tabletsPerNode :=
      Function.update c.tabletsPerNode toNodeIndex (some (c.tabletsOf toNodeIndex ++ [tabletIndex]))
    load := fun metric =>
      Function.update (c.load metric) toNodeIndex
        (c.load metric toNodeIndex + c.value tabletIndex metric) }

/-- `Cluster::RemoveTablet`: nothing for a node without an entry; otherwise the first occurrence of
the tablet leaves the node's list and the tablet is taken from its sums, wrapping as `uint64_t`. -/
def removeTablet (c : Cluster) (tabletIndex fromNodeIndex : Nat) : Cluster :=
  match c.tabletsPerNode fromNodeIndex with
  | none => c
  | some tablets =>
    { c with
      tabletsPerNode := Function.update c.tabletsPerNode fromNodeIndex (some (tablets.erase tabletIndex))
      load := fun metric =>
        Function.update (c.load metric) fromNodeIndex
          (c.load metric fromNodeIndex - c.value tabletIndex metric) }

/-- `Cluster::MoveTablet`: the tablet's node is the destination; the count of moved tablets grows
when it leaves its initial node and shrinks when it comes back, as a `uint32_t`. -/
def moveTablet (c : Cluster) (tabletIndex sourceNodeIndex destNodeIndex : Nat) : Cluster :=
  let c := { c with
    tabletIndexToNodeIndex := Function.update c.tabletIndexToNodeIndex tabletIndex destNodeIndex }
  if c.initialTabletIndexToNodeIndex tabletIndex = sourceNodeIndex then
    { c with tabletMovedNum := c.tabletMovedNum + 1 }
  else if c.initialTabletIndexToNodeIndex tabletIndex = destNodeIndex then
    { c with tabletMovedNum := c.tabletMovedNum - 1 }
  else c

/-- `Cluster::DoAction`; the source asserts that a move's nodes differ. -/
def doAction (c : Cluster) : Action → Cluster
  | .empty => c
  | .move tabletIndex sourceNodeIndex destNodeIndex =>
    ((c.removeTablet tabletIndex sourceNodeIndex).addTablet tabletIndex destNodeIndex).moveTablet
      tabletIndex sourceNodeIndex destNodeIndex

/-- `UnityBalancer::CreatePlans`: a plan for every tablet whose node is not its initial one. -/
def createPlans (c : Cluster) : List Plan :=
  (List.range c.tabletNum).filterMap fun i =>
    let initialNodeIndex := c.initialTabletIndexToNodeIndex i
    let newNodeIndex := c.tabletIndexToNodeIndex i
    if initialNodeIndex ≠ newNodeIndex then some ⟨i, initialNodeIndex, newNodeIndex⟩ else none

/-- What the generators can return for a cluster: `EmptyAction`, or a move of a tablet picked from
the source node's list (`PickRandomTabletFromSourceNode`) to another node (they return
`EmptyAction` when the destination is the source). -/
def Generated (c : Cluster) : Action → Prop
  | .empty => True
  | .move tabletIndex sourceNodeIndex destNodeIndex =>
    tabletIndex ∈ c.tabletsOf sourceNodeIndex ∧ destNodeIndex ≠ sourceNodeIndex

instance (c : Cluster) : DecidablePred c.Generated
  | .empty => isTrue trivial
  | .move tabletIndex sourceNodeIndex destNodeIndex =>
    inferInstanceAs (Decidable (tabletIndex ∈ c.tabletsOf sourceNodeIndex ∧ destNodeIndex ≠ sourceNodeIndex))

/-- The clusters the search of `UnityBalancer::BalanceCluster` reaches from `start` with at most
`accepted` kept moves, whatever the generators pick and the costs decide: each round does a
generated action and keeps it or does its undo. -/
inductive Searched (start : Cluster) : Nat → Cluster → Prop
  | start : Searched start 0 start
  | keep {accepted : Nat} {c : Cluster} {action : Action} :
      Searched start accepted c → Generated c action → Searched start (accepted + 1) (c.doAction action)
  | undo {accepted : Nat} {c : Cluster} {action : Action} :
      Searched start accepted c → Generated c action →
        Searched start accepted ((c.doAction action).doAction action.undoAction)

/-- The tablets off their initial node. -/
def moved (c : Cluster) : List Nat :=
  (List.range c.tabletNum).filter fun t => c.tabletIndexToNodeIndex t ≠ c.initialTabletIndexToNodeIndex t

theorem moved_length_le (c : Cluster) : c.moved.length ≤ c.tabletNum := by
  unfold moved
  exact (List.length_filter_le _ _).trans List.length_range.le

/-- The cluster's lists and sums describe its placement `tabletIndexToNodeIndex`: every tablet is
once in its node's list and in no other, the lists hold only tablets, and every sum is the pending
term `base` the constructor put in it plus the tablets of the node's list. -/
structure Described (c : Cluster) (base : Metric → Nat → UInt64) : Prop where
  placed : ∀ t < c.tabletNum, ∀ n, (c.tabletsOf n).count t = if c.tabletIndexToNodeIndex t = n then 1 else 0
  registered : ∀ n, ∀ t ∈ c.tabletsOf n, t < c.tabletNum
  sums : ∀ metric n, c.load metric n = base metric n + ((c.tabletsOf n).map fun t => c.value t metric).sum

/-- Besides, the count of moved tablets is the number of tablets off their initial node, and the
tablet indices fit the source's `uint32_t`. -/
structure Consistent (c : Cluster) (base : Metric → Nat → UInt64) : Prop extends Described c base where
  counted : c.tabletMovedNum.toNat = c.moved.length
  fits : c.tabletNum < 2 ^ 32

/-! ## What each operation changes -/

section Frames

variable (c : Cluster)

@[simp] theorem addTablet_tabletNodeNum (t toNode : Nat) :
    (c.addTablet t toNode).tabletNodeNum = c.tabletNodeNum := rfl

@[simp] theorem addTablet_tabletNum (t toNode : Nat) : (c.addTablet t toNode).tabletNum = c.tabletNum :=
  rfl

@[simp] theorem addTablet_value (t toNode : Nat) : (c.addTablet t toNode).value = c.value := rfl

@[simp] theorem addTablet_tabletIndexToNodeIndex (t toNode : Nat) :
    (c.addTablet t toNode).tabletIndexToNodeIndex = c.tabletIndexToNodeIndex := rfl

@[simp] theorem addTablet_initialTabletIndexToNodeIndex (t toNode : Nat) :
    (c.addTablet t toNode).initialTabletIndexToNodeIndex = c.initialTabletIndexToNodeIndex := rfl

@[simp] theorem addTablet_tabletMovedNum (t toNode : Nat) :
    (c.addTablet t toNode).tabletMovedNum = c.tabletMovedNum := rfl

theorem addTablet_tabletsOf (t toNode n : Nat) :
    (c.addTablet t toNode).tabletsOf n = if n = toNode then c.tabletsOf toNode ++ [t] else c.tabletsOf n := by
  by_cases same : n = toNode
  · subst same
    simp [addTablet, tabletsOf]
  · simp [addTablet, tabletsOf, same]

theorem addTablet_load (t toNode : Nat) (metric : Metric) (n : Nat) :
    (c.addTablet t toNode).load metric n =
      if n = toNode then c.load metric toNode + c.value t metric else c.load metric n := by
  simp only [addTablet, Function.update_apply]

@[simp] theorem removeTablet_tabletNodeNum (t n : Nat) :
    (c.removeTablet t n).tabletNodeNum = c.tabletNodeNum := by
  unfold removeTablet
  split <;> rfl

@[simp] theorem removeTablet_tabletNum (t n : Nat) : (c.removeTablet t n).tabletNum = c.tabletNum := by
  unfold removeTablet
  split <;> rfl

@[simp] theorem removeTablet_value (t n : Nat) : (c.removeTablet t n).value = c.value := by
  unfold removeTablet
  split <;> rfl

@[simp] theorem removeTablet_tabletIndexToNodeIndex (t n : Nat) :
    (c.removeTablet t n).tabletIndexToNodeIndex = c.tabletIndexToNodeIndex := by
  unfold removeTablet
  split <;> rfl

@[simp] theorem removeTablet_initialTabletIndexToNodeIndex (t n : Nat) :
    (c.removeTablet t n).initialTabletIndexToNodeIndex = c.initialTabletIndexToNodeIndex := by
  unfold removeTablet
  split <;> rfl

@[simp] theorem removeTablet_tabletMovedNum (t n : Nat) :
    (c.removeTablet t n).tabletMovedNum = c.tabletMovedNum := by
  unfold removeTablet
  split <;> rfl

theorem removeTablet_tabletsOf {t fromNode : Nat}
    (entry : c.tabletsPerNode fromNode = some (c.tabletsOf fromNode)) (n : Nat) :
    (c.removeTablet t fromNode).tabletsOf n =
      if n = fromNode then (c.tabletsOf fromNode).erase t else c.tabletsOf n := by
  unfold removeTablet
  rw [entry]
  by_cases same : n = fromNode
  · subst same
    simp [tabletsOf]
  · simp [tabletsOf, same]

theorem removeTablet_load {t fromNode : Nat}
    (entry : c.tabletsPerNode fromNode = some (c.tabletsOf fromNode)) (metric : Metric) (n : Nat) :
    (c.removeTablet t fromNode).load metric n =
      if n = fromNode then c.load metric fromNode - c.value t metric else c.load metric n := by
  unfold removeTablet
  rw [entry]
  simp only [Function.update_apply]

@[simp] theorem moveTablet_tabletsPerNode (t s d : Nat) :
    (c.moveTablet t s d).tabletsPerNode = c.tabletsPerNode := by
  unfold moveTablet
  dsimp only
  split_ifs <;> rfl

@[simp] theorem moveTablet_tabletsOf (t s d n : Nat) : (c.moveTablet t s d).tabletsOf n = c.tabletsOf n := by
  simp [tabletsOf]

@[simp] theorem moveTablet_load (t s d : Nat) : (c.moveTablet t s d).load = c.load := by
  unfold moveTablet
  dsimp only
  split_ifs <;> rfl

@[simp] theorem moveTablet_value (t s d : Nat) : (c.moveTablet t s d).value = c.value := by
  unfold moveTablet
  dsimp only
  split_ifs <;> rfl

@[simp] theorem moveTablet_tabletNodeNum (t s d : Nat) :
    (c.moveTablet t s d).tabletNodeNum = c.tabletNodeNum := by
  unfold moveTablet
  dsimp only
  split_ifs <;> rfl

@[simp] theorem moveTablet_tabletNum (t s d : Nat) : (c.moveTablet t s d).tabletNum = c.tabletNum := by
  unfold moveTablet
  dsimp only
  split_ifs <;> rfl

@[simp] theorem moveTablet_initialTabletIndexToNodeIndex (t s d : Nat) :
    (c.moveTablet t s d).initialTabletIndexToNodeIndex = c.initialTabletIndexToNodeIndex := by
  unfold moveTablet
  dsimp only
  split_ifs <;> rfl

@[simp] theorem moveTablet_tabletIndexToNodeIndex (t s d : Nat) :
    (c.moveTablet t s d).tabletIndexToNodeIndex = Function.update c.tabletIndexToNodeIndex t d := by
  unfold moveTablet
  dsimp only
  split_ifs <;> rfl

theorem moveTablet_tabletMovedNum (t s d : Nat) :
    (c.moveTablet t s d).tabletMovedNum =
      if c.initialTabletIndexToNodeIndex t = s then c.tabletMovedNum + 1
      else if c.initialTabletIndexToNodeIndex t = d then c.tabletMovedNum - 1
      else c.tabletMovedNum := by
  unfold moveTablet
  dsimp only
  split_ifs <;> rfl

end Frames

/-! ## A move -/

/-- A node whose list holds a tablet has an entry in `tablets_per_node_`. -/
theorem tabletsPerNode_of_mem {c : Cluster} {t n : Nat} (mem : t ∈ c.tabletsOf n) :
    c.tabletsPerNode n = some (c.tabletsOf n) := by
  unfold tabletsOf at mem ⊢
  cases entry : c.tabletsPerNode n with
  | none => rw [entry] at mem; simp at mem
  | some tablets => rfl

section Move

variable {c : Cluster} {t s d : Nat}

theorem doAction_move_tabletsOf (entry : c.tabletsPerNode s = some (c.tabletsOf s)) (apart : d ≠ s)
    (n : Nat) :
    (c.doAction (.move t s d)).tabletsOf n =
      if n = s then (c.tabletsOf s).erase t
      else if n = d then c.tabletsOf d ++ [t] else c.tabletsOf n := by
  simp only [doAction, moveTablet_tabletsOf, addTablet_tabletsOf, removeTablet_tabletsOf _ entry,
    if_neg apart]
  by_cases atSource : n = s
  · subst atSource
    simp [Ne.symm apart]
  · simp [atSource]

theorem doAction_move_load (entry : c.tabletsPerNode s = some (c.tabletsOf s)) (apart : d ≠ s)
    (metric : Metric) (n : Nat) :
    (c.doAction (.move t s d)).load metric n =
      if n = s then c.load metric s - c.value t metric
      else if n = d then c.load metric d + c.value t metric else c.load metric n := by
  simp only [doAction, moveTablet_load, addTablet_load, removeTablet_load _ entry, if_neg apart,
    removeTablet_value]
  by_cases atSource : n = s
  · subst atSource
    simp [Ne.symm apart]
  · simp [atSource]

@[simp] theorem doAction_move_tabletNodeNum :
    (c.doAction (.move t s d)).tabletNodeNum = c.tabletNodeNum := by
  simp [doAction]

@[simp] theorem doAction_move_tabletNum : (c.doAction (.move t s d)).tabletNum = c.tabletNum := by
  simp [doAction]

@[simp] theorem doAction_move_value : (c.doAction (.move t s d)).value = c.value := by
  simp [doAction]

@[simp] theorem doAction_move_initialTabletIndexToNodeIndex :
    (c.doAction (.move t s d)).initialTabletIndexToNodeIndex = c.initialTabletIndexToNodeIndex := by
  simp [doAction]

@[simp] theorem doAction_move_tabletIndexToNodeIndex :
    (c.doAction (.move t s d)).tabletIndexToNodeIndex =
      Function.update c.tabletIndexToNodeIndex t d := by
  simp [doAction]

theorem doAction_move_tabletMovedNum :
    (c.doAction (.move t s d)).tabletMovedNum =
      if c.initialTabletIndexToNodeIndex t = s then c.tabletMovedNum + 1
      else if c.initialTabletIndexToNodeIndex t = d then c.tabletMovedNum - 1
      else c.tabletMovedNum := by
  simp [doAction, moveTablet_tabletMovedNum]

/-- The moved tablets change at the moved tablet alone: it counts as moved after the move exactly
when the destination is not its initial node. -/
theorem moved_length_move (below : t < c.tabletNum) :
    (c.doAction (.move t s d)).moved.length +
        (if c.tabletIndexToNodeIndex t ≠ c.initialTabletIndexToNodeIndex t then 1 else 0) =
      c.moved.length + (if d ≠ c.initialTabletIndexToNodeIndex t then 1 else 0) := by
  have shift := countP_add_of_agree List.nodup_range (List.mem_range.mpr below)
    (fun t' => decide (c.tabletIndexToNodeIndex t' ≠ c.initialTabletIndexToNodeIndex t'))
    (fun t' => decide (Function.update c.tabletIndexToNodeIndex t d t' ≠ c.initialTabletIndexToNodeIndex t'))
    (fun t' _ other => by rw [Function.update_of_ne other])
  simp only [moved, ← List.countP_eq_length_filter, doAction_move_tabletNum,
    doAction_move_tabletIndexToNodeIndex, doAction_move_initialTabletIndexToNodeIndex]
  simpa using shift

end Move

/-! ## The invariant -/

namespace Consistent

variable {c : Cluster} {base : Metric → Nat → UInt64}

/-- A tablet in a node's list is on that node. -/
theorem node_of_mem (consistent : c.Consistent base) {t n : Nat} (mem : t ∈ c.tabletsOf n) :
    c.tabletIndexToNodeIndex t = n := by
  have counted := consistent.placed t (consistent.registered n t mem) n
  have present := List.count_pos_iff.mpr mem
  split_ifs at counted with same
  · exact same
  · omega

section Move

variable (consistent : c.Consistent base) {t s d : Nat} (mem : t ∈ c.tabletsOf s) (apart : d ≠ s)
include consistent mem apart

theorem placed_move :
    ∀ t' < (c.doAction (.move t s d)).tabletNum, ∀ n,
      ((c.doAction (.move t s d)).tabletsOf n).count t' =
        if (c.doAction (.move t s d)).tabletIndexToNodeIndex t' = n then 1 else 0 := by
  intro t' below n
  rw [doAction_move_tabletNum] at below
  have located := consistent.node_of_mem mem
  have old := consistent.placed t' below
  rw [doAction_move_tabletsOf (tabletsPerNode_of_mem mem) apart, doAction_move_tabletIndexToNodeIndex]
  by_cases moving : t' = t
  · -- the moved tablet leaves the source's list for the destination's
    subst moving
    have atSource := old s
    have atDest := old d
    have elsewhere := old n
    rw [located] at atSource atDest elsewhere
    by_cases toSource : n = s
    · subst toSource
      simp [List.count_erase_self, atSource, apart]
    · by_cases toDest : n = d
      · subst toDest
        simp [toSource, atDest, Ne.symm apart]
      · simp [toSource, toDest, elsewhere, Ne.symm toDest, Ne.symm toSource]
  · -- every other tablet keeps its count and its node
    have stays : Function.update c.tabletIndexToNodeIndex t d t' = c.tabletIndexToNodeIndex t' :=
      Function.update_of_ne moving _ _
    rw [stays]
    by_cases toSource : n = s
    · rw [if_pos toSource, toSource, List.count_erase_of_ne moving, old s]
    · rw [if_neg toSource]
      by_cases toDest : n = d
      · rw [if_pos toDest, toDest, List.count_append, List.count_singleton, old d]
        simp [Ne.symm moving]
      · rw [if_neg toDest]
        exact old n

theorem registered_move :
    ∀ n, ∀ t' ∈ (c.doAction (.move t s d)).tabletsOf n, t' < (c.doAction (.move t s d)).tabletNum := by
  intro n t' member
  rw [doAction_move_tabletsOf (tabletsPerNode_of_mem mem) apart] at member
  rw [doAction_move_tabletNum]
  split_ifs at member with toSource toDest
  · exact consistent.registered s t' (List.mem_of_mem_erase member)
  · rcases List.mem_append.mp member with old | moved
    · exact consistent.registered d t' old
    · rw [List.mem_singleton.mp moved]
      exact consistent.registered s t mem
  · exact consistent.registered n t' member

theorem sums_move :
    ∀ metric n, (c.doAction (.move t s d)).load metric n =
      base metric n + (((c.doAction (.move t s d)).tabletsOf n).map fun t' =>
        (c.doAction (.move t s d)).value t' metric).sum := by
  intro metric n
  rw [doAction_move_load (tabletsPerNode_of_mem mem) apart,
    doAction_move_tabletsOf (tabletsPerNode_of_mem mem) apart, doAction_move_value]
  split_ifs with toSource toDest
  · -- the source's sum loses the tablet's value
    subst toSource
    have split := ((List.perm_cons_erase mem).map fun t' => c.value t' metric).sum_eq
    rw [List.map_cons, List.sum_cons] at split
    rw [consistent.sums metric n, split]
    abel
  · subst toDest
    rw [consistent.sums metric n, List.map_append, List.sum_append]
    simp only [List.map_cons, List.map_nil, List.sum_cons, List.sum_nil, add_zero]
    abel
  · exact consistent.sums metric n

theorem counted_move :
    (c.doAction (.move t s d)).tabletMovedNum.toNat = (c.doAction (.move t s d)).moved.length := by
  have old := consistent.counted
  have fits := consistent.fits
  have shift := moved_length_move (s := s) (d := d) (consistent.registered s t mem)
  have bounded := moved_length_le (c.doAction (.move t s d))
  rw [doAction_move_tabletNum] at bounded
  rw [consistent.node_of_mem mem] at shift
  rw [doAction_move_tabletMovedNum]
  split_ifs with fromInitial toInitial
  · -- the tablet leaves its initial node: one more moved tablet
    simp only [fromInitial, ne_eq, not_true_eq_false, if_false, apart, not_false_eq_true, if_true]
      at shift
    rw [UInt32.toNat_add, UInt32.toNat_one, old]
    omega
  · -- the tablet comes back to its initial node: one fewer
    simp only [toInitial, ne_eq, not_true_eq_false, if_false, Ne.symm apart, not_false_eq_true,
      if_true] at shift
    have positive : 1 ≤ c.tabletMovedNum := by
      rw [UInt32.le_iff_toNat_le, UInt32.toNat_one, old]
      omega
    rw [UInt32.toNat_sub_of_le _ _ positive, UInt32.toNat_one, old]
    omega
  · -- the tablet was and stays off its initial node
    simp only [Ne.symm fromInitial, Ne.symm toInitial, ne_eq, not_false_eq_true, if_true] at shift
    omega

end Move

/-- Every generated action keeps the cluster consistent. -/
theorem doAction (consistent : c.Consistent base) {action : Action} (generated : c.Generated action) :
    (c.doAction action).Consistent base := by
  cases action with
  | empty => exact consistent
  | move t s d =>
    obtain ⟨mem, apart⟩ := generated
    exact ⟨⟨placed_move consistent mem apart, registered_move consistent mem apart,
      sums_move consistent mem apart⟩, counted_move consistent mem apart,
      by rw [doAction_move_tabletNum]; exact consistent.fits⟩

end Consistent

/-! ## Undoing a move -/

/-- Two clusters alike but for the order of the nodes' lists. -/
structure Reordered (c c' : Cluster) : Prop where
  tabletNodeNum : c'.tabletNodeNum = c.tabletNodeNum
  tabletNum : c'.tabletNum = c.tabletNum
  tabletMovedNum : c'.tabletMovedNum = c.tabletMovedNum
  value : c'.value = c.value
  load : c'.load = c.load
  tabletIndexToNodeIndex : c'.tabletIndexToNodeIndex = c.tabletIndexToNodeIndex
  initialTabletIndexToNodeIndex : c'.initialTabletIndexToNodeIndex = c.initialTabletIndexToNodeIndex
  tabletsOf : ∀ n, (c'.tabletsOf n).Perm (c.tabletsOf n)

theorem Reordered.moved {c c' : Cluster} (reordered : Reordered c c') : c'.moved = c.moved := by
  unfold Cluster.moved
  rw [reordered.tabletNum, reordered.tabletIndexToNodeIndex, reordered.initialTabletIndexToNodeIndex]

/-- The invariant reads the lists only through counts, members and sums, which a reordering keeps. -/
theorem Consistent.reordered {c c' : Cluster} {base : Metric → Nat → UInt64}
    (consistent : c.Consistent base) (reordered : Reordered c c') : c'.Consistent base where
  placed t below n := by
    rw [(reordered.tabletsOf n).count_eq, reordered.tabletIndexToNodeIndex]
    exact consistent.placed t (reordered.tabletNum ▸ below) n
  registered n t mem :=
    reordered.tabletNum ▸ consistent.registered n t ((reordered.tabletsOf n).mem_iff.mp mem)
  sums metric n := by
    rw [reordered.load, reordered.value, ((reordered.tabletsOf n).map _).sum_eq]
    exact consistent.sums metric n
  counted := by
    rw [reordered.tabletMovedNum, reordered.moved]
    exact consistent.counted
  fits := reordered.tabletNum ▸ consistent.fits

/-- After a generated action, its undo is a generated action too: the moved tablet is in the
destination's list, and the nodes still differ. -/
theorem Generated.undoAction {c : Cluster} {action : Action} (generated : c.Generated action) :
    (c.doAction action).Generated action.undoAction := by
  cases action with
  | empty => trivial
  | move t s d =>
    obtain ⟨mem, apart⟩ := generated
    refine ⟨?_, Ne.symm apart⟩
    rw [doAction_move_tabletsOf (tabletsPerNode_of_mem mem) apart, if_neg apart, if_pos rfl]
    exact List.mem_append_right _ (List.mem_singleton_self t)

section Undo

variable {c : Cluster} {base : Metric → Nat → UInt64} (consistent : c.Consistent base) {t s d : Nat}
  (mem : t ∈ c.tabletsOf s) (apart : d ≠ s)
include mem apart

include consistent in
/-- The tablet comes back to the end of the source's list and leaves the destination's. -/
theorem undo_tabletsOf (n : Nat) :
    (((c.doAction (.move t s d)).doAction (.move t d s)).tabletsOf n).Perm (c.tabletsOf n) := by
  have back : (c.doAction (.move t s d)).Generated (.move t d s) := Generated.undoAction ⟨mem, apart⟩
  rw [doAction_move_tabletsOf (tabletsPerNode_of_mem back.1) back.2]
  simp only [doAction_move_tabletsOf (tabletsPerNode_of_mem mem) apart]
  by_cases atDest : n = d
  · -- the destination's list held no copy of the tablet, so the erase takes the appended one
    subst atDest
    have fresh : t ∉ c.tabletsOf n := by
      rw [← List.count_eq_zero, consistent.placed t (consistent.registered s t mem) n,
        consistent.node_of_mem mem, if_neg (Ne.symm apart)]
    simp only [apart, ↓reduceIte, List.erase_append_right _ fresh, List.erase_cons_head,
      List.append_nil]
    exact List.Perm.refl _
  · by_cases atSource : n = s
    · subst atSource
      simp only [atDest, ↓reduceIte]
      exact (List.perm_append_singleton t _).trans (List.perm_cons_erase mem).symm
    · simp only [atDest, atSource, ↓reduceIte]
      exact List.Perm.refl _

theorem undo_load :
    ((c.doAction (.move t s d)).doAction (.move t d s)).load = c.load := by
  have back : (c.doAction (.move t s d)).Generated (.move t d s) := Generated.undoAction ⟨mem, apart⟩
  funext metric n
  rw [doAction_move_load (tabletsPerNode_of_mem back.1) back.2]
  simp only [doAction_move_load (tabletsPerNode_of_mem mem) apart, if_neg apart,
    if_neg (Ne.symm apart), doAction_move_value]
  by_cases atDest : n = d
  · subst atDest
    simp
  · by_cases atSource : n = s
    · subst atSource
      simp [atDest]
    · simp [atDest, atSource]

omit mem in
theorem undo_tabletMovedNum :
    ((c.doAction (.move t s d)).doAction (.move t d s)).tabletMovedNum = c.tabletMovedNum := by
  rw [doAction_move_tabletMovedNum, doAction_move_tabletMovedNum, doAction_move_initialTabletIndexToNodeIndex]
  by_cases fromInitial : c.initialTabletIndexToNodeIndex t = s
  · simp [fromInitial, Ne.symm apart]
  · by_cases toInitial : c.initialTabletIndexToNodeIndex t = d
    · simp [toInitial, apart]
    · simp [fromInitial, toInitial]

omit apart in
include consistent in
theorem undo_tabletIndexToNodeIndex :
    ((c.doAction (.move t s d)).doAction (.move t d s)).tabletIndexToNodeIndex = c.tabletIndexToNodeIndex := by
  rw [doAction_move_tabletIndexToNodeIndex, doAction_move_tabletIndexToNodeIndex, Function.update_idem,
    ← consistent.node_of_mem mem, Function.update_eq_self]

end Undo

/-- Undoing a generated action gives the cluster back, but for the order of the source's list: the
tablet comes back at the end of it. -/
theorem doAction_undoAction {c : Cluster} {base : Metric → Nat → UInt64} (consistent : c.Consistent base)
    {action : Action} (generated : c.Generated action) :
    Reordered c ((c.doAction action).doAction action.undoAction) := by
  cases action with
  | empty => exact ⟨rfl, rfl, rfl, rfl, rfl, rfl, rfl, fun _ => List.Perm.refl _⟩
  | move t s d =>
    obtain ⟨mem, apart⟩ := generated
    exact ⟨by simp [Action.undoAction], by simp [Action.undoAction], undo_tabletMovedNum apart, by simp [Action.undoAction],
      undo_load mem apart, undo_tabletIndexToNodeIndex consistent mem,
      by simp [Action.undoAction], undo_tabletsOf consistent mem apart⟩

/-! ## Whole searches -/

section Search

variable {start : Cluster} {base : Metric → Nat → UInt64}

/-- Every cluster the search reaches from a consistent one is consistent. -/
theorem Searched.consistent (consistent : start.Consistent base) {accepted : Nat} {c : Cluster}
    (searched : Searched start accepted c) : c.Consistent base := by
  induction searched with
  | start => exact consistent
  | keep _ generated ih => exact ih.doAction generated
  | undo _ generated ih => exact ih.reordered (doAction_undoAction ih generated)

/-- A generated action adds at most one moved tablet. -/
theorem moved_length_doAction_le {c : Cluster} (consistent : c.Consistent base) {action : Action}
    (generated : c.Generated action) : (c.doAction action).moved.length ≤ c.moved.length + 1 := by
  cases action with
  | empty => exact Nat.le_succ _
  | move t s d =>
    have shift := moved_length_move (s := s) (d := d) (consistent.registered s t generated.1)
    split_ifs at shift <;> omega

/-- The search adds at most one moved tablet for each kept move: an undone one restores them. -/
theorem Searched.moved_length_le (consistent : start.Consistent base) {accepted : Nat} {c : Cluster}
    (searched : Searched start accepted c) : c.moved.length ≤ start.moved.length + accepted := by
  induction searched with
  | start => exact Nat.le_add_right _ _
  | keep searched generated ih =>
    have added := moved_length_doAction_le (searched.consistent consistent) generated
    omega
  | undo searched generated ih =>
    rw [(doAction_undoAction (searched.consistent consistent) generated).moved]
    exact ih

end Search

/-! ## Plans -/

/-- `CreatePlans` lists the moved tablets in order, each from its initial node to its node. -/
theorem createPlans_eq (c : Cluster) :
    c.createPlans =
      c.moved.map fun t => ⟨t, c.initialTabletIndexToNodeIndex t, c.tabletIndexToNodeIndex t⟩ := by
  unfold createPlans moved
  rw [← List.filterMap_eq_map, List.filterMap_filter]
  refine List.filterMap_congr fun t _ => ?_
  by_cases stays : c.tabletIndexToNodeIndex t = c.initialTabletIndexToNodeIndex t
  · simp [stays]
  · simp [stays, Ne.symm stays]

/-- The plans are of distinct tablets. -/
theorem createPlans_nodup (c : Cluster) : (c.createPlans.map Plan.tabletIndex).Nodup := by
  rw [createPlans_eq, List.map_map]
  exact (List.nodup_range.filter _).map_on fun _ _ _ _ same => same

/-- Every plan moves its tablet to another node. -/
theorem createPlans_apart (c : Cluster) :
    ∀ plan ∈ c.createPlans, plan.sourceNodeIndex ≠ plan.destNodeIndex := by
  intro plan member
  rw [createPlans_eq, List.mem_map] at member
  obtain ⟨t, off, rfl⟩ := member
  rw [moved, List.mem_filter, decide_eq_true_iff] at off
  exact Ne.symm off.2

/-- A consistent cluster makes as many plans as `tablet_moved_num_` counts. -/
theorem createPlans_length {c : Cluster} {base : Metric → Nat → UInt64} (consistent : c.Consistent base) :
    c.createPlans.length = c.tabletMovedNum.toNat := by
  rw [createPlans_eq, List.length_map, consistent.counted]

end Cluster

end Tera.LoadBalancer
