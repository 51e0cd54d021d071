import Tera.LoadBalancer.Cluster

/-! # Building the cluster and searching it

`Cluster::Cluster` builds the load balancer's cluster from the nodes of `lb_nodes_`: each node gets
the next node index, an empty list and its pending loads, and each of its tablets the next tablet
index, on that node. `UnityBalancer::BalanceCluster` then runs at most `max_steps` rounds of
`NextAction`, `DoAction` and, unless the cost dropped, the undo, stops once `tablet_max_move_num`
moves were kept or the time is up, and makes plans of the tablets it moved.

The floating-point costs, `NeedBalance` and the clock are left open: the loop takes, for every
round, whether the new cost was lower and whether the time was up, and the results hold whatever
they are. The actions come from a function with a state of its own (the random generator's word),
of which only the contract `Cluster.Generated` is assumed.

The constructed cluster is consistent with no moved tablet (`new_consistent`); the loop stays in
`Searched` (`balanceLoop_searched`) and keeps at most `tablet_max_move_num` moves, or one when that
is zero (`balanceLoop_successStep_le`); so `BalanceCluster` plans at most that many moves, of
distinct tablets, each to another node (`balanceCluster_plans`).
-/

namespace Tera.LoadBalancer

/-- An `LBTabletNode` as the constructor reads it: whether it is the meta table's node, the
pending loads `read_pending_factor * GetReadPending()` and its write and scan counterparts as
`uint64_t`, and the quantities of its tablets in order, each cast to `uint64_t`. -/
structure LBNode where
  metaNode : Bool
  readPending : UInt64
  writePending : UInt64
  scanPending : UInt64
  tablets : List (Metric → UInt64)

namespace LBNode

/-- The sum a node starts from before its tablets: zero but for the three loads. -/
def pending (node : LBNode) : Metric → UInt64
  | .readLoad => node.readPending
  | .writeLoad => node.writePending
  | .scanLoad => node.scanPending
  | _ => 0

/-- `lb_nodes_`: the nodes given, without the meta table's node when `skip_meta_node`. -/
def lbNodes (nodes : List LBNode) (skipMetaNode : Bool) : List LBNode :=
  nodes.filter fun node => !(skipMetaNode && node.metaNode)

/-- The pending term of the node with index `n`, zero past the last node. -/
def pendingOf (nodes : List LBNode) (metric : Metric) (n : Nat) : UInt64 :=
  (nodes[n]?.map fun node => node.pending metric).getD 0

/-- The number of tablets on the nodes. -/
def tabletCount (nodes : List LBNode) : Nat := (nodes.map fun node => node.tablets.length).sum

theorem tabletCount_cons (node : LBNode) (nodes : List LBNode) :
    tabletCount (node :: nodes) = node.tablets.length + tabletCount nodes := by
  simp [tabletCount]

end LBNode

namespace Cluster

/-- The cluster before the constructor's loop: every map empty, and read as zero. -/
def empty : Cluster where
  tabletNodeNum := 0
  tabletNum := 0
  tabletMovedNum := 0
  value := fun _ _ => 0
  tabletsPerNode := fun _ => none
  load := fun _ _ => 0
  tabletIndexToNodeIndex := fun _ => 0
  initialTabletIndexToNodeIndex := fun _ => 0

/-- `RegisterTablet` and the lines after it in the constructor's inner loop: the tablet takes the
next index, starts on the node, and is appended to the node's list and added to its sums. -/
def registerTablet (c : Cluster) (nodeIndex : Nat) (tablet : Metric → UInt64) : Cluster :=
  let tabletIndex := c.tabletNum
  { c with
    tabletNum := c.tabletNum + 1
    value := Function.update c.value tabletIndex tablet
    tabletIndexToNodeIndex := Function.update c.tabletIndexToNodeIndex tabletIndex nodeIndex
    initialTabletIndexToNodeIndex :=
      Function.update c.initialTabletIndexToNodeIndex tabletIndex nodeIndex
    tabletsPerNode :=
      Function.update c.tabletsPerNode nodeIndex (some (c.tabletsOf nodeIndex ++ [tabletIndex]))
    load := fun metric =>
      Function.update (c.load metric) nodeIndex (c.load metric nodeIndex + tablet metric) }

/-- The start of the constructor's outer loop for one node: its list is cleared and its sums
start at its pending loads. -/
def resetNode (c : Cluster) (nodeIndex : Nat) (node : LBNode) : Cluster :=
  { c with
    tabletsPerNode := Function.update c.tabletsPerNode nodeIndex (some [])
    load := fun metric => Function.update (c.load metric) nodeIndex (node.pending metric) }

/-- One pass of the constructor's outer loop: the node is reset, its tablets are registered in
order, and the node is counted. -/
def addNode (c : Cluster) (nodeIndex : Nat) (node : LBNode) : Cluster :=
  let c := node.tablets.foldl (fun c tablet => c.registerTablet nodeIndex tablet) (c.resetNode nodeIndex node)
  { c with tabletNodeNum := c.tabletNodeNum + 1 }

/-- The constructor's outer loop from the node index `nodeIndex` on (`nodes_.size()`). -/
def addNodes (c : Cluster) (nodeIndex : Nat) : List LBNode → Cluster
  | [] => c
  | node :: nodes => (c.addNode nodeIndex node).addNodes (nodeIndex + 1) nodes

/-- `Cluster::Cluster`: the nodes of `lb_nodes_` get the indices 0, 1, … in order. -/
def new (nodes : List LBNode) (skipMetaNode : Bool) : Cluster :=
  empty.addNodes 0 (LBNode.lbNodes nodes skipMetaNode)

/-! ## What the constructor keeps -/

/-- What the constructor keeps: the lists and sums describe the placement, every tablet is on its
initial node, and no move is counted. -/
structure Built (c : Cluster) (base : Metric → Nat → UInt64) : Prop extends Described c base where
  home : c.tabletIndexToNodeIndex = c.initialTabletIndexToNodeIndex
  unmoved : c.tabletMovedNum = 0

/-- No node from `nodeIndex` on has a tablet yet. -/
def Fresh (c : Cluster) (nodeIndex : Nat) : Prop := ∀ n ≥ nodeIndex, c.tabletsOf n = []

section Register

variable (c : Cluster) (k : Nat) (tablet : Metric → UInt64)

@[simp] theorem registerTablet_tabletNum : (c.registerTablet k tablet).tabletNum = c.tabletNum + 1 :=
  rfl

@[simp] theorem registerTablet_value :
    (c.registerTablet k tablet).value = Function.update c.value c.tabletNum tablet := rfl

@[simp] theorem registerTablet_tabletIndexToNodeIndex :
    (c.registerTablet k tablet).tabletIndexToNodeIndex =
      Function.update c.tabletIndexToNodeIndex c.tabletNum k := rfl

@[simp] theorem registerTablet_initialTabletIndexToNodeIndex :
    (c.registerTablet k tablet).initialTabletIndexToNodeIndex =
      Function.update c.initialTabletIndexToNodeIndex c.tabletNum k := rfl

theorem registerTablet_tabletsOf (n : Nat) :
    (c.registerTablet k tablet).tabletsOf n =
      if n = k then c.tabletsOf k ++ [c.tabletNum] else c.tabletsOf n := by
  by_cases same : n = k
  · subst same
    simp [registerTablet, tabletsOf]
  · simp [registerTablet, tabletsOf, same]

theorem registerTablet_load (metric : Metric) (n : Nat) :
    (c.registerTablet k tablet).load metric n =
      if n = k then c.load metric k + tablet metric else c.load metric n := by
  simp only [registerTablet, Function.update_apply]

end Register

section Reset

variable (c : Cluster) (k : Nat) (node : LBNode)

@[simp] theorem resetNode_value : (c.resetNode k node).value = c.value := rfl

@[simp] theorem resetNode_tabletIndexToNodeIndex :
    (c.resetNode k node).tabletIndexToNodeIndex = c.tabletIndexToNodeIndex := rfl

theorem resetNode_tabletsOf (n : Nat) :
    (c.resetNode k node).tabletsOf n = if n = k then [] else c.tabletsOf n := by
  by_cases same : n = k
  · subst same
    simp [resetNode, tabletsOf]
  · simp [resetNode, tabletsOf, same]

theorem resetNode_load (metric : Metric) (n : Nat) :
    (c.resetNode k node).load metric n = if n = k then node.pending metric else c.load metric n := by
  simp only [resetNode, Function.update_apply]

end Reset

namespace Built

variable {c : Cluster} {base : Metric → Nat → UInt64} {k : Nat}

/-- Registering a tablet keeps the description: the new index is in no list yet, and every older
tablet keeps its count, node and quantities. -/
theorem registerTablet (built : c.Built base) (tablet : Metric → UInt64) :
    (c.registerTablet k tablet).Built base where
  placed t below n := by
    rw [registerTablet_tabletNum] at below
    rw [registerTablet_tabletsOf, registerTablet_tabletIndexToNodeIndex]
    by_cases newest : t = c.tabletNum
    · -- the new tablet: appended to the node's list and nowhere before
      subst newest
      have absent : ∀ n, c.tabletNum ∉ c.tabletsOf n := fun n mem =>
        Nat.lt_irrefl _ (built.registered n _ mem)
      by_cases atNode : n = k
      · simp [atNode, List.count_eq_zero.mpr (absent k)]
      · simp [atNode, Ne.symm atNode, List.count_eq_zero.mpr (absent n)]
    · have older : t < c.tabletNum := by omega
      rw [Function.update_of_ne newest]
      by_cases atNode : n = k
      · subst atNode
        rw [if_pos rfl, List.count_append, List.count_singleton, built.placed t older n]
        simp [Ne.symm newest]
      · rw [if_neg atNode]
        exact built.placed t older n
  registered n t mem := by
    rw [registerTablet_tabletsOf] at mem
    rw [registerTablet_tabletNum]
    split_ifs at mem
    · rcases List.mem_append.mp mem with old | newest
      · exact Nat.lt_succ_of_lt (built.registered k t old)
      · rw [List.mem_singleton.mp newest]
        exact Nat.lt_succ_self _
    · exact Nat.lt_succ_of_lt (built.registered n t mem)
  sums metric n := by
    -- the older tablets keep their quantities under the updated `value`
    have keeps : ∀ n, ((c.tabletsOf n).map fun t => Function.update c.value c.tabletNum tablet t metric) =
        (c.tabletsOf n).map fun t => c.value t metric := fun n =>
      List.map_congr_left fun t mem => by
        rw [Function.update_of_ne (Nat.ne_of_lt (built.registered n t mem))]
    rw [registerTablet_load, registerTablet_tabletsOf, registerTablet_value]
    split_ifs with atNode
    · subst atNode
      rw [List.map_append, List.sum_append, keeps, built.sums metric n]
      simp only [List.map_cons, List.map_nil, List.sum_cons, List.sum_nil, Function.update_self,
        add_zero, add_assoc]
    · rw [keeps, built.sums metric n]
  home := by
    rw [registerTablet_tabletIndexToNodeIndex, registerTablet_initialTabletIndexToNodeIndex, built.home]
  unmoved := built.unmoved

/-- Resetting a node without tablets keeps the description, with the node's pending loads as its
base. -/
theorem resetNode (built : c.Built base) (fresh : c.tabletsOf k = []) (node : LBNode) :
    (c.resetNode k node).Built fun metric => Function.update (base metric) k (node.pending metric) where
  placed t below n := by
    rw [resetNode_tabletsOf, resetNode_tabletIndexToNodeIndex]
    have old := built.placed t below n
    split_ifs at old ⊢ with atNode located
    · -- no tablet is on a node whose list is empty
      have none := built.placed t below k
      rw [fresh, ← atNode, if_pos located] at none
      simp at none
    · rfl
    · exact old
    · exact old
  registered n t mem := by
    rw [resetNode_tabletsOf] at mem
    split_ifs at mem
    · simp at mem
    · exact built.registered n t mem
  sums metric n := by
    rw [resetNode_load, resetNode_tabletsOf, resetNode_value, Function.update_apply]
    split_ifs
    · simp
    · exact built.sums metric n
  home := built.home
  unmoved := built.unmoved

end Built

theorem Fresh.registerTablet {c : Cluster} {k : Nat} (fresh : c.Fresh (k + 1)) (tablet : Metric → UInt64) :
    (c.registerTablet k tablet).Fresh (k + 1) := fun n above => by
  rw [registerTablet_tabletsOf, if_neg (by omega)]
  exact fresh n above

theorem Fresh.resetNode {c : Cluster} {k : Nat} (fresh : c.Fresh k) (node : LBNode) :
    (c.resetNode k node).Fresh (k + 1) := fun n above => by
  rw [resetNode_tabletsOf, if_neg (by omega)]
  exact fresh n (by omega)

/-- Registering a node's tablets keeps the description and the fresh nodes after it, and adds the
tablets to the count. -/
theorem Built.registerTablets {k : Nat} {base : Metric → Nat → UInt64} (tablets : List (Metric → UInt64)) :
    ∀ {c : Cluster}, c.Built base → c.Fresh (k + 1) →
      let registered := tablets.foldl (fun c tablet => c.registerTablet k tablet) c
      registered.Built base ∧ registered.Fresh (k + 1) ∧
        registered.tabletNum = c.tabletNum + tablets.length := by
  induction tablets with
  | nil => exact fun built fresh => ⟨built, fresh, rfl⟩
  | cons tablet tablets ih =>
    intro c built fresh
    obtain ⟨built', fresh', count⟩ := ih (built.registerTablet tablet) (fresh.registerTablet tablet)
    refine ⟨built', fresh', ?_⟩
    rw [List.foldl_cons, count, registerTablet_tabletNum, List.length_cons]
    omega

/-- A node's pass keeps the description and the fresh nodes after it, puts the node's pending
loads in the base and adds its tablets to the count. -/
theorem Built.addNode {c : Cluster} {base : Metric → Nat → UInt64} {k : Nat} (built : c.Built base)
    (fresh : c.Fresh k) (node : LBNode) :
    (c.addNode k node).Built (fun metric => Function.update (base metric) k (node.pending metric)) ∧
      (c.addNode k node).Fresh (k + 1) ∧
      (c.addNode k node).tabletNum = c.tabletNum + node.tablets.length :=
  -- counting the node changes none of the three facts
  have ⟨built', fresh', count⟩ :=
    Built.registerTablets node.tablets (built.resetNode (fresh k (Nat.le_refl k)) node) (fresh.resetNode node)
  ⟨⟨⟨built'.placed, built'.registered, built'.sums⟩, built'.home, built'.unmoved⟩, fresh', count⟩

/-- The pending term of a node past the first is the rest's. -/
theorem LBNode.pendingOf_cons_succ (node : LBNode) (nodes : List LBNode) (metric : Metric) (n : Nat) :
    LBNode.pendingOf (node :: nodes) metric (n + 1) = LBNode.pendingOf nodes metric n := by
  simp [LBNode.pendingOf]

/-- The outer loop from node `k` on: the nodes' pending loads make the base from `k` on, and their
tablets are all counted. -/
theorem Built.addNodes (nodes : List LBNode) :
    ∀ {c : Cluster} {base : Metric → Nat → UInt64} {k : Nat}, c.Built base → c.Fresh k →
      (∀ metric n, k ≤ n → base metric n = 0) →
      (c.addNodes k nodes).Built
          (fun metric n => if k ≤ n then LBNode.pendingOf nodes metric (n - k) else base metric n) ∧
        (c.addNodes k nodes).tabletNum = c.tabletNum + LBNode.tabletCount nodes := by
  induction nodes with
  | nil =>
    intro c base k built _ zero
    -- past the last node the base is the zero it was
    have same : (fun metric n => if k ≤ n then LBNode.pendingOf [] metric (n - k) else base metric n) = base := by
      funext metric n
      split_ifs with above
      · simp [LBNode.pendingOf, zero metric n above]
      · rfl
    rw [same]
    exact ⟨built, rfl⟩
  | cons node nodes ih =>
    intro c base k built fresh zero
    obtain ⟨built', fresh', count⟩ := built.addNode fresh node
    have zero' : ∀ metric n, k + 1 ≤ n →
        Function.update (base metric) k (node.pending metric) n = 0 := fun metric n above => by
      rw [Function.update_of_ne (by omega)]
      exact zero metric n (by omega)
    obtain ⟨built'', count'⟩ := ih built' fresh' zero'
    -- the base after the rest is the one of the whole list: node `k` is the head
    have same : (fun metric n => if k + 1 ≤ n then LBNode.pendingOf nodes metric (n - (k + 1))
        else Function.update (base metric) k (node.pending metric) n) =
        fun metric n => if k ≤ n then LBNode.pendingOf (node :: nodes) metric (n - k) else base metric n := by
      funext metric n
      by_cases below : n < k
      · rw [if_neg (by omega), if_neg (by omega), Function.update_of_ne (by omega)]
      · by_cases atNode : n = k
        · subst atNode
          simp [LBNode.pendingOf]
        · have shifted : n - k = n - (k + 1) + 1 := by omega
          rw [if_pos (by omega), if_pos (by omega), shifted, LBNode.pendingOf_cons_succ]
    rw [same] at built''
    refine ⟨built'', ?_⟩
    rw [Cluster.addNodes, count', count, LBNode.tabletCount_cons]
    omega

theorem empty_built : empty.Built fun _ _ => 0 where
  placed t below := absurd below (Nat.not_lt_zero t)
  registered _ _ mem := by simp [empty, tabletsOf] at mem
  sums _ _ := by simp [empty, tabletsOf]
  home := rfl
  unmoved := rfl

theorem empty_fresh : empty.Fresh 0 := fun _ _ => rfl

/-- With every tablet on its initial node, none is moved. -/
theorem moved_eq_nil {c : Cluster} (home : c.tabletIndexToNodeIndex = c.initialTabletIndexToNodeIndex) :
    c.moved = [] := by
  simp [moved, home]

/-- The constructed cluster is consistent, each node's sums starting at its pending loads, and no
tablet is moved. -/
theorem new_consistent (nodes : List LBNode) (skipMetaNode : Bool)
    (fits : LBNode.tabletCount (LBNode.lbNodes nodes skipMetaNode) < 2 ^ 32) :
    (new nodes skipMetaNode).Consistent (LBNode.pendingOf (LBNode.lbNodes nodes skipMetaNode)) ∧
      (new nodes skipMetaNode).moved = [] := by
  obtain ⟨built, count⟩ := Built.addNodes (LBNode.lbNodes nodes skipMetaNode) empty_built empty_fresh
    fun _ _ _ => rfl
  simp only [Nat.zero_le, if_true, Nat.sub_zero] at built
  have none := moved_eq_nil built.home
  refine ⟨⟨built.toDescribed, ?_, ?_⟩, none⟩
  · rw [new, none, built.unmoved]
    rfl
  · rw [new, count]
    simpa [empty] using fits

/-! ## Clusters the search reaches -/

section Reached

variable {nodes : List LBNode} {skipMetaNode : Bool}
  (fits : LBNode.tabletCount (LBNode.lbNodes nodes skipMetaNode) < 2 ^ 32) {accepted : Nat} {c : Cluster}
  (searched : Searched (new nodes skipMetaNode) accepted c)
include fits searched

/-- Every cluster the search reaches from the constructed one is consistent, each node's sums
starting at its pending loads. -/
theorem searched_consistent : c.Consistent (LBNode.pendingOf (LBNode.lbNodes nodes skipMetaNode)) :=
  searched.consistent (new_consistent nodes skipMetaNode fits).1

/-- Three nodes, the first with two tablets and the last with one. -/
def sampleNodes : List LBNode :=
  [⟨false, 0, 0, 0, [fun _ => 1, fun _ => 2]⟩, ⟨false, 0, 0, 0, []⟩, ⟨false, 0, 0, 0, [fun _ => 3]⟩]

omit fits searched in
theorem searched_consistent_sampleNodes :
    LBNode.tabletCount (LBNode.lbNodes sampleNodes false) < 2 ^ 32 ∧
      Searched (new sampleNodes false) 1 ((new sampleNodes false).doAction (.move 0 0 1)) ∧
      ((new sampleNodes false).doAction (.move 0 0 1)).Consistent
        (LBNode.pendingOf (LBNode.lbNodes sampleNodes false)) :=
  have searched : Searched (new sampleNodes false) 1 ((new sampleNodes false).doAction (.move 0 0 1)) :=
    .keep .start (by decide)
  ⟨by decide, searched, searched_consistent (by decide) searched⟩

/-- In every cluster the search reaches from the constructed one, undoing a generated action gives
the cluster back but for the order of the source's list. -/
theorem searched_undo {action : Action} (generated : c.Generated action) :
    Reordered c ((c.doAction action).doAction action.undoAction) :=
  doAction_undoAction (searched.consistent (new_consistent nodes skipMetaNode fits).1) generated

omit fits searched in
theorem searched_undo_sampleNodes :
    LBNode.tabletCount (LBNode.lbNodes sampleNodes false) < 2 ^ 32 ∧
      Searched (new sampleNodes false) 0 (new sampleNodes false) ∧
      (new sampleNodes false).Generated (.move 2 2 0) ∧
      Reordered (new sampleNodes false)
        (((new sampleNodes false).doAction (.move 2 2 0)).doAction (Action.move 2 2 0).undoAction) :=
  ⟨by decide, .start, by decide, searched_undo (by decide) .start (by decide)⟩

/-- The search keeps the cluster model consistent, and in every cluster it reaches a generated
action followed by its undo gives the cluster back, each node's list up to its order. -/
theorem searched_consistent_and_undo :
    c.Consistent (LBNode.pendingOf (LBNode.lbNodes nodes skipMetaNode)) ∧
      ∀ action, c.Generated action → Reordered c ((c.doAction action).doAction action.undoAction) := by
  have consistent := searched.consistent (new_consistent nodes skipMetaNode fits).1
  exact ⟨consistent, fun _ generated => doAction_undoAction consistent generated⟩

omit fits searched in
theorem searched_consistent_and_undo_sampleNodes :
    LBNode.tabletCount (LBNode.lbNodes sampleNodes false) < 2 ^ 32 ∧
      Searched (new sampleNodes false) 1 ((new sampleNodes false).doAction (.move 0 0 1)) ∧
      ((new sampleNodes false).doAction (.move 0 0 1)).Consistent
        (LBNode.pendingOf (LBNode.lbNodes sampleNodes false)) ∧
      ∀ action, ((new sampleNodes false).doAction (.move 0 0 1)).Generated action →
        Reordered ((new sampleNodes false).doAction (.move 0 0 1))
          ((((new sampleNodes false).doAction (.move 0 0 1)).doAction action).doAction
            action.undoAction) :=
  have searched : Searched (new sampleNodes false) 1 ((new sampleNodes false).doAction (.move 0 0 1)) :=
    .keep .start (by decide)
  ⟨by decide, searched, searched_consistent_and_undo (by decide) searched⟩

/-- In every cluster the search reaches from the constructed one, `CreatePlans` makes as many plans
as `tablet_moved_num_` counts, and that count is at most the moves kept. -/
theorem searched_createPlans_length :
    c.createPlans.length = c.tabletMovedNum.toNat ∧ c.tabletMovedNum.toNat ≤ accepted := by
  obtain ⟨consistent, none⟩ := new_consistent nodes skipMetaNode fits
  have reached := searched.consistent consistent
  have kept := searched.moved_length_le consistent
  rw [none, List.length_nil, Nat.zero_add, ← reached.counted] at kept
  exact ⟨createPlans_length reached, kept⟩

omit fits searched in
theorem searched_createPlans_length_sampleNodes :
    LBNode.tabletCount (LBNode.lbNodes sampleNodes false) < 2 ^ 32 ∧
      Searched (new sampleNodes false) 2
        (((new sampleNodes false).doAction (.move 0 0 1)).doAction (.move 0 1 2)) ∧
      (((new sampleNodes false).doAction (.move 0 0 1)).doAction (.move 0 1 2)).createPlans.length =
        (((new sampleNodes false).doAction (.move 0 0 1)).doAction (.move 0 1 2)).tabletMovedNum.toNat ∧
      (((new sampleNodes false).doAction (.move 0 0 1)).doAction (.move 0 1 2)).tabletMovedNum.toNat ≤ 2 :=
  have searched : Searched (new sampleNodes false) 2
      (((new sampleNodes false).doAction (.move 0 0 1)).doAction (.move 0 1 2)) :=
    (Searched.start.keep (by decide)).keep (by decide)
  ⟨by decide, searched, searched_createPlans_length (by decide) searched⟩

end Reached

end Cluster

/-! ## The search -/

/-- What a round of `BalanceCluster`'s loop learns from outside the cluster: whether the cost after
the action is below the current one (`new_cost < current_cost`), and whether the time limit has
passed. -/
structure Round where
  lower : Bool
  late : Bool

/-- The options `BalanceCluster` reads. -/
structure LBOptions where
  maxComputeSteps : UInt64
  maxComputeStepsPerTablet : UInt32
  tabletMaxMoveNum : UInt32

namespace UnityBalancer

variable {σ : Type} (nextAction : Cluster → σ → Action × σ)

/-- The loop of `BalanceCluster` over its rounds, from the generator state `random` and
`success_step`: `NextAction` gives the round's action; an invalid one goes to the next round; a
valid one is done and kept or undone, and the loop stops once `success_step` reaches
`tablet_max_move_num` or the time is up. Returns the cluster and `success_step`. -/
def balanceLoop (tabletMaxMoveNum : Nat) (c : Cluster) (random : σ) (successStep : Nat) :
    List Round → Cluster × Nat
  | [] => (c, successStep)
  | round :: rounds =>
    let next := nextAction c random
    let action := next.1
    if !action.valid then balanceLoop tabletMaxMoveNum c next.2 successStep rounds
    else
      let done := c.doAction action
      let c := if round.lower then done else done.doAction action.undoAction
      let successStep := if round.lower then successStep + 1 else successStep
      if successStep ≥ tabletMaxMoveNum then (c, successStep)
      else if round.late then (c, successStep)
      else balanceLoop tabletMaxMoveNum c next.2 successStep rounds

/-- `max_steps`: the product is of two `uint32_t`, so it wraps before the cast. -/
def maxSteps (options : LBOptions) (tabletNum : UInt32) : Nat :=
  min options.maxComputeSteps.toNat (options.maxComputeStepsPerTablet * tabletNum).toNat

/-- `UnityBalancer::BalanceCluster`: `none` where it returns `false` (at most one node given),
else the plans. `needBalance` is the verdict of `NeedBalance` past its node count, `improved`
whether the final cost is below the initial one, and `rounds` what each step learns: all of
floating-point costs and the clock, which the model leaves open. -/
def balanceCluster (options : LBOptions) (nodes : List LBNode) (skipMetaNode : Bool) (random : σ)
    (needBalance improved : Bool) (rounds : Nat → Round) : Option (List Plan) :=
  if nodes.length ≤ 1 then none
  else
    let cluster := Cluster.new nodes skipMetaNode
    if cluster.tabletNodeNum ≤ 1 || !needBalance then some []
    else
      let result := balanceLoop nextAction options.tabletMaxMoveNum.toNat cluster random 0
        ((List.range (maxSteps options (UInt32.ofNat cluster.tabletNum))).map rounds)
      if improved then some result.1.createPlans else some []

section Loop

variable {nextAction} (generated : ∀ (c : Cluster) (random : σ), c.Generated (nextAction c random).1)
  (tabletMaxMoveNum : Nat)

/-- A round that does its action keeps or undoes it, as the search does. -/
theorem searched_round {start c : Cluster} {successStep : Nat} (searched : Cluster.Searched start successStep c)
    {action : Action} (valid : c.Generated action) (lower : Bool) :
    Cluster.Searched start (if lower then successStep + 1 else successStep)
      (if lower then c.doAction action else (c.doAction action).doAction action.undoAction) := by
  cases lower with
  | true => exact searched.keep valid
  | false => exact searched.undo valid

include generated in
/-- The loop stays in the search, with `success_step` the kept moves. -/
theorem balanceLoop_searched {start : Cluster} (rounds : List Round) :
    ∀ {c : Cluster} {random : σ} {successStep : Nat}, Cluster.Searched start successStep c →
      Cluster.Searched start (balanceLoop nextAction tabletMaxMoveNum c random successStep rounds).2
        (balanceLoop nextAction tabletMaxMoveNum c random successStep rounds).1 := by
  induction rounds with
  | nil => exact fun searched => searched
  | cons round rounds ih =>
    intro c random successStep searched
    -- after a done action the round ends or the loop goes on, in the search either way
    have tail : ∀ (c' : Cluster) (successStep' : Nat), Cluster.Searched start successStep' c' →
        Cluster.Searched start
          (if successStep' ≥ tabletMaxMoveNum then (c', successStep')
            else if round.late then (c', successStep')
            else balanceLoop nextAction tabletMaxMoveNum c' (nextAction c random).2 successStep' rounds).2
          (if successStep' ≥ tabletMaxMoveNum then (c', successStep')
            else if round.late then (c', successStep')
            else balanceLoop nextAction tabletMaxMoveNum c' (nextAction c random).2 successStep' rounds).1 := by
      intro c' successStep' searched'
      split_ifs
      · exact searched'
      · exact searched'
      · exact ih searched'
    simp only [balanceLoop]
    by_cases invalid : (!(nextAction c random).1.valid) = true
    · rw [if_pos invalid]
      exact ih searched
    · rw [if_neg invalid]
      exact tail _ _ (searched_round searched (generated c random) round.lower)

/-- The loop stops as soon as `success_step` reaches `tablet_max_move_num`: it never keeps more
moves than that, but for the one that ends the loop when it started at or above it. -/
theorem balanceLoop_successStep_le (rounds : List Round) :
    ∀ {c : Cluster} {random : σ} {successStep : Nat},
      (balanceLoop nextAction tabletMaxMoveNum c random successStep rounds).2 ≤
        max tabletMaxMoveNum (successStep + 1) := by
  induction rounds with
  | nil => exact fun {_ _ successStep} => le_max_of_le_right (Nat.le_succ successStep)
  | cons round rounds ih =>
    intro c random successStep
    -- a done action adds at most one kept move; below the limit the rest of the loop keeps to it
    have tail : ∀ (c' : Cluster) (successStep' : Nat), successStep' ≤ successStep + 1 →
        (if successStep' ≥ tabletMaxMoveNum then (c', successStep')
          else if round.late then (c', successStep')
          else balanceLoop nextAction tabletMaxMoveNum c' (nextAction c random).2 successStep' rounds).2 ≤
          max tabletMaxMoveNum (successStep + 1) := by
      intro c' successStep' added
      split_ifs with reached
      · exact le_max_of_le_right added
      · exact le_max_of_le_right added
      · have rest : (balanceLoop nextAction tabletMaxMoveNum c' (nextAction c random).2 successStep' rounds).2 ≤
            max tabletMaxMoveNum (successStep' + 1) := ih
        omega
    simp only [balanceLoop]
    by_cases invalid : (!(nextAction c random).1.valid) = true
    · rw [if_pos invalid]
      exact ih.trans (max_le_max (Nat.le_refl _) (Nat.le_refl _))
    · rw [if_neg invalid]
      exact tail _ _ (by split_ifs <;> omega)

include generated in
/-- `BalanceCluster` plans at most `tablet_max_move_num` moves, or one when that is zero, of
distinct tablets, each to another node, whatever the costs and the clock: the tablets it moved are
at most the moves it kept. -/
theorem balanceCluster_plans {options : LBOptions} {nodes : List LBNode} {skipMetaNode : Bool}
    {random : σ} {needBalance improved : Bool} {rounds : Nat → Round}
    (fits : LBNode.tabletCount (LBNode.lbNodes nodes skipMetaNode) < 2 ^ 32) {plans : List Plan}
    (result : balanceCluster nextAction options nodes skipMetaNode random needBalance improved rounds =
      some plans) :
    plans.length ≤ max options.tabletMaxMoveNum.toNat 1 ∧ (plans.map Plan.tabletIndex).Nodup ∧
      ∀ plan ∈ plans, plan.sourceNodeIndex ≠ plan.destNodeIndex := by
  unfold balanceCluster at result
  dsimp only at result
  split_ifs at result
  · -- `NeedBalance` said no
    cases result
    simp
  · cases result
    obtain ⟨consistent, none⟩ := Cluster.new_consistent nodes skipMetaNode fits
    set start := Cluster.new nodes skipMetaNode
    set rounds' := (List.range (maxSteps options (UInt32.ofNat start.tabletNum))).map rounds
    set final := balanceLoop nextAction options.tabletMaxMoveNum.toNat start random 0 rounds'
    -- the search from the constructed cluster kept `final.2` moves, at most the limit
    have searched : Cluster.Searched start final.2 final.1 :=
      balanceLoop_searched generated _ rounds' Cluster.Searched.start
    have stopped : final.2 ≤ max options.tabletMaxMoveNum.toNat (0 + 1) := balanceLoop_successStep_le _ rounds'
    have kept := searched.moved_length_le consistent
    rw [none, List.length_nil, Nat.zero_add] at kept
    refine ⟨?_, Cluster.createPlans_nodup _, Cluster.createPlans_apart _⟩
    rw [Cluster.createPlans_eq, List.length_map]
    omega
  · -- the cost did not drop
    cases result
    simp

end Loop

end UnityBalancer

end Tera.LoadBalancer
