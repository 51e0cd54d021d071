import Tera.LoadBalancer.Balance

/-! # The action generators

Every generator of the balancer draws its move the same way: a source node, a tablet from the
source's list, a destination node, and `EmptyAction` as soon as a pick fails or the destination is
the source. The random picks draw from `Random::Rand`, Marsaglia's xorshift on a 32-bit state word;
the sorted picks read a sort of the nodes or of a node's tablets, whose order the model leaves open
(the comparators read floating-point loads, and `std::sort` orders equal keys as it may), as it
leaves open the cluster's predicates on tablets and locations.

Whatever the state word, the sorts and the predicates, a generated action moves a tablet of its
source node's list to another node (`Generator.generate_generated`): the contract
`Cluster.Generated` that the search's invariants rest on. With it, `BalanceCluster` over the
modelled generators plans at most `tablet_max_move_num` moves, of distinct tablets, each to another
node (`balanceCluster_generators_plans`).
-/

namespace Tera.LoadBalancer

/-- `kInvalidNodeIndex`, the largest `uint32_t`. -/
def kInvalidNodeIndex : Nat := 2 ^ 32 - 1

/-- `kInvalidTabletIndex`, the largest `uint32_t`. -/
def kInvalidTabletIndex : Nat := 2 ^ 32 - 1

namespace Random

/-- `Random::xorshift32`: Marsaglia's xorshift on the state word, which becomes the result. -/
def xorshift32 (state : UInt32) : UInt32 :=
  let x := state ^^^ (state <<< 13)
  let x := x ^^^ (x >>> 17)
  x ^^^ (x <<< 5)

/-- `Random::Rand`: a number in `[a, b)` from the next state word, and the new state; the source
asserts `a < b`. -/
def rand (a b : UInt32) (state : UInt32) : UInt32 × UInt32 :=
  let x := xorshift32 state
  (x % (b - a) + a, x)

end Random

/-! ## The picks of `ActionGenerator` -/

namespace ActionGenerator

/-- `PickRandomNode`. -/
def pickRandomNode (c : Cluster) (state : UInt32) : Nat × UInt32 :=
  if c.tabletNodeNum > 0 then
    let drawn := Random.rand 0 (UInt32.ofNat c.tabletNodeNum) state
    (drawn.1.toNat, drawn.2)
  else (kInvalidNodeIndex, state)

/-- The loop of `PickRandomTabletFromSourceNode` with `tries` draws left. -/
def pickRandomTabletLoop (tablets : List Nat) (tabletNum : UInt32) (isProper : Nat → Bool) :
    Nat → UInt32 → Nat × UInt32
  | 0, state => (kInvalidTabletIndex, state)
  | tries + 1, state =>
    let drawn := Random.rand 0 tabletNum state
    let tabletIndex := tablets.getD drawn.1.toNat kInvalidTabletIndex
    if isProper tabletIndex then (tabletIndex, drawn.2)
    else pickRandomTabletLoop tablets tabletNum isProper tries drawn.2

/-- `PickRandomTabletFromSourceNode`: up to `5 * tablet_num` draws of a proper tablet from the
node's list, the product a `uint32_t`. -/
def pickRandomTabletFromSourceNode (c : Cluster) (nodeIndex : Nat) (isProper : Nat → Bool)
    (state : UInt32) : Nat × UInt32 :=
  let tablets := c.tabletsOf nodeIndex
  let tabletNum := UInt32.ofNat tablets.length
  if tabletNum < 1 then (kInvalidTabletIndex, state)
  else pickRandomTabletLoop tablets tabletNum isProper (5 * tabletNum).toNat state

/-- The loop of `PickRandomDestNode` with `tries` draws left: a draw of the picked node goes on. -/
def pickRandomDestLoop (c : Cluster) (pickedNodeIndex chosenTabletIndex : Nat)
    (isProperLocation : Nat → Nat → Bool) : Nat → UInt32 → Nat × UInt32
  | 0, state => (kInvalidNodeIndex, state)
  | tries + 1, state =>
    let drawn := pickRandomNode c state
    if drawn.1 = pickedNodeIndex then
      pickRandomDestLoop c pickedNodeIndex chosenTabletIndex isProperLocation tries drawn.2
    else if isProperLocation chosenTabletIndex drawn.1 then drawn
    else pickRandomDestLoop c pickedNodeIndex chosenTabletIndex isProperLocation tries drawn.2

/-- `PickRandomDestNode`: up to `5 * tablet_node_num_` draws of a proper node other than the
picked one. -/
def pickRandomDestNode (c : Cluster) (pickedNodeIndex chosenTabletIndex : Nat)
    (isProperLocation : Nat → Nat → Bool) (state : UInt32) : Nat × UInt32 :=
  if c.tabletNodeNum < 2 then (kInvalidNodeIndex, state)
  else
    pickRandomDestLoop c pickedNodeIndex chosenTabletIndex isProperLocation
      (5 * UInt32.ofNat c.tabletNodeNum).toNat state

/-- `PickHeaviestNode` without a predicate: the last of the sorted nodes. -/
def pickHeaviestNode (sortedNodeIndex : List Nat) : Nat :=
  sortedNodeIndex.getLastD kInvalidNodeIndex

/-- `PickHeaviestNode` with a predicate: the last proper one of the sorted nodes. -/
def pickHeaviestProperNode (sortedNodeIndex : List Nat) (isProper : Nat → Bool) : Nat :=
  (sortedNodeIndex.reverse.find? isProper).getD kInvalidNodeIndex

/-- `PickLightestNode`: the first of the sorted nodes where the tablet may go. -/
def pickLightestNode (sortedNodeIndex : List Nat) (chosenTabletIndex : Nat)
    (isProperLocation : Nat → Nat → Bool) : Nat :=
  (sortedNodeIndex.find? (isProperLocation chosenTabletIndex)).getD kInvalidNodeIndex

/-- `PickHeaviestTabletFromSourceNode`: the last proper one of the sorted tablets. -/
def pickHeaviestTabletFromSourceNode (sortedTabletIndex : List Nat) (isProper : Nat → Bool) : Nat :=
  (sortedTabletIndex.reverse.find? isProper).getD kInvalidTabletIndex

/-- The shape of every generator's `Generate`: no move in a cluster of fewer than two nodes; then a
source node, a tablet of it and a destination, each pick threading the random state, and
`EmptyAction` as soon as one fails or the destination is the source. -/
def generate (c : Cluster) (pickSource : UInt32 → Nat × UInt32)
    (pickTablet : Nat → UInt32 → Nat × UInt32) (pickDest : Nat → Nat → UInt32 → Nat × UInt32)
    (state : UInt32) : Action × UInt32 :=
  if c.tabletNodeNum < 2 then (.empty, state)
  else
    let source := pickSource state
    if source.1 = kInvalidNodeIndex then (.empty, source.2)
    else
      let tablet := pickTablet source.1 source.2
      if tablet.1 = kInvalidTabletIndex then (.empty, tablet.2)
      else
        let dest := pickDest source.1 tablet.1 tablet.2
        if dest.1 = kInvalidNodeIndex ∨ dest.1 = source.1 then (.empty, dest.2)
        else (.move tablet.1 source.1 dest.1, dest.2)

/-! ## What the tablet picks return -/

/-- A tablet pick for a cluster returns the invalid index or a tablet of the node it was asked. -/
def TabletPick (c : Cluster) (pickTablet : Nat → UInt32 → Nat × UInt32) : Prop :=
  ∀ nodeIndex state, (pickTablet nodeIndex state).1 = kInvalidTabletIndex ∨
    (pickTablet nodeIndex state).1 ∈ c.tabletsOf nodeIndex

theorem getD_eq_or_mem (tablets : List Nat) (i fallback : Nat) :
    tablets.getD i fallback = fallback ∨ tablets.getD i fallback ∈ tablets := by
  rw [List.getD_eq_getElem?_getD]
  cases found : tablets[i]? with
  | none => exact Or.inl rfl
  | some tabletIndex => exact Or.inr (List.mem_of_getElem? found)

theorem pickRandomTabletLoop_mem (tablets : List Nat) (tabletNum : UInt32) (isProper : Nat → Bool)
    (tries : Nat) :
    ∀ state, (pickRandomTabletLoop tablets tabletNum isProper tries state).1 = kInvalidTabletIndex ∨
      (pickRandomTabletLoop tablets tabletNum isProper tries state).1 ∈ tablets := by
  induction tries with
  | zero => exact fun _ => Or.inl rfl
  | succ tries ih =>
    intro state
    simp only [pickRandomTabletLoop]
    split_ifs
    · exact getD_eq_or_mem tablets _ _
    · exact ih _

theorem pickRandomTabletFromSourceNode_pick (c : Cluster) (isProper : Nat → Bool) :
    TabletPick c fun nodeIndex state => pickRandomTabletFromSourceNode c nodeIndex isProper state := by
  intro nodeIndex state
  simp only [pickRandomTabletFromSourceNode]
  split_ifs
  · exact Or.inl rfl
  · exact pickRandomTabletLoop_mem _ _ isProper _ state

/-- A sort of a node's tablets, as `SortTabletsOfNodeByReadLoad` and its siblings make it: the
node's list in some order. -/
structure TabletSort where
  sort : Cluster → Nat → List Nat
  perm : ∀ c nodeIndex, (sort c nodeIndex).Perm (c.tabletsOf nodeIndex)

theorem pickHeaviestTabletFromSourceNode_pick (c : Cluster) (tabletSort : TabletSort)
    (isProper : Nat → Bool) :
    TabletPick c fun nodeIndex state =>
      (pickHeaviestTabletFromSourceNode (tabletSort.sort c nodeIndex) isProper, state) := by
  intro nodeIndex state
  simp only [pickHeaviestTabletFromSourceNode]
  cases found : (tabletSort.sort c nodeIndex).reverse.find? isProper with
  | none => exact Or.inl rfl
  | some tabletIndex =>
    -- the pick is of the reversed sort, which holds the node's tablets
    have sorted := List.mem_reverse.mp (List.mem_of_find?_eq_some found)
    exact Or.inr ((tabletSort.perm c nodeIndex).mem_iff.mp sorted)

/-- Whatever the source and destination picks, a generated action is a move of a tablet of the
source's list to another node. -/
theorem generate_generated {c : Cluster} {pickSource : UInt32 → Nat × UInt32}
    {pickTablet : Nat → UInt32 → Nat × UInt32} (tabletPick : TabletPick c pickTablet)
    (pickDest : Nat → Nat → UInt32 → Nat × UInt32) (state : UInt32) :
    c.Generated (generate c pickSource pickTablet pickDest state).1 := by
  simp only [generate]
  split_ifs with few invalidSource invalidTablet failed
  · trivial
  · trivial
  · trivial
  · trivial
  · -- the tablet pick did not fail, so it is of the source's list
    refine ⟨(tabletPick _ _).resolve_left invalidTablet, ?_⟩
    exact fun same => failed (Or.inr same)

end ActionGenerator

/-! ## The generators -/

/-- The cluster's predicates the generators consult: `IsProperTargetTablet` (not a meta tablet,
ready, not moved too recently) and `IsProperLocation`, which read tablet and node metadata, the
clock and floating-point sizes, all left open. -/
structure Predicates where
  isProperTargetTablet : Cluster → Nat → Bool
  isProperLocation : Cluster → Nat → Nat → Bool

/-- The generators `UnityBalancer` may hold, each with the sort of nodes it reads and, for the load
generators, the node predicate of its source and the sort of the source's tablets. -/
inductive Generator where
  | randomAction
  | tabletCountAction (sortNodesByTabletCount : Cluster → List Nat)
  | sizeAction (sortNodesBySize : Cluster → List Nat)
  | flashSizeAction (sortNodesByFlashSizePercent : Cluster → List Nat)
  | readLoadAction (sortNodesByReadLoad : Cluster → List Nat) (isReadPendingNode : Cluster → Nat → Bool)
      (sortTabletsOfNodeByReadLoad : ActionGenerator.TabletSort)
  | writeLoadAction (sortNodesByWriteLoad : Cluster → List Nat) (isWritePendingNode : Cluster → Nat → Bool)
      (sortTabletsOfNodeByWriteLoad : ActionGenerator.TabletSort)
  | scanLoadAction (sortNodesByScanLoad : Cluster → List Nat) (isScanPendingNode : Cluster → Nat → Bool)
      (sortTabletsOfNodeByScanLoad : ActionGenerator.TabletSort)
  | lreadAction (sortNodesByLRead : Cluster → List Nat) (isHeavyLReadNode : Cluster → Nat → Bool)
      (sortTabletsOfNodeByLRead : ActionGenerator.TabletSort)

namespace Generator

open ActionGenerator

variable (predicates : Predicates)

/-- `RandomActionGenerator::Generate`: a random source, a random proper tablet of it, a random
proper destination. -/
def randomGenerate (c : Cluster) (state : UInt32) : Action × UInt32 :=
  generate c (pickRandomNode c)
    (fun nodeIndex => pickRandomTabletFromSourceNode c nodeIndex (predicates.isProperTargetTablet c))
    (fun nodeIndex tabletIndex => pickRandomDestNode c nodeIndex tabletIndex (predicates.isProperLocation c))
    state

/-- `Generate` of `TabletCountActionGenerator`, `SizeActionGenerator` and
`FlashSizeActionGenerator`: the heaviest node of the sort, a random proper tablet of it, the
lightest proper node of the sort. -/
def sortedGenerate (sortedNodeIndex : List Nat) (c : Cluster) (state : UInt32) : Action × UInt32 :=
  generate c (fun state => (pickHeaviestNode sortedNodeIndex, state))
    (fun nodeIndex => pickRandomTabletFromSourceNode c nodeIndex (predicates.isProperTargetTablet c))
    (fun _ tabletIndex state =>
      (pickLightestNode sortedNodeIndex tabletIndex (predicates.isProperLocation c), state))
    state

/-- `Generate` of the read, write, scan and lread generators: the heaviest node of the sort that
the predicate admits, the heaviest proper tablet of its sorted tablets, the lightest proper node
of the sort. -/
def loadGenerate (sortedNodeIndex : List Nat) (isSourceNode : Nat → Bool) (tabletSort : TabletSort)
    (c : Cluster) (state : UInt32) : Action × UInt32 :=
  generate c (fun state => (pickHeaviestProperNode sortedNodeIndex isSourceNode, state))
    (fun nodeIndex state =>
      (pickHeaviestTabletFromSourceNode (tabletSort.sort c nodeIndex) (predicates.isProperTargetTablet c),
        state))
    (fun _ tabletIndex state =>
      (pickLightestNode sortedNodeIndex tabletIndex (predicates.isProperLocation c), state))
    state

/-- `ActionGenerator::Generate` of each generator. -/
def generate : Generator → Cluster → UInt32 → Action × UInt32
  | randomAction, c, state => randomGenerate predicates c state
  | tabletCountAction sortNodesByTabletCount, c, state =>
    sortedGenerate predicates (sortNodesByTabletCount c) c state
  | sizeAction sortNodesBySize, c, state => sortedGenerate predicates (sortNodesBySize c) c state
  | flashSizeAction sortNodesByFlashSizePercent, c, state =>
    sortedGenerate predicates (sortNodesByFlashSizePercent c) c state
  | readLoadAction sortNodesByReadLoad isReadPendingNode sortTabletsOfNodeByReadLoad, c, state =>
    loadGenerate predicates (sortNodesByReadLoad c) (isReadPendingNode c) sortTabletsOfNodeByReadLoad c state
  | writeLoadAction sortNodesByWriteLoad isWritePendingNode sortTabletsOfNodeByWriteLoad, c, state =>
    loadGenerate predicates (sortNodesByWriteLoad c) (isWritePendingNode c) sortTabletsOfNodeByWriteLoad c
      state
  | scanLoadAction sortNodesByScanLoad isScanPendingNode sortTabletsOfNodeByScanLoad, c, state =>
    loadGenerate predicates (sortNodesByScanLoad c) (isScanPendingNode c) sortTabletsOfNodeByScanLoad c state
  | lreadAction sortNodesByLRead isHeavyLReadNode sortTabletsOfNodeByLRead, c, state =>
    loadGenerate predicates (sortNodesByLRead c) (isHeavyLReadNode c) sortTabletsOfNodeByLRead c state

theorem randomGenerate_generated (c : Cluster) (state : UInt32) :
    c.Generated (randomGenerate predicates c state).1 :=
  generate_generated (pickRandomTabletFromSourceNode_pick c _) _ state

theorem sortedGenerate_generated (sortedNodeIndex : List Nat) (c : Cluster) (state : UInt32) :
    c.Generated (sortedGenerate predicates sortedNodeIndex c state).1 :=
  generate_generated (pickRandomTabletFromSourceNode_pick c _) _ state

theorem loadGenerate_generated (sortedNodeIndex : List Nat) (isSourceNode : Nat → Bool)
    (tabletSort : TabletSort) (c : Cluster) (state : UInt32) :
    c.Generated (loadGenerate predicates sortedNodeIndex isSourceNode tabletSort c state).1 :=
  generate_generated (pickHeaviestTabletFromSourceNode_pick c tabletSort _) _ state

/-- Every generator keeps the contract of `Cluster.Generated`. -/
theorem generate_generated (generator : Generator) (c : Cluster) (state : UInt32) :
    c.Generated (generator.generate predicates c state).1 := by
  cases generator with
  | randomAction => exact randomGenerate_generated predicates c state
  | tabletCountAction => exact sortedGenerate_generated predicates _ c state
  | sizeAction => exact sortedGenerate_generated predicates _ c state
  | flashSizeAction => exact sortedGenerate_generated predicates _ c state
  | readLoadAction => exact loadGenerate_generated predicates _ _ _ c state
  | writeLoadAction => exact loadGenerate_generated predicates _ _ _ c state
  | scanLoadAction => exact loadGenerate_generated predicates _ _ _ c state
  | lreadAction => exact loadGenerate_generated predicates _ _ _ c state

end Generator

namespace UnityBalancer

/-- `UnityBalancer::NextAction`: a generator drawn at random does its `Generate`; the source
asserts there is one. -/
def nextAction (generators : List Generator) (predicates : Predicates) (c : Cluster) (state : UInt32) :
    Action × UInt32 :=
  let drawn := Random.rand 0 (UInt32.ofNat generators.length) state
  match generators[drawn.1.toNat]? with
  | some generator => generator.generate predicates c drawn.2
  | none => (.empty, drawn.2)

theorem nextAction_generated (generators : List Generator) (predicates : Predicates) (c : Cluster)
    (state : UInt32) : c.Generated (nextAction generators predicates c state).1 := by
  simp only [nextAction]
  split
  · exact Generator.generate_generated predicates _ c _
  · trivial

/-- `BalanceCluster` over the modelled generators plans at most `tablet_max_move_num` moves, or one
when that is zero, of distinct tablets, each to another node, whatever the generators' sorts and
predicates, the random state, the costs and the clock. -/
theorem balanceCluster_generators_plans (generators : List Generator) (predicates : Predicates)
    {options : LBOptions} {nodes : List LBNode} {skipMetaNode : Bool} {random : UInt32}
    {needBalance improved : Bool} {rounds : Nat → Round}
    (fits : LBNode.tabletCount (LBNode.lbNodes nodes skipMetaNode) < 2 ^ 32) {plans : List Plan}
    (result : balanceCluster (nextAction generators predicates) options nodes skipMetaNode random
      needBalance improved rounds = some plans) :
    plans.length ≤ max options.tabletMaxMoveNum.toNat 1 ∧ (plans.map Plan.tabletIndex).Nodup ∧
      ∀ plan ∈ plans, plan.sourceNodeIndex ≠ plan.destNodeIndex :=
  balanceCluster_plans (nextAction_generated generators predicates) fits result

/-- Two moves kept from the three sample nodes by the random generator, with every tablet and
location proper, every round lowering the cost, and the state word 1. -/
theorem balanceCluster_generators_plans_sampleNodes :
    LBNode.tabletCount (LBNode.lbNodes Cluster.sampleNodes false) < 2 ^ 32 ∧
      balanceCluster (nextAction [.randomAction] ⟨fun _ _ => true, fun _ _ _ => true⟩) ⟨6, 2, 2⟩
        Cluster.sampleNodes false 1 true true (fun _ => ⟨true, false⟩) = some [⟨1, 0, 1⟩, ⟨2, 2, 1⟩] ∧
      [(⟨1, 0, 1⟩ : Plan), ⟨2, 2, 1⟩].length ≤ max (2 : UInt32).toNat 1 ∧
      ([(⟨1, 0, 1⟩ : Plan), ⟨2, 2, 1⟩].map Plan.tabletIndex).Nodup ∧
      ∀ plan ∈ [(⟨1, 0, 1⟩ : Plan), ⟨2, 2, 1⟩], plan.sourceNodeIndex ≠ plan.destNodeIndex :=
  have result : balanceCluster (nextAction [.randomAction] ⟨fun _ _ => true, fun _ _ _ => true⟩) ⟨6, 2, 2⟩
      Cluster.sampleNodes false 1 true true (fun _ => ⟨true, false⟩) = some [⟨1, 0, 1⟩, ⟨2, 2, 1⟩] := by
    decide
  ⟨by decide, result, balanceCluster_generators_plans _ _ (by decide) result⟩

end UnityBalancer

end Tera.LoadBalancer
