import Tera.Quota.MasterQuotaEntry
import Tera.Lib.Interleaving

/-! # Quota versions over the master's query rounds

The master sends quota updates with its periodic query of the tablet nodes
(`MasterImpl::QueryTabletNode`). A round counts its outstanding queries in
`query_pending_count_`, one for the dispatch loop and one for each node queried, and counts in
`update_quota_pending_count_` the queried nodes that have not yet reported the master's current
quota version. `BuildReq` runs for each queried node as the loop reaches it, and the node's
callback compares the version in its response with the master's. The round ends with the last
callback, or with the loop if every callback came first. If every queried node reported the
current version and no change came after the last request was built, the delta is cleared and
nothing more is sent. Otherwise the version is sent again in the next round.

Quota changes interleave with all of this: `AddRecord`, `DelRecord` together with the removal of
the table, and a load of tablets followed by `CaculateDeltaQuota`. Nodes also enter and leave
the queried set, and they restart. A query's RPC is answered or fails, and the answer may be
lost. A round waits for all its callbacks, so a node has at most one query in flight.
-/

namespace Tera.Quota

open Tera.Lib

/-- The master's quota entry, the tablet and tablet node managers as the quota code reads them,
the tablet nodes' quota entries and the round in progress. -/
structure QuotaCluster (Node Table : Type) where
  master : MasterQuotaEntry Node Table
  tables : Table → Option (List Node)
  allTabletNodes : List Node
  queried : Node → Bool
  tabletNodes : Node → QuotaEntry Table
  requests : Node → Option (QueryRequest Table)
  responses : Node → Option (Option Nat)
  dispatching : Bool
  dispatched : List Node
  queryPendingCount : Nat
  updateQuotaPendingCount : Nat

/-- The steps of the master's quota code, of the query rounds and of the tablet nodes. -/
inductive QuotaAction (Node Table : Type) where
  | addRecord (tableQuota : TableQuota Table)
  | delRecord (tableName : Table)
  | loadTablets (tableName : Table) (servers : List Node)
  | setQueried (node : Node) (queried : Bool)
  | restartNode (node : Node)
  | queryTabletNode
  | queryTabletNodeAsync (node : Node)
  | finishDispatch
  | handleQuery (node : Node)
  | failQuery (node : Node)
  | queryTabletNodeCallback (node : Node)

namespace QuotaCluster

variable {Node Table : Type} [DecidableEq Node] [DecidableEq Table]

/-- A master just started, over the given tables and tablet nodes, none of them queried yet. -/
def init (tables : Table → Option (List Node)) (allTabletNodes : List Node)
    (queried : Node → Bool) : QuotaCluster Node Table :=
  ⟨.new, tables, allTabletNodes, queried, fun _ => .new, fun _ => none, fun _ => none, false, [], 0,
    0⟩

/-- The end of a round: the delta is cleared when every queried node reported the current version
and the clear succeeds, and the version is marked to be sent again otherwise. -/
def finishRound (cluster : QuotaCluster Node Table) : QuotaCluster Node Table :=
  let cleared :=
    if cluster.updateQuotaPendingCount = 0 then cluster.master.clearDeltaQuota
    else (false, cluster.master)
  { cluster with master := cleared.2.syncVersion !cleared.1, updateQuotaPendingCount := 0 }

/-- `query_pending_count_.Dec()`, and the end of the round when it reaches zero. -/
def queryDone (cluster : QuotaCluster Node Table) : QuotaCluster Node Table :=
  let cluster := { cluster with queryPendingCount := cluster.queryPendingCount - 1 }
  if cluster.queryPendingCount = 0 then cluster.finishRound else cluster

/-- One step, or `none` where it cannot be taken. -/
def step (cluster : QuotaCluster Node Table) :
    QuotaAction Node Table → Option (QuotaCluster Node Table)
  | .addRecord tableQuota =>
    some { cluster with
      master := cluster.master.addRecord cluster.tables cluster.allTabletNodes tableQuota }
  | .delRecord tableName =>
    -- `DeleteTableProcedure::UpdateMetaDone`: the quota goes, then the table
    some { cluster with
      master := (cluster.master.delRecord cluster.tables tableName).2
      tables := Function.update cluster.tables tableName none }
  | .loadTablets tableName servers =>
    let tables := Function.update cluster.tables tableName (some servers)
    some { cluster with
      tables
      master := cluster.master.caculateDeltaQuota tables cluster.allTabletNodes tableName }
  | .setQueried node queried =>
    some { cluster with queried := Function.update cluster.queried node queried }
  | .restartNode node =>
    some { cluster with
      tabletNodes := Function.update cluster.tabletNodes node .new
      allTabletNodes := if node ∈ cluster.allTabletNodes then cluster.allTabletNodes
        else cluster.allTabletNodes ++ [node] }
  | .queryTabletNode =>
    if cluster.dispatching ∨ cluster.queryPendingCount ≠ 0 then none
    else some { cluster with dispatching := true, dispatched := [], queryPendingCount := 1 }
  | .queryTabletNodeAsync node =>
    if cluster.dispatching ∧ node ∈ cluster.allTabletNodes ∧ cluster.queried node ∧
        node ∉ cluster.dispatched then
      let built := cluster.master.buildReq node
      some { cluster with
        master := built.2
        requests := Function.update cluster.requests node (some built.1)
        dispatched := cluster.dispatched ++ [node]
        queryPendingCount := cluster.queryPendingCount + 1
        updateQuotaPendingCount := cluster.updateQuotaPendingCount + 1 }
    else none
  | .finishDispatch =>
    if cluster.dispatching then some { cluster with dispatching := false }.queryDone else none
  | .handleQuery node =>
    match cluster.requests node with
    | none => none
    | some request =>
      let handled := (cluster.tabletNodes node).update request
      some { cluster with
        tabletNodes := Function.update cluster.tabletNodes node handled.1
        requests := Function.update cluster.requests node none
        responses := Function.update cluster.responses node (some (some handled.2)) }
  | .failQuery node =>
    -- the request is lost, or the node's answer is
    if cluster.requests node = none ∧ cluster.responses node = none then none
    else some { cluster with
      requests := Function.update cluster.requests node none
      responses := Function.update cluster.responses node (some none) }
  | .queryTabletNodeCallback node =>
    match cluster.responses node with
    | none => none
    | some reported =>
      let cluster := { cluster with responses := Function.update cluster.responses node none }
      let cluster := if reported = some cluster.master.version then
          { cluster with updateQuotaPendingCount := cluster.updateQuotaPendingCount - 1 }
        else cluster
      some cluster.queryDone

/-! ## The version handshake -/

/-- What every run keeps. The master's quotas are filed under their tables, and its version is
positive. No node and no request in flight is ahead of the master's version. A request at the
current version carries the node's delta, unless the delta was cleared since. A node at the
current version holds every entry of its delta. -/
structure Synced (cluster : QuotaCluster Node Table) : Prop where
  wellNamed : cluster.master.WellNamed
  versionPos : 0 < cluster.master.version
  nodeVersionLe : ∀ node, (cluster.tabletNodes node).version ≤ cluster.master.version
  requestVersionLe : ∀ node request quotaVersion, cluster.requests node = some request →
    request.quotaVersion = some quotaVersion → quotaVersion ≤ cluster.master.version
  requestCurrent : ∀ node request, cluster.requests node = some request →
    request.quotaVersion = some cluster.master.version →
    (cluster.master.deltaTsTableQuotasList node).entries = [] ∨
      request.tableQuotas = (cluster.master.deltaTsTableQuotasList node).entries.map Sigma.snd
  holds : ∀ node, (cluster.tabletNodes node).version = cluster.master.version →
    (cluster.tabletNodes node).Holds (cluster.master.deltaTsTableQuotasList node)

omit [DecidableEq Node] [DecidableEq Table] in
theorem synced_init (tables : Table → Option (List Node)) (allTabletNodes : List Node)
    (queried : Node → Bool) : (init tables allTabletNodes queried).Synced where
  wellNamed := MasterQuotaEntry.wellNamed_new
  versionPos := Nat.one_pos
  nodeVersionLe _ := Nat.zero_le _
  requestVersionLe _ _ _ sent := by cases sent
  requestCurrent _ _ sent := by cases sent
  holds _ current := by cases current

namespace Synced

variable {cluster next : QuotaCluster Node Table} (synced : cluster.Synced)
include synced

omit [DecidableEq Node] in
/-- A step of the master alone, that may drop requests in flight, keeps the invariant. -/
theorem of_follows (follows : cluster.master.Follows next.master)
    (named : next.master.WellNamed) (nodes : next.tabletNodes = cluster.tabletNodes)
    (requests : ∀ node request, next.requests node = some request →
      cluster.requests node = some request) : next.Synced := by
  rcases follows with ⟨version, delta⟩ | bumped
  · -- the version stays, and each node's delta stays or is emptied
    refine ⟨named, version ▸ synced.versionPos, ?_, ?_, ?_, ?_⟩
    · intro node
      rw [nodes, version]
      exact synced.nodeVersionLe node
    · intro node request quotaVersion sent carries
      rw [version]
      exact synced.requestVersionLe node request quotaVersion (requests node request sent) carries
    · intro node request sent current
      rw [version] at current
      rcases delta node with same | emptied
      · rw [same]
        exact synced.requestCurrent node request (requests node request sent) current
      · exact .inl emptied
    · intro node current
      rw [nodes, version] at current
      rw [nodes]
      rcases delta node with same | emptied
      · rw [same]
        exact synced.holds node current
      · intro quota member
        rw [emptied] at member
        cases member
  · -- a new version, which no node and no request has yet
    refine ⟨named, by omega, ?_, ?_, ?_, ?_⟩
    · intro node
      rw [nodes, bumped]
      exact Nat.le_succ_of_le (synced.nodeVersionLe node)
    · intro node request quotaVersion sent carries
      rw [bumped]
      exact Nat.le_succ_of_le
        (synced.requestVersionLe node request quotaVersion (requests node request sent) carries)
    · intro node request sent current
      have older := synced.requestVersionLe node request _ (requests node request sent) current
      omega
    · intro node current
      have older := synced.nodeVersionLe node
      rw [nodes] at current
      omega

omit [DecidableEq Node] in
/-- The invariant reads only the master, the nodes' entries and the requests in flight. -/
theorem congr (master : next.master = cluster.master)
    (nodes : next.tabletNodes = cluster.tabletNodes)
    (requests : next.requests = cluster.requests) : next.Synced :=
  synced.of_follows (master ▸ MasterQuotaEntry.follows_of_delta rfl rfl)
    (master ▸ synced.wellNamed) nodes fun _ _ sent => requests ▸ sent

omit [DecidableEq Node] in
theorem finishRound : cluster.finishRound.Synced := by
  unfold QuotaCluster.finishRound
  split
  · exact synced.of_follows (MasterQuotaEntry.clearDeltaQuota_follows _)
      (synced.wellNamed.clearDeltaQuota.syncVersion _) rfl fun _ _ sent => sent
  · exact synced.of_follows (MasterQuotaEntry.follows_of_delta rfl rfl)
      (synced.wellNamed.syncVersion _) rfl fun _ _ sent => sent

omit [DecidableEq Node] in
theorem queryDone : cluster.queryDone.Synced := by
  unfold QuotaCluster.queryDone
  have counted : ({ cluster with queryPendingCount := cluster.queryPendingCount - 1 }).Synced :=
    synced.congr rfl rfl rfl
  dsimp only
  split
  · exact counted.finishRound
  · exact counted

omit [DecidableEq Table] in
/-- Querying a node sends it its delta at the current version, or no version at all. -/
theorem queryTabletNodeAsync (node : Node) (dispatched : List Node) (queryPending updatePending : Nat) :
    ({ cluster with
      master := (cluster.master.buildReq node).2
      requests := Function.update cluster.requests node (some (cluster.master.buildReq node).1)
      dispatched
      queryPendingCount := queryPending
      updateQuotaPendingCount := updatePending }).Synced := by
  refine ⟨synced.wellNamed.buildReq node, ?_, ?_, ?_, ?_, ?_⟩
  · simpa using synced.versionPos
  · simpa using synced.nodeVersionLe
  · intro addr request quotaVersion sent carries
    simp only [MasterQuotaEntry.buildReq_version]
    dsimp only at sent
    rw [Function.update_apply] at sent
    split at sent
    · cases sent
      by_cases needed : cluster.master.needUpdate <;> simp_all
    · exact synced.requestVersionLe addr request quotaVersion sent carries
  · intro addr request sent current
    simp only [MasterQuotaEntry.buildReq_version, MasterQuotaEntry.buildReq_deltaTsTableQuotasList]
      at current ⊢
    dsimp only at sent
    rw [Function.update_apply] at sent
    split at sent
    · cases sent
      subst addr
      by_cases needed : cluster.master.needUpdate <;> simp_all
    · exact synced.requestCurrent addr request sent current
  · simpa using synced.holds

/-- A node handling its query installs what the query carries and adopts its version. -/
theorem handleQuery {node : Node} {request : QueryRequest Table}
    (sent : cluster.requests node = some request) :
    ({ cluster with
      tabletNodes := Function.update cluster.tabletNodes node
        ((cluster.tabletNodes node).update request).1
      requests := Function.update cluster.requests node none
      responses := Function.update cluster.responses node
        (some (some ((cluster.tabletNodes node).update request).2)) }).Synced := by
  obtain ⟨tableQuotas, quotaVersion⟩ := request
  -- the node after the query: at the request's version, or as it was
  have handled : ((cluster.tabletNodes node).update ⟨tableQuotas, quotaVersion⟩).1.version ≤
      cluster.master.version ∧
      (((cluster.tabletNodes node).update ⟨tableQuotas, quotaVersion⟩).1.version =
        cluster.master.version →
      ((cluster.tabletNodes node).update ⟨tableQuotas, quotaVersion⟩).1.Holds
        (cluster.master.deltaTsTableQuotasList node)) := by
    cases quotaVersion with
    | none => exact ⟨synced.nodeVersionLe node, synced.holds node⟩
    | some quotaVersion =>
      refine ⟨synced.requestVersionLe node _ quotaVersion sent rfl, fun current => ?_⟩
      simp only [QuotaEntry.update_some] at current
      subst current
      rcases synced.requestCurrent node _ sent rfl with emptied | carried
      · intro quota member
        rw [emptied] at member
        cases member
      · simp only at carried
        subst carried
        exact ((cluster.tabletNodes node).update_holds (synced.wellNamed.deltaNamed node) _).2
  refine ⟨synced.wellNamed, synced.versionPos, ?_, ?_, ?_, ?_⟩
  · intro addr
    dsimp only
    rw [Function.update_apply]
    split
    · subst addr
      exact handled.1
    · exact synced.nodeVersionLe addr
  · intro addr request quotaVersion sent' carries
    dsimp only at sent'
    rw [Function.update_apply] at sent'
    split at sent'
    · cases sent'
    · exact synced.requestVersionLe addr request quotaVersion sent' carries
  · intro addr request sent' current
    dsimp only at sent'
    rw [Function.update_apply] at sent'
    split at sent'
    · cases sent'
    · exact synced.requestCurrent addr request sent' current
  · intro addr current
    dsimp only at current ⊢
    rw [Function.update_apply] at current ⊢
    split at current
    · subst addr
      rw [if_pos rfl]
      exact handled.2 current
    · rw [if_neg ‹_›]
      exact synced.holds addr current

omit [DecidableEq Table] in
/-- A restarted node is at version 0, behind the master. -/
theorem restartNode (node : Node) (allTabletNodes : List Node) :
    ({ cluster with
      tabletNodes := Function.update cluster.tabletNodes node .new
      allTabletNodes }).Synced := by
  refine ⟨synced.wellNamed, synced.versionPos, ?_, synced.requestVersionLe, synced.requestCurrent, ?_⟩
  · intro addr
    dsimp only
    rw [Function.update_apply]
    split
    · exact Nat.zero_le _
    · exact synced.nodeVersionLe addr
  · intro addr current
    dsimp only at current ⊢
    rw [Function.update_apply] at current ⊢
    split at current
    · have := synced.versionPos
      simp only [QuotaEntry.new] at current
      omega
    · rw [if_neg ‹_›]
      exact synced.holds addr current

/-- Every step keeps the invariant. -/
theorem step {action : QuotaAction Node Table} (stepped : cluster.step action = some next) :
    next.Synced := by
  cases action with
  | addRecord tableQuota =>
    cases stepped
    exact synced.of_follows (MasterQuotaEntry.addRecord_follows _ _ _)
      (synced.wellNamed.addRecord _ _ _) rfl fun _ _ sent => sent
  | delRecord tableName =>
    cases stepped
    exact synced.of_follows (MasterQuotaEntry.delRecord_follows _ _)
      (synced.wellNamed.delRecord _ _) rfl fun _ _ sent => sent
  | loadTablets tableName servers =>
    cases stepped
    exact synced.of_follows (MasterQuotaEntry.caculateDeltaQuota_follows _ _ _)
      (synced.wellNamed.caculateDeltaQuota _ _ _) rfl fun _ _ sent => sent
  | setQueried node queried =>
    cases stepped
    exact synced.congr rfl rfl rfl
  | restartNode node =>
    cases stepped
    exact synced.restartNode node _
  | queryTabletNode =>
    simp only [QuotaCluster.step] at stepped
    split at stepped
    · cases stepped
    · cases stepped
      exact synced.congr rfl rfl rfl
  | queryTabletNodeAsync node =>
    simp only [QuotaCluster.step] at stepped
    split at stepped
    · cases stepped
      exact synced.queryTabletNodeAsync node _ _ _
    · cases stepped
  | finishDispatch =>
    simp only [QuotaCluster.step] at stepped
    split at stepped
    · cases stepped
      have stopped : ({ cluster with dispatching := false }).Synced := synced.congr rfl rfl rfl
      exact stopped.queryDone
    · cases stepped
  | handleQuery node =>
    simp only [QuotaCluster.step] at stepped
    split at stepped
    · cases stepped
    · cases stepped
      exact synced.handleQuery ‹_›
  | failQuery node =>
    simp only [QuotaCluster.step] at stepped
    split at stepped
    · cases stepped
    · cases stepped
      refine synced.of_follows (MasterQuotaEntry.follows_of_delta rfl rfl) synced.wellNamed rfl ?_
      intro addr request sent
      dsimp only at sent
      rw [Function.update_apply] at sent
      split at sent
      · cases sent
      · exact sent
  | queryTabletNodeCallback node =>
    simp only [QuotaCluster.step] at stepped
    split at stepped
    · cases stepped
    · cases stepped
      have answered :
          ({ cluster with responses := Function.update cluster.responses node none }).Synced :=
        synced.congr rfl rfl rfl
      split
      · have counted : ({ cluster with
            responses := Function.update cluster.responses node none
            updateQuotaPendingCount := cluster.updateQuotaPendingCount - 1 }).Synced :=
          synced.congr rfl rfl rfl
        exact counted.queryDone
      · exact answered.queryDone

end Synced

theorem synced_runSteps (tables : Table → Option (List Node)) (allTabletNodes : List Node)
    (queried : Node → Bool) (actions : List (QuotaAction Node Table))
    {final : QuotaCluster Node Table}
    (ran : runSteps step (init tables allTabletNodes queried) actions = some final) :
    final.Synced :=
  runSteps_invariant step Synced (fun _ _ _ synced stepped => synced.step stepped) actions _ final
    (synced_init tables allTabletNodes queried) ran

/-- In every run, a node at the master's current quota version holds every entry the master has
still to send it: the version handshake loses nothing the delta holds. -/
theorem runSteps_holds_delta (tables : Table → Option (List Node)) (allTabletNodes : List Node)
    (queried : Node → Bool) (actions : List (QuotaAction Node Table))
    {final : QuotaCluster Node Table}
    (ran : runSteps step (init tables allTabletNodes queried) actions = some final) (node : Node)
    (current : (final.tabletNodes node).version = final.master.version) :
    (final.tabletNodes node).Holds (final.master.deltaTsTableQuotasList node) :=
  (synced_runSteps tables allTabletNodes queried actions ran).holds node current

end QuotaCluster

/-! ## A quota left behind by a move -/

/-- A write quota of 10 for table `0`. -/
def writeQuota : TableQuota Nat := ⟨0, [⟨.kQuotaWriteReqs, 10, 1⟩], .kSetQuota⟩

/-- The quota is set while the table's one tablet is on node `0`, and the tablet then moves to
node `1` before the next round. The round queries both nodes, both answer at the current version,
and the round ends. -/
def moveAfterSetQuota : List (QuotaAction Nat Nat) :=
  [.addRecord writeQuota, .loadTablets 0 [1], .queryTabletNode, .queryTabletNodeAsync 0,
    .queryTabletNodeAsync 1, .finishDispatch, .handleQuery 0, .handleQuery 1,
    .queryTabletNodeCallback 0, .queryTabletNodeCallback 1]

/-- After the run, node `0` is at the master's version 3 and still holds the write limit of 10 for
table `0`, whose one tablet is on node `1`. The master has nothing left to send it and does not
mean to send again. `AddRecord` gave node `0` an entry, so `CaculateDeltaQuota` after the move did
not give it the unlimited quota. -/
theorem runSteps_move_keeps_stale_quota :
    (runSteps QuotaCluster.step
        (QuotaCluster.init (fun table => if table = 0 then some [0] else none) [0, 1] fun _ => true)
        moveAfterSetQuota).map
      (fun final => (final.master.version, (final.tabletNodes 0).version,
        (final.tabletNodes 0).tableQuotas 0, final.tables 0)) =
      some (3, 3, some writeQuota, some [1]) ∧
    (runSteps QuotaCluster.step
        (QuotaCluster.init (fun table => if table = 0 then some [0] else none) [0, 1] fun _ => true)
        moveAfterSetQuota).map
      (fun final => ((final.master.deltaTsTableQuotasList 0).entries.isEmpty,
        final.master.needUpdate)) =
      some (true, false) := by
  decide +kernel

/-- Before the callbacks of that round, node `1` has answered at the master's version 3 while the
master still has the quota's entry to send it; the node holds that entry. -/
theorem runSteps_holds_delta_answered :
    ∃ final, runSteps QuotaCluster.step
        (QuotaCluster.init (fun table => if table = 0 then some [0] else none) [0, 1] fun _ => true)
        (moveAfterSetQuota.take 8) = some final ∧
      (final.tabletNodes 1).version = final.master.version ∧
      (final.master.deltaTsTableQuotasList 1).entries.length = 1 ∧
      (final.tabletNodes 1).Holds (final.master.deltaTsTableQuotasList 1) := by
  have observed : (runSteps QuotaCluster.step
      (QuotaCluster.init (fun table => if table = 0 then some [0] else none) [0, 1] fun _ => true)
      (moveAfterSetQuota.take 8)).map (fun final => ((final.tabletNodes 1).version,
        final.master.version, (final.master.deltaTsTableQuotasList 1).entries.length)) =
      some (3, 3, 1) := by
    decide +kernel
  obtain ⟨final, ran, values⟩ := Option.map_eq_some_iff.mp observed
  simp only [Prod.mk.injEq] at values
  obtain ⟨node, master, pending⟩ := values
  have current : (final.tabletNodes 1).version = final.master.version := node.trans master.symm
  exact ⟨final, ran, current, pending, QuotaCluster.runSteps_holds_delta _ [0, 1] _ _ ran 1 current⟩

end Tera.Quota
