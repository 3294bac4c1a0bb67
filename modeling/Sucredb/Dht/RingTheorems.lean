/-
Sucredb.Dht.RingTheorems — what the ring's gossip does with concurrent and
unversioned changes.

`merge` decides by the ring versions, so a change reaches the other nodes only
if it bumps the ring version, and two changes made concurrently are reconciled
by the node and vnode rules of the diverging case. Three consequences:

* `leave_node` bumps the versions of the node and of its vnodes, not the ring
  version: a peer holding the ring before the change drops the new ring
  (`leave_node_not_propagated`).
* A node whose versions in the two rings are concurrent is taken whole from
  the ring merged in, because the node branch tests
  `other_node.version.descends(&other_node.version)`: merging in the two
  orders gives two rings (`merge_order_dependent`), and once each side has
  merged the other their ring versions cover each other and gossip stops.
* A removal and a promotion of the same node, made concurrently, merge into a
  ring where the removed node owns the vnode (`remove_promote_owner_not_valid`):
  `nodes_for_vnode` routes to it, and `rebalance` panics.

Each is stated for every ring, and shown on a cluster of three nodes that an
admin builds at node `joinU64 1 0` from the one-partition ring every node
starts with (`join_node` of the three, then `rebalance`, whose broadcast the
two others adopt).

`rebalance` itself can fail on a ring that proposals reach: a node that hands
vnodes over stays listed as `Retiring` on them until the sync ends, and step 1
and the robin-hood step both skip every listed node. A node that leaves before
that leaves its vnodes to the one valid node not listed on them, over the share
`is_valid` allows (`rebalance_invalid_after_leave`).
-/
import Sucredb.Dht.Cluster

namespace Sucredb

namespace Dht

variable {T : Type}

/-! ## Leaving -/

/-- A leave of a node that was not leaving changes the ring but not its
version, and a peer holding the old ring keeps it. -/
theorem leave_node_not_propagated {r : Ring T} {this n : NodeId} {node : Node T}
    (hv : r.vnodes ≠ []) (hn : r.nodes.get? n = some node) (hs : node.status ≠ .leaving) :
    ∃ r', r.leaveNode this n = .ok r' ∧ r'.version = r.version ∧ r' ≠ r ∧ onSync r r' = r := by
  obtain ⟨r', hr'⟩ : ∃ r', r.leaveNode this n = .ok r' := ⟨_, rfl⟩
  obtain ⟨hver, hcl, hlen, hnodes⟩ := Ring.leaveNode_spec hr'
  refine ⟨r', hr', hver, fun h => ?_, ?_⟩
  · -- the node's status tells the two rings apart
    obtain ⟨x, hx, hxs, -⟩ := @Ring.get?_markNode_self T r.nodes this n .leaving node hn
    rw [← hnodes, h, hn] at hx
    exact hs (Option.some.inj hx ▸ hxs)
  · have hc : r'.MergeCompatible r := ⟨hcl, hlen, hv⟩
    rw [onSync, Ring.merge_of_descends hc.symm (hver ▸ VersionVector.descends_self r.version)]

/-- The admin at node `joinU64 1 0` marks it as leaving; the other two nodes
hold the ring from before, and the one the leave is sent to keeps it. -/
theorem leave_not_adopted_by_peer :
    ∃ p, run (Cluster.step false false) (Cluster.initial (Ring.new "sucredb" 1 1))
        [.propose (joinU64 1 0) (.joinNode (joinU64 1 0) 1 ()),
         .propose (joinU64 1 0) (.joinNode (joinU64 2 0) 2 ()),
         .propose (joinU64 1 0) (.joinNode (joinU64 3 0) 3 ()),
         .propose (joinU64 1 0) .rebalance, .deliver 3, .deliver 4] = some p ∧
      (∃ r', (p.rings (joinU64 2 0)).leaveNode (joinU64 2 0) (joinU64 1 0) = .ok r' ∧
        r'.version = (p.rings (joinU64 2 0)).version ∧ r' ≠ p.rings (joinU64 2 0) ∧
        onSync (p.rings (joinU64 2 0)) r' = p.rings (joinU64 2 0)) ∧
      ∃ p', run (Cluster.step false false) p
          [.propose (joinU64 2 0) (.leaveNode (joinU64 1 0)), .deliver 5] = some p' ∧
        p'.rings (joinU64 3 0) = p.rings (joinU64 3 0) ∧
        p'.rings (joinU64 3 0) ≠ p'.rings (joinU64 2 0) := by
  refine ⟨_, rfl, leave_node_not_propagated (by decide +kernel) rfl (by decide +kernel), _, rfl,
    by decide +kernel, by decide +kernel⟩

/-! ## Merging in two orders -/

/-- Two rings with concurrent versions, holding a node whose versions are
concurrent too, merge in the two orders into rings that each took the other's
node. -/
theorem merge_order_dependent {r₁ r₂ : Ring T} {n : NodeId} {a b : Node T}
    (hc : r₁.cluster = r₂.cluster) (hlen : r₁.vnodes.length = r₂.vnodes.length)
    (hv : r₂.vnodes ≠ []) (h₁ : r₁.version.descends r₂.version = false)
    (h₂ : r₂.version.descends r₁.version = false) (ha : r₁.nodes.get? n = some a)
    (hb : r₂.nodes.get? n = some b) (hab : a.version.descends b.version = false)
    (hba : b.version.descends a.version = false) :
    ∃ m₁ m₂, r₁.merge r₂ = .ok (true, m₁) ∧ r₂.merge r₁ = .ok (true, m₂) ∧
      m₁.nodes.get? n = some b ∧ m₂.nodes.get? n = some a ∧ m₁ ≠ m₂ := by
  have hc₁ : r₁.MergeCompatible r₂ := ⟨hc, hlen, hv⟩
  -- each side takes the other's node whole
  have hn₁ : (r₂.nodes.entries.foldl Ring.mergeNode r₁.nodes).get? n = some b := by
    rw [Ring.get?_foldl_mergeNode ha hb, Ring.mergeNodeValue_of_not_descends hab]
  have hn₂ : (r₁.nodes.entries.foldl Ring.mergeNode r₂.nodes).get? n = some a := by
    rw [Ring.get?_foldl_mergeNode hb ha, Ring.mergeNodeValue_of_not_descends hba]
  refine ⟨_, _, Ring.merge_of_concurrent hc₁ h₁ h₂, Ring.merge_of_concurrent hc₁.symm h₂ h₁,
    hn₁, hn₂, fun h => ?_⟩
  -- equal rings would hold one node, and a version descends itself
  have hba' : b = a := by
    simpa [hn₁, hn₂] using congrArg (fun m : Ring T => m.nodes.get? n) h
  rw [hba', VersionVector.descends_self] at hba
  exact Bool.noConfusion hba

/-- From the three-node ring, node `joinU64 2 0` removes node `joinU64 1 0`
while node `joinU64 3 0` joins it again at another address. Each merges the
other's ring: the first ends with the node valid, the second with it invalid,
and neither adopts the other's ring any more. -/
theorem remove_rejoin_diverge :
    ∃ p, run (Cluster.step false false) (Cluster.initial (Ring.new "sucredb" 1 1))
        [.propose (joinU64 1 0) (.joinNode (joinU64 1 0) 1 ()),
         .propose (joinU64 1 0) (.joinNode (joinU64 2 0) 2 ()),
         .propose (joinU64 1 0) (.joinNode (joinU64 3 0) 3 ()),
         .propose (joinU64 1 0) .rebalance, .deliver 3, .deliver 4,
         .propose (joinU64 2 0) (.removeNode (joinU64 1 0)),
         .propose (joinU64 3 0) (.joinNode (joinU64 1 0) 9 ())] = some p ∧
      (∃ a b, (p.rings (joinU64 2 0)).nodes.get? (joinU64 1 0) = some a ∧
        (p.rings (joinU64 3 0)).nodes.get? (joinU64 1 0) = some b ∧
        ∃ m₁ m₂, (p.rings (joinU64 2 0)).merge (p.rings (joinU64 3 0)) = .ok (true, m₁) ∧
          (p.rings (joinU64 3 0)).merge (p.rings (joinU64 2 0)) = .ok (true, m₂) ∧
          m₁.nodes.get? (joinU64 1 0) = some b ∧ m₂.nodes.get? (joinU64 1 0) = some a ∧
          m₁ ≠ m₂) ∧
      ∃ p', run (Cluster.step false false) p [.deliver 7, .deliver 5] = some p' ∧
        p'.rings (joinU64 2 0) ≠ p'.rings (joinU64 3 0) ∧
        onSync (p'.rings (joinU64 2 0)) (p'.rings (joinU64 3 0)) = p'.rings (joinU64 2 0) ∧
        onSync (p'.rings (joinU64 3 0)) (p'.rings (joinU64 2 0)) = p'.rings (joinU64 3 0) := by
  refine ⟨_, rfl, ⟨_, _, rfl, rfl, merge_order_dependent (by decide +kernel) (by decide +kernel)
    (by decide +kernel) (by decide +kernel) (by decide +kernel) rfl rfl (by decide +kernel)
    (by decide +kernel)⟩, _, rfl, by decide +kernel, by decide +kernel, by decide +kernel⟩

/-! ## Removing and promoting at once -/

/-- A `remove_node` merged with a ring that kept the node's entry leaves the
node not valid: the removal bumped the node's version past the other's. -/
theorem removed_not_valid_after_merge {r ra : Ring T} {this n : NodeId}
    (hra : r.removeNode this n = .ok ra) :
    ((r.nodes.entries.foldl Ring.mergeNode ra.nodes).get? n).map (·.status) ≠ some .valid := by
  obtain ⟨-, -, hnodes, -⟩ := Ring.removeNode_spec hra
  cases hg : r.nodes.get? n with
  | none =>
    rw [Ring.get?_foldl_mergeNode_of_none hg, hnodes, Ring.get?_markNode, if_pos rfl, hg]
    simp
  | some node =>
    obtain ⟨x, hx, hxs, hxd⟩ := @Ring.get?_markNode_self T r.nodes this n .invalid node hg
    rw [← hnodes] at hx
    rw [Ring.get?_foldl_mergeNode hx hg, Ring.mergeNodeValue_of_descends hxd]
    simp [hxs]

/-- The vnode a concurrent removal and promotion both changed lists the
promoted node as owner after the merge. -/
theorem promoted_owner_after_merge {r ra rc : Ring T} {a c n : NodeId} {i : VNodeNo}
    {vn : VNode} (hac : a ≠ c) (hvn : r.vnodes[i]? = some vn)
    (hp : vn.owners.get? n = some .pending) (hra : r.removeNode a n = .ok ra)
    (hrc : rc.vnodes = r.vnodes.set i
      (VNode.pruneRetiring ⟨vn.owners.insert n .owner, vn.version.event c⟩)) :
    ∃ v, (List.zipWith Ring.mergeVNode ra.vnodes rc.vnodes)[i]? = some v ∧
      v.owners.get? n = some .owner := by
  obtain ⟨-, -, -, hvnodes⟩ := Ring.removeNode_spec hra
  have hkey : n ∈ vn.owners.keys := (vn.owners.mem_keys_iff).mpr ⟨_, hp⟩
  have hi : i < r.vnodes.length := (List.getElem?_eq_some_iff.mp hvn).1
  have hA : ra.vnodes[i]? = some ⟨vn.owners.erase n, vn.version.event a⟩ := by
    simp [hvnodes, hvn, hkey]
  have hC : rc.vnodes[i]? =
      some (VNode.pruneRetiring ⟨vn.owners.insert n .owner, vn.version.event c⟩) := by
    rw [hrc, List.getElem?_set_self hi]
  refine ⟨_, by rw [List.getElem?_zipWith, hA, hC], ?_⟩
  -- the two vnode versions were bumped by different nodes
  apply Ring.get?_mergeVNode_of_concurrent
  · simpa using VersionVector.event_descends_event_eq_false vn.version hac
  · simpa using VersionVector.event_descends_event_eq_false vn.version (Ne.symm hac)
  · simp
  · exact Ring.get?_pruneRetiring_of_ne (by decide) (by simp)
  · decide

/-- One node removes a node while another promotes it from `Pending` on a
vnode. Once the removal's ring merges the promotion's, the node owns the
vnode without being valid: reads and writes of the vnode are routed to it,
and `rebalance` panics. -/
theorem remove_promote_owner_not_valid {r : Ring T} {a c n : NodeId} {i : VNodeNo} {vn : VNode}
    (hac : a ≠ c) (hvn : r.vnodes[i]? = some vn) (hp : vn.owners.get? n = some .pending) :
    ∃ ra rc m, r.removeNode a n = .ok ra ∧ r.promotePendingNode c n i = .ok rc ∧
      ra.merge rc = .ok (true, m) ∧ (m.nodes.get? n).map (·.status) ≠ some .valid ∧
      (∃ l, m.nodesForVnode i false false = some l ∧ n ∈ l) ∧ ¬ m.OwnersValid ∧
      (m.replicationFactor < m.validNodesCount → m.rebalance a = .error .panic) := by
  obtain ⟨ra, hra⟩ : ∃ ra, r.removeNode a n = .ok ra := ⟨_, rfl⟩
  obtain ⟨hver, hcl, -, hvnodes⟩ := Ring.removeNode_spec hra
  obtain ⟨rc, hrc, hver', hcl', hnodes', hvnodes'⟩ := @Ring.promotePendingNode_spec T r c n i vn hvn hp
  have hlen : ra.vnodes.length = rc.vnodes.length := by simp [hvnodes, hvnodes']
  have hi : i < r.vnodes.length := (List.getElem?_eq_some_iff.mp hvn).1
  have hne : rc.vnodes ≠ [] := by
    apply List.ne_nil_of_length_pos
    rw [hvnodes', List.length_set]
    exact Nat.zero_lt_of_lt hi
  -- the two ring versions were bumped by different nodes
  have h₁ : ra.version.descends rc.version = false := by
    rw [hver, hver']
    exact VersionVector.event_descends_event_eq_false r.version hac
  have h₂ : rc.version.descends ra.version = false := by
    rw [hver, hver']
    exact VersionVector.event_descends_event_eq_false r.version (Ne.symm hac)
  obtain ⟨m, hm, hmn, hmv⟩ : ∃ m, ra.merge rc = .ok (true, m) ∧
      m.nodes = rc.nodes.entries.foldl Ring.mergeNode ra.nodes ∧
      m.vnodes = List.zipWith Ring.mergeVNode ra.vnodes rc.vnodes :=
    ⟨_, Ring.merge_of_concurrent ⟨hcl.trans hcl'.symm, hlen, hne⟩ h₁ h₂, rfl, rfl⟩
  obtain ⟨v, hv, hown⟩ := promoted_owner_after_merge hac hvn hp hra hvnodes'
  rw [← hmv] at hv
  have hinv := removed_not_valid_after_merge hra
  rw [← hnodes', ← hmn] at hinv
  have hnot := Ring.not_ownersValid hv hown (by decide) hinv
  exact ⟨ra, rc, m, hra, hrc, hm, hinv, Ring.mem_nodesForVnode_of_owner hv hown false false,
    hnot, fun hrf => Ring.rebalance_eq_panic hrf hnot⟩

/-- From the three-node ring, where node `joinU64 1 0` is pending on the one
vnode, node `joinU64 2 0` removes it while node `joinU64 3 0` promotes it. The
first receives the second's ring: it routes the vnode to the removed node,
and its next `rebalance` panics. -/
theorem removed_node_owns_after_gossip :
    ∃ p, run (Cluster.step false false) (Cluster.initial (Ring.new "sucredb" 1 1))
        [.propose (joinU64 1 0) (.joinNode (joinU64 1 0) 1 ()),
         .propose (joinU64 1 0) (.joinNode (joinU64 2 0) 2 ()),
         .propose (joinU64 1 0) (.joinNode (joinU64 3 0) 3 ()),
         .propose (joinU64 1 0) .rebalance, .deliver 3, .deliver 4] = some p ∧
      (∃ ra rc m, (p.rings (joinU64 2 0)).removeNode (joinU64 2 0) (joinU64 1 0) = .ok ra ∧
        (p.rings (joinU64 2 0)).promotePendingNode (joinU64 3 0) (joinU64 1 0) 0 = .ok rc ∧
        ra.merge rc = .ok (true, m) ∧ (m.nodes.get? (joinU64 1 0)).map (·.status) ≠ some .valid ∧
        (∃ l, m.nodesForVnode 0 false false = some l ∧ joinU64 1 0 ∈ l) ∧ ¬ m.OwnersValid ∧
        (m.replicationFactor < m.validNodesCount →
          m.rebalance (joinU64 2 0) = .error .panic)) ∧
      p.rings (joinU64 3 0) = p.rings (joinU64 2 0) ∧
      run (Cluster.step false false) p
        [.propose (joinU64 2 0) (.removeNode (joinU64 1 0)),
         .propose (joinU64 3 0) (.promotePendingNode (joinU64 1 0) 0), .deliver 7,
         .propose (joinU64 2 0) .rebalance] = none := by
  refine ⟨_, rfl, remove_promote_owner_not_valid (by decide +kernel) rfl (by decide +kernel),
    by decide +kernel, by decide +kernel⟩

/-! ## Leaving during a rebalance -/

/-- Node `joinU64 1 0` holds the 32 vnodes of a ring with one replica each;
nodes `joinU64 4 0` and `joinU64 5 0` join, and a rebalance hands 21 vnodes
over to them, node `joinU64 1 0` staying listed as `Retiring` on each. Node
`joinU64 5 0` then leaves, and the next rebalance gives its ten vnodes to
node `joinU64 4 0`, which then replicates 21 vnodes against a bound of 16. -/
theorem rebalance_invalid_after_leave :
    let r : Except RingError (Ring Unit) := (Ring.new "sucredb" 32 1).joinNode (joinU64 1 0)
        (joinU64 1 0) 1 () >>= (·.rebalance (joinU64 1 0)) >>=
      (·.joinNode (joinU64 1 0) (joinU64 4 0) 4 ()) >>=
      (·.joinNode (joinU64 1 0) (joinU64 5 0) 5 ()) >>= (·.rebalance (joinU64 1 0)) >>=
      (·.leaveNode (joinU64 1 0) (joinU64 5 0))
    r.map Ring.validNodesCount = .ok 2 ∧
      (r >>= (·.rebalance (joinU64 1 0))).map (fun _ => ()) = .error (.error ("node " ++
        "17179869184 is a replica for 21 vnodes, expected 16 max, " ++
        "\x7b17179869184: 21, 4294967296: 11\x7d")) := by
  intro r
  constructor <;> decide +kernel

end Dht

end Sucredb
