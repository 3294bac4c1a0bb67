/-
Sucredb.Database.Routing — how a node's database follows its ring: the fabric
addresses and the vnode statuses it takes from the ring, and the redirect a
client gets from a vnode that cannot coordinate.

`Database::new` and `Database::handler_dht_change`, which runs on every change
of the ring, hand the fabric the ring's `members` (`set_nodes`). `new` creates
the vnodes with the statuses of `vnodes_for_node`: `Ready` for those the node
owns or retires from, `Bootstrap` for those it is pending for, `Absent` for the
others. `handler_dht_change` gives each vnode the final status `Ready` when
`nodes_for_vnode(_, true, true)` lists the node and `Absent` otherwise, and
leaves the way there to `VNode::handler_dht_change`.

A vnode that is not `Ready` does not coordinate a write
(`VNode::respond_cant_coordinate`). It answers `MOVED`, or `ASK` while
bootstrapping, with the hash slot of the batch's first key and the client
address of another node that `nodes_for_vnode_ex(_, true, false)` lists,
picked at random by a shuffle, or `Unavailable` when there is no other. With
`key_vnode` choosing the vnode, the node named is one that `CLUSTER SLOTS`
lists for the range of that hash slot.

The meta storage (`save_ring` and the node id) is not modelled here.
-/
import Sucredb.Dht.Queries
import Sucredb.Fabric.Connections
import Sucredb.VNode.Handlers

namespace Sucredb

variable {T : Type}

/-! ## The model -/

/-- What `VNode::respond_cant_coordinate` answers: the error of
`Database::respond_moved` or `respond_ask`, with a hash slot and a client
address, or `CommandError::Unavailable`. -/
inductive CantCoordinate (T : Type) where
  | moved (hashSlot : UInt16) (addr : T)
  | ask (hashSlot : UInt16) (addr : T)
  | unavailable
deriving DecidableEq

/-- `VNode::respond_cant_coordinate` at node `this`, for vnode `num` of status
`status`, with `key` the key of the batch's first write and `shuffle` the
random order `thread_rng().shuffle` gives the nodes; `none` is a panic: the
`unreachable!` of a `Ready` vnode, or `nodes_for_vnode_ex`'s. -/
def respondCantCoordinate (ring : Dht.Ring T) (this : NodeId) (num : Dht.VNodeNo)
    (status : VNodeStatus) (key : Bytes)
    (shuffle : List (NodeId × (Dht.SocketAddr × T)) → List (NodeId × (Dht.SocketAddr × T))) :
    Option (CantCoordinate T) := do
  let hashSlot := Hash.hashSlot key
  let nodes ← ring.nodesForVnodeEx num true false
  match (shuffle nodes).find? (·.1 ≠ this) with
  | some (_, (_, addr)) =>
    match status with
    | .absent | .zombie => some (.moved hashSlot addr)
    | .bootstrap => some (.ask hashSlot addr)
    | .ready => none
  | none => some .unavailable

namespace Database

/-- The statuses `Database::new` creates the vnodes with, by number. -/
def newVnodeStatuses (r : Dht.Ring T) (node : NodeId) : List VNodeStatus :=
  let readyVnodes := (r.vnodesForNode node).1
  let pendingVnodes := (r.vnodesForNode node).2
  (List.range r.partitions).map fun i =>
    if readyVnodes.contains i then .ready
    else if pendingVnodes.contains i then .bootstrap
    else .absent

/-- The final status `Database::handler_dht_change` gives vnode `i`; `none` is
the index panic of `nodes_for_vnode`. -/
def finalStatus (r : Dht.Ring T) (node : NodeId) (i : Dht.VNodeNo) : Option VNodeStatus :=
  (r.nodesForVnode i true true).map fun nodes => if nodes.contains node then .ready else .absent

/-- `Database::handler_dht_change` up to the vnode handlers: the fabric after
`set_nodes` with the ring's members, the connections that starts, and the
final statuses of the database's `vnodeCount` vnodes. -/
def dhtChange (c : Fabric.SharedContext) (r : Dht.Ring T) (vnodeCount : ℕ) :
    Fabric.SharedContext × List (NodeId × Dht.SocketAddr) × Option (List VNodeStatus) :=
  let fabric := Fabric.setNodes c r.members
  (fabric.1, fabric.2, (List.range vnodeCount).mapM (finalStatus r c.node))

/-! ## The vnode statuses -/

section Statuses

variable {r : Dht.Ring T} {node : NodeId}

/-- The status `Database::new` gives a vnode, from the node's status among its
owners. -/
theorem getElem?_newVnodeStatuses {i : ℕ} {vn : Dht.VNode} (hvn : r.vnodes[i]? = some vn) :
    (newVnodeStatuses r node)[i]? = some (match vn.owners.get? node with
      | some .owner | some .retiring => .ready
      | some .pending => .bootstrap
      | none => .absent) := by
  have hi : i < r.partitions := (List.getElem?_eq_some_iff.mp hvn).1
  have hlists : (i ∈ (r.vnodesForNode node).1 ↔ ∃ vn, r.vnodes[i]? = some vn ∧
        (vn.owners.get? node = some .owner ∨ vn.owners.get? node = some .retiring)) ∧
      (i ∈ (r.vnodesForNode node).2 ↔ ∃ vn, r.vnodes[i]? = some vn ∧
        vn.owners.get? node = some .pending) := Dht.Ring.mem_vnodesForNode
  obtain ⟨hready, hpending⟩ := hlists
  simp only [hvn, Option.some.injEq, exists_eq_left'] at hready hpending
  simp only [newVnodeStatuses, List.getElem?_map, List.getElem?_range hi, Option.map_some,
    Option.some.injEq, List.contains_iff_mem, hready, hpending]
  rcases hs : vn.owners.get? node with _ | ⟨_ | _ | _⟩ <;> simp

end Statuses

/-! ## The fabric's addresses -/

/-- `set_nodes` with the ring's members, as `Database::new` and every
`handler_dht_change` call it: the fabric then holds, for every node other than
itself, the address the ring gives it when it is not `Invalid`, and no address
otherwise; a connection starts to exactly those nodes whose address changed; a
second change to the same ring starts none; and once a node is left out or
`Invalid`, the connection loop to it stops reconnecting. -/
theorem dht_change_registers_members (c : Fabric.SharedContext) (r : Dht.Ring T)
    (vnodeCount : ℕ) :
    (∀ k, (dhtChange c r vnodeCount).1.nodesAddr.get? k =
      if k = c.node then none
      else ((r.nodes.get? k).filter fun n => n.status ≠ .invalid).map (·.addr)) ∧
    (∀ m, m ∈ (dhtChange c r vnodeCount).2.1 ↔ m.1 ≠ c.node ∧
      ((r.nodes.get? m.1).filter fun n => n.status ≠ .invalid).map (·.addr) = some m.2 ∧
      c.nodesAddr.get? m.1 ≠ some m.2) ∧
    (dhtChange (dhtChange c r vnodeCount).1 r vnodeCount).2.1 = [] ∧
    ∀ k, (k = c.node ∨ ∀ n, r.nodes.get? k = some n → n.status = .invalid) →
      Fabric.reconnect (dhtChange c r vnodeCount).1 (some k) = none := by
  obtain ⟨haddr, hstart, hagain, hgone⟩ := Fabric.set_nodes_tracks_members c Dht.Ring.nodup_members
  -- a member is a node that is not `Invalid`, at its address
  have hmem : ∀ m : NodeId × Dht.SocketAddr, m ∈ r.members ↔
      ((r.nodes.get? m.1).filter fun n => n.status ≠ .invalid).map (·.addr) = some m.2 := by
    intro m
    rw [← Dht.Ring.lookup_members, VecMap.lookup_eq_some_of_nodup Dht.Ring.nodup_members]
  refine ⟨fun k => ?_, fun m => ?_, hagain, fun k hk => hgone k ?_⟩
  · rw [dhtChange, haddr, Dht.Ring.lookup_members]
    by_cases hkc : k = c.node <;> simp [hkc]
  · rw [dhtChange, hstart, hmem]
    exact ⟨fun h => ⟨h.2.1, h.1, h.2.2⟩, fun h => ⟨h.2.1, h.1, h.2.2⟩⟩
  · rcases hk with hk | hk
    · exact Or.inl hk
    · -- a node the ring leaves out or marks `Invalid` is no member
      refine Or.inr fun hk' => ?_
      obtain ⟨m, hm, rfl⟩ := List.mem_map.mp hk'
      have hm' := (hmem m).mp hm
      obtain ⟨n, hn, -⟩ := Option.map_eq_some_iff.mp hm'
      obtain ⟨hn', hs⟩ := Option.filter_eq_some_iff.mp hn
      exact of_decide_eq_true hs (hk n hn')

end Database

/-! ## The redirect -/

/-- A vnode that cannot coordinate a write never panics and sends the client
to its key's slot: on a ring whose vnodes divide `HASH_SLOTS` and whose listed
owners are valid nodes, whatever the shuffle, the vnode `key_vnode` picks for
the batch's first key answers with the key's hash slot and the client address
of a node other than itself that `CLUSTER SLOTS` lists for the range holding
that slot (`ASK` while bootstrapping, `MOVED` otherwise), or `Unavailable`
exactly when the range lists no other node. -/
theorem cant_coordinate_redirects_within_slot {r : Dht.Ring T} (hp : r.partitions ∣ 16384)
    (hpos : 0 < r.partitions) (hr : r.OwnersValid) (this : NodeId) {status : VNodeStatus}
    (hs : status ≠ .ready)
    {shuffle : List (NodeId × (Dht.SocketAddr × T)) → List (NodeId × (Dht.SocketAddr × T))}
    (hσ : ∀ l, (shuffle l).Perm l) (key : Bytes) :
    ∃ m v k ms, r.slots = some m ∧ r.keyVnode key = some v ∧ k ∈ m.keys ∧
      k.1 ≤ Hash.hashSlot key ∧ Hash.hashSlot key ≤ k.2 ∧ m.get? k = some ms ∧
      ((respondCantCoordinate r this v status key shuffle = some .unavailable ∧
          ∀ e ∈ ms, e.1 = this) ∨
        ∃ e ∈ ms, e.1 ≠ this ∧ respondCantCoordinate r this v status key shuffle =
          some (if status = .bootstrap then .ask (Hash.hashSlot key) e.2.2
            else .moved (Hash.hashSlot key) e.2.2)) := by
  obtain ⟨m, hm, -⟩ := Dht.Ring.slots_spec hp hpos hr
  obtain ⟨v, k, ms, hkv, hk, hk₁, hk₂, hget, hex⟩ := Dht.Ring.slots_route_key hp hpos hr hm key
  refine ⟨m, v, k, ms, hm, hkv, hk, hk₁, hk₂, hget, ?_⟩
  simp only [respondCantCoordinate, hex, Option.bind_eq_bind, Option.bind_some]
  cases hfind : (shuffle ms).find? (·.1 ≠ this) with
  | none =>
    -- every node listed is this one
    refine Or.inl ⟨rfl, fun e he => ?_⟩
    have hne := List.find?_eq_none.mp hfind e ((hσ ms).mem_iff.mpr he)
    simpa using hne
  | some e =>
    obtain ⟨n, a, addr⟩ := e
    have he := (hσ ms).mem_iff.mp (List.mem_of_find?_eq_some hfind)
    have hn : n ≠ this := by simpa using List.find?_some hfind
    refine Or.inr ⟨(n, a, addr), he, hn, ?_⟩
    cases status with
    | ready => exact absurd rfl hs
    | bootstrap => rfl
    | zombie => rfl
    | absent => rfl

/-- On the ring `DHT::init` starts from, an `Absent` vnode answers a write to
the empty key without a panic. -/
theorem cant_coordinate_fresh_ring :
    ∃ v res, (Dht.Ring.new "sucredb" 32 1 : Dht.Ring Unit).keyVnode [] = some v ∧
      respondCantCoordinate (Dht.Ring.new "sucredb" 32 1 : Dht.Ring Unit) 1 v .absent [] id =
        some res := by
  obtain ⟨m, v, k, ms, -, hkv, -, -, -, -, hres⟩ :=
    cant_coordinate_redirects_within_slot (r := (Dht.Ring.new "sucredb" 32 1 : Dht.Ring Unit))
      (by decide) (by decide) (by decide) 1 (show VNodeStatus.absent ≠ .ready by decide)
      (fun l => List.Perm.refl l) []
  rcases hres with ⟨hres, -⟩ | ⟨e, -, -, hres⟩
  · exact ⟨v, _, hkv, hres⟩
  · exact ⟨v, _, hkv, hres⟩

/-! ## Starting a cluster -/

section Init

variable [DecidableEq T]

/-- The partition counts `DHT::init` accepts divide `HASH_SLOTS`. -/
theorem dvd_hashSlots_of_pow {partitions : ℕ} (hpow : ∃ k, partitions = 2 ^ k)
    (h1024 : partitions ≤ 1024) : partitions ∣ 16384 := by
  obtain ⟨k, rfl⟩ := hpow
  have hk : k ≤ 14 := by
    by_contra hk
    have := Nat.pow_le_pow_right (by decide : 0 < 2) (Nat.lt_of_not_le hk)
    omega
  exact (Nat.pow_dvd_pow 2 hk).trans (by decide)

/-- A node that starts a cluster serves every key. With the partition count and
replication factor that `DHT::init` accepts, and no old node id, `init`
succeeds and the node alone owns every vnode of its ring; `CLUSTER SLOTS`
tiles the hash slots and lists the node, with its address and client address,
for every range; every key's vnode has the node as its one coordinator; and
`Database::new` starts every vnode `Ready`. -/
theorem init_node_serves_every_key (cluster : String) (this : NodeId) (addr : Dht.SocketAddr)
    (metadata : T) {partitions rf : ℕ} (hpow : ∃ k, partitions = 2 ^ k) (h32 : 32 ≤ partitions)
    (h1024 : partitions ≤ 1024) (hrf : 1 ≤ rf) (hrf6 : rf ≤ 6) :
    ∃ r, Dht.initRing cluster this addr metadata partitions rf none = some r ∧
      r.partitions = partitions ∧
      (∀ vn ∈ r.vnodes, vn.owners.keys = [this] ∧ vn.owners.get? this = some .owner) ∧
      (∃ m, r.slots = some m ∧
        (∀ s : UInt16, s < Hash.hashSlots → ∃! k, k ∈ m.keys ∧ k.1 ≤ s ∧ s ≤ k.2) ∧
        ∀ k ms, m.get? k = some ms → ms = [(this, (addr, metadata))]) ∧
      (∀ key, ∃ v, r.keyVnode key = some v ∧
        r.nodesForVnodeEx v true false = some [(this, (addr, metadata))]) ∧
      Database.newVnodeStatuses r this = List.replicate partitions .ready := by
  refine ⟨_, Dht.initRing_eq cluster this addr metadata hpow h32 h1024 hrf hrf6, ?_⟩
  have hdvd : (Dht.Ring.initialRing cluster this addr metadata partitions rf).partitions ∣ 16384 := by
    rw [Dht.Ring.partitions_initialRing]
    exact dvd_hashSlots_of_pow hpow h1024
  have hpos : 0 < (Dht.Ring.initialRing cluster this addr metadata partitions rf).partitions := by
    rw [Dht.Ring.partitions_initialRing]
    omega
  have hvalid : (Dht.Ring.initialRing cluster this addr metadata partitions rf).OwnersValid :=
    Dht.Ring.ownersValid_initialRing
  obtain ⟨m, hm, hkeys, hget⟩ := Dht.Ring.slots_spec hdvd hpos hvalid
  refine ⟨Dht.Ring.partitions_initialRing, fun vn hmem => ?_, ⟨m, hm,
    fun s hs => Dht.Ring.slots_tile hdvd hpos hvalid hm hs, fun k ms hk => ?_⟩, fun key => ?_, ?_⟩
  · obtain rfl := List.eq_of_mem_replicate hmem
    exact ⟨rfl, Dht.Ring.get?_owners_loneVNode⟩
  · -- every range is a vnode's, whose members are the lone node
    obtain ⟨i, hi, rfl⟩ := hkeys k ((VecMap.mem_keys_iff _).mpr ⟨ms, hk⟩)
    rw [hget i _ (Dht.Ring.getElem?_vnodes_initialRing cluster this addr metadata rf
        (by simpa using hi)),
      Dht.Ring.slotMembers_initialRing] at hk
    exact (Option.some.inj hk).symm
  · obtain ⟨hkv, hlt⟩ := Dht.Ring.keyVnode_eq hdvd hpos key
    have hvn := Dht.Ring.getElem?_vnodes_initialRing cluster this addr metadata rf
      (lt_of_lt_of_eq hlt Dht.Ring.partitions_initialRing)
    exact ⟨_, hkv, (Dht.Ring.nodesForVnodeEx_true_false hvn).trans Dht.Ring.slotMembers_initialRing⟩
  · refine List.ext_getElem? fun i => ?_
    by_cases hi : i < partitions
    · rw [Database.getElem?_newVnodeStatuses
          (Dht.Ring.getElem?_vnodes_initialRing cluster this addr metadata rf hi),
        List.getElem?_replicate_of_lt hi, Dht.Ring.get?_owners_loneVNode]
    · rw [List.getElem?_eq_none (by simp [Database.newVnodeStatuses]; omega),
        List.getElem?_eq_none (by simp; omega)]

/-- A node that inits a cluster of 32 vnodes starts every vnode `Ready`. -/
theorem init_node_serves_32 :
    ∃ r, Dht.initRing "sucredb" 1 7 () 32 1 none = some r ∧
      Database.newVnodeStatuses r 1 = List.replicate 32 .ready := by
  obtain ⟨r, hr, -, -, -, -, hnew⟩ :=
    init_node_serves_every_key "sucredb" 1 7 () (⟨5, rfl⟩ : ∃ k, 32 = 2 ^ k) (by decide) (by decide)
      (show 1 ≤ 1 by decide) (by decide)
  exact ⟨r, hr, hnew⟩

end Init

end Sucredb
