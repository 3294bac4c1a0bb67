/-
Sucredb.Dht.Cluster — the `DHT` of every node as one system: the ring each
node holds and the ring messages between them.

A node changes its ring only through `DHT::propose`, which applies a proposal
to a clone of the ring and, on success, keeps the result and broadcasts it in
a `DHTSync` to every other valid node of the new ring; and through
`DHT::on_message`, which merges a received ring into a clone and keeps the
clone when `merge` returns `Ok(true)`. A `DHTAE` carries a ring version, and
is answered with the ring when that version does not descend the local one.

The network keeps every message ever sent, and a delivery picks any of them,
any number of times: messages can be lost, duplicated and reordered. The
events are the proposals, the deliveries, the ring a node sends when it
connects to a peer (`on_connection`, with `dht_sync_on_connect`), and the
`DHTAE` requests of the anti-entropy tick (`broadcast_req`, with
`dht_sync_aae`), which picks its peers at random. A proposal that panics is
`none`, as is an event that cannot happen.

Serialization is left out: a `DHTSync` carries the ring itself, and the round
trip through `bincode` is taken to give it back.
-/
import Sucredb.Dht.Rebalance

namespace Sucredb

namespace Dht

variable {T : Type}

/-- `FabricMsg::DHTSync` and `FabricMsg::DHTAE`, with sender and receiver. -/
inductive Msg (T : Type) where
  | dhtSync (src dst : NodeId) (ring : Ring T)
  | dhtAE (src dst : NodeId) (version : VersionVector)

/-- The receiver of a message. -/
def Msg.dst : Msg T → NodeId
  | .dhtSync _ dst _ => dst
  | .dhtAE _ dst _ => dst

/-- The ring changes a node can propose: the `DHT` methods that call
`propose`. -/
inductive Proposal (T : Type) where
  | rebalance
  | removeNode (node : NodeId)
  | joinNode (node : NodeId) (addr : SocketAddr) (metadata : T)
  | replaceNode (old node : NodeId) (addr : SocketAddr) (metadata : T)
  | leaveNode (node : NodeId)
  | promotePendingNode (node : NodeId) (vnode : VNodeNo)

/-- The proposal's closure at node `this`. -/
def Proposal.apply [DecidableEq T] (this : NodeId) (r : Ring T) :
    Proposal T → Except RingError (Ring T)
  | .rebalance => r.rebalance this
  | .removeNode node => r.removeNode this node
  | .joinNode node addr metadata => r.joinNode this node addr metadata
  | .replaceNode old node addr metadata => r.replaceNode this old node addr metadata
  | .leaveNode node => r.leaveNode this node
  | .promotePendingNode node vnode => r.promotePendingNode this node vnode

/-- `DHT::broadcast`: a `DHTSync` of the ring to every valid node but this one. -/
def broadcast (this : NodeId) (r : Ring T) : List (Msg T) :=
  r.nodes.entries.filterMap fun e =>
    if e.1 = this ∨ e.2.status ≠ .valid then none else some (.dhtSync this e.1 r)

/-- The `DHTSync` arm of `DHT::on_message`: merge into a copy of the ring, and
keep the copy only when `merge` says it changed. -/
def onSync (ring incoming : Ring T) : Ring T :=
  match ring.merge incoming with
  | .ok (true, r) => r
  | _ => ring

/-- `DHT::on_message` at node `this`: its ring afterwards, and what it sends. -/
def onMessage (this : NodeId) (ring : Ring T) : Msg T → Ring T × List (Msg T)
  | .dhtSync _ _ incoming => (onSync ring incoming, [])
  | .dhtAE src _ version =>
    if ring.vnodes.isEmpty then (ring, [])
    else if !version.descends ring.version then (ring, [.dhtSync this src ring])
    else (ring, [])

/-- `DHT::nodes_for_vnode`: the nodes that serve vnode `vnNo`, its owners and,
on request, the pending and the retiring ones; `none` is the index panic. -/
def Ring.nodesForVnode (r : Ring T) (vnNo : VNodeNo) (includePending includeRetiring : Bool) :
    Option (List NodeId) :=
  r.vnodes[vnNo]?.map fun vn =>
    (vn.owners.entries.filter fun e =>
      match e.2 with
      | .owner => true
      | .pending => includePending
      | .retiring => includeRetiring).map Prod.fst

/-- Every owner of a vnode serves it, whatever its node's status. -/
theorem Ring.mem_nodesForVnode_of_owner {r : Ring T} {i : VNodeNo} {vn : VNode} {n : NodeId}
    (hvn : r.vnodes[i]? = some vn) (ho : vn.owners.get? n = some .owner)
    (includePending includeRetiring : Bool) :
    ∃ l, r.nodesForVnode i includePending includeRetiring = some l ∧ n ∈ l := by
  simp only [Ring.nodesForVnode, hvn, Option.map_some, Option.some.injEq, exists_eq_left']
  exact List.mem_map.mpr ⟨(n, .owner),
    List.mem_filter.mpr ⟨(VecMap.get?_eq_some_iff _).mp ho, rfl⟩, rfl⟩

/-- The rings of every node, and the ring messages ever sent. -/
structure Cluster (T : Type) where
  rings : NodeId → Ring T
  net : List (Msg T)

/-- What can happen in a cluster. -/
inductive Event (T : Type) where
  /-- Node `n` proposes a ring change. -/
  | propose (n : NodeId) (p : Proposal T)
  /-- The message at position `i` of the network arrives. -/
  | deliver (i : ℕ)
  /-- Node `n` connects to `peer`. -/
  | connect (n peer : NodeId)
  /-- The anti-entropy tick of node `n` picks `peer`. -/
  | aeRequest (n peer : NodeId)

namespace Cluster

/-- The cluster with node `n`'s ring replaced. -/
def setRing (c : Cluster T) (n : NodeId) (r : Ring T) : Cluster T :=
  { c with rings := Function.update c.rings n r }

/-- The cluster with messages sent. -/
def send (c : Cluster T) (ms : List (Msg T)) : Cluster T :=
  { c with net := c.net ++ ms }

@[simp] theorem rings_setRing (c : Cluster T) (n : NodeId) (r : Ring T) :
    (c.setRing n r).rings = Function.update c.rings n r := rfl

@[simp] theorem net_setRing (c : Cluster T) (n : NodeId) (r : Ring T) :
    (c.setRing n r).net = c.net := rfl

@[simp] theorem rings_send (c : Cluster T) (ms : List (Msg T)) : (c.send ms).rings = c.rings := rfl

@[simp] theorem net_send (c : Cluster T) (ms : List (Msg T)) : (c.send ms).net = c.net ++ ms := rfl

/-- `DHT::propose` at node `n`. A failed proposal returns its error to the
caller and leaves the ring as it was. -/
def propose [DecidableEq T] (c : Cluster T) (n : NodeId) (p : Proposal T) : Option (Cluster T) :=
  match p.apply n (c.rings n) with
  | .ok r => some ((c.setRing n r).send (broadcast n r))
  | .error (.error _) => some c
  | .error .panic => none

section Step

variable [DecidableEq T] (syncOnConnect syncAae : Bool)

/-- One event. -/
def step (c : Cluster T) : Event T → Option (Cluster T)
  | .propose n p => c.propose n p
  | .deliver i => do
    let m ← c.net[i]?
    let (r, out) := onMessage m.dst (c.rings m.dst) m
    some ((c.setRing m.dst r).send out)
  | .connect n peer =>
    if syncOnConnect ∧ !(c.rings n).vnodes.isEmpty then some (c.send [.dhtSync n peer (c.rings n)])
    else some c
  | .aeRequest n peer =>
    -- `broadcast_req` writes only with another valid node, and only to valid nodes
    let r := c.rings n
    if syncAae ∧ r.validNodesCount > 1 ∧ peer ≠ n ∧ (r.nodes.get? peer).map (·.status) = some .valid
    then some (c.send [.dhtAE n peer r.version])
    else none

end Step

/-- Every node holds the same ring, and nothing has been sent. -/
def initial (r : Ring T) : Cluster T := ⟨fun _ => r, []⟩

/-- The initial clusters: the nodes start from a common ring. -/
def Initial (c : Cluster T) : Prop := ∃ r, c = initial r

/-- The clusters some run reaches. -/
abbrev Reachable [DecidableEq T] (syncOnConnect syncAae : Bool) : Cluster T → Prop :=
  Sucredb.Reachable Initial (step syncOnConnect syncAae)

end Cluster

end Dht

end Sucredb
