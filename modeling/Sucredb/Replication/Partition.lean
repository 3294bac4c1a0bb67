/-
Sucredb.Replication.Partition — the replicas of one partition as one system.

Every node holds a vnode of the partition (one that does not own it is
`Absent`). The network keeps every message ever sent: a delivery picks any of
them, any number of times, so messages can be lost, duplicated and reordered.
The events are the client writes a vnode coordinates (`do_flush`, whose
`MsgRemoteSet` goes to the replicas the ring names), deliveries, the syncs and
bootstraps a vnode starts and the ticks of their sessions, the status changes
the ring and the zombie timeout cause, and restarts.

`writes` is not part of the program: it records, for every batch `do_flush`
stored, the dot and the key of each write, so that statements can speak of
"the writes coordinated so far".

A restart stops the node (after `Database::save(true)` when it is clean) and
starts it again at once, loading the vnode with the status the ring gives it;
the node keeps its place in the model, whatever id it takes.
-/
import Sucredb.VNode.Handlers
import Sucredb.Lib.Reachable

namespace Sucredb

/-- `VNode::new` on a node with no saved state for the vnode: `new_empty` and
`save(false)`; a `Bootstrap` vnode starts its bootstrap, deferred as in
`Sucredb.VNode.Handlers`. -/
def VNode.fresh (self : NodeId) (num : ℕ) (status : VNodeStatus) (rnd : ℕ) : VNode :=
  ⟨{ (VNodeState.newEmpty num status .empty self rnd).save false with
      pendingBootstrap := status = .bootstrap }, VecMap.empty⟩

/-- The replicas of one partition, the messages between them, and the writes
coordinated so far. -/
structure Partition where
  nodes : NodeId → VNode
  net : List Msg
  writes : List (Dot × Bytes)

/-- What can happen in a partition. -/
inductive Event where
  /-- Node `n` coordinates a client batch of write commands, each on its key,
  and replicates it to `replicas`. -/
  | flush (n : NodeId) (writes : List (Bytes × WriteCmd)) (replicas : List NodeId)
  /-- The message at position `i` of the network arrives. -/
  | deliver (i : ℕ) (zombieFresh promoted : Bool)
  /-- Node `n` starts a sync from `peer` (`do_start_sync`). -/
  | startSync (n peer : NodeId) (cookie : Cookie)
  /-- The tick starts node `n`'s pending bootstrap. -/
  | startBootstrap (n : NodeId) (peer : Option NodeId) (cookie : Cookie) (promoted : Bool)
  /-- The tick of a sending session. -/
  | syncTick (n : NodeId) (cookie : Cookie)
  /-- A session times out. -/
  | syncTimeout (n : NodeId) (cookie : Cookie)
  /-- The ring changes node `n`'s final status for the vnode. -/
  | dhtChange (n : NodeId) (final : VNodeStatus) (rnd : ℕ)
  /-- A zombie's timeout passes. -/
  | zombieTimeout (n : NodeId)
  /-- Node `n` stops, cleanly or not, and starts again. -/
  | restart (n : NodeId) (clean : Bool) (status : VNodeStatus) (rnd : ℕ)

namespace Partition

section Step

variable (limit window : ℕ)

/-- The partition with node `n`'s vnode replaced. -/
def setNode (p : Partition) (n : NodeId) (vn : VNode) : Partition :=
  { p with nodes := Function.update p.nodes n vn }

/-- The partition with messages sent. -/
def send (p : Partition) (ms : List Msg) : Partition :=
  { p with net := p.net ++ ms }

/-- Node `n`'s vnode handles `r`: the new vnode and the messages it sends. -/
def update (p : Partition) (n : NodeId) (r : Option (VNode × List Msg)) : Option Partition :=
  r.map fun r => (p.setNode n r.1).send r.2

/-- The receiver of a message handles it. -/
def deliverMsg (p : Partition) (zombieFresh promoted : Bool) : Msg → Option Partition
  | .remoteSet _ dst writes =>
    p.update dst (((p.nodes dst).handlerSetRemote writes).map (·, []))
  | .syncStart src dst cookie cip target =>
    p.update dst ((p.nodes dst).handlerSyncStart limit window dst src cookie cip target zombieFresh)
  | .syncSend src dst cookie seq key value =>
    p.update dst ((p.nodes dst).handlerSyncSend dst src cookie seq key value)
  | .syncAck src dst cookie seq =>
    p.update dst ((p.nodes dst).handlerSyncAck limit window dst src cookie seq)
  | .syncFin src dst cookie result =>
    p.update dst ((p.nodes dst).handlerSyncFin dst src cookie result promoted)

/-- `VNode::do_flush` at node `n` on the writes `Database::set` queued: a
stored batch is sent to the replicas and recorded in `writes`. -/
def flush (p : Partition) (n : NodeId) (ws : List (Bytes × WriteCmd)) (replicas : List NodeId) :
    Option Partition :=
  let vn := p.nodes n
  match vn.state.doFlush (ws.map fun w => .ofCmd w.1 w.2) with
  | (_, .panic) => none
  | (st, .ok done msg) =>
    some { (p.setNode n { vn with state := st }).send (replicas.map (.remoteSet n · msg)) with
      writes := p.writes ++ done.map fun w => ((vn.state.id, w.version), w.key) }
  | (st, _) => some (p.setNode n { vn with state := st })

/-- One event. -/
def step (p : Partition) : Event → Option Partition
  | .flush n ws replicas => p.flush n ws replicas
  | .deliver i zombieFresh promoted => do
    let m ← p.net[i]?
    p.deliverMsg limit window zombieFresh promoted m
  | .startSync n peer cookie => p.update n ((p.nodes n).doStartSync limit window n peer cookie)
  | .startBootstrap n peer cookie promoted =>
    p.update n ((p.nodes n).startBootstrap n peer cookie promoted)
  | .syncTick n cookie => p.update n ((p.nodes n).syncTick limit window n cookie)
  | .syncTimeout n cookie => p.update n (((p.nodes n).syncTimeout cookie).map (·, []))
  | .dhtChange n final rnd => p.update n ((p.nodes n).handlerDhtChange n final rnd)
  | .zombieTimeout n => p.update n (((p.nodes n).zombieTimeout).map (·, []))
  | .restart n clean status rnd =>
    let st := (p.nodes n).state
    p.update n ((VNode.restart n (if clean then st.save true else st) status rnd).map (·, []))

end Step

/-- A partition whose nodes all just created their vnode of partition `num`,
with the statuses the ring gives them. -/
def initial (num : ℕ) (status : NodeId → VNodeStatus) (rnd : NodeId → ℕ) : Partition :=
  ⟨fun n => VNode.fresh n num (status n) (rnd n), [], []⟩

/-- The initial partitions: no vnode starts as a zombie. -/
def Initial (p : Partition) : Prop :=
  ∃ num status rnd, (∀ n, status n ≠ .zombie) ∧ p = initial num status rnd

/-- The partitions some run reaches. -/
abbrev Reachable (limit window : ℕ) : Partition → Prop :=
  Sucredb.Reachable Initial (step limit window)

end Partition

end Sucredb
