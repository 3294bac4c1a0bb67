/-
Sucredb.Database.Syncs — the sync admission counters of `Database`, and the
vnode handlers run with the `signal_sync_start` and `signal_sync_end` calls
they make.

`Database::stats` counts the running syncs of a node, over all its vnodes, in
each direction: `signal_sync_start` takes a slot while the direction's count is
below its `sync_*_max`, and `signal_sync_end` gives one back with
`checked_sub(1).unwrap()`. The handlers of `Sucredb.VNode.Handlers` leave the
counters out; here each one is run with the signals the source makes in it,
in the branch where it makes them:

* `handler_sync_start` asks for an outgoing slot when a vnode that accepts
  syncs sees a new cookie, and answers `NotReady` when refused;
* `do_start_sync` and `start_bootstrap` ask for an incoming slot for the
  receiver they are about to register; a refused `do_start_sync` goes on to
  the other peers, which the same count refuses, and starts nothing, and a
  refused `start_bootstrap` leaves the bootstrap pending;
* a session that `handler_sync_fin` ends, that a tick times out, or that
  `handler_dht_change` cancels gives its slot back in `on_remove`.

A node's database holds a vector of vnodes. The messages a vnode handles come
from anywhere: the model takes any message at any vnode, and drops what the
handlers send. `Database::new` creates vnodes with no session; the bootstrap
`VNode::new` starts for a `Bootstrap` vnode is the deferred one of
`Sucredb.VNode.Handlers`, which the tick starts. The counters are `u16`, and
below their `u16` limits when incremented; they are `ℕ` here.
-/
import Sucredb.VNode.Handlers
import Sucredb.Lib.Reachable

namespace Sucredb

/-- `vnode_sync::SyncDirection`. -/
inductive SyncDirection where
  | incomming
  | outgoing
deriving DecidableEq, Repr

/-- `Synchronization::direction`. -/
def Synchronization.direction : Synchronization → SyncDirection
  | .syncReceiver .. | .bootstrapReceiver .. => .incomming
  | .syncSender .. | .bootstrapSender .. => .outgoing

/-- `database::Stats`. -/
structure Stats where
  incommingSyncs : ℕ
  outgoingSyncs : ℕ
deriving DecidableEq, Repr

/-- The limits of `Config` that `signal_sync_start` reads. -/
structure SyncConfig where
  syncIncommingMax : ℕ
  syncOutgoingMax : ℕ

/-- The counter of a direction. -/
def Stats.count (stats : Stats) : SyncDirection → ℕ
  | .incomming => stats.incommingSyncs
  | .outgoing => stats.outgoingSyncs

/-- The limit of a direction. -/
def SyncConfig.max (config : SyncConfig) : SyncDirection → ℕ
  | .incomming => config.syncIncommingMax
  | .outgoing => config.syncOutgoingMax

/-- `Database::signal_sync_start`: `none` is its `false`, a refusal. -/
def signalSyncStart (config : SyncConfig) (stats : Stats) : SyncDirection → Option Stats
  | .incomming =>
    if stats.incommingSyncs < config.syncIncommingMax then
      some { stats with incommingSyncs := stats.incommingSyncs + 1 }
    else none
  | .outgoing =>
    if stats.outgoingSyncs < config.syncOutgoingMax then
      some { stats with outgoingSyncs := stats.outgoingSyncs + 1 }
    else none

/-- `Database::signal_sync_end`: `none` is the panic of
`checked_sub(1).unwrap()` on a zero count. -/
def signalSyncEnd (stats : Stats) : SyncDirection → Option Stats
  | .incomming =>
    match stats.incommingSyncs with
    | 0 => none
    | n + 1 => some { stats with incommingSyncs := n }
  | .outgoing =>
    match stats.outgoingSyncs with
    | 0 => none
    | n + 1 => some { stats with outgoingSyncs := n }

/-- The `on_remove` of each session in turn. -/
def signalSyncEnds (stats : Stats) (ss : List Synchronization) : Option Stats :=
  ss.foldlM (fun st s => signalSyncEnd st s.direction) stats

namespace VNode

/-- The sessions a vnode has registered in a direction. -/
def syncCount (vn : VNode) (d : SyncDirection) : ℕ :=
  vn.syncs.countValues fun s => s.direction == d

/-- Whether `handler_sync_start` registers a session for `cookie`: the vnode
is `Ready`, or a zombie within its timeout, and does not know the cookie. -/
def acceptsSyncStart (vn : VNode) (cookie : Cookie) (zombieFresh : Bool) : Bool :=
  (vn.state.status = .ready || (vn.state.status = .zombie && zombieFresh)) &&
    !vn.syncs.contains cookie

/-- The session `handler_sync_fin` unregisters: the one of the cookie, when
the vnode takes the fin and `on_msg_fin` ends the session. -/
def finEnds (self : NodeId) (vn : VNode) (cookie : Cookie)
    (result : Except FabricError BitmappedVersionVector) : Option Synchronization :=
  if vn.state.status = .absent then none
  else
    match vn.syncs.get? cookie with
    | some s => if (s.onMsgFin vn.state self cookie result).1 = .continue then none else some s
    | none => none

/-- The sessions `handler_dht_change` cancels: the receivers of a `Ready` or
`Bootstrap` vnode the ring takes away. -/
def dhtCancels (vn : VNode) (final : VNodeStatus) : List Synchronization :=
  if final = .absent ∧ (vn.state.status = .ready ∨ vn.state.status = .bootstrap) then
    (vn.syncs.entries.filter (·.2.isReceiver)).map Prod.snd
  else []

end VNode

namespace Database

section Handlers

variable (config : SyncConfig) (limit window : ℕ) (self : NodeId)

/-- `VNode::handler_sync_start` with its `signal_sync_start(Outgoing)`. -/
def handlerSyncStart (vn : VNode) (stats : Stats) (src : NodeId) (cookie : Cookie)
    (clocksInPeer : BitmappedVersionVector) (target : Option NodeId) (zombieFresh : Bool) :
    Option (VNode × Stats × List Msg) :=
  let run (stats : Stats) :=
    (vn.handlerSyncStart limit window self src cookie clocksInPeer target zombieFresh).map
      fun r => (r.1, stats, r.2)
  if vn.acceptsSyncStart cookie zombieFresh then
    match signalSyncStart config stats .outgoing with
    | none => some (vn, stats, [VNode.errorFin self src cookie .notReady])
    | some stats' => run stats'
  else run stats

/-- `VNode::handler_sync_fin`, with the `on_remove` of the session it ends. -/
def handlerSyncFin (vn : VNode) (stats : Stats) (src : NodeId) (cookie : Cookie)
    (result : Except FabricError BitmappedVersionVector) (promoted : Bool) :
    Option (VNode × Stats × List Msg) := do
  let r ← vn.handlerSyncFin self src cookie result promoted
  let stats' ← match vn.finEnds self cookie result with
    | some s => signalSyncEnd stats s.direction
    | none => some stats
  pure (r.1, stats', r.2)

/-- `Database::handler_fabric_msg` for one vnode. -/
def handlerFabricMsg (vn : VNode) (stats : Stats) (zombieFresh promoted : Bool) :
    Msg → Option (VNode × Stats × List Msg)
  | .remoteSet _ _ writes => (vn.handlerSetRemote writes).map (·, stats, [])
  | .syncStart src _ cookie clocksInPeer target =>
    handlerSyncStart config limit window self vn stats src cookie clocksInPeer target zombieFresh
  | .syncSend src _ cookie seq key value =>
    (vn.handlerSyncSend self src cookie seq key value).map fun r => (r.1, stats, r.2)
  | .syncAck src _ cookie seq =>
    (vn.handlerSyncAck limit window self src cookie seq).map fun r => (r.1, stats, r.2)
  | .syncFin src _ cookie result => handlerSyncFin self vn stats src cookie result promoted

/-- `VNode::do_start_sync` towards `peer`, with its
`signal_sync_start(Incomming)` once the peer is one it may sync from. -/
def doStartSync (vn : VNode) (stats : Stats) (peer : NodeId) (cookie : Cookie) :
    Option (VNode × Stats × List Msg) :=
  if vn.state.status = .ready ∧ peer ≠ self ∧ peer ∉ vn.state.syncNodes then
    match signalSyncStart config stats .incomming with
    | none => some (vn, stats, [])
    | some stats' => (vn.doStartSync limit window self peer cookie).map fun r => (r.1, stats', r.2)
  else none

/-- `VNode::start_bootstrap` as the tick runs it, with its
`signal_sync_start(Incomming)` when there is a peer to bootstrap from. -/
def startBootstrap (vn : VNode) (stats : Stats) (peer : Option NodeId) (cookie : Cookie)
    (promoted : Bool) : Option (VNode × Stats × List Msg) :=
  let run (stats : Stats) :=
    (vn.startBootstrap self peer cookie promoted).map fun r => (r.1, stats, r.2)
  match peer with
  | some _ =>
    if vn.state.status = .bootstrap ∧ vn.state.pendingBootstrap ∧ vn.syncs.isEmpty then
      match signalSyncStart config stats .incomming with
      | none => some (vn, stats, [])
      | some stats' => run stats'
    else none
  | none => run stats

/-- A session timed out by the tick, with its `on_remove`. -/
def syncTimeout (vn : VNode) (stats : Stats) (cookie : Cookie) :
    Option (VNode × Stats × List Msg) := do
  let s ← vn.syncs.get? cookie
  let vn' ← vn.syncTimeout cookie
  let stats' ← signalSyncEnd stats s.direction
  pure (vn', stats', [])

/-- `VNode::handler_dht_change`, with the `on_remove` of each receiver it
cancels. -/
def handlerDhtChange (vn : VNode) (stats : Stats) (final : VNodeStatus) (rnd : ℕ) :
    Option (VNode × Stats × List Msg) := do
  let r ← vn.handlerDhtChange self final rnd
  let stats' ← signalSyncEnds stats (vn.dhtCancels final)
  pure (r.1, stats', r.2)

/-- `VNode::do_flush` of a client batch: it does not touch the sessions. -/
def flush (vn : VNode) (stats : Stats) (ws : List (Bytes × WriteCmd)) :
    Option (VNode × Stats × List Msg) :=
  match vn.state.doFlush (ws.map fun w => .ofCmd w.1 w.2) with
  | (_, .panic) => none
  | (st, _) => some ({ vn with state := st }, stats, [])

end Handlers

end Database

/-- A node's `Database`: its vnodes, by number, and the sync counters. -/
structure Database where
  vnodes : List VNode
  stats : Stats

namespace Database

/-- What happens to a node's database: a handler at one of its vnodes. -/
inductive Event where
  /-- A fabric message for vnode `n`. -/
  | fabric (n : ℕ) (msg : Msg) (zombieFresh promoted : Bool)
  /-- A client batch of writes at vnode `n`. -/
  | flush (n : ℕ) (writes : List (Bytes × WriteCmd))
  /-- The tick starts a sync at vnode `n` (`start_sync_if_ready`). -/
  | startSync (n : ℕ) (peer : NodeId) (cookie : Cookie)
  /-- The tick starts vnode `n`'s pending bootstrap. -/
  | startBootstrap (n : ℕ) (peer : Option NodeId) (cookie : Cookie) (promoted : Bool)
  /-- The tick of a sending session. -/
  | syncTick (n : ℕ) (cookie : Cookie)
  /-- A session ends on a tick: timed out, or failed to send. -/
  | syncTimeout (n : ℕ) (cookie : Cookie)
  /-- The ring changes the node's final status for vnode `n`. -/
  | dhtChange (n : ℕ) (final : VNodeStatus) (rnd : ℕ)
  /-- A zombie's timeout passes. -/
  | zombieTimeout (n : ℕ)

section Step

variable (config : SyncConfig) (limit window : ℕ) (self : NodeId)

/-- Run a handler on vnode `n` (`vnodes[n]` panics past the end). -/
def update (db : Database) (n : ℕ) (f : VNode → Stats → Option (VNode × Stats × List Msg)) :
    Option Database := do
  let vn ← db.vnodes[n]?
  let r ← f vn db.stats
  pure ⟨db.vnodes.set n r.1, r.2.1⟩

/-- One event. -/
def step (db : Database) : Event → Option Database
  | .fabric n m zombieFresh promoted =>
    db.update n fun vn st => handlerFabricMsg config limit window self vn st zombieFresh promoted m
  | .flush n ws => db.update n fun vn st => flush vn st ws
  | .startSync n peer cookie =>
    db.update n fun vn st => doStartSync config limit window self vn st peer cookie
  | .startBootstrap n peer cookie promoted =>
    db.update n fun vn st => startBootstrap config self vn st peer cookie promoted
  | .syncTick n cookie =>
    db.update n fun vn st => (vn.syncTick limit window self cookie).map fun r => (r.1, st, r.2)
  | .syncTimeout n cookie => db.update n fun vn st => syncTimeout vn st cookie
  | .dhtChange n final rnd => db.update n fun vn st => handlerDhtChange self vn st final rnd
  | .zombieTimeout n => db.update n fun vn st => vn.zombieTimeout.map (·, st, [])

end Step

/-- A database as `Database::new` leaves it: no session, and zero counts. -/
def Initial (db : Database) : Prop :=
  db.stats = ⟨0, 0⟩ ∧ ∀ vn ∈ db.vnodes, vn.syncs = VecMap.empty

/-- The databases some run reaches. -/
abbrev Reachable (config : SyncConfig) (limit window : ℕ) (self : NodeId) : Database → Prop :=
  Sucredb.Reachable Initial (step config limit window self)

end Database

end Sucredb
