/-
Sucredb.VNode.Handlers — `vnode::VNode`, a vnode's state with its sync
sessions, and the handlers of `vnode.rs` that move a partition's data between
its replicas.

Each handler returns the new vnode and the messages it sends, or `none` when
it panics (`unreachable!()`, `assert!`, `unwrap`) or, for the events a vnode
starts itself, when the source would not start it. `self` is the node the
vnode runs on (`db.dht.node()`), `limit` and `window` are the sync parameters
of `Sucredb.VNode.Sync`.

What the source decides from outside the vnode is an argument: whether a
zombie is still within its timeout, whether `DHT::promote_pending_node`
succeeds, which peer a sync or bootstrap picks, the random cookie. The client
requests in flight and the replies to a coordinator are not modelled, nor the
sync-count limit of `signal_sync_start`, except in one place: every call of
`start_bootstrap` is modelled by its branch where that limit defers the
bootstrap (`pending_bootstrap`), and the tick that retries it
(`startBootstrap`) is a separate event.
-/
import Sucredb.VNode.Sync

namespace Sucredb

/-- `vnode::VNode`, without its in-flight client requests. -/
structure VNode where
  state : VNodeState
  syncs : VecMap Cookie Synchronization

namespace VNode

section Handlers

variable (limit window : ℕ) (self : NodeId)

/-- The `MsgSyncFin` that `check_status!`, `forward!` and `send_error_fin`
send with an error. -/
def errorFin (peer : NodeId) (cookie : Cookie) (e : FabricError) : Msg :=
  .syncFin self peer cookie (.error e)

/-- `VNode::handler_set_remote`; a refusal's reply is not modelled. -/
def handlerSetRemote (vn : VNode) (writes : RemoteWrites) : Option VNode :=
  match vn.state.status with
  | .ready | .bootstrap => do
    let r ← vn.state.storageSetRemote writes
    pure { vn with state := r.1 }
  | _ => some vn

/-- `VNode::handler_sync_start`: a new cookie starts a sender, a bootstrap one
when the message has no target. -/
def handlerSyncStart (vn : VNode) (src : NodeId) (cookie : Cookie)
    (clocksInPeer : BitmappedVersionVector) (target : Option NodeId) (zombieFresh : Bool) :
    Option (VNode × List Msg) :=
  if !(vn.state.status = .ready || (vn.state.status = .zombie && zombieFresh)) then
    some (vn, [errorFin self src cookie .badVNodeStatus])
  else if vn.syncs.contains cookie then some (vn, [])
  else do
    let sync ← match target with
      | none => some (Synchronization.newBootstrapSender vn.state src cookie)
      | some t =>
        if t = self then some (Synchronization.newSyncSender vn.state src cookie clocksInPeer)
        else none
    let r := sync.onStart vn.state limit window self
    pure ({ vn with syncs := vn.syncs.insert cookie r.1 }, r.2)

/-- `VNode::handler_sync_send`. -/
def handlerSyncSend (vn : VNode) (src : NodeId) (cookie : Cookie) (seq : ℕ) (key : Bytes)
    (value : Cube) : Option (VNode × List Msg) :=
  match vn.state.status with
  | .ready | .bootstrap =>
    match vn.syncs.get? cookie with
    | none => some (vn, [errorFin self src cookie .cookieNotFound])
    | some s => do
      let r ← s.onMsgSend vn.state self seq key value
      pure (⟨r.2.1, vn.syncs.insert cookie r.1⟩, r.2.2)
  | _ => some (vn, [errorFin self src cookie .badVNodeStatus])

/-- `VNode::handler_sync_ack`. -/
def handlerSyncAck (vn : VNode) (src : NodeId) (cookie : Cookie) (seq : ℕ) :
    Option (VNode × List Msg) :=
  match vn.state.status with
  | .ready | .zombie =>
    match vn.syncs.get? cookie with
    | none => some (vn, [errorFin self src cookie .cookieNotFound])
    | some s => do
      let r ← s.onMsgAck vn.state limit window self seq
      pure ({ vn with syncs := vn.syncs.insert cookie r.1 }, r.2)
  | _ => some (vn, [errorFin self src cookie .badVNodeStatus])

/-- Unregister a session: `syncs.remove(cookie)` and `on_remove`. -/
def removeSync (vn : VNode) (cookie : Cookie) (s : Synchronization) : Option VNode := do
  let st ← s.onRemove vn.state
  pure ⟨st, vn.syncs.erase cookie⟩

/-- `VNode::handle_bootstrap_result`; `promoted` is whether
`DHT::promote_pending_node` succeeds. A retry is deferred to the tick. -/
def handleBootstrapResult (promoted : Bool) (vn : VNode) : SyncResult → Option VNode
  | .error => some { vn with state := { vn.state with pendingBootstrap := true } }
  | .done => do
    let st ← vn.state.setStatus (if promoted then .ready else .absent) 0
    pure { vn with state := st }
  | .continue => some vn

/-- `VNode::handler_sync_fin`. -/
def handlerSyncFin (vn : VNode) (src : NodeId) (cookie : Cookie)
    (result : Except FabricError BitmappedVersionVector) (promoted : Bool) :
    Option (VNode × List Msg) :=
  match vn.state.status with
  | .ready | .zombie | .bootstrap =>
    match vn.syncs.get? cookie with
    | none =>
      -- only an `Ok` is answered, or errors would bounce forever
      some (vn, match result with
        | .ok _ => [errorFin self src cookie .cookieNotFound]
        | .error _ => [])
    | some s =>
      let r := s.onMsgFin vn.state self cookie result
      let vn₁ : VNode := { vn with state := r.2.1 }
      do
        let vn₂ ← match r.1 with
          | .continue => some vn₁
          | _ => vn₁.removeSync cookie s
        let vn₃ ← if vn₂.state.status = .bootstrap then vn₂.handleBootstrapResult promoted r.1
          else some vn₂
        pure (vn₃, r.2.2)
  | _ => some (vn, [errorFin self src cookie .badVNodeStatus])

/-- `VNode::do_start_sync` towards `peer`, which the source picks among the
vnode's other replicas that it is not already syncing from. -/
def doStartSync (vn : VNode) (peer : NodeId) (cookie : Cookie) : Option (VNode × List Msg) :=
  if vn.state.status = .ready ∧ peer ≠ self ∧ peer ∉ vn.state.syncNodes ∧
      !vn.syncs.contains cookie then
    let s := Synchronization.syncReceiver vn.state.clocks cookie peer 0
    let r := s.onStart { vn.state with syncNodes := insert peer vn.state.syncNodes } limit window self
    some (⟨{ vn.state with syncNodes := insert peer vn.state.syncNodes },
      vn.syncs.insert cookie r.1⟩, r.2)
  else none

/-- `VNode::start_bootstrap`, as the tick runs it for a pending bootstrap:
from `peer`, or done at once when there is no other replica. -/
def startBootstrap (vn : VNode) (peer : Option NodeId) (cookie : Cookie) (promoted : Bool) :
    Option (VNode × List Msg) :=
  if vn.state.status = .bootstrap ∧ vn.state.pendingBootstrap then
    if vn.syncs.isEmpty then
      let vn₀ : VNode := { vn with state := { vn.state with pendingBootstrap := false } }
      match peer with
      | none => (vn₀.handleBootstrapResult promoted .done).map (·, [])
      | some p =>
        let s := Synchronization.bootstrapReceiver cookie p 0
        some ({ vn₀ with syncs := vn₀.syncs.insert cookie s }, s.sendStart self)
    else none
  else none

/-- The first part of `handler_dht_change` on leaving the vnode: cancel and
unregister every receiving session. -/
def cancelIncoming (vn : VNode) : Option (VNode × List Msg) :=
  vn.syncs.entries.foldlM (fun (acc : VNode × List Msg) e =>
    if e.2.isReceiver then do
      let vn' ← acc.1.removeSync e.1 e.2
      pure (vn', acc.2 ++ [errorFin self e.2.peer e.1 .badVNodeStatus])
    else pure acc) (vn, [])

/-- `VNode::handler_dht_change`, towards the status the ring gives the node
(`Ready` if it owns the vnode, else `Absent`); `rnd` is the random half of the
id a bootstrap draws. -/
def handlerDhtChange (vn : VNode) (final : VNodeStatus) (rnd : ℕ) :
    Option (VNode × List Msg) :=
  if final ≠ .absent ∧ final ≠ .ready then none
  else
    match vn.state.status, final with
    | .ready, .absent | .bootstrap, .absent => do
      let r ← vn.cancelIncoming self
      let st ← r.1.state.setStatus
        (if vn.state.status = .bootstrap then .absent else .zombie) 0
      pure ({ r.1 with state := st }, r.2)
    | .zombie, .ready => do
      let st ← vn.state.setStatus .ready 0
      pure ({ vn with state := st }, [])
    | .absent, .ready => do
      let st ← vn.state.setStatus .bootstrap rnd
      pure ({ vn with state := { st with pendingBootstrap := true } }, [])
    | .zombie, .absent | .bootstrap, .ready => some (vn, [])
    | a, b => if a = b then some (vn, []) else none

/-- The end of `VNode::handler_tick`: a zombie with no session and no request
left goes `Absent` once its timeout has passed. -/
def zombieTimeout (vn : VNode) : Option VNode :=
  if !vn.state.pendingBootstrap ∧ vn.state.status = .zombie ∧ vn.syncs.isEmpty then do
    let st ← vn.state.setStatus .absent 0
    pure { vn with state := st }
  else none

/-- `Synchronization::on_tick` of a sender within its timeout: `send_next`. -/
def syncTick (vn : VNode) (cookie : Cookie) : Option (VNode × List Msg) := do
  let s ← vn.syncs.get? cookie
  if s.isReceiver then none
  else
    let r := s.sendNext vn.state limit window self
    pure ({ vn with syncs := vn.syncs.insert cookie r.1 }, r.2)

/-- A session whose peer went silent past `sync_timeout`: `on_tick` ends it with
an error. -/
def syncTimeout (vn : VNode) (cookie : Cookie) : Option VNode := do
  let s ← vn.syncs.get? cookie
  let vn' ← vn.removeSync cookie s
  if vn'.state.status = .bootstrap then vn'.handleBootstrapResult false .error else some vn'

/-- `VNode::new` after a restart: `load`, then `save(false)`; a vnode loaded as
`Bootstrap` starts its bootstrap, which is deferred as above. -/
def restart (st : VNodeState) (status : VNodeStatus) (rnd : ℕ) : Option VNode := do
  let st' ← VNodeState.load st.num status st.saved st.storage self rnd
  match status with
  | .ready | .absent => some ⟨st'.save false, VecMap.empty⟩
  | .bootstrap => some ⟨{ st'.save false with pendingBootstrap := true }, VecMap.empty⟩
  | .zombie => none

end Handlers

end VNode

end Sucredb
