/-
Sucredb.VNode.Sync — the `Synchronization` sessions of `vnode_sync.rs` and the
messages the replicas of a partition exchange.

A sync runs between a receiver, which asks with its clock, and a sender, which
answers with the keys of the dots the receiver lacks and then with a snapshot
of its own clock; the receiver merges the snapshot into its clock when the
`SyncFin` arrives. A `SyncSender` reads the keys of `log_clocks.delta(peer)`
from the dot log, batch by batch, and the cubes at send time; a
`BootstrapSender` sends the storage as it was when the session started.

Every message names its sender and its receiver node. Timestamps, metrics and
the resending of expired `SyncSend`s are not modelled: the network of the
partition model keeps every message, so a message can be delivered again.
Iterating a `HashSet` of keys is modelled in insertion order. Two numbers of
the configuration are parameters: `limit`, the number of keys after which
`SyncKeysIterator::next` stops filling a batch (at least 1000 in the source,
depending on the capacity of the set it allocates), and `window`, the
`sync_msg_inflight` bound on unacknowledged `SyncSend`s.
-/
import Sucredb.VNode.Flush

namespace Sucredb

/-- `fabric_msg::FabricError`. -/
inductive FabricError where
  | noRoute
  | cookieNotFound
  | badVNodeStatus
  | notReady
  | syncInterrupted
  | storageError
deriving DecidableEq, Repr

/-- `fabric_msg::Cookie`, which the source draws at random. -/
abbrev Cookie := ℕ

/-- The fabric messages of one partition's replication and syncs. -/
inductive Msg where
  /-- `MsgRemoteSet`: the writes of a client batch, from its coordinator. -/
  | remoteSet (src dst : NodeId) (writes : RemoteWrites)
  /-- `MsgSyncStart`: a receiver's request; no target asks for a bootstrap. -/
  | syncStart (src dst : NodeId) (cookie : Cookie) (clocksInPeer : BitmappedVersionVector)
      (target : Option NodeId)
  /-- `MsgSyncSend`: one key and its cube. -/
  | syncSend (src dst : NodeId) (cookie : Cookie) (seq : ℕ) (key : Bytes) (value : Cube)
  /-- `MsgSyncAck`. -/
  | syncAck (src dst : NodeId) (cookie : Cookie) (seq : ℕ)
  /-- `MsgSyncFin`: the sender's clock snapshot, or an error. -/
  | syncFin (src dst : NodeId) (cookie : Cookie)
      (result : Except FabricError BitmappedVersionVector)

/-- `vnode_sync::SyncKeysIterator`: the dots of the delta not looked up yet,
and the keys of the current batch. -/
structure SyncKeysIterator where
  dotsDelta : List Dot
  keys : List Bytes

namespace SyncKeysIterator

/-- The refill loop of `next`: look up the dots' keys in the log, skipping the
dots without an entry, until the batch holds `limit` keys. -/
def fill (storage : Storage) (limit : ℕ) : List Dot → List Bytes → List Bytes × List Dot
  | [], keys => (keys, [])
  | d :: ds, keys =>
    match storage.logGet d with
    | none => fill storage limit ds keys
    | some key =>
      let keys' := if key ∈ keys then keys else keys ++ [key]
      if limit ≤ keys'.length then (keys', ds) else fill storage limit ds keys'

/-- `SyncKeysIterator::next`: the next key of the batch, refilling an empty
batch first; an empty refill ends the iteration. -/
def next (it : SyncKeysIterator) (storage : Storage) (limit : ℕ) :
    Option Bytes × SyncKeysIterator :=
  match it.keys with
  | k :: ks => (some k, ⟨it.dotsDelta, ks⟩)
  | [] =>
    match fill storage limit it.dotsDelta [] with
    | ([], rest) => (none, ⟨rest, []⟩)
    | (k :: ks, rest) => (some k, ⟨rest, ks⟩)

end SyncKeysIterator

/-- The `IteratorFn` of a sender. -/
inductive SyncIterator where
  /-- A `SyncSender`'s: the keys of the delta, each with its cube at send time. -/
  | keys (it : SyncKeysIterator)
  /-- A `BootstrapSender`'s: the storage as it was when the session started. -/
  | entries (rest : List (Bytes × Cube))

/-- One call of the `IteratorFn`. -/
def SyncIterator.next (state : VNodeState) (limit : ℕ) :
    SyncIterator → Option (Bytes × Cube) × SyncIterator
  | .keys it =>
    let r := it.next state.storage limit
    (r.1.map fun k => (k, state.storageGet k), .keys r.2)
  | .entries [] => (none, .entries [])
  | .entries (e :: es) => (some e, .entries es)

/-- `vnode_sync::Synchronization`. -/
inductive Synchronization where
  | syncSender (clocksInPeer clocksSnapshot : BitmappedVersionVector) (iterator : SyncIterator)
      (inflight : List (ℕ × Bytes × Cube)) (cookie : Cookie) (peer : NodeId) (count : ℕ)
  | syncReceiver (clocksInPeer : BitmappedVersionVector) (cookie : Cookie) (peer : NodeId)
      (recvCount : ℕ)
  | bootstrapSender (clocksSnapshot : BitmappedVersionVector) (iterator : SyncIterator)
      (inflight : List (ℕ × Bytes × Cube)) (cookie : Cookie) (peer : NodeId) (count : ℕ)
  | bootstrapReceiver (cookie : Cookie) (peer : NodeId) (recvCount : ℕ)

/-- `vnode_sync::SyncResult`. -/
inductive SyncResult where
  | continue
  | done
  | error
deriving DecidableEq, Repr

namespace Synchronization

/-- The sending loop of `send_next`: while fewer than `window` sends are
unacknowledged, send the iterator's next pair. -/
def pump (state : VNodeState) (limit window : ℕ) (src peer : NodeId) (cookie : Cookie) :
    ℕ → SyncIterator → List (ℕ × Bytes × Cube) → ℕ →
      SyncIterator × List (ℕ × Bytes × Cube) × ℕ × List Msg
  | 0, it, inflight, count => (it, inflight, count, [])
  | fuel + 1, it, inflight, count =>
    if inflight.length < window then
      match it.next state limit with
      | (none, it') => (it', inflight, count, [])
      | (some (k, v), it') =>
        let r := pump state limit window src peer cookie fuel it'
          (inflight ++ [(count, k, v)]) (count + 1)
        (r.1, r.2.1, r.2.2.1, .syncSend src peer cookie count k v :: r.2.2.2)
    else (it, inflight, count, [])

/-- `Synchronization::send_next` of a sender: send what the window allows, and
the success `SyncFin` with the snapshot once nothing is left in flight. -/
def sendNext (state : VNodeState) (limit window : ℕ) (src : NodeId) :
    Synchronization → Synchronization × List Msg
  | .syncSender cip snap it inflight cookie peer count =>
    let r := pump state limit window src peer cookie window it inflight count
    (.syncSender cip snap r.1 r.2.1 cookie peer r.2.2.1,
      r.2.2.2 ++ if r.2.1.isEmpty then [.syncFin src peer cookie (.ok snap)] else [])
  | .bootstrapSender snap it inflight cookie peer count =>
    let r := pump state limit window src peer cookie window it inflight count
    (.bootstrapSender snap r.1 r.2.1 cookie peer r.2.2.1,
      r.2.2.2 ++ if r.2.1.isEmpty then [.syncFin src peer cookie (.ok snap)] else [])
  | s => (s, [])

/-- `Synchronization::new_sync_sender`: the snapshot is `log_clocks`, and the
keys to send are those of its delta against the receiver's clock. -/
def newSyncSender (state : VNodeState) (peer : NodeId) (cookie : Cookie)
    (clocksInPeer : BitmappedVersionVector) : Synchronization :=
  .syncSender clocksInPeer state.logClocks
    (.keys ⟨state.logClocks.delta clocksInPeer, []⟩) [] cookie peer 0

/-- `Synchronization::new_bootstrap_sender`: the snapshot is `clocks`, and the
pairs to send are the whole storage. -/
def newBootstrapSender (state : VNodeState) (peer : NodeId) (cookie : Cookie) :
    Synchronization :=
  .bootstrapSender state.clocks (.entries state.storage.data.entries) [] cookie peer 0

/-- `Synchronization::send_start` of a receiver. -/
def sendStart (src : NodeId) : Synchronization → List Msg
  | .syncReceiver cip cookie peer _ => [.syncStart src peer cookie cip (some peer)]
  | .bootstrapReceiver cookie peer _ => [.syncStart src peer cookie .new none]
  | _ => []

/-- `Synchronization::on_start`. -/
def onStart (state : VNodeState) (limit window : ℕ) (src : NodeId) (s : Synchronization) :
    Synchronization × List Msg :=
  match s with
  | .syncReceiver .. | .bootstrapReceiver .. => (s, s.sendStart src)
  | _ => s.sendNext state limit window src

/-- `Synchronization::on_msg_send`: a receiver stores the pair through
`storage_set_remote` and acknowledges it; `none` is the `unwrap` of a failed
store or the `unreachable!()` of a sender. -/
def onMsgSend (state : VNodeState) (src : NodeId) (seq : ℕ) (key : Bytes) (value : Cube) :
    Synchronization → Option (Synchronization × VNodeState × List Msg)
  | .syncReceiver cip cookie peer n => do
    let r ← state.storageSetRemote [(key, value, false)]
    pure (.syncReceiver cip cookie peer (n + 1), r.1, [.syncAck src peer cookie seq])
  | .bootstrapReceiver cookie peer n => do
    let r ← state.storageSetRemote [(key, value, false)]
    pure (.bootstrapReceiver cookie peer (n + 1), r.1, [.syncAck src peer cookie seq])
  | _ => none

/-- `Synchronization::on_msg_ack`: a sender forgets the acknowledged send and
sends more; `none` is the `unreachable!()` of a receiver. -/
def onMsgAck (state : VNodeState) (limit window : ℕ) (src : NodeId) (seq : ℕ) :
    Synchronization → Option (Synchronization × List Msg)
  | .syncSender cip snap it inflight cookie peer count =>
    some ((Synchronization.syncSender cip snap it (inflight.filter (·.1 ≠ seq)) cookie peer
      count).sendNext state limit window src)
  | .bootstrapSender snap it inflight cookie peer count =>
    some ((Synchronization.bootstrapSender snap it (inflight.filter (·.1 ≠ seq)) cookie peer
      count).sendNext state limit window src)
  | _ => none

/-- `Synchronization::on_msg_fin`: a receiver merges the snapshot of a
successful fin into its clock, saves, and sends the fin back. -/
def onMsgFin (state : VNodeState) (src : NodeId) (cookie : Cookie)
    (result : Except FabricError BitmappedVersionVector) :
    Synchronization → SyncResult × VNodeState × List Msg
  | .syncReceiver _ _ peer _ | .bootstrapReceiver _ peer _ =>
    match result with
    | .ok snap =>
      (.done, { state with clocks := state.clocks.merge snap }.save false,
        [.syncFin src peer cookie result])
    | .error .notReady => (.continue, state, [])
    | .error _ => (.error, state, [])
  | _ => (.done, state, [])

/-- `Synchronization::on_remove`: a sync receiver frees its peer; `none` is
the failed `assert!` of a peer that was not registered. -/
def onRemove (state : VNodeState) : Synchronization → Option VNodeState
  | .syncReceiver _ _ peer _ =>
    if peer ∈ state.syncNodes then some { state with syncNodes := state.syncNodes.erase peer }
    else none
  | _ => some state

/-- Whether the session receives. -/
def isReceiver : Synchronization → Bool
  | .syncReceiver .. | .bootstrapReceiver .. => true
  | _ => false

/-- The peer of the session. -/
def peer : Synchronization → NodeId
  | .syncSender _ _ _ _ _ peer _ | .syncReceiver _ _ peer _
  | .bootstrapSender _ _ _ _ peer _ | .bootstrapReceiver _ peer _ => peer

end Synchronization

end Sucredb
