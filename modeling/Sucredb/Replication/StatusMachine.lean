/-
Sucredb.Replication.StatusMachine — the status machine of a vnode (`Ready`,
`Bootstrap`, `Zombie`, `Absent`) with its sync sessions, over every run of a
partition.

`VNode.StatusOk` says which sessions each status allows, and what
`sync_nodes` and `pending_bootstrap` hold:

* a `SyncReceiver` lives only in `Ready`, a `BootstrapReceiver` only in
  `Bootstrap`, a sender only in `Ready` or `Zombie` (`FitsStatus`); so an
  `Absent` vnode has no session, and a zombie receives nothing;
* `sync_nodes` holds exactly the peers of the `SyncReceiver`s, each the peer
  of one of them (`PeersRegistered`, counted with `VecMap.countValues`);
* a pending bootstrap is a `Bootstrap` vnode with no session, and a
  `Bootstrap` vnode that is not pending has exactly one session, its
  bootstrap.

Each handler keeps it, in one lemma each; the ones that change the status
or remove a session are where it does work. So every reachable partition has
it (`status_machine_invariant`). The assertions of the status machine rest on
it: `set_status` asserts `sync_nodes` empty before `Absent` or `Bootstrap`
and no pending bootstrap before `Bootstrap`, `start_bootstrap` asserts no
session, and `on_remove` asserts that a receiver's peer is in `sync_nodes`.
From every reachable partition the handlers that run them succeed
(`status_machine_never_panics`). What it does not cover is `VNode::new` of a
vnode pending with a saved record, which panics in `load`
(`Sucredb.Replication.Lifecycle`).
-/
import Sucredb.Replication.Partition

namespace Sucredb

/-! ## The invariant -/

namespace Synchronization

/-- The peer a session holds in `sync_nodes`: `new_sync_receiver` inserts it
and `on_remove` takes it out. No other session holds one. -/
def syncPeer? : Synchronization → Option NodeId
  | .syncReceiver _ _ peer _ => some peer
  | _ => none

/-- The statuses a vnode may have while it keeps a session of this kind. -/
def FitsStatus : Synchronization → VNodeStatus → Prop
  | .syncReceiver .., status => status = .ready
  | .bootstrapReceiver .., status => status = .bootstrap
  | .syncSender .., status | .bootstrapSender .., status => status = .ready ∨ status = .zombie

/-- `s'` is a session of the kind of `s` holding the same peer: what a
session becomes when it handles a message or a tick. -/
def Like (s s' : Synchronization) : Prop :=
  s'.syncPeer? = s.syncPeer? ∧ ∀ status, s'.FitsStatus status ↔ s.FitsStatus status

end Synchronization

/-- The part of a vnode's state the status machine reads. -/
def VNodeState.lifecycle (s : VNodeState) : VNodeStatus × Bool × Finset NodeId :=
  (s.status, s.pendingBootstrap, s.syncNodes)

namespace VNode

/-- `sync_nodes` holds exactly the peers of the sync receivers, each the peer
of one of them. -/
def PeersRegistered (vn : VNode) : Prop :=
  ∀ q, vn.syncs.countValues (fun s => s.syncPeer? == some q) =
    if q ∈ vn.state.syncNodes then 1 else 0

/-- The sessions each status allows, `sync_nodes`, and the pending bootstrap:
what a vnode keeps even while one of its sessions is being removed. -/
structure SessionsOk (vn : VNode) : Prop where
  fits : vn.syncs.AllValues fun s => s.FitsStatus vn.state.status
  registered : vn.PeersRegistered
  pending : vn.state.pendingBootstrap = true →
    vn.state.status = .bootstrap ∧ vn.syncs.size = 0

/-- The invariant of the status machine: `SessionsOk`, and a `Bootstrap` vnode
that is not pending runs exactly one session, its bootstrap. -/
structure StatusOk (vn : VNode) : Prop extends SessionsOk vn where
  bootstrap : vn.state.status = .bootstrap → vn.state.pendingBootstrap = false →
    vn.syncs.size = 1

end VNode

/-! ## Sessions -/

namespace Synchronization

variable {state : VNodeState} {s : Synchronization}

theorem Like.refl (s : Synchronization) : s.Like s :=
  ⟨rfl, fun _ => Iff.rfl⟩

theorem like_sendNext (limit window : ℕ) (src : NodeId) (s : Synchronization) :
    s.Like (s.sendNext state limit window src).1 := by
  cases s <;> exact ⟨rfl, fun _ => Iff.rfl⟩

theorem like_onStart (limit window : ℕ) (src : NodeId) (s : Synchronization) :
    s.Like (s.onStart state limit window src).1 := by
  cases s with
  | syncSender | bootstrapSender => exact like_sendNext limit window src _
  | syncReceiver | bootstrapReceiver => exact Like.refl _

/-- A receiver stores the pair it is sent, and stays the receiver it was. -/
theorem onMsgSend_like {src : NodeId} {seq : ℕ} {key : Bytes} {value : Cube}
    {r : Synchronization × VNodeState × List Msg} (h : s.onMsgSend state src seq key value = some r) :
    s.Like r.1 ∧ ∃ res, state.storageSetRemote [(key, value, false)] = some (r.2.1, res) := by
  cases s with
  | syncSender | bootstrapSender => cases h
  | syncReceiver cip cookie peer n =>
    obtain ⟨r', hr', hr⟩ := Option.bind_eq_some_iff.mp h
    cases hr
    exact ⟨⟨rfl, fun _ => Iff.rfl⟩, r'.2, hr'⟩
  | bootstrapReceiver cookie peer n =>
    obtain ⟨r', hr', hr⟩ := Option.bind_eq_some_iff.mp h
    cases hr
    exact ⟨⟨rfl, fun _ => Iff.rfl⟩, r'.2, hr'⟩

theorem onMsgAck_like {limit window : ℕ} {src : NodeId} {seq : ℕ}
    {r : Synchronization × List Msg} (h : s.onMsgAck state limit window src seq = some r) :
    s.Like r.1 := by
  cases s with
  | syncReceiver | bootstrapReceiver => cases h
  | syncSender cip snap it inflight cookie peer count =>
    cases h
    exact like_sendNext limit window src _
  | bootstrapSender snap it inflight cookie peer count =>
    cases h
    exact like_sendNext limit window src _

/-- Only a sync receiver holds a peer. -/
theorem syncPeer?_eq_none_of_isReceiver (h : s.isReceiver = false) : s.syncPeer? = none := by
  cases s <;> first | rfl | cases h

/-- A sender may stay while its vnode goes `Zombie`. -/
theorem fitsStatus_zombie (h : s.isReceiver = false) (hs : s.FitsStatus .ready) :
    s.FitsStatus .zombie := by
  cases s with
  | syncReceiver | bootstrapReceiver => cases h
  | syncSender | bootstrapSender => exact Or.inr rfl

/-- A `Bootstrap` vnode keeps receivers only. -/
theorem isReceiver_of_fitsStatus_bootstrap (hs : s.FitsStatus .bootstrap) :
    s.isReceiver = true := by
  cases s with
  | syncReceiver | bootstrapReceiver => rfl
  | syncSender | bootstrapSender => rcases hs with h | h <;> cases h

theorem not_fitsStatus_absent : ¬ s.FitsStatus .absent := by
  cases s <;> simp [FitsStatus]

/-- A zombie keeps senders only, and they may stay when it is `Ready` again. -/
theorem fitsStatus_ready_of_zombie (hs : s.FitsStatus .zombie) : s.FitsStatus .ready := by
  cases s with
  | syncSender | bootstrapSender => exact Or.inl rfl
  | syncReceiver | bootstrapReceiver => cases hs

/-- A sender fits `Ready` and `Zombie`. -/
theorem fitsStatus_of_isReceiver_eq_false {status : VNodeStatus} (h : s.isReceiver = false)
    (hst : status = .ready ∨ status = .zombie) : s.FitsStatus status := by
  cases s with
  | syncReceiver | bootstrapReceiver => cases h
  | syncSender | bootstrapSender => exact hst

/-- Outside `Ready` a session holds no peer. -/
theorem syncPeer?_eq_none_of_fitsStatus {status : VNodeStatus} (hs : s.FitsStatus status)
    (h : status ≠ .ready) : s.syncPeer? = none := by
  cases s with
  | syncReceiver => exact absurd hs h
  | syncSender | bootstrapSender | bootstrapReceiver => rfl

/-- `on_msg_fin` may merge and save the clock, nothing else. -/
theorem lifecycle_onMsgFin (src : NodeId) (cookie : Cookie)
    (result : Except FabricError BitmappedVersionVector) (s : Synchronization) :
    (s.onMsgFin state src cookie result).2.1.lifecycle = state.lifecycle := by
  cases s with
  | syncSender | bootstrapSender => rfl
  | syncReceiver | bootstrapReceiver =>
    simp only [onMsgFin]
    split <;> rfl

end Synchronization

/-! ## What the handlers do to the lifecycle -/

namespace VNodeState

variable {s s' : VNodeState}

theorem lifecycle_eq_iff : s'.lifecycle = s.lifecycle ↔
    s'.status = s.status ∧ s'.pendingBootstrap = s.pendingBootstrap ∧ s'.syncNodes = s.syncNodes := by
  simp [lifecycle]

@[simp] theorem lifecycle_save (s : VNodeState) (shutdown : Bool) :
    (s.save shutdown).lifecycle = s.lifecycle := rfl

theorem lifecycle_storageSetRemote {ws : RemoteWrites} {r : VNodeState × List (Option Cube)}
    (h : s.storageSetRemote ws = some r) : r.1.lifecycle = s.lifecycle := by
  obtain ⟨a, -, ha⟩ := Option.bind_eq_some_iff.mp h
  cases ha
  rfl

theorem lifecycle_flushWrites : ∀ {s : VNodeState} {ws : List ContextWrite},
    (s.flushWrites ws).1.lifecycle = s.lifecycle
  | _, [] => rfl
  | s, w :: ws => by
    simp only [flushWrites]
    split
    · rfl
    · exact lifecycle_flushWrites

/-- `do_flush` changes the clocks and the storage only. -/
theorem lifecycle_doFlush {ws : List ContextWrite} {r : FlushResult}
    (h : s.doFlush ws = (s', r)) : s'.lifecycle = s.lifecycle := by
  unfold doFlush at h
  split at h
  · cases h
    rfl
  have hw := @lifecycle_flushWrites s ws
  split at h
  · cases h
    rename_i heq
    rw [heq] at hw
    exact hw
  · rename_i s₁ done heq
    rw [heq] at hw
    split at h
    · cases h
      exact hw
    · rename_i s₂ hs₂
      cases h
      obtain ⟨batch, -, hb⟩ := Option.bind_eq_some_iff.mp hs₂
      cases hb
      exact hw

/-- `set_status` sets the status and drops a pending bootstrap, unless the
status does not change. -/
theorem lifecycle_setStatus {new : VNodeStatus} {rnd : ℕ} (h : s.setStatus new rnd = some s') :
    s'.lifecycle = (new, s.pendingBootstrap && decide (new = s.status), s.syncNodes) := by
  unfold setStatus at h
  split at h
  · rename_i hnew
    cases h
    simp [lifecycle, hnew]
  rename_i hnew
  -- `clear` and the new id keep `sync_nodes`
  cases new with
  | ready | zombie =>
    simp only [Option.pure_def, Option.bind_eq_bind, Option.bind_some, Option.some.injEq] at h
    rw [← h]
    simp [lifecycle, save, hnew]
  | bootstrap | absent =>
    simp only [Option.pure_def, Option.bind_eq_bind] at h
    split at h
    · simp only [Option.bind_some, Option.some.injEq] at h
      rw [← h]
      simp [lifecycle, save, clear, hnew]
    · simp at h

/-- The assertions of `set_status` are all it can fail on. -/
theorem setStatus_isSome (s : VNodeState) (new : VNodeStatus) (rnd : ℕ)
    (hpending : new = .bootstrap → s.pendingBootstrap = false)
    (hsync : new = .bootstrap ∨ new = .absent → s.syncNodes = ∅) :
    ∃ s', s.setStatus new rnd = some s' := by
  unfold setStatus
  split
  · exact ⟨s, rfl⟩
  · cases new with
    | bootstrap =>
      simp [hpending rfl, hsync (Or.inl rfl)]
    | absent => simp [hsync (Or.inr rfl)]
    | ready | zombie => simp

/-- `load` starts with no session peer and no pending bootstrap. -/
theorem lifecycle_load {num : ℕ} {status : VNodeStatus} {saved : Option SavedVNodeState}
    {storage : Storage} {node : NodeId} {rnd : ℕ}
    (h : load num status saved storage node rnd = some s') : s'.lifecycle = (status, false, ∅) := by
  unfold load at h
  split at h
  · cases h
    rfl
  · split at h
    · cases h
      rfl
    · split at h
      · cases h
      · cases h
        split <;> rfl

end VNodeState

/-! ## Keeping the invariant -/

namespace VNode

variable {vn : VNode} {cookie : Cookie} {s : Synchronization}

/-- The invariant reads the sessions, the status, the pending bootstrap and
`sync_nodes` only. -/
theorem SessionsOk.congr (hok : vn.SessionsOk) {vn' : VNode} (hs : vn'.syncs = vn.syncs)
    (hl : vn'.state.lifecycle = vn.state.lifecycle) : vn'.SessionsOk := by
  obtain ⟨hst, hpb, hsn⟩ := VNodeState.lifecycle_eq_iff.mp hl
  refine ⟨?_, fun q => ?_, ?_⟩
  · rw [hs, hst]
    exact hok.fits
  · rw [hs, hsn]
    exact hok.registered q
  · rw [hs, hst, hpb]
    exact hok.pending

theorem StatusOk.congr (hok : vn.StatusOk) {vn' : VNode} (hs : vn'.syncs = vn.syncs)
    (hl : vn'.state.lifecycle = vn.state.lifecycle) : vn'.StatusOk := by
  obtain ⟨hst, hpb, -⟩ := VNodeState.lifecycle_eq_iff.mp hl
  refine ⟨hok.toSessionsOk.congr hs hl, ?_⟩
  rw [hs, hst, hpb]
  exact hok.bootstrap

theorem SessionsOk.statusOk (hok : vn.SessionsOk) (hb : vn.state.status ≠ .bootstrap) :
    vn.StatusOk :=
  ⟨hok, fun h => absurd h hb⟩

/-- A receiving session's peer is in `sync_nodes`: the assertion of `on_remove`. -/
theorem PeersRegistered.mem_syncNodes (h : vn.PeersRegistered) (hs : vn.syncs.get? cookie = some s)
    {q : NodeId} (hq : s.syncPeer? = some q) : q ∈ vn.state.syncNodes := by
  have hpos := VecMap.countValues_pos (p := fun s => s.syncPeer? == some q) hs (by simp [hq])
  by_contra hmem
  rw [h q, if_neg hmem] at hpos
  exact absurd hpos (lt_irrefl 0)

/-- No session holds a peer, so `sync_nodes` is empty: what `set_status`
asserts before `Absent` and `Bootstrap`. -/
theorem PeersRegistered.syncNodes_eq_empty (h : vn.PeersRegistered)
    (hno : vn.syncs.AllValues fun s => s.syncPeer? = none) : vn.state.syncNodes = ∅ := by
  refine Finset.eq_empty_of_forall_notMem fun q hq => ?_
  have hcount := h q
  rw [VecMap.countValues_eq_zero fun k v hv => by simp [hno k v hv], if_pos hq] at hcount
  exact absurd hcount zero_ne_one

/-- A vnode with a session has no pending bootstrap. -/
theorem SessionsOk.pendingBootstrap_eq_false (hok : vn.SessionsOk)
    (hs : vn.syncs.get? cookie = some s) : vn.state.pendingBootstrap = false := by
  cases hpb : vn.state.pendingBootstrap
  · rfl
  · rw [VecMap.get?_eq_none_of_size_eq_zero (hok.pending hpb).2] at hs
    cases hs

/-- Only a `Bootstrap` vnode has a pending bootstrap. -/
theorem SessionsOk.pendingBootstrap_eq_false_of_status (hok : vn.SessionsOk)
    (hb : vn.state.status ≠ .bootstrap) : vn.state.pendingBootstrap = false :=
  Bool.eq_false_iff.mpr fun hpb => hb (hok.pending hpb).1

/-- A vnode with no session and nothing in `sync_nodes`, pending exactly when
it is `Bootstrap`. -/
theorem statusOk_of_size_eq_zero (hsize : vn.syncs.size = 0) (hsn : vn.state.syncNodes = ∅)
    (hpb : vn.state.pendingBootstrap = true ↔ vn.state.status = .bootstrap) : vn.StatusOk := by
  have hnone := VecMap.get?_eq_none_of_size_eq_zero hsize
  refine ⟨⟨fun k v hv => by simp [hnone k] at hv, fun q => ?_, fun h => ⟨hpb.mp h, hsize⟩⟩,
    fun hb h => ?_⟩
  · rw [VecMap.countValues_eq_zero fun k v hv => by simp [hnone k] at hv, hsn]
    simp
  · rw [hpb.mpr hb] at h
    cases h

/-- A session of the kind of the one it replaces, with the same peer, the
state's lifecycle unchanged: what the message and tick handlers do. -/
theorem StatusOk.replace (hok : vn.StatusOk) (hs : vn.syncs.get? cookie = some s)
    {s' : Synchronization} (hlike : s.Like s') {st : VNodeState}
    (hl : st.lifecycle = vn.state.lifecycle) : StatusOk ⟨st, vn.syncs.insert cookie s'⟩ := by
  have hsize := VecMap.size_insert_of_get? hs s'
  have hok' : StatusOk ⟨vn.state, vn.syncs.insert cookie s'⟩ := by
    refine ⟨⟨hok.fits.insert ((hlike.2 _).mpr (hok.fits cookie s hs)), fun q => ?_, ?_⟩, ?_⟩
    · have hcount := VecMap.countValues_insert_of_get? (p := fun s => s.syncPeer? == some q) hs s'
      rw [hlike.1, Nat.add_right_cancel_iff] at hcount
      rw [hcount]
      exact hok.registered q
    · rw [hsize]
      exact hok.pending
    · rw [hsize]
      exact hok.bootstrap
  exact hok'.congr rfl hl

/-- A new session that holds no peer, at a cookie not in use. -/
theorem SessionsOk.insert (hok : vn.SessionsOk) (hk : vn.syncs.contains cookie = false)
    (hfit : s.FitsStatus vn.state.status) (hpeer : s.syncPeer? = none)
    (hpb : vn.state.pendingBootstrap = false) : SessionsOk ⟨vn.state, vn.syncs.insert cookie s⟩ := by
  have hk' : cookie ∉ vn.syncs.keys := (vn.syncs.contains_eq_false_iff).mp hk
  refine ⟨hok.fits.insert hfit, fun q => ?_, fun h => ?_⟩
  · rw [VecMap.countValues_insert_of_not_mem hk']
    simpa [hpeer] using hok.registered q
  · rw [hpb] at h
    cases h

/-- Removing a session (`syncs.remove` and `on_remove`) does not panic: a
receiver's peer is registered. -/
theorem SessionsOk.removeSync (hok : vn.SessionsOk) (hs : vn.syncs.get? cookie = some s) :
    ∃ vn', vn.removeSync cookie s = some vn' ∧ vn'.SessionsOk ∧
      vn'.syncs = vn.syncs.erase cookie ∧ vn'.state.status = vn.state.status ∧
      vn'.state.pendingBootstrap = false := by
  have hpb := hok.pendingBootstrap_eq_false hs
  -- `on_remove` takes a sync receiver's peer out of `sync_nodes` and keeps the rest
  obtain ⟨st, hst, hstatus, hpend, hmem⟩ : ∃ st, s.onRemove vn.state = some st ∧
      st.status = vn.state.status ∧ st.pendingBootstrap = vn.state.pendingBootstrap ∧
      ∀ q, q ∈ st.syncNodes ↔ q ∈ vn.state.syncNodes ∧ s.syncPeer? ≠ some q := by
    cases s with
    | syncReceiver cip c peer n =>
      have hpeer := hok.registered.mem_syncNodes hs rfl
      refine ⟨_, if_pos hpeer, rfl, rfl, fun q => ?_⟩
      simp [Synchronization.syncPeer?, Finset.mem_erase, and_comm, eq_comm]
    | syncSender | bootstrapSender | bootstrapReceiver =>
      exact ⟨_, rfl, rfl, rfl, fun q => by simp [Synchronization.syncPeer?]⟩
  refine ⟨⟨st, vn.syncs.erase cookie⟩, by simp [VNode.removeSync, hst], ⟨?_, fun q => ?_, ?_⟩, rfl,
    hstatus, hpend.trans hpb⟩
  · show (vn.syncs.erase cookie).AllValues fun s => s.FitsStatus st.status
    rw [hstatus]
    exact hok.fits.erase cookie
  · -- the removed session counted for its peer, and only for it
    have hcount := VecMap.countValues_erase (p := fun s => s.syncPeer? == some q) hs
    show (vn.syncs.erase cookie).countValues _ = if q ∈ st.syncNodes then 1 else 0
    by_cases hq : s.syncPeer? = some q
    · have hin := hok.registered.mem_syncNodes hs hq
      rw [hok.registered q, if_pos hin, if_pos (by simpa using hq)] at hcount
      rw [if_neg fun h => ((hmem q).mp h).2 hq]
      omega
    · rw [hok.registered q, if_neg (by simpa using hq)] at hcount
      simp only [hmem q, hq, ne_eq, not_false_eq_true, and_true]
      omega
  · intro h
    rw [hpend, hpb] at h
    cases h

/-- `set_status` towards a status other than `Bootstrap` that the sessions fit. -/
theorem SessionsOk.setStatus (hok : vn.SessionsOk) {new : VNodeStatus} {rnd : ℕ} {st : VNodeState}
    (hst : vn.state.setStatus new rnd = some st) (hfit : vn.syncs.AllValues fun s => s.FitsStatus new)
    (hnew : new ≠ .bootstrap) : StatusOk ⟨st, vn.syncs⟩ := by
  have hl := VNodeState.lifecycle_setStatus hst
  simp only [VNodeState.lifecycle, Prod.mk.injEq] at hl
  obtain ⟨hstatus, hpb, hsn⟩ := hl
  refine ⟨⟨?_, fun q => ?_, fun h => ?_⟩, fun h => absurd (hstatus ▸ h) hnew⟩
  · show vn.syncs.AllValues fun s => s.FitsStatus st.status
    rw [hstatus]
    exact hfit
  · show vn.syncs.countValues _ = if q ∈ st.syncNodes then 1 else 0
    rw [hsn]
    exact hok.registered q
  · -- a pending bootstrap survives only a change to the status it has
    have h' : vn.state.pendingBootstrap = true ∧ new = vn.state.status := by
      simpa [hpb] using h
    exact absurd (h'.2.trans (hok.pending h'.1).1) hnew

/-- The end of a bootstrap whose session is gone: a failure makes it pending
again, a success makes the vnode `Ready`, or `Absent` if the ring refused the
promotion; `set_status` does not panic there. -/
theorem SessionsOk.handleBootstrapResult (hok : vn.SessionsOk) (hb : vn.state.status = .bootstrap)
    (hsize : vn.syncs.size = 0) (promoted : Bool) {res : SyncResult} (hres : res ≠ .continue) :
    ∃ vn', vn.handleBootstrapResult promoted res = some vn' ∧ vn'.StatusOk := by
  have hnone := VecMap.get?_eq_none_of_size_eq_zero hsize
  have hsn : vn.state.syncNodes = ∅ :=
    hok.registered.syncNodes_eq_empty fun k v hv => by simp [hnone k] at hv
  -- the constructors in order: `Continue`, `Done`, `Error`
  cases res
  · exact absurd rfl hres
  · have hnew : (if promoted then VNodeStatus.ready else .absent) ≠ .bootstrap := by
      cases promoted <;> decide
    obtain ⟨st, hst⟩ := VNodeState.setStatus_isSome vn.state
      (if promoted then .ready else .absent) 0 (fun h => absurd h hnew) fun _ => hsn
    refine ⟨{ vn with state := st }, by simp [VNode.handleBootstrapResult, hst], ?_⟩
    exact hok.setStatus hst (fun k v hv => by simp [hnone k] at hv) hnew
  · refine ⟨_, rfl, statusOk_of_size_eq_zero hsize hsn ?_⟩
    simp [hb]

/-- A session ends: it is removed and, in `Bootstrap`, the bootstrap's result
is handled; neither step panics. The tail of `handler_sync_fin` and of a
session's timeout. -/
theorem StatusOk.endSession (hok : vn.StatusOk) (hs : vn.syncs.get? cookie = some s)
    (promoted : Bool) {res : SyncResult} (hres : res ≠ .continue) :
    ∃ vn₂, vn.removeSync cookie s = some vn₂ ∧ ∃ vn₃,
      (if vn₂.state.status = .bootstrap then vn₂.handleBootstrapResult promoted res
        else some vn₂) = some vn₃ ∧ vn₃.StatusOk := by
  obtain ⟨vn₂, h₂, hok₂, hsyncs, hstatus, -⟩ := hok.toSessionsOk.removeSync hs
  refine ⟨vn₂, h₂, ?_⟩
  split
  · rename_i hb
    -- the one session of a running bootstrap was this one
    have hone := hok.bootstrap (hstatus ▸ hb) (hok.toSessionsOk.pendingBootstrap_eq_false hs)
    have herase := VecMap.size_erase hs
    have hsize : vn₂.syncs.size = 0 := by
      rw [hsyncs]
      omega
    exact hok₂.handleBootstrapResult hb hsize promoted hres
  · rename_i hb
    exact ⟨vn₂, rfl, hok₂.statusOk hb⟩

section Handlers

variable (limit window : ℕ) (self : NodeId) {r : VNode × List Msg}

/-- The receivers a loop over entries has still to cancel: their entries are
still stored, and every receiver stored is among them. -/
def ToCancel (l : List (Cookie × Synchronization)) (vn : VNode) : Prop :=
  (l.map Prod.fst).Nodup ∧ (∀ e ∈ l, vn.syncs.get? e.1 = some e.2) ∧
    ∀ k v, vn.syncs.get? k = some v → v.isReceiver = true → (k, v) ∈ l

/-- The loop of `cancelIncoming`: each receiver is removed, and once the loop
is over no receiver is left. -/
theorem cancelIncoming_loop {l : List (Cookie × Synchronization)} (acc : VNode × List Msg)
    (hok : acc.1.SessionsOk) (hl : ToCancel l acc.1) :
    ∃ r, l.foldlM (fun (acc : VNode × List Msg) e =>
        if e.2.isReceiver then do
          let vn' ← acc.1.removeSync e.1 e.2
          pure (vn', acc.2 ++ [errorFin self e.2.peer e.1 .badVNodeStatus])
        else pure acc) acc = some r ∧
      r.1.SessionsOk ∧ r.1.state.status = acc.1.state.status ∧ ToCancel [] r.1 := by
  refine foldlM_eq_some_of_step (P := fun (acc' : VNode × List Msg) l => acc'.1.SessionsOk ∧
    acc'.1.state.status = acc.1.state.status ∧ ToCancel l acc'.1) ?_ ⟨hok, rfl, hl⟩
  rintro b ⟨k, v⟩ l ⟨hokb, hstatus, hnd, hin, hrecv⟩
  rw [List.map_cons, List.nodup_cons] at hnd
  have hv : b.1.syncs.get? k = some v := hin (k, v) List.mem_cons_self
  have hk : ∀ e ∈ l, e.1 ≠ k := fun e he hek => hnd.1 (List.mem_map.mpr ⟨e, he, hek⟩)
  by_cases hr : v.isReceiver = true
  · -- a receiver: removed, and the entries left keep their sessions
    obtain ⟨vn', h', hok', hsyncs, hstatus', -⟩ := hokb.removeSync hv
    refine ⟨(vn', b.2 ++ [errorFin self v.peer k .badVNodeStatus]), by simp [hr, h'],
      hok', hstatus'.trans hstatus, hnd.2, fun e he => ?_, fun k' v' hv' hr' => ?_⟩
    · rw [hsyncs, VecMap.get?_erase, if_neg (hk e he)]
      exact hin e (List.mem_cons_of_mem _ he)
    · rw [hsyncs, VecMap.get?_erase] at hv'
      split at hv'
      · cases hv'
      · rename_i hne
        rcases List.mem_cons.mp (hrecv k' v' hv' hr') with h | h
        · exact absurd (Prod.mk.inj h).1 hne
        · exact h
  · -- a sender stays
    refine ⟨b, by simp [hr], hokb, hstatus, hnd.2, fun e he => hin e (List.mem_cons_of_mem _ he),
      fun k' v' hv' hr' => ?_⟩
    rcases List.mem_cons.mp (hrecv k' v' hv' hr') with h | h
    · cases h
      exact absurd hr' hr
    · exact h

/-- Leaving the vnode cancels every receiving session without a panic: no
receiver is left and `sync_nodes` is empty. -/
theorem cancelIncoming_spec (hok : vn.SessionsOk) :
    ∃ r, vn.cancelIncoming self = some r ∧ r.1.SessionsOk ∧ r.1.state.status = vn.state.status ∧
      r.1.syncs.AllValues (fun s => s.isReceiver = false) ∧ r.1.state.syncNodes = ∅ := by
  have hl : ToCancel vn.syncs.entries vn :=
    ⟨vn.syncs.nodup, fun e he => (vn.syncs.get?_eq_some_iff).mpr he,
      fun k v hv _ => (vn.syncs.get?_eq_some_iff).mp hv⟩
  obtain ⟨r, h, hok', hstatus, -, -, hrecv⟩ := cancelIncoming_loop self (vn, []) hok hl
  have hsenders : r.1.syncs.AllValues fun s => s.isReceiver = false :=
    fun k v hv => Bool.eq_false_iff.mpr fun hr => absurd (hrecv k v hv hr) List.not_mem_nil
  refine ⟨r, h, hok', hstatus, hsenders, hok'.registered.syncNodes_eq_empty ?_⟩
  exact hsenders.imp fun _ => Synchronization.syncPeer?_eq_none_of_isReceiver

/-- A remote write changes the clocks and the storage only. -/
theorem handlerSetRemote_statusOk (hok : vn.StatusOk) {writes : RemoteWrites} {vn' : VNode}
    (h : vn.handlerSetRemote writes = some vn') : vn'.StatusOk := by
  have hstore : ∀ r, vn.state.storageSetRemote writes = some r →
      VNode.StatusOk { vn with state := r.1 } :=
    fun r hr => hok.congr rfl (VNodeState.lifecycle_storageSetRemote hr)
  unfold handlerSetRemote at h
  split at h
  · obtain ⟨r, hr, h⟩ := Option.bind_eq_some_iff.mp h
    cases h
    exact hstore r hr
  · obtain ⟨r, hr, h⟩ := Option.bind_eq_some_iff.mp h
    cases h
    exact hstore r hr
  · cases h
    exact hok

/-- A new sender, in `Ready` or in a zombie within its timeout. -/
theorem handlerSyncStart_statusOk (hok : vn.StatusOk) {src : NodeId} {cookie : Cookie}
    {cip : BitmappedVersionVector} {target : Option NodeId} {zombieFresh : Bool}
    (h : vn.handlerSyncStart limit window self src cookie cip target zombieFresh = some r) :
    r.1.StatusOk := by
  unfold handlerSyncStart at h
  split at h
  · cases h
    exact hok
  split at h
  · cases h
    exact hok
  rename_i hstatus hk
  have hst : vn.state.status = .ready ∨ vn.state.status = .zombie := by
    simp at hstatus
    by_cases h : vn.state.status = .ready
    · exact Or.inl h
    · exact Or.inr (hstatus h).1
  have hnb : vn.state.status ≠ .bootstrap := by
    rcases hst with h | h <;> rw [h] <;> decide
  have hsession : ∀ sync : Synchronization, sync.isReceiver = false →
      VNode.StatusOk ⟨vn.state, vn.syncs.insert cookie (sync.onStart vn.state limit window self).1⟩ := by
    intro sync hsender
    have hlike : sync.Like (sync.onStart vn.state limit window self).1 :=
      Synchronization.like_onStart limit window self sync
    refine (hok.toSessionsOk.insert (Bool.eq_false_iff.mpr hk) ?_ ?_
      (hok.pendingBootstrap_eq_false_of_status hnb)).statusOk hnb
    · exact (hlike.2 _).mpr (Synchronization.fitsStatus_of_isReceiver_eq_false hsender hst)
    · rw [hlike.1]
      exact Synchronization.syncPeer?_eq_none_of_isReceiver hsender
  -- the session is a bootstrap sender when no target is named, else a sync sender
  cases target with
  | none =>
    simp only [Option.bind_eq_bind, Option.bind_some, Option.pure_def, Option.some.injEq] at h
    rw [← h]
    exact hsession _ rfl
  | some t =>
    simp only [Option.bind_eq_bind, Option.bind_some, Option.pure_def] at h
    split at h
    · rw [← Option.some.inj h]
      exact hsession _ rfl
    · simp at h

/-- A receiver stores a pair; a sync send to a sender panics. -/
theorem handlerSyncSend_statusOk (hok : vn.StatusOk) {src : NodeId} {cookie : Cookie} {seq : ℕ}
    {key : Bytes} {value : Cube} (h : vn.handlerSyncSend self src cookie seq key value = some r) :
    r.1.StatusOk := by
  have hrecv : ∀ s, vn.syncs.get? cookie = some s →
      (do let r ← s.onMsgSend vn.state self seq key value
          pure ((⟨r.2.1, vn.syncs.insert cookie r.1⟩ : VNode), r.2.2)) = some r →
        r.1.StatusOk := by
    intro s hs h
    obtain ⟨r', hr', h⟩ := Option.bind_eq_some_iff.mp h
    cases h
    obtain ⟨hlike, res, hset⟩ := Synchronization.onMsgSend_like hr'
    exact hok.replace hs hlike (VNodeState.lifecycle_storageSetRemote hset)
  unfold handlerSyncSend at h
  split at h
  · split at h
    · cases h
      exact hok
    · exact hrecv _ ‹_› h
  · split at h
    · cases h
      exact hok
    · exact hrecv _ ‹_› h
  · cases h
    exact hok

/-- A sender goes on; a sync ack to a receiver panics. -/
theorem handlerSyncAck_statusOk (hok : vn.StatusOk) {src : NodeId} {cookie : Cookie} {seq : ℕ}
    (h : vn.handlerSyncAck limit window self src cookie seq = some r) : r.1.StatusOk := by
  have hsend : ∀ s, vn.syncs.get? cookie = some s →
      (do let r ← s.onMsgAck vn.state limit window self seq
          pure ({ vn with syncs := vn.syncs.insert cookie r.1 }, r.2)) = some r →
        r.1.StatusOk := by
    intro s hs h
    obtain ⟨r', hr', h⟩ := Option.bind_eq_some_iff.mp h
    cases h
    exact hok.replace hs (Synchronization.onMsgAck_like hr') rfl
  unfold handlerSyncAck at h
  split at h
  · split at h
    · cases h
      exact hok
    · exact hsend _ ‹_› h
  · split at h
    · cases h
      exact hok
    · exact hsend _ ‹_› h
  · cases h
    exact hok

/-- A `SyncFin` never panics: the session it names is removed unless the peer
was not ready, and a bootstrap's end is handled. -/
theorem handlerSyncFin_spec (hok : vn.StatusOk) (src : NodeId) (cookie : Cookie)
    (result : Except FabricError BitmappedVersionVector) (promoted : Bool) :
    ∃ r, vn.handlerSyncFin self src cookie result promoted = some r ∧ r.1.StatusOk := by
  unfold handlerSyncFin
  split
  case h_4 => exact ⟨_, rfl, hok⟩
  case h_1 | h_2 | h_3 =>
    split
    · exact ⟨_, rfl, hok⟩
    rename_i s hs
    have hok₁ : VNode.StatusOk { vn with state := (s.onMsgFin vn.state self cookie result).2.1 } :=
      hok.congr rfl (Synchronization.lifecycle_onMsgFin self cookie result s)
    simp only [Option.bind_eq_bind, Option.pure_def]
    split
    · -- `Continue`: the session stays
      rename_i hcont
      rw [Option.bind_some]
      split
      · rw [hcont]
        exact ⟨_, rfl, hok₁⟩
      · exact ⟨_, rfl, hok₁⟩
    · rename_i hcont
      obtain ⟨vn₂, h₂, vn₃, h₃, hok₃⟩ := hok₁.endSession hs promoted hcont
      rw [h₂, Option.bind_some]
      refine ⟨(vn₃, (s.onMsgFin vn.state self cookie result).2.2), ?_, hok₃⟩
      split
      · rw [if_pos ‹_›] at h₃
        rw [h₃, Option.bind_some]
      · rw [if_neg ‹_›] at h₃
        rw [h₃, Option.bind_some]

/-- A new sync receiver, its peer registered in `sync_nodes`. -/
theorem doStartSync_statusOk (hok : vn.StatusOk) {peer : NodeId} {cookie : Cookie}
    (h : vn.doStartSync limit window self peer cookie = some r) : r.1.StatusOk := by
  unfold doStartSync at h
  split at h
  · rename_i hg
    obtain ⟨hready, -, hpeer, hk⟩ := hg
    cases h
    have hk' : cookie ∉ vn.syncs.keys := by simpa using hk
    have hnb : vn.state.status ≠ .bootstrap := by
      rw [hready]
      decide
    refine SessionsOk.statusOk ⟨hok.fits.insert hready, fun q => ?_, fun h => ?_⟩ hnb
    · -- the peer was in no session and is now in one
      show (vn.syncs.insert cookie _).countValues _ = if q ∈ insert peer vn.state.syncNodes then 1 else 0
      rw [VecMap.countValues_insert_of_not_mem hk', hok.registered q]
      by_cases hq : q = peer
      · subst hq
        simp [hpeer, Synchronization.onStart, Synchronization.syncPeer?]
      · simp [hq, Ne.symm hq, Synchronization.onStart, Synchronization.syncPeer?]
    · rw [hok.pendingBootstrap_eq_false_of_status hnb] at h
      cases h
  · cases h

/-- A pending bootstrap starts without a panic: it has no session, as
`start_bootstrap` asserts, and ends at once when no peer is left. -/
theorem startBootstrap_spec (hok : vn.StatusOk) (hpb : vn.state.pendingBootstrap = true)
    (peer : Option NodeId) (cookie : Cookie) (promoted : Bool) :
    ∃ r, vn.startBootstrap self peer cookie promoted = some r ∧ r.1.StatusOk := by
  obtain ⟨hb, hsize⟩ := hok.pending hpb
  have hempty : vn.syncs.isEmpty = true := VecMap.isEmpty_eq_true_iff.mpr hsize
  have hok₀ : SessionsOk { vn with state := { vn.state with pendingBootstrap := false } } :=
    ⟨hok.fits, hok.registered, fun h => by cases h⟩
  cases peer with
  | none =>
    obtain ⟨vn', h', hok'⟩ := hok₀.handleBootstrapResult hb hsize promoted
      (show SyncResult.done ≠ .continue by decide)
    refine ⟨(vn', []), ?_, hok'⟩
    unfold startBootstrap
    rw [if_pos ⟨hb, hpb⟩, if_pos hempty]
    simp [h']
  | some p =>
    -- one session, the bootstrap's
    have hk : cookie ∉ vn.syncs.keys :=
      (vn.syncs.get?_eq_none_iff).mp (VecMap.get?_eq_none_of_size_eq_zero hsize cookie)
    refine ⟨_, by rw [startBootstrap, if_pos ⟨hb, hpb⟩, if_pos hempty],
      ⟨hok₀.insert (s := .bootstrapReceiver cookie p 0) ((vn.syncs.contains_eq_false_iff).mpr hk)
        hb rfl rfl, fun _ _ => ?_⟩⟩
    show (vn.syncs.insert cookie _).size = 1
    rw [VecMap.size_insert_of_not_mem hk, hsize]

theorem startBootstrap_statusOk (hok : vn.StatusOk) {peer : Option NodeId} {cookie : Cookie}
    {promoted : Bool} (h : vn.startBootstrap self peer cookie promoted = some r) : r.1.StatusOk := by
  cases hpb : vn.state.pendingBootstrap
  · simp [startBootstrap, hpb] at h
  · obtain ⟨r', h', hok'⟩ := startBootstrap_spec self hok hpb peer cookie promoted
    rw [h'] at h
    cases h
    exact hok'

/-- The tick of a sender sends more. -/
theorem syncTick_statusOk (hok : vn.StatusOk) {cookie : Cookie}
    (h : vn.syncTick limit window self cookie = some r) : r.1.StatusOk := by
  obtain ⟨s, hs, h⟩ := Option.bind_eq_some_iff.mp h
  split at h
  · cases h
  · cases h
    exact hok.replace hs (Synchronization.like_sendNext limit window self s) rfl

/-- A session that timed out is removed without a panic, and a bootstrap's
failure makes it pending again. -/
theorem syncTimeout_spec (hok : vn.StatusOk) (hs : vn.syncs.get? cookie = some s) :
    ∃ vn', vn.syncTimeout cookie = some vn' ∧ vn'.StatusOk := by
  obtain ⟨vn₂, h₂, vn₃, h₃, hok₃⟩ := hok.endSession hs false (show SyncResult.error ≠ .continue by decide)
  refine ⟨vn₃, ?_, hok₃⟩
  simp only [syncTimeout, hs, h₂, Option.bind_eq_bind, Option.bind_some]
  exact h₃

theorem syncTimeout_statusOk (hok : vn.StatusOk) {vn' : VNode}
    (h : vn.syncTimeout cookie = some vn') : vn'.StatusOk := by
  cases hs : vn.syncs.get? cookie with
  | none => simp [syncTimeout, hs] at h
  | some s =>
    obtain ⟨vn'', h', hok'⟩ := syncTimeout_spec hok hs
    rw [h'] at h
    cases h
    exact hok'

/-- An `Absent` vnode has no session. -/
theorem StatusOk.get?_eq_none_of_absent (hok : vn.StatusOk) (ha : vn.state.status = .absent)
    (k : Cookie) : vn.syncs.get? k = none :=
  Option.eq_none_iff_forall_ne_some.mpr fun v hv =>
    Synchronization.not_fitsStatus_absent (ha ▸ hok.fits k v hv)

/-- A ring change towards `Ready` or `Absent` never panics. Leaving cancels the
receivers first, so that `set_status` finds `sync_nodes` empty; an absent
vnode that comes back has no session and bootstraps. -/
theorem handlerDhtChange_spec (hok : vn.StatusOk) {final : VNodeStatus}
    (hfinal : final = .ready ∨ final = .absent) (rnd : ℕ) :
    ∃ r, vn.handlerDhtChange self final rnd = some r ∧ r.1.StatusOk := by
  rcases hfinal with rfl | rfl
  · -- the ring gives the node the vnode
    cases hs : vn.state.status with
    | ready | bootstrap => exact ⟨(vn, []), by simp [handlerDhtChange, hs], hok⟩
    | zombie =>
      -- a zombie is `Ready` again, with its senders
      obtain ⟨st, hst⟩ := VNodeState.setStatus_isSome vn.state .ready 0
        (fun h => by cases h) fun h => by simp at h
      refine ⟨({ vn with state := st }, []), by simp [handlerDhtChange, hs, hst], ?_⟩
      exact hok.setStatus hst (hok.fits.imp fun _ h =>
        Synchronization.fitsStatus_ready_of_zombie (hs ▸ h)) (by decide)
    | absent =>
      -- no session and no peer: `set_status(Bootstrap)` does not panic
      have hnone := hok.get?_eq_none_of_absent hs
      have hsn := hok.registered.syncNodes_eq_empty fun k v hv => by simp [hnone k] at hv
      obtain ⟨st, hst⟩ := VNodeState.setStatus_isSome vn.state .bootstrap rnd
        (fun _ => hok.pendingBootstrap_eq_false_of_status (by rw [hs]; decide)) fun _ => hsn
      have hl := VNodeState.lifecycle_setStatus hst
      simp only [VNodeState.lifecycle, Prod.mk.injEq] at hl
      refine ⟨({ vn with state := { st with pendingBootstrap := true } }, []),
        by simp [handlerDhtChange, hs, hst], statusOk_of_size_eq_zero ?_ ?_ ?_⟩
      · exact VecMap.size_eq_zero_of_get?_eq_none hnone
      · exact hl.2.2.trans hsn
      · simpa using hl.1
  · -- the ring takes the vnode away
    cases hs : vn.state.status with
    | zombie | absent => exact ⟨(vn, []), by simp [handlerDhtChange, hs], hok⟩
    | ready =>
      -- the senders stay, in a zombie
      obtain ⟨r₁, h₁, hok₁, hstatus, hsenders, hsn⟩ := cancelIncoming_spec self hok.toSessionsOk
      obtain ⟨st, hst⟩ := VNodeState.setStatus_isSome r₁.1.state .zombie 0
        (fun h => by cases h) fun h => by simp at h
      refine ⟨({ r₁.1 with state := st }, r₁.2), by simp [handlerDhtChange, hs, h₁, hst], ?_⟩
      refine hok₁.setStatus hst (fun k v hv => ?_) (by decide)
      exact Synchronization.fitsStatus_zombie (hsenders k v hv)
        ((hstatus.trans hs) ▸ hok₁.fits k v hv)
    | bootstrap =>
      -- a bootstrap keeps receivers only, so nothing is left
      obtain ⟨r₁, h₁, hok₁, hstatus, hsenders, hsn⟩ := cancelIncoming_spec self hok.toSessionsOk
      obtain ⟨st, hst⟩ := VNodeState.setStatus_isSome r₁.1.state .absent 0
        (fun h => by cases h) fun _ => hsn
      refine ⟨({ r₁.1 with state := st }, r₁.2), by simp [handlerDhtChange, hs, h₁, hst], ?_⟩
      refine hok₁.setStatus hst (fun k v hv => ?_) (by decide)
      have hrecv := Synchronization.isReceiver_of_fitsStatus_bootstrap
        ((hstatus.trans hs) ▸ hok₁.fits k v hv)
      rw [hsenders k v hv] at hrecv
      cases hrecv

theorem handlerDhtChange_statusOk (hok : vn.StatusOk) {final : VNodeStatus} {rnd : ℕ}
    (h : vn.handlerDhtChange self final rnd = some r) : r.1.StatusOk := by
  by_cases hfinal : final = .ready ∨ final = .absent
  · obtain ⟨r', h', hok'⟩ := handlerDhtChange_spec self hok hfinal rnd
    rw [h'] at h
    cases h
    exact hok'
  · -- the ring gives no other status
    unfold handlerDhtChange at h
    rw [if_pos ⟨fun h => hfinal (Or.inr h), fun h => hfinal (Or.inl h)⟩] at h
    cases h

/-- A zombie with no session goes `Absent` without a panic. -/
theorem zombieTimeout_spec (hok : vn.StatusOk) (hz : vn.state.status = .zombie)
    (he : vn.syncs.isEmpty = true) : ∃ vn', vn.zombieTimeout = some vn' ∧ vn'.StatusOk := by
  have hnone := VecMap.get?_eq_none_of_size_eq_zero (VecMap.isEmpty_eq_true_iff.mp he)
  have hsn := hok.registered.syncNodes_eq_empty fun k v hv => by simp [hnone k] at hv
  have hpb := hok.pendingBootstrap_eq_false_of_status (by rw [hz]; decide)
  obtain ⟨st, hst⟩ := VNodeState.setStatus_isSome vn.state .absent 0
    (fun h => by cases h) fun _ => hsn
  refine ⟨{ vn with state := st }, by simp [zombieTimeout, hpb, hz, he, hst], ?_⟩
  exact hok.setStatus hst (fun k v hv => by simp [hnone k] at hv) (by decide)

theorem zombieTimeout_statusOk (hok : vn.StatusOk) {vn' : VNode} (h : vn.zombieTimeout = some vn') :
    vn'.StatusOk := by
  by_cases hg : vn.state.status = .zombie ∧ vn.syncs.isEmpty = true
  · obtain ⟨vn'', h', hok'⟩ := zombieTimeout_spec hok hg.1 hg.2
    rw [h'] at h
    cases h
    exact hok'
  · unfold zombieTimeout at h
    rw [if_neg fun hg' => hg ⟨hg'.2.1, hg'.2.2⟩] at h
    cases h

end Handlers

/-- A restart loads the vnode with no session, pending exactly when it
bootstraps. -/
theorem restart_statusOk {self : NodeId} {st : VNodeState} {status : VNodeStatus} {rnd : ℕ}
    {vn' : VNode} (h : VNode.restart self st status rnd = some vn') : vn'.StatusOk := by
  obtain ⟨st', hload, h⟩ := Option.bind_eq_some_iff.mp h
  have hl := VNodeState.lifecycle_load hload
  simp only [VNodeState.lifecycle, Prod.mk.injEq] at hl
  obtain ⟨hstatus, hpb, hsn⟩ := hl
  split at h
  all_goals cases h
  all_goals
    refine statusOk_of_size_eq_zero rfl hsn ?_
    simp [VNodeState.save, hstatus, hpb]

/-- A new vnode: no session, pending exactly when it bootstraps. -/
theorem fresh_statusOk (self : NodeId) (num : ℕ) (status : VNodeStatus) (rnd : ℕ) :
    (fresh self num status rnd).StatusOk :=
  statusOk_of_size_eq_zero rfl rfl (by simp [fresh, VNodeState.newEmpty, VNodeState.save])

end VNode

/-! ## Every run -/

namespace Partition

/-- Every vnode of the partition keeps the invariant of the status machine. -/
def StatusOk (p : Partition) : Prop :=
  ∀ n, (p.nodes n).StatusOk

variable {p p' : Partition} {limit window : ℕ}

theorem initial_statusOk (num : ℕ) (status : NodeId → VNodeStatus) (rnd : NodeId → ℕ) :
    (initial num status rnd).StatusOk :=
  fun n => VNode.fresh_statusOk n num (status n) (rnd n)

theorem StatusOk.setNode (hp : p.StatusOk) {n : NodeId} {vn : VNode} (hvn : vn.StatusOk) :
    (p.setNode n vn).StatusOk := by
  intro m
  by_cases hm : m = n
  · subst hm
    simp only [Partition.setNode, Function.update_self]
    exact hvn
  · simp only [Partition.setNode, Function.update_of_ne hm]
    exact hp m

theorem StatusOk.update (hp : p.StatusOk) {n : NodeId} {r : Option (VNode × List Msg)}
    (hr : ∀ r', r = some r' → r'.1.StatusOk) (h : p.update n r = some p') : p'.StatusOk := by
  obtain ⟨r', hr', rfl⟩ := Option.map_eq_some_iff.mp h
  exact hp.setNode (hr r' hr')

/-- A handler that sends nothing. -/
theorem statusOk_of_map {o : Option VNode} (ho : ∀ vn, o = some vn → vn.StatusOk) :
    ∀ r, o.map (·, ([] : List Msg)) = some r → r.1.StatusOk := by
  intro r hr
  obtain ⟨vn, hvn, rfl⟩ := Option.map_eq_some_iff.mp hr
  exact ho vn hvn

/-- `do_flush` changes the clocks and the storage only. -/
theorem StatusOk.flush (hp : p.StatusOk) {n : NodeId} {ws : List (Bytes × WriteCmd)}
    {replicas : List NodeId} (h : p.flush n ws replicas = some p') : p'.StatusOk := by
  have hnode : ∀ st r, (p.nodes n).state.doFlush (ws.map fun w => .ofCmd w.1 w.2) = (st, r) →
      VNode.StatusOk { p.nodes n with state := st } :=
    fun _ _ hf => (hp n).congr rfl (VNodeState.lifecycle_doFlush hf)
  unfold Partition.flush at h
  dsimp only at h
  split at h
  · cases h
  · rename_i st done msg hf
    cases h
    exact hp.setNode (hnode _ _ hf)
  · rename_i st r _ _ hf
    cases h
    exact hp.setNode (hnode _ _ hf)

/-- Every event keeps the invariant. -/
theorem StatusOk.step (hp : p.StatusOk) {e : Event} (h : p.step limit window e = some p') :
    p'.StatusOk := by
  cases e with
  | flush n ws replicas => exact hp.flush h
  | deliver i zombieFresh promoted =>
    obtain ⟨m, -, h⟩ := Option.bind_eq_some_iff.mp h
    cases m with
    | remoteSet src dst ws =>
      exact hp.update (statusOk_of_map fun _ hvn => VNode.handlerSetRemote_statusOk (hp dst) hvn) h
    | syncStart src dst cookie cip target =>
      exact hp.update (fun _ hr => VNode.handlerSyncStart_statusOk limit window dst (hp dst) hr) h
    | syncSend src dst cookie seq key value =>
      exact hp.update (fun _ hr => VNode.handlerSyncSend_statusOk dst (hp dst) hr) h
    | syncAck src dst cookie seq =>
      exact hp.update (fun _ hr => VNode.handlerSyncAck_statusOk limit window dst (hp dst) hr) h
    | syncFin src dst cookie result =>
      refine hp.update (fun r hr => ?_) h
      obtain ⟨r', h', hok'⟩ := VNode.handlerSyncFin_spec dst (hp dst) src cookie result promoted
      rw [h'] at hr
      cases hr
      exact hok'
  | startSync n peer cookie =>
    exact hp.update (fun _ hr => VNode.doStartSync_statusOk limit window n (hp n) hr) h
  | startBootstrap n peer cookie promoted =>
    exact hp.update (fun _ hr => VNode.startBootstrap_statusOk n (hp n) hr) h
  | syncTick n cookie =>
    exact hp.update (fun _ hr => VNode.syncTick_statusOk limit window n (hp n) hr) h
  | syncTimeout n cookie =>
    exact hp.update (statusOk_of_map fun _ hvn => VNode.syncTimeout_statusOk (hp n) hvn) h
  | dhtChange n final rnd =>
    exact hp.update (fun _ hr => VNode.handlerDhtChange_statusOk n (hp n) hr) h
  | zombieTimeout n =>
    exact hp.update (statusOk_of_map fun _ hvn => VNode.zombieTimeout_statusOk (hp n) hvn) h
  | restart n clean status rnd =>
    exact hp.update (statusOk_of_map fun _ hvn => VNode.restart_statusOk hvn) h

/-- Every reachable partition keeps the invariant. -/
theorem Reachable.statusOk (h : Partition.Reachable limit window p) : p.StatusOk :=
  Sucredb.Reachable.induct (fun _ ⟨num, status, rnd, _, hs⟩ => hs ▸ initial_statusOk num status rnd)
    (fun _ _ _ _ hp hs => hp.step hs) h

end Partition

/-- In every reachable partition, the sessions of each vnode fit its status (a
sync receiver only in `Ready`, a bootstrap receiver only in `Bootstrap`, a
sender only in `Ready` or `Zombie`, so an `Absent` vnode has none);
`sync_nodes` holds exactly the peers of its sync receivers, each the peer of
one; a pending bootstrap is a `Bootstrap` vnode with no session; and a
`Bootstrap` vnode that is not pending has exactly one session. -/
theorem status_machine_invariant {limit window : ℕ} {p : Partition}
    (h : Partition.Reachable limit window p) (n : NodeId) :
    (∀ cookie s, (p.nodes n).syncs.get? cookie = some s →
      s.FitsStatus (p.nodes n).state.status) ∧
    (∀ q, (p.nodes n).syncs.countValues (fun s => s.syncPeer? == some q) =
      if q ∈ (p.nodes n).state.syncNodes then 1 else 0) ∧
    ((p.nodes n).state.pendingBootstrap = true →
      (p.nodes n).state.status = .bootstrap ∧ (p.nodes n).syncs.size = 0) ∧
    ((p.nodes n).state.status = .bootstrap → (p.nodes n).state.pendingBootstrap = false →
      (p.nodes n).syncs.size = 1) := by
  have hok := Partition.Reachable.statusOk h n
  exact ⟨hok.fits, hok.registered, hok.pending, hok.bootstrap⟩

/-- Node 1 starts a sync from node 2. -/
theorem status_machine_invariant_after_start_sync :
    ∃ p, run (Partition.step 1000 10) (Partition.initial 0 (fun _ => .ready) fun n => n)
        [.startSync 1 2 7] = some p ∧
      (∀ cookie s, (p.nodes 1).syncs.get? cookie = some s →
        s.FitsStatus (p.nodes 1).state.status) ∧
      (∀ q, (p.nodes 1).syncs.countValues (fun s => s.syncPeer? == some q) =
        if q ∈ (p.nodes 1).state.syncNodes then 1 else 0) ∧
      ((p.nodes 1).state.pendingBootstrap = true →
        (p.nodes 1).state.status = .bootstrap ∧ (p.nodes 1).syncs.size = 0) ∧
      ((p.nodes 1).state.status = .bootstrap → (p.nodes 1).state.pendingBootstrap = false →
        (p.nodes 1).syncs.size = 1) := by
  have hinit : Partition.Initial (Partition.initial 0 (fun _ => .ready) fun n => n) :=
    ⟨0, _, _, fun _ => by decide, rfl⟩
  obtain ⟨p, hrun⟩ : ∃ p, run (Partition.step 1000 10)
      (Partition.initial 0 (fun _ => .ready) fun n => n) [.startSync 1 2 7] = some p := ⟨_, rfl⟩
  exact ⟨p, hrun, status_machine_invariant (reachable_of_run hinit hrun) 1⟩

/-- From every reachable partition, the handlers whose assertions rest on the
status machine do not panic: a ring change towards `Ready` or `Absent`, any
`SyncFin`, the timeout of any session, the start of a pending bootstrap, and
the timeout of a zombie with no session left. -/
theorem status_machine_never_panics {limit window : ℕ} {p : Partition}
    (h : Partition.Reachable limit window p) (n : NodeId) :
    (∀ final rnd, final = .ready ∨ final = .absent →
      ((p.nodes n).handlerDhtChange n final rnd).isSome) ∧
    (∀ src cookie result promoted,
      ((p.nodes n).handlerSyncFin n src cookie result promoted).isSome) ∧
    (∀ cookie, (p.nodes n).syncs.contains cookie = true →
      ((p.nodes n).syncTimeout cookie).isSome) ∧
    ((p.nodes n).state.pendingBootstrap = true → ∀ peer cookie promoted,
      ((p.nodes n).startBootstrap n peer cookie promoted).isSome) ∧
    ((p.nodes n).state.status = .zombie → (p.nodes n).syncs.isEmpty = true →
      (p.nodes n).zombieTimeout.isSome) := by
  have hok := Partition.Reachable.statusOk h n
  refine ⟨fun final rnd hfinal => ?_, fun src cookie result promoted => ?_, fun cookie hc => ?_,
    fun hpb peer cookie promoted => ?_, fun hz he => ?_⟩
  · obtain ⟨r, hr, -⟩ := VNode.handlerDhtChange_spec n hok hfinal rnd
    rw [hr]
    rfl
  · obtain ⟨r, hr, -⟩ := VNode.handlerSyncFin_spec n hok src cookie result promoted
    rw [hr]
    rfl
  · obtain ⟨s, hs⟩ := ((p.nodes n).syncs.mem_keys_iff).mp (((p.nodes n).syncs.contains_iff).mp hc)
    obtain ⟨vn', hvn', -⟩ := VNode.syncTimeout_spec hok hs
    rw [hvn']
    rfl
  · obtain ⟨r, hr, -⟩ := VNode.startBootstrap_spec n hok hpb peer cookie promoted
    rw [hr]
    rfl
  · obtain ⟨vn', hvn', -⟩ := VNode.zombieTimeout_spec hok hz he
    rw [hvn']
    rfl

/-- Node 1 starts a sync from node 2. -/
theorem status_machine_never_panics_after_start_sync :
    ∃ p, run (Partition.step 1000 10) (Partition.initial 0 (fun _ => .ready) fun n => n)
        [.startSync 1 2 7] = some p ∧
      (∀ final rnd, final = .ready ∨ final = .absent →
        ((p.nodes 1).handlerDhtChange 1 final rnd).isSome) ∧
      (∀ src cookie result promoted,
        ((p.nodes 1).handlerSyncFin 1 src cookie result promoted).isSome) ∧
      (∀ cookie, (p.nodes 1).syncs.contains cookie = true →
        ((p.nodes 1).syncTimeout cookie).isSome) ∧
      ((p.nodes 1).state.pendingBootstrap = true → ∀ peer cookie promoted,
        ((p.nodes 1).startBootstrap 1 peer cookie promoted).isSome) ∧
      ((p.nodes 1).state.status = .zombie → (p.nodes 1).syncs.isEmpty = true →
        (p.nodes 1).zombieTimeout.isSome) := by
  have hinit : Partition.Initial (Partition.initial 0 (fun _ => .ready) fun n => n) :=
    ⟨0, _, _, fun _ => by decide, rfl⟩
  obtain ⟨p, hrun⟩ : ∃ p, run (Partition.step 1000 10)
      (Partition.initial 0 (fun _ => .ready) fun n => n) [.startSync 1 2 7] = some p := ⟨_, rfl⟩
  exact ⟨p, hrun, status_machine_never_panics (reachable_of_run hinit hrun) 1⟩

end Sucredb
