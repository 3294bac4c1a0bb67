/-
Sucredb.Replication.DotLog — in every reachable state of a partition, the dot
log and every cube stored or sent name only writes `do_flush` made, each on
its own key.

The invariant `Partition.Truthful` asks it of every place a partition keeps
cubes: each node's storage (`StorageTruthful`), the pairs a bootstrap sender
has still to send (a sync sender reads the storage at send time), and the
cubes of the `MsgRemoteSet`s and `MsgSyncSend`s of the network. It is
monotone in the writes, so the writes a `do_flush` adds keep it; the one step
that adds cubes of its own is `do_flush`, whose cubes report dots of the cube
it read or the write's own dot (`VNodeState.doFlush_ok_truthful`). Every other
handler moves truthful cubes around, merges two of them, or clears the
storage.
-/
import Sucredb.Replication.Truthful

namespace Sucredb

section Defs

variable (W : List (Dot × Bytes))

/-- The pairs a bootstrap sender has still to send are truthful. -/
def SyncIterator.Truthful : SyncIterator → Prop
  | .keys _ => True
  | .entries rest => ∀ e ∈ rest, CubeTruthful W e.1 e.2

/-- A sender's iterator is truthful; a receiver keeps no cube. -/
def Synchronization.Truthful : Synchronization → Prop
  | .syncSender _ _ it _ _ _ _ | .bootstrapSender _ it _ _ _ _ => it.Truthful W
  | .syncReceiver .. | .bootstrapReceiver .. => True

/-- The cubes a message carries are truthful for their keys. -/
def Msg.Truthful : Msg → Prop
  | .remoteSet _ _ ws => ∀ w ∈ ws, CubeTruthful W w.1 w.2.1
  | .syncSend _ _ _ _ key value => CubeTruthful W key value
  | .syncStart .. | .syncAck .. | .syncFin .. => True

/-- A vnode's storage and sessions are truthful. -/
def VNode.Truthful (vn : VNode) : Prop :=
  StorageTruthful W vn.state.storage ∧ vn.syncs.AllValues (Synchronization.Truthful W)

/-- What a handler returns: a truthful vnode and truthful messages. -/
def VNode.ResultTruthful (r : VNode × List Msg) : Prop :=
  r.1.Truthful W ∧ ∀ m ∈ r.2, m.Truthful W

end Defs

variable {W W' : List (Dot × Bytes)}

theorem SyncIterator.Truthful.mono (h : W ⊆ W') {it : SyncIterator} (hit : it.Truthful W) :
    it.Truthful W' := by
  cases it with
  | keys => trivial
  | entries rest => exact fun e he => (hit e he).mono h

theorem Synchronization.Truthful.mono (h : W ⊆ W') {s : Synchronization} (hs : s.Truthful W) :
    s.Truthful W' := by
  cases s with
  | syncSender _ _ it => exact SyncIterator.Truthful.mono h hs
  | bootstrapSender _ it => exact SyncIterator.Truthful.mono h hs
  | syncReceiver | bootstrapReceiver => trivial

theorem Msg.Truthful.mono (h : W ⊆ W') {m : Msg} (hm : m.Truthful W) : m.Truthful W' := by
  cases m with
  | remoteSet _ _ ws => exact fun w hw => (hm w hw).mono h
  | syncSend _ _ _ _ key value => exact CubeTruthful.mono h hm
  | syncStart | syncAck | syncFin => trivial

theorem VNode.Truthful.mono (h : W ⊆ W') {vn : VNode} (hvn : vn.Truthful W) :
    vn.Truthful W' :=
  ⟨hvn.1.mono h, hvn.2.imp fun _ hs => hs.mono h⟩

/-! ## Sessions -/

namespace Synchronization

variable {state : VNodeState}

theorem truthful_newSyncSender (peer : NodeId) (cookie : Cookie)
    (clocksInPeer : BitmappedVersionVector) :
    (newSyncSender state peer cookie clocksInPeer).Truthful W :=
  trivial

/-- A bootstrap sender sends the storage as it is when the session starts. -/
theorem truthful_newBootstrapSender (hs : StorageTruthful W state.storage) (peer : NodeId)
    (cookie : Cookie) : (newBootstrapSender state peer cookie).Truthful W := by
  intro e he
  exact hs.1 e.1 e.2 ((state.storage.data.get?_eq_some_iff).mpr he)

/-- The iterator hands out a truthful pair and stays truthful. -/
theorem next_truthful (hs : StorageTruthful W state.storage) (limit : ℕ) {it : SyncIterator}
    (hit : it.Truthful W) :
    (∀ kv ∈ (it.next state limit).1, CubeTruthful W kv.1 kv.2) ∧
      (it.next state limit).2.Truthful W := by
  cases it with
  | keys it =>
    refine ⟨fun kv hkv => ?_, trivial⟩
    simp only [SyncIterator.next, Option.mem_def, Option.map_eq_some_iff] at hkv
    obtain ⟨k, -, rfl⟩ := hkv
    exact VNodeState.storageGet_truthful hs k
  | entries rest =>
    cases rest with
    | nil => exact ⟨fun kv hkv => by simp [SyncIterator.next] at hkv, fun e he => by simp at he⟩
    | cons e es =>
      refine ⟨fun kv hkv => ?_, fun e' he' => hit e' (List.mem_cons_of_mem _ he')⟩
      simp only [SyncIterator.next, Option.mem_def, Option.some.injEq] at hkv
      subst hkv
      exact hit _ (List.mem_cons_self ..)

/-- The sending loop sends truthful pairs and leaves the iterator truthful. -/
theorem pump_truthful (hs : StorageTruthful W state.storage) (limit window : ℕ)
    (src peer : NodeId) (cookie : Cookie) :
    ∀ (fuel : ℕ) {it : SyncIterator} (inflight : List (ℕ × Bytes × Cube)) (count : ℕ),
      it.Truthful W →
        (pump state limit window src peer cookie fuel it inflight count).1.Truthful W ∧
          ∀ m ∈ (pump state limit window src peer cookie fuel it inflight count).2.2.2,
            m.Truthful W
  | 0, _, _, _, hit => ⟨hit, by simp [pump]⟩
  | fuel + 1, it, inflight, count, hit => by
    have hnext := next_truthful hs limit hit
    unfold pump
    split
    · split
      · rename_i it' hr
        rw [hr] at hnext
        exact ⟨hnext.2, by simp⟩
      · rename_i k v it' hr
        rw [hr] at hnext
        have ih := pump_truthful hs limit window src peer cookie fuel (inflight ++ [(count, k, v)])
          (count + 1) hnext.2
        refine ⟨ih.1, fun m hm => ?_⟩
        rcases List.mem_cons.mp hm with rfl | hm
        · exact hnext.1 (k, v) rfl
        · exact ih.2 m hm
    · exact ⟨hit, by simp⟩

/-- `send_next` keeps a session truthful and sends truthful messages. -/
theorem sendNext_truthful (hs : StorageTruthful W state.storage) (limit window : ℕ)
    (src : NodeId) {s : Synchronization} (hsync : s.Truthful W) :
    (s.sendNext state limit window src).1.Truthful W ∧
      ∀ m ∈ (s.sendNext state limit window src).2, m.Truthful W := by
  cases s with
  | syncSender cip snap it inflight cookie peer count =>
    have h := pump_truthful hs limit window src peer cookie window inflight count hsync
    refine ⟨h.1, fun m hm => ?_⟩
    rcases List.mem_append.mp hm with hm | hm
    · exact h.2 m hm
    · split at hm
      · rw [List.mem_singleton.mp hm]
        trivial
      · simp at hm
  | bootstrapSender snap it inflight cookie peer count =>
    have h := pump_truthful hs limit window src peer cookie window inflight count hsync
    refine ⟨h.1, fun m hm => ?_⟩
    rcases List.mem_append.mp hm with hm | hm
    · exact h.2 m hm
    · split at hm
      · rw [List.mem_singleton.mp hm]
        trivial
      · simp at hm
  | syncReceiver | bootstrapReceiver => exact ⟨hsync, by simp [sendNext]⟩

/-- A receiver's request carries no cube. -/
theorem sendStart_truthful (src : NodeId) (s : Synchronization) :
    ∀ m ∈ s.sendStart src, m.Truthful W := by
  intro m hm
  cases s <;> simp only [sendStart, List.mem_singleton, List.not_mem_nil] at hm
  all_goals (subst hm; trivial)

theorem onStart_truthful (hs : StorageTruthful W state.storage) (limit window : ℕ)
    (src : NodeId) {s : Synchronization} (hsync : s.Truthful W) :
    (s.onStart state limit window src).1.Truthful W ∧
      ∀ m ∈ (s.onStart state limit window src).2, m.Truthful W := by
  cases s with
  | syncReceiver cip cookie peer n =>
    exact ⟨hsync, sendStart_truthful src (.syncReceiver cip cookie peer n)⟩
  | bootstrapReceiver cookie peer n =>
    exact ⟨hsync, sendStart_truthful src (.bootstrapReceiver cookie peer n)⟩
  | syncSender | bootstrapSender => exact sendNext_truthful hs limit window src hsync

/-- An acknowledgement leaves the iterator as it is and sends more. -/
theorem onMsgAck_truthful (hs : StorageTruthful W state.storage) {limit window : ℕ}
    {src : NodeId} {seq : ℕ} {s : Synchronization} {r : Synchronization × List Msg}
    (hsync : s.Truthful W) (h : s.onMsgAck state limit window src seq = some r) :
    r.1.Truthful W ∧ ∀ m ∈ r.2, m.Truthful W := by
  cases s with
  | syncSender | bootstrapSender =>
    cases h
    exact sendNext_truthful hs limit window src hsync
  | syncReceiver | bootstrapReceiver => cases h

/-- A receiver stores a truthful pair through `storage_set_remote`. -/
theorem onMsgSend_truthful (hs : StorageTruthful W state.storage) {src : NodeId} {seq : ℕ}
    {key : Bytes} {value : Cube} {s : Synchronization}
    {r : Synchronization × VNodeState × List Msg} (hv : CubeTruthful W key value)
    (h : s.onMsgSend state src seq key value = some r) :
    r.1.Truthful W ∧ StorageTruthful W r.2.1.storage ∧ ∀ m ∈ r.2.2, m.Truthful W := by
  have hw : ∀ w ∈ [(key, value, false)], CubeTruthful W w.1 w.2.1 := by
    intro w hw
    rw [List.mem_singleton.mp hw]
    exact hv
  cases s with
  | syncReceiver | bootstrapReceiver =>
    simp only [onMsgSend, Option.bind_eq_bind, Option.bind_eq_some_iff, Option.pure_def,
      Option.some.injEq] at h
    obtain ⟨r', hr', rfl⟩ := h
    refine ⟨trivial, VNodeState.storageSetRemote_truthful hs hw hr', ?_⟩
    simp [Msg.Truthful]
  | syncSender | bootstrapSender => cases h

/-- A fin changes the clock, not the storage. -/
theorem onMsgFin_storage (src : NodeId) (cookie : Cookie)
    (result : Except FabricError BitmappedVersionVector) (s : Synchronization) :
    (s.onMsgFin state src cookie result).2.1.storage = state.storage := by
  cases s with
  | syncReceiver | bootstrapReceiver =>
    simp only [onMsgFin]
    split <;> rfl
  | syncSender | bootstrapSender => rfl

theorem onMsgFin_truthful (src : NodeId) (cookie : Cookie)
    (result : Except FabricError BitmappedVersionVector) (s : Synchronization) :
    ∀ m ∈ (s.onMsgFin state src cookie result).2.2, m.Truthful W := by
  intro m hm
  cases s with
  | syncReceiver | bootstrapReceiver =>
    simp only [onMsgFin] at hm
    split at hm
    · rw [List.mem_singleton.mp hm]
      trivial
    all_goals simp at hm
  | syncSender | bootstrapSender => simp [onMsgFin] at hm

theorem onRemove_storage {s : Synchronization} {st : VNodeState} (h : s.onRemove state = some st) :
    st.storage = state.storage := by
  cases s with
  | syncReceiver =>
    simp only [onRemove] at h
    split at h
    · cases h
      rfl
    · cases h
  | syncSender | bootstrapSender | bootstrapReceiver =>
    cases h
    rfl

end Synchronization

/-! ## Handlers -/

namespace VNode

variable {vn vn' : VNode}

/-- A handler that returns the vnode and error fins only. -/
theorem resultTruthful_of_fins (hvn : vn.Truthful W) {ms : List Msg}
    (hms : ∀ m ∈ ms, ∃ src dst cookie result, m = .syncFin src dst cookie result) :
    VNode.ResultTruthful W (vn, ms) := by
  refine ⟨hvn, fun m hm => ?_⟩
  obtain ⟨src, dst, cookie, result, rfl⟩ := hms m hm
  trivial

theorem removeSync_truthful (hvn : vn.Truthful W) {cookie : Cookie} {s : Synchronization}
    (h : vn.removeSync cookie s = some vn') : vn'.Truthful W := by
  simp only [removeSync, Option.bind_eq_bind, Option.bind_eq_some_iff, Option.pure_def,
    Option.some.injEq] at h
  obtain ⟨st, hst, rfl⟩ := h
  refine ⟨?_, hvn.2.erase cookie⟩
  rw [Synchronization.onRemove_storage hst]
  exact hvn.1

theorem handleBootstrapResult_truthful (hvn : vn.Truthful W) {promoted : Bool} {r : SyncResult}
    (h : vn.handleBootstrapResult promoted r = some vn') : vn'.Truthful W := by
  -- `Continue` and `Error` change no storage; `Done` changes the status
  cases r
  · cases h
    exact hvn
  · simp only [handleBootstrapResult, Option.bind_eq_bind, Option.bind_eq_some_iff,
      Option.pure_def, Option.some.injEq] at h
    obtain ⟨st, hst, rfl⟩ := h
    exact ⟨VNodeState.setStatus_truthful hvn.1 hst, hvn.2⟩
  · cases h
    exact hvn

theorem handlerSetRemote_truthful (hvn : vn.Truthful W) {writes : RemoteWrites}
    (hws : ∀ w ∈ writes, CubeTruthful W w.1 w.2.1) (h : vn.handlerSetRemote writes = some vn') :
    vn'.Truthful W := by
  have hstore : ∀ r, vn.state.storageSetRemote writes = some r →
      VNode.Truthful W { vn with state := r.1 } :=
    fun r hr => ⟨VNodeState.storageSetRemote_truthful hvn.1 hws hr, hvn.2⟩
  unfold handlerSetRemote at h
  -- `Ready` and `Bootstrap` store the batch; the other statuses refuse it
  split at h
  · simp only [Option.bind_eq_bind, Option.bind_eq_some_iff, Option.pure_def,
      Option.some.injEq] at h
    obtain ⟨r, hr, rfl⟩ := h
    exact hstore r hr
  · simp only [Option.bind_eq_bind, Option.bind_eq_some_iff, Option.pure_def,
      Option.some.injEq] at h
    obtain ⟨r, hr, rfl⟩ := h
    exact hstore r hr
  · cases h
    exact hvn

section Sync

variable (limit window : ℕ) (self : NodeId)

/-- A new sender reads a truthful storage; a known cookie or a bad status is
answered without a session. -/
theorem handlerSyncStart_truthful (hvn : vn.Truthful W) {src : NodeId} {cookie : Cookie}
    {cip : BitmappedVersionVector} {target : Option NodeId} {zombieFresh : Bool}
    {r : VNode × List Msg}
    (h : vn.handlerSyncStart limit window self src cookie cip target zombieFresh = some r) :
    ResultTruthful W r := by
  unfold handlerSyncStart at h
  split at h
  · cases h
    exact resultTruthful_of_fins hvn (by simp [errorFin])
  split at h
  · cases h
    exact resultTruthful_of_fins hvn (by simp)
  have hsession : ∀ sync : Synchronization, sync.Truthful W →
      ResultTruthful W (⟨vn.state, vn.syncs.insert cookie (sync.onStart vn.state limit window self).1⟩,
        (sync.onStart vn.state limit window self).2) := by
    intro sync hst
    have hstart := Synchronization.onStart_truthful hvn.1 limit window self hst
    exact ⟨⟨hvn.1, hvn.2.insert hstart.1⟩, hstart.2⟩
  -- the session is a bootstrap sender over the storage, or a sync sender
  cases target with
  | none =>
    simp only [Option.bind_eq_bind, Option.bind_some, Option.pure_def, Option.some.injEq] at h
    rw [← h]
    exact hsession _ (Synchronization.truthful_newBootstrapSender hvn.1 src cookie)
  | some t =>
    simp only [Option.bind_eq_bind, Option.bind_some, Option.pure_def] at h
    split at h
    · rw [← Option.some.inj h]
      exact hsession _ (Synchronization.truthful_newSyncSender src cookie cip)
    · simp at h

theorem handlerSyncSend_truthful (hvn : vn.Truthful W) {src : NodeId} {cookie : Cookie}
    {seq : ℕ} {key : Bytes} {value : Cube} {r : VNode × List Msg} (hv : CubeTruthful W key value)
    (h : vn.handlerSyncSend self src cookie seq key value = some r) : ResultTruthful W r := by
  have hrecv : ∀ s, vn.syncs.get? cookie = some s →
      (do let r ← s.onMsgSend vn.state self seq key value
          pure ((⟨r.2.1, vn.syncs.insert cookie r.1⟩ : VNode), r.2.2)) = some r →
        ResultTruthful W r := by
    intro s hs h
    simp only [Option.bind_eq_bind, Option.bind_eq_some_iff, Option.pure_def,
      Option.some.injEq] at h
    obtain ⟨r', hr', rfl⟩ := h
    have hsend := Synchronization.onMsgSend_truthful hvn.1 hv hr'
    exact ⟨⟨hsend.2.1, hvn.2.insert hsend.1⟩, hsend.2.2⟩
  unfold handlerSyncSend at h
  -- `Ready` and `Bootstrap` receive; an unknown cookie or another status is refused
  split at h
  · split at h
    · cases h
      exact resultTruthful_of_fins hvn (by simp [errorFin])
    · exact hrecv _ ‹_› h
  · split at h
    · cases h
      exact resultTruthful_of_fins hvn (by simp [errorFin])
    · exact hrecv _ ‹_› h
  · cases h
    exact resultTruthful_of_fins hvn (by simp [errorFin])

theorem handlerSyncAck_truthful (hvn : vn.Truthful W) {src : NodeId} {cookie : Cookie}
    {seq : ℕ} {r : VNode × List Msg}
    (h : vn.handlerSyncAck limit window self src cookie seq = some r) : ResultTruthful W r := by
  have hsend : ∀ s, vn.syncs.get? cookie = some s →
      (do let r ← s.onMsgAck vn.state limit window self seq
          pure ({ vn with syncs := vn.syncs.insert cookie r.1 }, r.2)) = some r →
        ResultTruthful W r := by
    intro s hs h
    simp only [Option.bind_eq_bind, Option.bind_eq_some_iff, Option.pure_def,
      Option.some.injEq] at h
    obtain ⟨r', hr', rfl⟩ := h
    have hack := Synchronization.onMsgAck_truthful hvn.1 (hvn.2 cookie s hs) hr'
    exact ⟨⟨hvn.1, hvn.2.insert hack.1⟩, hack.2⟩
  unfold handlerSyncAck at h
  split at h
  · split at h
    · cases h
      exact resultTruthful_of_fins hvn (by simp [errorFin])
    · exact hsend _ ‹_› h
  · split at h
    · cases h
      exact resultTruthful_of_fins hvn (by simp [errorFin])
    · exact hsend _ ‹_› h
  · cases h
    exact resultTruthful_of_fins hvn (by simp [errorFin])

theorem handlerSyncFin_truthful (hvn : vn.Truthful W) {src : NodeId} {cookie : Cookie}
    {result : Except FabricError BitmappedVersionVector} {promoted : Bool} {r : VNode × List Msg}
    (h : vn.handlerSyncFin self src cookie result promoted = some r) : ResultTruthful W r := by
  unfold handlerSyncFin at h
  split at h
  case h_4 =>
    cases h
    exact resultTruthful_of_fins hvn (by simp [errorFin])
  -- `Ready`, `Zombie` and `Bootstrap` handle the fin
  case h_1 | h_2 | h_3 =>
    split at h
    · cases h
      refine resultTruthful_of_fins hvn ?_
      split <;> simp [errorFin]
    · rename_i s _
      have hvn₁ : VNode.Truthful W { vn with state := (s.onMsgFin vn.state self cookie result).2.1 } :=
        ⟨by rw [Synchronization.onMsgFin_storage]; exact hvn.1, hvn.2⟩
      have htail : ∀ vn₂ : VNode, vn₂.Truthful W →
          (if vn₂.state.status = .bootstrap then
            (vn₂.handleBootstrapResult promoted (s.onMsgFin vn.state self cookie result).1).bind
              fun vn₃ => some (vn₃, (s.onMsgFin vn.state self cookie result).2.2)
          else (some vn₂).bind fun vn₃ => some (vn₃, (s.onMsgFin vn.state self cookie result).2.2)) =
            some r → ResultTruthful W r := by
        intro vn₂ hvn₂ h
        have hms : ∀ m ∈ (s.onMsgFin vn.state self cookie result).2.2, m.Truthful W :=
          Synchronization.onMsgFin_truthful self cookie result s
        split at h
        · obtain ⟨vn₃, h₃, h⟩ := Option.bind_eq_some_iff.mp h
          cases h
          exact ⟨handleBootstrapResult_truthful hvn₂ h₃, hms⟩
        · cases h
          exact ⟨hvn₂, hms⟩
      simp only [Option.bind_eq_bind, Option.pure_def] at h
      -- the session stays on `Continue` and is removed otherwise
      split at h
      · obtain ⟨vn₂, h₂, h⟩ := Option.bind_eq_some_iff.mp h
        cases h₂
        exact htail _ hvn₁ h
      · obtain ⟨vn₂, h₂, h⟩ := Option.bind_eq_some_iff.mp h
        exact htail _ (removeSync_truthful hvn₁ h₂) h

/-- A new receiving session keeps no cube, and its request carries none. -/
theorem doStartSync_truthful (hvn : vn.Truthful W) {peer : NodeId} {cookie : Cookie}
    {r : VNode × List Msg} (h : vn.doStartSync limit window self peer cookie = some r) :
    ResultTruthful W r := by
  unfold doStartSync at h
  split at h
  · cases h
    exact ⟨⟨hvn.1, hvn.2.insert trivial⟩,
      Synchronization.sendStart_truthful self (.syncReceiver vn.state.clocks cookie peer 0)⟩
  · cases h

theorem startBootstrap_truthful (hvn : vn.Truthful W) {peer : Option NodeId} {cookie : Cookie}
    {promoted : Bool} {r : VNode × List Msg}
    (h : vn.startBootstrap self peer cookie promoted = some r) : ResultTruthful W r := by
  unfold startBootstrap at h
  split at h
  · split at h
    · -- the bootstrap is done at once with no peer, or a receiver asks the peer
      cases peer with
      | none =>
        have hvn₀ : VNode.Truthful W { vn with state := { vn.state with pendingBootstrap := false } } :=
          hvn
        obtain ⟨vn', hvn', rfl⟩ := Option.map_eq_some_iff.mp h
        exact ⟨handleBootstrapResult_truthful hvn₀ hvn', by simp⟩
      | some p =>
        cases h
        exact ⟨⟨hvn.1, hvn.2.insert trivial⟩,
          Synchronization.sendStart_truthful self (.bootstrapReceiver cookie p 0)⟩
    · cases h
  · cases h

/-- Leaving the vnode unregisters the receiving sessions and answers them with
error fins. -/
theorem cancelIncoming_truthful (hvn : vn.Truthful W) {r : VNode × List Msg}
    (h : vn.cancelIncoming self = some r) : ResultTruthful W r := by
  have hstep : ∀ (acc : VNode × List Msg) (e : Cookie × Synchronization)
      (acc' : VNode × List Msg), e ∈ vn.syncs.entries → ResultTruthful W acc →
        (if e.2.isReceiver then do
            let vn' ← acc.1.removeSync e.1 e.2
            pure (vn', acc.2 ++ [errorFin self e.2.peer e.1 .badVNodeStatus])
          else pure acc) = some acc' → ResultTruthful W acc' := by
    intro acc e acc' _ hacc hacc'
    split at hacc'
    · simp only [Option.bind_eq_bind, Option.bind_eq_some_iff, Option.pure_def,
        Option.some.injEq] at hacc'
      obtain ⟨vn', hvn', rfl⟩ := hacc'
      exact ⟨removeSync_truthful hacc.1 hvn',
        List.forall_mem_append.mpr ⟨hacc.2, List.forall_mem_singleton.mpr (by trivial)⟩⟩
    · cases hacc'
      exact hacc
  exact foldlM_induct hstep (resultTruthful_of_fins hvn (by simp)) h

end Sync

/-- A ring change cancels the receiving sessions and changes the status. -/
theorem handlerDhtChange_truthful (hvn : vn.Truthful W) {self : NodeId} {final : VNodeStatus}
    {rnd : ℕ} {r : VNode × List Msg} (h : vn.handlerDhtChange self final rnd = some r) :
    ResultTruthful W r := by
  unfold handlerDhtChange at h
  split at h
  · cases h
  split at h
  -- leaving: cancel the receiving sessions, then `Zombie` or `Absent`
  case h_1 | h_2 =>
    simp only [Option.bind_eq_bind, Option.bind_eq_some_iff, Option.pure_def,
      Option.some.injEq] at h
    obtain ⟨r₁, h₁, st, hst, rfl⟩ := h
    have hr₁ := cancelIncoming_truthful self hvn h₁
    exact ⟨⟨VNodeState.setStatus_truthful hr₁.1.1 hst, hr₁.1.2⟩, hr₁.2⟩
  -- coming back: a zombie is `Ready` again, an absent vnode bootstraps
  case h_3 | h_4 =>
    simp only [Option.bind_eq_bind, Option.bind_eq_some_iff, Option.pure_def,
      Option.some.injEq] at h
    obtain ⟨st, hst, rfl⟩ := h
    have hs := VNodeState.setStatus_truthful hvn.1 hst
    exact ⟨⟨hs, hvn.2⟩, by simp⟩
  case h_5 | h_6 =>
    cases h
    exact ⟨hvn, by simp⟩
  case h_7 =>
    split at h
    · cases h
      exact ⟨hvn, by simp⟩
    · cases h

theorem zombieTimeout_truthful (hvn : vn.Truthful W) (h : vn.zombieTimeout = some vn') :
    vn'.Truthful W := by
  unfold zombieTimeout at h
  split at h
  · simp only [Option.bind_eq_bind, Option.bind_eq_some_iff, Option.pure_def,
      Option.some.injEq] at h
    obtain ⟨st, hst, rfl⟩ := h
    exact ⟨VNodeState.setStatus_truthful hvn.1 hst, hvn.2⟩
  · cases h

theorem syncTick_truthful (hvn : vn.Truthful W) {limit window : ℕ} {self : NodeId}
    {cookie : Cookie} {r : VNode × List Msg} (h : vn.syncTick limit window self cookie = some r) :
    ResultTruthful W r := by
  simp only [syncTick, Option.bind_eq_bind, Option.bind_eq_some_iff] at h
  obtain ⟨s, hs, h⟩ := h
  split at h
  · cases h
  · cases h
    have hsend := Synchronization.sendNext_truthful hvn.1 limit window self (hvn.2 cookie s hs)
    exact ⟨⟨hvn.1, hvn.2.insert hsend.1⟩, hsend.2⟩

theorem syncTimeout_truthful (hvn : vn.Truthful W) {cookie : Cookie}
    (h : vn.syncTimeout cookie = some vn') : vn'.Truthful W := by
  simp only [syncTimeout, Option.bind_eq_bind, Option.bind_eq_some_iff] at h
  obtain ⟨s, -, vn₁, h₁, h⟩ := h
  have hvn₁ := removeSync_truthful hvn h₁
  split at h
  · exact handleBootstrapResult_truthful hvn₁ h
  · cases h
    exact hvn₁

/-- A restart keeps the storage or clears it, and starts with no session. -/
theorem restart_truthful {self : NodeId} {st : VNodeState} {status : VNodeStatus} {rnd : ℕ}
    (hs : StorageTruthful W st.storage) (h : VNode.restart self st status rnd = some vn') :
    vn'.Truthful W := by
  simp only [VNode.restart, Option.bind_eq_bind, Option.bind_eq_some_iff] at h
  obtain ⟨st', hst', h⟩ := h
  have hs' := VNodeState.load_truthful hs hst'
  split at h
  case h_1 | h_2 =>
    cases h
    exact ⟨hs', VecMap.allValues_empty⟩
  case h_3 =>
    cases h
    exact ⟨hs', VecMap.allValues_empty⟩
  case h_4 => cases h

/-- A handler that returns a truthful vnode and sends nothing. -/
theorem resultTruthful_map_nil {o : Option VNode} (ho : ∀ vn, o = some vn → vn.Truthful W) :
    ∀ r, o.map (·, []) = some r → ResultTruthful W r := by
  intro r hr
  obtain ⟨vn, hvn, rfl⟩ := Option.map_eq_some_iff.mp hr
  exact ⟨ho vn hvn, by simp⟩

end VNode

/-! ## The partition -/

namespace Partition

/-- Every vnode and every message of the network is truthful for the writes
so far. -/
def Truthful (p : Partition) : Prop :=
  (∀ n, (p.nodes n).Truthful p.writes) ∧ ∀ m ∈ p.net, m.Truthful p.writes

variable {p p' : Partition} {limit window : ℕ}

theorem initial_truthful (num : ℕ) (status : NodeId → VNodeStatus) (rnd : NodeId → ℕ) :
    (initial num status rnd).Truthful := by
  refine ⟨fun n => ⟨StorageTruthful.empty, VecMap.allValues_empty⟩, fun m hm => ?_⟩
  simp [initial] at hm

/-- A handler's truthful result keeps the partition truthful. -/
theorem Truthful.update (hp : p.Truthful) {n : NodeId} {r : Option (VNode × List Msg)}
    (hr : ∀ r', r = some r' → VNode.ResultTruthful p.writes r') (h : p.update n r = some p') :
    p'.Truthful := by
  obtain ⟨r', hr', rfl⟩ := Option.map_eq_some_iff.mp h
  have hres := hr r' hr'
  refine ⟨fun m => ?_, fun m hm => ?_⟩
  · by_cases hm : m = n
    · subst hm
      simp only [setNode, send, Function.update_self]
      exact hres.1
    · simp only [setNode, send, Function.update_of_ne hm]
      exact hp.1 m
  · rcases List.mem_append.mp hm with hm | hm
    · exact hp.2 m hm
    · exact hres.2 m hm

/-- `do_flush`: a stored batch adds its writes, and its cubes are truthful for
them; a batch that was not stored leaves the storage as it was. -/
theorem Truthful.flush (hp : p.Truthful) {n : NodeId} {ws : List (Bytes × WriteCmd)}
    {replicas : List NodeId} (h : p.flush n ws replicas = some p') : p'.Truthful := by
  unfold Partition.flush at h
  dsimp only at h
  split at h
  · cases h
  · rename_i st done msg hf
    cases h
    have hws : ∀ w ∈ ws.map (fun w => ContextWrite.ofCmd w.1 w.2),
        ∃ cmd : WriteCmd, w.mutatorFn = cmd.mutatorFn := by
      intro w hw
      obtain ⟨x, -, rfl⟩ := List.mem_map.mp hw
      exact ⟨x.2, rfl⟩
    have hnew := VNodeState.doFlush_ok_truthful (hp.1 n).1 hws hf
    have hsub : p.writes ⊆ p.writes ++ done.map fun w => (((p.nodes n).state.id, w.version), w.key) :=
      List.subset_append_left _ _
    refine ⟨fun m => ?_, fun m hm => ?_⟩
    · by_cases hm : m = n
      · subst hm
        simp only [setNode, send, Function.update_self]
        exact ⟨hnew.1, (hp.1 m).2.imp fun _ h => h.mono hsub⟩
      · simp only [setNode, send, Function.update_of_ne hm]
        exact (hp.1 m).mono hsub
    · rcases List.mem_append.mp hm with hm | hm
      · exact (hp.2 m hm).mono hsub
      · obtain ⟨dst, -, rfl⟩ := List.mem_map.mp hm
        exact hnew.2
  · rename_i st r _ hok hf
    cases h
    have hst : st.storage = (p.nodes n).state.storage :=
      VNodeState.doFlush_storage_of_not_ok hf hok
    refine ⟨fun m => ?_, hp.2⟩
    by_cases hm : m = n
    · subst hm
      simp only [setNode, Function.update_self]
      exact ⟨hst ▸ (hp.1 m).1, (hp.1 m).2⟩
    · simp only [setNode, Function.update_of_ne hm]
      exact hp.1 m

/-- Every event keeps the partition truthful. -/
theorem Truthful.step (hp : p.Truthful) {e : Event} (h : p.step limit window e = some p') :
    p'.Truthful := by
  cases e with
  | flush n ws replicas => exact hp.flush h
  | deliver i zombieFresh promoted =>
    obtain ⟨m, hm, h⟩ := Option.bind_eq_some_iff.mp h
    have hmt := hp.2 m (List.mem_of_getElem? hm)
    cases m with
    | remoteSet src dst ws =>
      exact hp.update (VNode.resultTruthful_map_nil fun _ hvn =>
        VNode.handlerSetRemote_truthful (hp.1 dst) hmt hvn) h
    | syncStart src dst cookie cip target =>
      exact hp.update (fun _ hr => VNode.handlerSyncStart_truthful limit window dst (hp.1 dst) hr) h
    | syncSend src dst cookie seq key value =>
      exact hp.update (fun _ hr => VNode.handlerSyncSend_truthful dst (hp.1 dst) hmt hr) h
    | syncAck src dst cookie seq =>
      exact hp.update (fun _ hr => VNode.handlerSyncAck_truthful limit window dst (hp.1 dst) hr) h
    | syncFin src dst cookie result =>
      exact hp.update (fun _ hr => VNode.handlerSyncFin_truthful dst (hp.1 dst) hr) h
  | startSync n peer cookie =>
    exact hp.update (fun _ hr => VNode.doStartSync_truthful limit window n (hp.1 n) hr) h
  | startBootstrap n peer cookie promoted =>
    exact hp.update (fun _ hr => VNode.startBootstrap_truthful n (hp.1 n) hr) h
  | syncTick n cookie => exact hp.update (fun _ hr => VNode.syncTick_truthful (hp.1 n) hr) h
  | syncTimeout n cookie =>
    exact hp.update (VNode.resultTruthful_map_nil fun _ hvn =>
      VNode.syncTimeout_truthful (hp.1 n) hvn) h
  | dhtChange n final rnd =>
    exact hp.update (fun _ hr => VNode.handlerDhtChange_truthful (hp.1 n) hr) h
  | zombieTimeout n =>
    exact hp.update (VNode.resultTruthful_map_nil fun _ hvn =>
      VNode.zombieTimeout_truthful (hp.1 n) hvn) h
  | restart n clean status rnd =>
    -- a clean shutdown saves the clocks, not the storage
    have hs : StorageTruthful p.writes
        (if clean then (p.nodes n).state.save true else (p.nodes n).state).storage := by
      split <;> exact (hp.1 n).1
    exact hp.update (VNode.resultTruthful_map_nil fun _ hvn => VNode.restart_truthful hs hvn) h

/-- Every reachable partition is truthful. -/
theorem Reachable.truthful (h : Partition.Reachable limit window p) : p.Truthful :=
  Sucredb.Reachable.induct (fun _ ⟨num, status, rnd, _, hs⟩ => hs ▸ initial_truthful num status rnd)
    (fun _ _ _ _ hp hs => hp.step hs) h

end Partition

/-- In every reachable partition, every dot-log entry, and every dot of a cube
stored or sent for a key, names a write `do_flush` made on that key. -/
theorem dots_name_writes {limit window : ℕ} {p : Partition}
    (h : Partition.Reachable limit window p) :
    (∀ n d k, (p.nodes n).state.storage.logGet d = some k → (d, k) ∈ p.writes) ∧
      (∀ n k c, (p.nodes n).state.storage.get k = some c → ∀ d ∈ c.dots, (d, k) ∈ p.writes) ∧
      (∀ src dst ws, Msg.remoteSet src dst ws ∈ p.net →
        ∀ w ∈ ws, ∀ d ∈ w.2.1.dots, (d, w.1) ∈ p.writes) ∧
      ∀ src dst cookie seq k c, Msg.syncSend src dst cookie seq k c ∈ p.net →
        ∀ d ∈ c.dots, (d, k) ∈ p.writes := by
  have hp := Partition.Reachable.truthful h
  refine ⟨fun n d k hk => (hp.1 n).1.2 d k hk, fun n k c hc => (hp.1 n).1.1 k c hc,
    fun src dst ws hm => hp.2 _ hm, fun src dst cookie seq k c hm => hp.2 _ hm⟩

/-- Node 1 stores a SET and replicates it to node 2, which stores it too. -/
theorem dots_name_writes_after_replication :
    ∃ p, run (Partition.step 1000 10) (Partition.initial 0 (fun _ => .ready) fun n => n)
        [.flush 1 [([107], .set [118] .new)] [2], .deliver 0 false false] = some p ∧
      (∀ n d k, (p.nodes n).state.storage.logGet d = some k → (d, k) ∈ p.writes) ∧
      (∀ n k c, (p.nodes n).state.storage.get k = some c → ∀ d ∈ c.dots, (d, k) ∈ p.writes) ∧
      (∀ src dst ws, Msg.remoteSet src dst ws ∈ p.net →
        ∀ w ∈ ws, ∀ d ∈ w.2.1.dots, (d, w.1) ∈ p.writes) ∧
      ∀ src dst cookie seq k c, Msg.syncSend src dst cookie seq k c ∈ p.net →
        ∀ d ∈ c.dots, (d, k) ∈ p.writes := by
  have hinit : Partition.Initial (Partition.initial 0 (fun _ => .ready) fun n => n) :=
    ⟨0, _, _, fun _ => by decide, rfl⟩
  obtain ⟨p, hrun⟩ : ∃ p, run (Partition.step 1000 10)
      (Partition.initial 0 (fun _ => .ready) fun n => n)
      [.flush 1 [([107], .set [118] .new)] [2], .deliver 0 false false] = some p := ⟨_, rfl⟩
  exact ⟨p, hrun, dots_name_writes (reachable_of_run hinit hrun)⟩

end Sucredb
