/-
Sucredb.Replication.SyncRouting — how the sync messages of a partition find
their sessions by cookie, over every run.

A session is opened by the `SyncStart` its receiver sends to its sender, and
the two keep the start's cookie: the sender sends `SyncSend`s back against the
start's direction, the receiver acknowledges them along it. The source trusts
this routing: `handler_sync_start` asserts that a start names the node it
reaches as target, and `on_msg_send` and `on_msg_ack` are `unreachable!()` on a session of
the other kind.

The one assumption is the source's: a session's cookie is two random `u64`s
(`gen_cookie`), taken here as a cookie no start of the network carries yet, and
`start_bootstrap` skips the node itself among its peers (`Partition.Drawn`).
Over the runs that draw so (`Partition.ReachableDrawn`), every start goes
between two nodes, with a cookie no other start has, and every session and
every pair or ack of the network is attributed to its start
(`Partition.Routed`: one lemma per handler, then `Routed.step`). So a
`SyncStart` and a `SyncAck` never make their handler panic, and a `SyncSend`
makes it panic only where storing its pair fails
(`sync_messages_reach_their_sessions`).
-/
import Sucredb.Replication.StatusMachine
import Sucredb.Database.SyncsTheorems

namespace Sucredb

/-! ## Routes -/

namespace Synchronization

/-- The cookie of the session. -/
def cookie : Synchronization → Cookie
  | .syncSender _ _ _ _ cookie _ _ | .syncReceiver _ cookie _ _
  | .bootstrapSender _ _ _ cookie _ _ | .bootstrapReceiver cookie _ _ => cookie

/-- `s'` is `s` as it goes on: the same kind, peer and cookie. -/
def SameRoute (s s' : Synchronization) : Prop :=
  s'.isReceiver = s.isReceiver ∧ s'.peer = s.peer ∧ s'.cookie = s.cookie

/-- The messages a running session of node `n` sends: pairs from a sender and
acks from a receiver, to its peer under its cookie, and fins. -/
def Sends (n : NodeId) (s : Synchronization) : Msg → Prop
  | .syncSend src dst c .. => s.isReceiver = false ∧ src = n ∧ dst = s.peer ∧ c = s.cookie
  | .syncAck src dst c _ => s.isReceiver = true ∧ src = n ∧ dst = s.peer ∧ c = s.cookie
  | .syncFin .. => True
  | .remoteSet .. | .syncStart .. => False

end Synchronization

/-- The network holds a `SyncStart` from `r` to `s` under cookie `c`: the
start of a session whose receiver is on `r` and whose sender is on `s`. -/
def HasStart (net : List Msg) (r s : NodeId) (c : Cookie) : Prop :=
  ∃ cip t, Msg.syncStart r s c cip t ∈ net

/-- A session of node `n` under cookie `c` has its start in the network: from
`n` for a receiver, to `n` for a sender. -/
def Synchronization.Started (net : List Msg) (n : NodeId) (c : Cookie) (s : Synchronization) :
    Prop :=
  s.cookie = c ∧ if s.isReceiver then HasStart net n s.peer c else HasStart net s.peer n c

/-- Every session of node `n` has its start in the network. -/
def VNode.Routed (net : List Msg) (n : NodeId) (vn : VNode) : Prop :=
  ∀ c s, vn.syncs.get? c = some s → s.Started net n c

/-- A message of the network as routing goes: a start goes between two nodes,
names the node it goes to as target or no one, and is the only start of its
cookie; a pair goes against its start, an ack along it. -/
def Msg.Routed (net : List Msg) : Msg → Prop
  | .syncStart src dst c _ t => src ≠ dst ∧ (t = none ∨ t = some dst) ∧
      ∀ src' dst' cip' t', Msg.syncStart src' dst' c cip' t' ∈ net → src' = src ∧ dst' = dst
  | .syncSend src dst c .. => HasStart net dst src c
  | .syncAck src dst c _ => HasStart net src dst c
  | .syncFin .. | .remoteSet .. => True

/-- The cookie of a `SyncStart`, the one message that opens a session. -/
def Msg.startCookie? : Msg → Option Cookie
  | .syncStart _ _ c _ _ => some c
  | _ => none

/-- No start of the network carries cookie `c`: what the two random `u64`s
of `gen_cookie` give a new session. -/
def freshCookie (net : List Msg) (c : Cookie) : Bool :=
  net.all fun m => m.startCookie? != some c

/-! ## The network grows -/

section Growth

variable {net net' : List Msg} {n : NodeId} {c : Cookie}

theorem HasStart.mono {r s : NodeId} (h : HasStart net r s c) (hsub : net ⊆ net') :
    HasStart net' r s c := by
  obtain ⟨cip, t, hm⟩ := h
  exact ⟨cip, t, hsub hm⟩

theorem Synchronization.Started.mono {s : Synchronization} (hs : s.Started net n c)
    (hsub : net ⊆ net') : s.Started net' n c := by
  obtain ⟨hc, hstart⟩ := hs
  refine ⟨hc, ?_⟩
  by_cases hr : s.isReceiver = true
  · rw [if_pos hr] at hstart ⊢
    exact hstart.mono hsub
  · rw [if_neg hr] at hstart ⊢
    exact hstart.mono hsub

theorem VNode.Routed.mono {vn : VNode} (h : vn.Routed net n) (hsub : net ⊆ net') :
    vn.Routed net' n :=
  fun c s hs => (h c s hs).mono hsub

/-- A message that is no start stays routed as the network grows. -/
theorem Msg.Routed.mono {m : Msg} (h : m.Routed net) (hm : m.startCookie? = none)
    (hsub : net ⊆ net') : m.Routed net' := by
  cases m with
  | syncStart => cases hm
  | syncSend src dst c seq key value => exact HasStart.mono h hsub
  | syncAck src dst c seq => exact HasStart.mono h hsub
  | syncFin | remoteSet => trivial

/-- A fresh cookie is on no start of the network. -/
theorem not_mem_of_freshCookie (hc : freshCookie net c = true) {src dst : NodeId}
    {cip : BitmappedVersionVector} {t : Option NodeId} : Msg.syncStart src dst c cip t ∉ net := by
  intro hm
  have hne := List.all_eq_true.mp hc _ hm
  simp [Msg.startCookie?] at hne

/-- A start stays the only one of its cookie while the new starts draw fresh
cookies. -/
theorem Msg.Routed.append {m : Msg} {ms : List Msg} (h : m.Routed net) (hm : m ∈ net)
    (hfresh : ∀ m' ∈ ms, ∀ c', m'.startCookie? = some c' → freshCookie net c' = true) :
    m.Routed (net ++ ms) := by
  cases m with
  | syncStart src dst c cip t =>
    obtain ⟨hne, ht, huniq⟩ := h
    refine ⟨hne, ht, fun src' dst' cip' t' hm' => ?_⟩
    rcases List.mem_append.mp hm' with hm' | hm'
    · exact huniq src' dst' cip' t' hm'
    · exact absurd hm (not_mem_of_freshCookie (hfresh _ hm' c rfl))
  | syncSend | syncAck | syncFin | remoteSet => exact h.mono rfl (List.subset_append_left _ _)

end Growth

/-! ## What a session sends -/

namespace Synchronization

variable {state : VNodeState} {s : Synchronization} {n : NodeId}

theorem SameRoute.refl (s : Synchronization) : s.SameRoute s :=
  ⟨rfl, rfl, rfl⟩

/-- The sending loop sends pairs only, to `peer` under `cookie`. -/
theorem pump_msgs (limit window : ℕ) (src peer : NodeId) (cookie : Cookie) :
    ∀ (fuel : ℕ) (it : SyncIterator) (inflight : List (ℕ × Bytes × Cube)) (count : ℕ),
      ∀ m ∈ (pump state limit window src peer cookie fuel it inflight count).2.2.2,
        ∃ seq k v, m = .syncSend src peer cookie seq k v
  | 0, _, _, _ => by simp [pump]
  | fuel + 1, it, inflight, count => by
    unfold pump
    split
    · split
      · simp
      · rename_i k v it' _
        intro m hm
        rcases List.mem_cons.mp hm with rfl | hm
        · exact ⟨count, k, v, rfl⟩
        · exact pump_msgs limit window src peer cookie fuel it' _ _ m hm
    · simp

theorem sameRoute_sendNext (limit window : ℕ) (s : Synchronization) :
    s.SameRoute (s.sendNext state limit window n).1 := by
  cases s <;> exact SameRoute.refl _

/-- `send_next` of a sender sends pairs and its success fin. -/
theorem sends_sendNext (limit window : ℕ) (s : Synchronization) :
    ∀ m ∈ (s.sendNext state limit window n).2, s.Sends n m := by
  intro m hm
  cases s with
  | syncSender cip snap it inflight cookie peer count =>
    rcases List.mem_append.mp hm with hm | hm
    · obtain ⟨seq, k, v, rfl⟩ := pump_msgs limit window n peer cookie window it inflight count m hm
      exact ⟨rfl, rfl, rfl, rfl⟩
    · split at hm
      · rw [List.mem_singleton.mp hm]
        trivial
      · cases hm
  | bootstrapSender snap it inflight cookie peer count =>
    rcases List.mem_append.mp hm with hm | hm
    · obtain ⟨seq, k, v, rfl⟩ := pump_msgs limit window n peer cookie window it inflight count m hm
      exact ⟨rfl, rfl, rfl, rfl⟩
    · split at hm
      · rw [List.mem_singleton.mp hm]
        trivial
      · cases hm
  | syncReceiver | bootstrapReceiver => cases hm

/-- A receiver acknowledges the pair it stores. -/
theorem onMsgSend_route {src : NodeId} {seq : ℕ} {key : Bytes} {value : Cube}
    {r : Synchronization × VNodeState × List Msg} (h : s.onMsgSend state src seq key value = some r) :
    s.isReceiver = true ∧ s.SameRoute r.1 ∧ ∀ m ∈ r.2.2, s.Sends src m := by
  cases s with
  | syncSender | bootstrapSender => cases h
  | syncReceiver cip cookie peer n =>
    obtain ⟨r', -, hr⟩ := Option.bind_eq_some_iff.mp h
    cases hr
    refine ⟨rfl, SameRoute.refl _, fun m hm => ?_⟩
    rw [List.mem_singleton.mp hm]
    exact ⟨rfl, rfl, rfl, rfl⟩
  | bootstrapReceiver cookie peer n =>
    obtain ⟨r', -, hr⟩ := Option.bind_eq_some_iff.mp h
    cases hr
    refine ⟨rfl, SameRoute.refl _, fun m hm => ?_⟩
    rw [List.mem_singleton.mp hm]
    exact ⟨rfl, rfl, rfl, rfl⟩

/-- A sender goes on after an ack. -/
theorem onMsgAck_route {limit window : ℕ} {src : NodeId} {seq : ℕ} {r : Synchronization × List Msg}
    (h : s.onMsgAck state limit window src seq = some r) :
    s.isReceiver = false ∧ s.SameRoute r.1 ∧ ∀ m ∈ r.2, s.Sends src m := by
  cases s with
  | syncReceiver | bootstrapReceiver => cases h
  | syncSender cip snap it inflight cookie peer count =>
    cases h
    exact ⟨rfl, sameRoute_sendNext limit window _, sends_sendNext limit window _⟩
  | bootstrapSender snap it inflight cookie peer count =>
    cases h
    exact ⟨rfl, sameRoute_sendNext limit window _, sends_sendNext limit window _⟩

/-- A fin is answered with a fin, or not at all. -/
theorem sends_onMsgFin (src : NodeId) (cookie : Cookie)
    (result : Except FabricError BitmappedVersionVector) (s : Synchronization) :
    ∀ m ∈ (s.onMsgFin state src cookie result).2.2, s.Sends src m := by
  intro m hm
  cases s with
  | syncSender | bootstrapSender => cases hm
  | syncReceiver | bootstrapReceiver =>
    simp only [onMsgFin] at hm
    split at hm
    · rw [List.mem_singleton.mp hm]
      trivial
    all_goals cases hm

/-- A sender starts by sending. -/
theorem onStart_of_sender (state : VNodeState) (limit window : ℕ) (n : NodeId)
    (h : s.isReceiver = false) :
    s.SameRoute (s.onStart state limit window n).1 ∧
      ∀ m ∈ (s.onStart state limit window n).2, s.Sends n m := by
  cases s with
  | syncReceiver | bootstrapReceiver => cases h
  | syncSender | bootstrapSender =>
    exact ⟨sameRoute_sendNext limit window _, sends_sendNext limit window _⟩

variable {net : List Msg} {c : Cookie} {s' : Synchronization}

/-- A session goes on under the start it had. -/
theorem Started.of_sameRoute (hs : s.Started net n c) (h : s.SameRoute s') :
    s'.Started net n c := by
  obtain ⟨hr, hp, hc⟩ := h
  unfold Started
  rw [hr, hp, hc]
  exact hs

/-- A receiver is started by the start it sent. -/
theorem Started.of_receiver (h : s.isReceiver = true) (hc : s.cookie = c)
    (hs : HasStart net n s.peer c) : s.Started net n c := by
  refine ⟨hc, ?_⟩
  rw [if_pos h]
  exact hs

/-- A sender is started by the start its peer sent. -/
theorem Started.of_sender (h : s.isReceiver = false) (hc : s.cookie = c)
    (hs : HasStart net s.peer n c) : s.Started net n c := by
  refine ⟨hc, ?_⟩
  rw [h, if_neg Bool.false_ne_true]
  exact hs

/-- What a session with its start in the network sends is routed in it, and
starts nothing. -/
theorem Started.sends (hs : s.Started net n c) {m : Msg} (hm : s.Sends n m) :
    m.Routed net ∧ m.startCookie? = none := by
  obtain ⟨hc, hstart⟩ := hs
  cases m with
  | syncSend src dst c' seq key value =>
    -- a sender's pair runs against its start
    obtain ⟨hr, rfl, rfl, rfl⟩ := hm
    rw [hr, if_neg Bool.false_ne_true, ← hc] at hstart
    exact ⟨hstart, rfl⟩
  | syncAck src dst c' seq =>
    -- a receiver's ack runs along it
    obtain ⟨hr, rfl, rfl, rfl⟩ := hm
    rw [if_pos hr, ← hc] at hstart
    exact ⟨hstart, rfl⟩
  | syncFin => exact ⟨trivial, rfl⟩
  | remoteSet | syncStart => cases hm

/-- A receiver's `on_msg_send` panics exactly when storing the pair fails. -/
theorem onMsgSend_eq_none_iff {src : NodeId} {seq : ℕ} {key : Bytes} {value : Cube}
    (h : s.isReceiver = true) :
    s.onMsgSend state src seq key value = none ↔
      state.storageSetRemote [(key, value, false)] = none := by
  cases s with
  | syncSender | bootstrapSender => cases h
  | syncReceiver | bootstrapReceiver =>
    cases hst : state.storageSetRemote [(key, value, false)] <;> simp [onMsgSend, hst]

/-- A sender's `on_msg_ack` does not panic. -/
theorem onMsgAck_isSome {limit window : ℕ} {src : NodeId} {seq : ℕ} (h : s.isReceiver = false) :
    (s.onMsgAck state limit window src seq).isSome := by
  cases s with
  | syncReceiver | bootstrapReceiver => cases h
  | syncSender | bootstrapSender => rfl

end Synchronization

/-! ## What a handler does to the routes -/

namespace VNode

/-- What a handler of node `n` returns when it starts no session: its
sessions have their start in `net`, and it sends messages routed in `net`
that are no starts. -/
def RoutedOut (net : List Msg) (n : NodeId) (r : VNode × List Msg) : Prop :=
  r.1.Routed net n ∧ ∀ m ∈ r.2, m.Routed net ∧ m.startCookie? = none

variable {vn vn' : VNode} {net : List Msg} {n : NodeId} {c : Cookie}

theorem Routed.congr (h : vn.Routed net n) (hs : vn'.syncs = vn.syncs) : vn'.Routed net n := by
  intro c s hc
  rw [hs] at hc
  exact h c s hc

theorem Routed.erase (h : vn.Routed net n) (hs : vn'.syncs = vn.syncs.erase c) :
    vn'.Routed net n := by
  intro c' s hc'
  rw [hs, VecMap.get?_erase] at hc'
  split at hc'
  · cases hc'
  · exact h c' s hc'

/-- A session registered under its own start. -/
theorem Routed.insert (h : vn.Routed net n) {s : Synchronization} (hst : s.Started net n c)
    (hs : vn'.syncs = vn.syncs.insert c s) : vn'.Routed net n := by
  intro c' s' hc'
  rw [hs, VecMap.get?_insert] at hc'
  split at hc'
  · rename_i heq
    cases hc'
    exact heq ▸ hst
  · exact h c' s' hc'

theorem routed_of_syncs_eq_empty (hs : vn.syncs = VecMap.empty) : vn.Routed net n := by
  intro c s hc
  rw [hs, VecMap.get?_empty] at hc
  cases hc

theorem routedOut_nil (h : vn.Routed net n) : RoutedOut net n (vn, []) :=
  ⟨h, fun _ hm => absurd hm List.not_mem_nil⟩

theorem routedOut_errorFin (h : vn.Routed net n) (peer : NodeId) (c : Cookie) (e : FabricError) :
    RoutedOut net n (vn, [errorFin n peer c e]) := by
  refine ⟨h, fun m hm => ?_⟩
  rw [List.mem_singleton.mp hm]
  exact ⟨trivial, rfl⟩

/-- A session that goes on along its route, replaced under its cookie, and
what it sends. -/
theorem routedOut_replace (h : vn.Routed net n) {s s' : Synchronization}
    (hs : vn.syncs.get? c = some s) (hroute : s.SameRoute s') {ms : List Msg}
    (hsends : ∀ m ∈ ms, s.Sends n m) (hsyncs : vn'.syncs = vn.syncs.insert c s') :
    RoutedOut net n (vn', ms) := by
  have hst := h c s hs
  exact ⟨h.insert (hst.of_sameRoute hroute) hsyncs, fun m hm => hst.sends (hsends m hm)⟩

/-- A restart loads the vnode with no session. -/
theorem restart_syncs {self : NodeId} {st : VNodeState} {status : VNodeStatus} {rnd : ℕ}
    (h : restart self st status rnd = some vn') : vn'.syncs = VecMap.empty := by
  obtain ⟨st', -, h⟩ := Option.bind_eq_some_iff.mp h
  split at h
  all_goals cases h
  all_goals rfl

section Handlers

variable (limit window : ℕ) (self : NodeId) {r : VNode × List Msg}

/-- A new cookie starts a sender under the start that carries it. -/
theorem handlerSyncStart_routed (h : vn.Routed net self) {src : NodeId}
    {cip : BitmappedVersionVector} {t : Option NodeId} {zombieFresh : Bool}
    (hm : Msg.syncStart src self c cip t ∈ net)
    (hr : vn.handlerSyncStart limit window self src c cip t zombieFresh = some r) :
    RoutedOut net self r := by
  unfold handlerSyncStart at hr
  split at hr
  · -- a status that refuses syncs
    cases hr
    exact routedOut_errorFin h src c .badVNodeStatus
  split at hr
  · -- a cookie it knows
    cases hr
    exact routedOut_nil h
  -- the new session is a sender towards the start's source: a bootstrap sender
  -- when no target is named, else a sync sender
  have hsession : ∀ sync : Synchronization, sync.isReceiver = false → sync.peer = src →
      sync.cookie = c → RoutedOut net self
        ({ vn with syncs := vn.syncs.insert c (sync.onStart vn.state limit window self).1 },
          (sync.onStart vn.state limit window self).2) := by
    intro sync hsender hpeer hcookie
    have hst : sync.Started net self c := .of_sender hsender hcookie (hpeer ▸ ⟨cip, t, hm⟩)
    obtain ⟨hroute, hsends⟩ := Synchronization.onStart_of_sender vn.state limit window self hsender
    exact ⟨h.insert (hst.of_sameRoute hroute) rfl, fun m hm => hst.sends (hsends m hm)⟩
  cases t with
  | none =>
    simp only [Option.bind_eq_bind, Option.bind_some, Option.pure_def, Option.some.injEq] at hr
    rw [← hr]
    exact hsession _ rfl rfl rfl
  | some t =>
    simp only [Option.bind_eq_bind, Option.bind_some, Option.pure_def] at hr
    split at hr
    · rw [← Option.some.inj hr]
      exact hsession _ rfl rfl rfl
    · simp at hr

/-- A pair reaches a receiver, which acknowledges it along its start. -/
theorem handlerSyncSend_routed (h : vn.Routed net self) {src : NodeId} {seq : ℕ} {key : Bytes}
    {value : Cube} (hr : vn.handlerSyncSend self src c seq key value = some r) :
    RoutedOut net self r := by
  unfold handlerSyncSend at hr
  split at hr
  case h_1 | h_2 =>
    split at hr
    · cases hr
      exact routedOut_errorFin h src c .cookieNotFound
    · rename_i s hs
      obtain ⟨r', hr', hr⟩ := Option.bind_eq_some_iff.mp hr
      cases hr
      obtain ⟨-, hroute, hsends⟩ := Synchronization.onMsgSend_route hr'
      exact routedOut_replace h hs hroute hsends rfl
  · cases hr
    exact routedOut_errorFin h src c .badVNodeStatus

/-- An ack reaches a sender, which sends on. -/
theorem handlerSyncAck_routed (h : vn.Routed net self) {src : NodeId} {seq : ℕ}
    (hr : vn.handlerSyncAck limit window self src c seq = some r) : RoutedOut net self r := by
  unfold handlerSyncAck at hr
  split at hr
  case h_1 | h_2 =>
    split at hr
    · cases hr
      exact routedOut_errorFin h src c .cookieNotFound
    · rename_i s hs
      obtain ⟨r', hr', hr⟩ := Option.bind_eq_some_iff.mp hr
      cases hr
      obtain ⟨-, hroute, hsends⟩ := Synchronization.onMsgAck_route hr'
      exact routedOut_replace h hs hroute hsends rfl
  · cases hr
    exact routedOut_errorFin h src c .badVNodeStatus

/-- A fin ends its session or leaves the sessions alone, and is answered with
a fin or not at all. -/
theorem handlerSyncFin_routed (h : vn.Routed net self) {src : NodeId}
    {result : Except FabricError BitmappedVersionVector} {promoted : Bool}
    (hr : vn.handlerSyncFin self src c result promoted = some r) : RoutedOut net self r := by
  refine ⟨?_, ?_⟩
  · have hsyncs := handlerSyncFin_syncs hr
    split at hsyncs
    · exact h.erase hsyncs
    · exact h.congr hsyncs
  unfold handlerSyncFin at hr
  split at hr
  case h_4 =>
    cases hr
    exact (routedOut_errorFin h src c .badVNodeStatus).2
  -- `Ready`, `Zombie` and `Bootstrap` take the fin
  case h_1 | h_2 | h_3 =>
    split at hr
    · cases hr
      split
      · exact (routedOut_errorFin h src c .cookieNotFound).2
      · exact (routedOut_nil h).2
    rename_i s hs
    -- whatever ends the session, the fin is answered with what `on_msg_fin` sends
    have htail : ∀ (vn₂ : VNode) (res : SyncResult) (ms : List Msg),
        (if vn₂.state.status = .bootstrap then
          (vn₂.handleBootstrapResult promoted res).bind fun vn₃ => some (vn₃, ms)
        else (some vn₂).bind fun vn₃ => some (vn₃, ms)) = some r → r.2 = ms := by
      intro vn₂ res ms h
      split at h
      · obtain ⟨vn₃, -, h⟩ := Option.bind_eq_some_iff.mp h
        cases h
        rfl
      · cases h
        rfl
    have hout : r.2 = (s.onMsgFin vn.state self c result).2.2 := by
      simp only [Option.bind_eq_bind, Option.pure_def] at hr
      cases hres : (s.onMsgFin vn.state self c result).1
      · rw [hres] at hr
        exact htail _ _ _ hr
      all_goals
        rw [hres] at hr
        obtain ⟨vn₂, -, hr⟩ := Option.bind_eq_some_iff.mp hr
        exact htail _ _ _ hr
    rw [hout]
    exact fun m hm => (h c s hs).sends (Synchronization.sends_onMsgFin self c result s m hm)

/-- `do_start_sync` registers a receiver towards `peer` and sends its start,
from the node to another one. -/
theorem doStartSync_routed (h : vn.Routed net self) {peer : NodeId}
    (hr : vn.doStartSync limit window self peer c = some r) :
    self ≠ peer ∧ r.2 = [.syncStart self peer c vn.state.clocks (some peer)] ∧
      r.1.Routed (net ++ r.2) self := by
  unfold doStartSync at hr
  split at hr
  · rename_i hc
    cases hr
    refine ⟨fun heq => hc.2.1 heq.symm, rfl, ?_⟩
    refine (h.mono (List.subset_append_left _ _)).insert
      (.of_receiver (s := .syncReceiver vn.state.clocks c peer 0) rfl rfl ?_) rfl
    exact ⟨_, _, List.mem_append_right _ (List.mem_singleton.mpr rfl)⟩
  · cases hr

/-- A bootstrap with no peer to bootstrap from is done at once. -/
theorem startBootstrap_none_routed (h : vn.Routed net self) {promoted : Bool}
    (hr : vn.startBootstrap self none c promoted = some r) : RoutedOut net self r := by
  unfold startBootstrap at hr
  split at hr
  · split at hr
    · obtain ⟨vn₁, h₁, hr⟩ := Option.map_eq_some_iff.mp hr
      cases hr
      have hsyncs := handleBootstrapResult_syncs h₁
      exact routedOut_nil (h.congr hsyncs)
    · cases hr
  · cases hr

/-- A bootstrap from a peer registers its receiver and sends its start. -/
theorem startBootstrap_some_routed (h : vn.Routed net self) {peer : NodeId} {promoted : Bool}
    (hr : vn.startBootstrap self (some peer) c promoted = some r) :
    r.2 = [.syncStart self peer c .new none] ∧ r.1.Routed (net ++ r.2) self := by
  unfold startBootstrap at hr
  split at hr
  · split at hr
    · cases hr
      refine ⟨rfl, (h.mono (List.subset_append_left _ _)).insert
        (.of_receiver (s := .bootstrapReceiver c peer 0) rfl rfl ?_) rfl⟩
      exact ⟨_, _, List.mem_append_right _ (List.mem_singleton.mpr rfl)⟩
    · cases hr
  · cases hr

/-- The tick of a sender sends on. -/
theorem syncTick_routed (h : vn.Routed net self) (hr : vn.syncTick limit window self c = some r) :
    RoutedOut net self r := by
  obtain ⟨s, hs, hr⟩ := Option.bind_eq_some_iff.mp hr
  split at hr
  · cases hr
  · cases hr
    exact routedOut_replace h hs (Synchronization.sameRoute_sendNext limit window s)
      (Synchronization.sends_sendNext limit window s) rfl

/-- Leaving the vnode removes receivers, and tells each peer with an error fin. -/
theorem cancelIncoming_routed (h : vn.Routed net self) (hr : vn.cancelIncoming self = some r) :
    RoutedOut net self r := by
  refine foldlM_induct (P := RoutedOut net self) (fun acc e acc' _ hacc hstep => ?_)
    (routedOut_nil h) hr
  by_cases hrecv : e.2.isReceiver = true
  · rw [if_pos hrecv] at hstep
    obtain ⟨vn₁, h₁, hstep⟩ := Option.bind_eq_some_iff.mp hstep
    cases hstep
    refine ⟨hacc.1.erase (removeSync_syncs h₁), fun m hm => ?_⟩
    rcases List.mem_append.mp hm with hm | hm
    · exact hacc.2 m hm
    · exact (routedOut_errorFin hacc.1 e.2.peer e.1 .badVNodeStatus).2 m hm
  · rw [if_neg hrecv] at hstep
    cases hstep
    exact hacc

theorem handlerDhtChange_routed (h : vn.Routed net self) {final : VNodeStatus} {rnd : ℕ}
    (hr : vn.handlerDhtChange self final rnd = some r) : RoutedOut net self r := by
  unfold handlerDhtChange at hr
  split at hr
  · cases hr
  split at hr
  -- leaving: the receivers are cancelled, then the status changes
  case h_1 | h_2 =>
    obtain ⟨r₁, h₁, hr⟩ := Option.bind_eq_some_iff.mp hr
    obtain ⟨st, -, hr⟩ := Option.bind_eq_some_iff.mp hr
    cases hr
    have hout := cancelIncoming_routed self h h₁
    exact ⟨hout.1.congr rfl, hout.2⟩
  -- the other changes keep the sessions and send nothing
  case h_3 | h_4 =>
    obtain ⟨st, -, hr⟩ := Option.bind_eq_some_iff.mp hr
    cases hr
    exact routedOut_nil (h.congr rfl)
  case h_5 | h_6 =>
    cases hr
    exact routedOut_nil h
  case h_7 =>
    split at hr
    · cases hr
      exact routedOut_nil h
    · cases hr

/-- A start that names the node it reaches as target, or no one, never makes
`handler_sync_start` panic. -/
theorem handlerSyncStart_isSome {src : NodeId} {cip : BitmappedVersionVector}
    {t : Option NodeId} {zombieFresh : Bool} (ht : t = none ∨ t = some self) :
    (vn.handlerSyncStart limit window self src c cip t zombieFresh).isSome := by
  unfold handlerSyncStart
  split
  · rfl
  split
  · rfl
  rcases ht with rfl | rfl
  · rfl
  · simp

/-- An ack that finds no receiver under its cookie never makes
`handler_sync_ack` panic. -/
theorem handlerSyncAck_isSome {src : NodeId} {seq : ℕ}
    (hs : ∀ s, vn.syncs.get? c = some s → s.isReceiver = false) :
    (vn.handlerSyncAck limit window self src c seq).isSome := by
  unfold handlerSyncAck
  split
  case h_1 | h_2 =>
    split
    · rfl
    · rename_i s hc
      have hsome : (s.onMsgAck vn.state limit window self seq).isSome :=
        Synchronization.onMsgAck_isSome (hs s hc)
      obtain ⟨r', hr'⟩ := Option.isSome_iff_exists.mp hsome
      rw [hr']
      rfl
  · rfl

/-- A pair that finds no sender under its cookie makes `handler_sync_send`
panic only in the receiver's `unwrap` of a failed store. -/
theorem handlerSyncSend_eq_none {src : NodeId} {seq : ℕ} {key : Bytes} {value : Cube}
    (hs : ∀ s, vn.syncs.get? c = some s → s.isReceiver = true)
    (h : vn.handlerSyncSend self src c seq key value = none) :
    ∃ s, vn.syncs.get? c = some s ∧ s.isReceiver = true ∧
      vn.state.storageSetRemote [(key, value, false)] = none := by
  unfold handlerSyncSend at h
  split at h
  case h_1 | h_2 =>
    split at h
    · cases h
    · rename_i s hc
      refine ⟨s, hc, hs s hc, ?_⟩
      cases hsend : s.onMsgSend vn.state self seq key value with
      | none => exact (Synchronization.onMsgSend_eq_none_iff (hs s hc)).mp hsend
      | some r' =>
        rw [hsend] at h
        cases h
  · cases h

end Handlers

end VNode

/-! ## Every drawn run -/

namespace Partition

/-- The choices of the source the routing rests on: a new session's cookie is
fresh, and a bootstrap's peer is another node. -/
def Drawn (p : Partition) : Event → Bool
  | .startSync _ _ c => freshCookie p.net c
  | .startBootstrap n (some peer) c _ => freshCookie p.net c && peer != n
  | _ => true

/-- A step whose choices are drawn as the source draws them. -/
def stepDrawn (limit window : ℕ) (p : Partition) (e : Event) : Option Partition :=
  if p.Drawn e then p.step limit window e else none

/-- The partitions a run of drawn steps reaches. -/
abbrev ReachableDrawn (limit window : ℕ) : Partition → Prop :=
  Sucredb.Reachable Initial (stepDrawn limit window)

/-- The routing invariant: every message of the network is routed in it, and
every session of every node has its start in it. -/
structure Routed (p : Partition) : Prop where
  msgs : ∀ m ∈ p.net, m.Routed p.net
  sessions : ∀ n, (p.nodes n).Routed p.net n

variable {p p' : Partition} {limit window : ℕ}

theorem initial_routed (num : ℕ) (status : NodeId → VNodeStatus) (rnd : NodeId → ℕ) :
    (initial num status rnd).Routed :=
  ⟨fun _ hm => absurd hm List.not_mem_nil, fun _ => VNode.routed_of_syncs_eq_empty rfl⟩

/-- A node's change that extends the network by messages routed in it, whose
starts draw fresh cookies. -/
theorem Routed.extend (hp : p.Routed) {n : NodeId} {vn : VNode} {ms : List Msg}
    (hnodes : p'.nodes = Function.update p.nodes n vn) (hnet : p'.net = p.net ++ ms)
    (hfresh : ∀ m ∈ ms, ∀ c, m.startCookie? = some c → freshCookie p.net c = true)
    (hms : ∀ m ∈ ms, m.Routed (p.net ++ ms)) (hvn : vn.Routed (p.net ++ ms) n) : p'.Routed := by
  constructor
  · -- the old messages keep their routes, the new ones come with theirs
    rw [hnet]
    intro m hm
    rcases List.mem_append.mp hm with hm | hm
    · exact (hp.msgs m hm).append hm hfresh
    · exact hms m hm
  · intro n'
    rw [hnodes, hnet]
    by_cases hn : n' = n
    · subst hn
      rw [Function.update_self]
      exact hvn
    · rw [Function.update_of_ne hn]
      exact (hp.sessions n').mono (List.subset_append_left _ _)

/-- A change that starts no session. -/
theorem Routed.extend_of_routedOut (hp : p.Routed) {n : NodeId} {r : VNode × List Msg}
    (hnodes : p'.nodes = Function.update p.nodes n r.1) (hnet : p'.net = p.net ++ r.2)
    (hr : VNode.RoutedOut p.net n r) : p'.Routed := by
  refine hp.extend hnodes hnet (fun m hm c hc => ?_) (fun m hm => ?_)
    (hr.1.mono (List.subset_append_left _ _))
  · rw [(hr.2 m hm).2] at hc
    cases hc
  · exact (hr.2 m hm).1.mono (hr.2 m hm).2 (List.subset_append_left _ _)

theorem Routed.update (hp : p.Routed) {n : NodeId} {r : Option (VNode × List Msg)}
    (hr : ∀ r', r = some r' → VNode.RoutedOut p.net n r') (h : p.update n r = some p') :
    p'.Routed := by
  obtain ⟨r', hr', rfl⟩ := Option.map_eq_some_iff.mp h
  exact hp.extend_of_routedOut rfl rfl (hr r' hr')

/-- A handler that sends nothing. -/
theorem routedOut_of_map {n : NodeId} {o : Option VNode}
    (ho : ∀ vn, o = some vn → vn.Routed p.net n) :
    ∀ r, o.map (·, ([] : List Msg)) = some r → VNode.RoutedOut p.net n r := by
  intro r hr
  obtain ⟨vn, hvn, rfl⟩ := Option.map_eq_some_iff.mp hr
  exact VNode.routedOut_nil (ho vn hvn)

/-- A start from node `n` to another node, under a fresh cookie, that names
that node as target or no one. -/
theorem Routed.update_start (hp : p.Routed) {n peer : NodeId} {c : Cookie}
    {cip : BitmappedVersionVector} {t : Option NodeId} (hfresh : freshCookie p.net c = true)
    (hne : n ≠ peer) (ht : t = none ∨ t = some peer) {vn : VNode}
    (hvn : vn.Routed (p.net ++ [.syncStart n peer c cip t]) n) :
    ((p.setNode n vn).send [.syncStart n peer c cip t]).Routed := by
  refine hp.extend rfl rfl (fun m hm c' hc => ?_) (fun m hm => ?_) hvn
  · rw [List.mem_singleton.mp hm] at hc
    cases hc
    exact hfresh
  · -- the new start is the only one of its cookie
    rw [List.mem_singleton.mp hm]
    refine ⟨hne, ht, fun src' dst' cip' t' hm' => ?_⟩
    rcases List.mem_append.mp hm' with hm' | hm'
    · exact absurd hm' (not_mem_of_freshCookie hfresh)
    · cases List.mem_singleton.mp hm'
      exact ⟨rfl, rfl⟩

/-- `do_flush` keeps the sessions and sends remote writes. -/
theorem Routed.flush (hp : p.Routed) {n : NodeId} {ws : List (Bytes × WriteCmd)}
    {replicas : List NodeId} (h : p.flush n ws replicas = some p') : p'.Routed := by
  have hvn : ∀ st : VNodeState, VNode.Routed p.net n { p.nodes n with state := st } :=
    fun _ => (hp.sessions n).congr rfl
  unfold Partition.flush at h
  dsimp only at h
  split at h
  · cases h
  · cases h
    refine hp.extend_of_routedOut (r := (_, _)) rfl rfl ⟨hvn _, fun m hm => ?_⟩
    obtain ⟨q, -, rfl⟩ := List.mem_map.mp hm
    exact ⟨trivial, rfl⟩
  · cases h
    exact hp.extend_of_routedOut (r := (_, [])) rfl (List.append_nil _).symm
      (VNode.routedOut_nil (hvn _))

/-- Every drawn event keeps the invariant. -/
theorem Routed.step (hp : p.Routed) {e : Event} (hd : p.Drawn e = true)
    (h : p.step limit window e = some p') : p'.Routed := by
  cases e with
  | flush n ws replicas => exact hp.flush h
  | deliver i zombieFresh promoted =>
    obtain ⟨m, hm, h⟩ := Option.bind_eq_some_iff.mp h
    have hmem : m ∈ p.net := List.mem_of_getElem? hm
    cases m with
    | remoteSet src dst ws =>
      exact hp.update (routedOut_of_map fun _ hvn =>
        (hp.sessions dst).congr (VNode.handlerSetRemote_syncs hvn)) h
    | syncStart src dst c cip t =>
      exact hp.update (fun _ hr =>
        VNode.handlerSyncStart_routed limit window dst (hp.sessions dst) hmem hr) h
    | syncSend src dst c seq key value =>
      exact hp.update (fun _ hr => VNode.handlerSyncSend_routed dst (hp.sessions dst) hr) h
    | syncAck src dst c seq =>
      exact hp.update (fun _ hr =>
        VNode.handlerSyncAck_routed limit window dst (hp.sessions dst) hr) h
    | syncFin src dst c result =>
      exact hp.update (fun _ hr => VNode.handlerSyncFin_routed dst (hp.sessions dst) hr) h
  | startSync n peer c =>
    obtain ⟨r, hr, rfl⟩ := Option.map_eq_some_iff.mp h
    obtain ⟨hne, hout, hvn⟩ := VNode.doStartSync_routed limit window n (hp.sessions n) hr
    rw [hout] at hvn ⊢
    exact hp.update_start hd hne (.inr rfl) hvn
  | startBootstrap n peer c promoted =>
    cases peer with
    | none =>
      exact hp.update (fun _ hr => VNode.startBootstrap_none_routed n (hp.sessions n) hr) h
    | some q =>
      -- a bootstrap's start goes to another node, under a fresh cookie
      obtain ⟨hfresh, hq⟩ := Bool.and_eq_true_iff.mp hd
      obtain ⟨r, hr, rfl⟩ := Option.map_eq_some_iff.mp h
      obtain ⟨hout, hvn⟩ := VNode.startBootstrap_some_routed n (hp.sessions n) hr
      rw [hout] at hvn ⊢
      exact hp.update_start hfresh (bne_iff_ne.mp hq).symm (.inl rfl) hvn
  | syncTick n c =>
    exact hp.update (fun _ hr => VNode.syncTick_routed limit window n (hp.sessions n) hr) h
  | syncTimeout n c =>
    exact hp.update (routedOut_of_map fun _ hvn =>
      (hp.sessions n).erase (VNode.syncTimeout_syncs hvn)) h
  | dhtChange n final rnd =>
    exact hp.update (fun _ hr => VNode.handlerDhtChange_routed n (hp.sessions n) hr) h
  | zombieTimeout n =>
    exact hp.update (routedOut_of_map fun _ hvn =>
      (hp.sessions n).congr (VNode.zombieTimeout_syncs hvn)) h
  | restart n clean status rnd =>
    exact hp.update (routedOut_of_map fun _ hvn =>
      VNode.routed_of_syncs_eq_empty (VNode.restart_syncs hvn)) h

/-- Every partition a drawn run reaches keeps the invariant. -/
theorem ReachableDrawn.routed (h : Partition.ReachableDrawn limit window p) : p.Routed := by
  induction h with
  | init hs =>
    obtain ⟨num, status, rnd, -, rfl⟩ := hs
    exact initial_routed num status rnd
  | step e _ hs ih =>
    unfold stepDrawn at hs
    split at hs
    · exact ih.step ‹_› hs
    · cases hs

/-- Two starts of one cookie are one: the same receiver, the same sender. -/
theorem Routed.start_unique (hp : p.Routed) {r₁ s₁ r₂ s₂ : NodeId} {c : Cookie}
    (h₁ : HasStart p.net r₁ s₁ c) (h₂ : HasStart p.net r₂ s₂ c) : r₁ = r₂ ∧ s₁ = s₂ := by
  obtain ⟨cip₁, t₁, hm₁⟩ := h₁
  obtain ⟨cip₂, t₂, hm₂⟩ := h₂
  obtain ⟨hr, hs⟩ := (hp.msgs _ hm₁).2.2 r₂ s₂ cip₂ t₂ hm₂
  exact ⟨hr.symm, hs.symm⟩

/-- A start goes between two nodes. -/
theorem Routed.start_ne (hp : p.Routed) {r s : NodeId} {c : Cookie} (h : HasStart p.net r s c) :
    r ≠ s := by
  obtain ⟨cip, t, hm⟩ := h
  exact (hp.msgs _ hm).1

/-- A pair reaches the receiver of its start: a sender of its cookie on the
pair's destination would have a start running the other way. -/
theorem Routed.isReceiver_of_syncSend (hp : p.Routed) {src dst : NodeId} {c : Cookie} {seq : ℕ}
    {key : Bytes} {value : Cube} (hm : Msg.syncSend src dst c seq key value ∈ p.net)
    {s : Synchronization} (hs : (p.nodes dst).syncs.get? c = some s) : s.isReceiver = true := by
  obtain ⟨-, hstart⟩ := hp.sessions dst c s hs
  cases hrecv : s.isReceiver with
  | true => rfl
  | false =>
    rw [hrecv, if_neg Bool.false_ne_true] at hstart
    have hpair : HasStart p.net dst src c := hp.msgs _ hm
    exact absurd (hp.start_unique hstart hpair).2 (hp.start_ne hpair)

/-- An ack reaches the sender of its start. -/
theorem Routed.isReceiver_of_syncAck (hp : p.Routed) {src dst : NodeId} {c : Cookie} {seq : ℕ}
    (hm : Msg.syncAck src dst c seq ∈ p.net) {s : Synchronization}
    (hs : (p.nodes dst).syncs.get? c = some s) : s.isReceiver = false := by
  obtain ⟨-, hstart⟩ := hp.sessions dst c s hs
  cases hrecv : s.isReceiver with
  | false => rfl
  | true =>
    rw [hrecv, if_pos rfl] at hstart
    have hack : HasStart p.net src dst c := hp.msgs _ hm
    exact absurd (hp.start_unique hack hstart).1 (hp.start_ne hack)

end Partition

/-- Over every run whose cookies are fresh and whose bootstraps pick another
node, the sync messages of the network reach sessions of the right kind: no
`SyncStart` and no `SyncAck` makes its handler panic, and a `SyncSend` makes
it panic only at a receiver, when storing its pair fails. -/
theorem sync_messages_reach_their_sessions {limit window : ℕ} {p : Partition}
    (h : Partition.ReachableDrawn limit window p) :
    (∀ src dst c cip t zombieFresh, Msg.syncStart src dst c cip t ∈ p.net →
      ((p.nodes dst).handlerSyncStart limit window dst src c cip t zombieFresh).isSome) ∧
    (∀ src dst c seq, Msg.syncAck src dst c seq ∈ p.net →
      ((p.nodes dst).handlerSyncAck limit window dst src c seq).isSome) ∧
    (∀ src dst c seq key value, Msg.syncSend src dst c seq key value ∈ p.net →
      (p.nodes dst).handlerSyncSend dst src c seq key value = none →
        ∃ s, (p.nodes dst).syncs.get? c = some s ∧ s.isReceiver = true ∧
          (p.nodes dst).state.storageSetRemote [(key, value, false)] = none) := by
  have hp := Partition.ReachableDrawn.routed h
  refine ⟨fun src dst c cip t zombieFresh hm => ?_, fun src dst c seq hm => ?_,
    fun src dst c seq key value hm hnone => ?_⟩
  · exact VNode.handlerSyncStart_isSome limit window dst (hp.msgs _ hm).2.1
  · exact VNode.handlerSyncAck_isSome limit window dst fun s hs => hp.isReceiver_of_syncAck hm hs
  · exact VNode.handlerSyncSend_eq_none dst (fun s hs => hp.isReceiver_of_syncSend hm hs) hnone

/-- Node 1 starts a sync from node 2 under a fresh cookie. -/
theorem sync_messages_reach_their_sessions_after_start_sync :
    ∃ p, run (Partition.stepDrawn 1000 10) (Partition.initial 0 (fun _ => .ready) fun n => n)
        [.startSync 1 2 7] = some p ∧
      (∀ src dst c cip t zombieFresh, Msg.syncStart src dst c cip t ∈ p.net →
        ((p.nodes dst).handlerSyncStart 1000 10 dst src c cip t zombieFresh).isSome) ∧
      (∀ src dst c seq, Msg.syncAck src dst c seq ∈ p.net →
        ((p.nodes dst).handlerSyncAck 1000 10 dst src c seq).isSome) ∧
      (∀ src dst c seq key value, Msg.syncSend src dst c seq key value ∈ p.net →
        (p.nodes dst).handlerSyncSend dst src c seq key value = none →
          ∃ s, (p.nodes dst).syncs.get? c = some s ∧ s.isReceiver = true ∧
            (p.nodes dst).state.storageSetRemote [(key, value, false)] = none) := by
  have hinit : Partition.Initial (Partition.initial 0 (fun _ => .ready) fun n => n) :=
    ⟨0, _, _, fun _ => by decide, rfl⟩
  obtain ⟨p, hrun⟩ : ∃ p, run (Partition.stepDrawn 1000 10)
      (Partition.initial 0 (fun _ => .ready) fun n => n) [.startSync 1 2 7] = some p := ⟨_, rfl⟩
  exact ⟨p, hrun, sync_messages_reach_their_sessions (reachable_of_run hinit hrun)⟩

end Sucredb
