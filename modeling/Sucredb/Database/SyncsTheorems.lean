/-
Sucredb.Database.SyncsTheorems — the sync counters count the registered
sessions.

Each handler, run with its signals, moves a counter exactly as it moves the
sessions of that direction on the vnode it runs on, and raises a counter
only below its limit (`Accounted`). The vnode-level lemmas say what each
handler does to the session map: a new cookie gets a session whose direction
the signal names, an ended session is erased, and a session that handles a
message keeps its direction. Summed over the vnodes, the counters equal the
registered sessions in every reachable database, so `signal_sync_end` always
finds its count positive and no slot leaks (`stats_count_registered`).
-/
import Sucredb.Database.Syncs

namespace Sucredb

/-! ## The signals -/

section Signals

variable {config : SyncConfig} {stats stats' : Stats}

theorem count_signalSyncStart {d₀ : SyncDirection} (h : signalSyncStart config stats d₀ = some stats')
    (d : SyncDirection) : stats'.count d = stats.count d + if d₀ = d then 1 else 0 := by
  cases d₀ <;> cases d <;> simp only [signalSyncStart] at h <;> split at h <;> cases h <;> rfl

theorem lt_max_of_signalSyncStart {d₀ : SyncDirection}
    (h : signalSyncStart config stats d₀ = some stats') : stats.count d₀ < config.max d₀ := by
  cases d₀ <;> simp only [signalSyncStart] at h <;> split at h
  all_goals first
    | (simp only [Stats.count, SyncConfig.max]; assumption)
    | cases h

theorem count_signalSyncEnd {d₀ : SyncDirection} (h : signalSyncEnd stats d₀ = some stats')
    (d : SyncDirection) : stats'.count d + (if d₀ = d then 1 else 0) = stats.count d := by
  cases d₀ <;> cases d <;> simp only [signalSyncEnd] at h <;> split at h <;> cases h <;>
    simp_all [Stats.count]

/-- `signal_sync_end` gives a slot back whenever its direction has one. -/
theorem signalSyncEnd_isSome {d : SyncDirection} (h : 0 < stats.count d) :
    ∃ stats', signalSyncEnd stats d = some stats' := by
  cases d
  · obtain ⟨n, hn⟩ := Nat.exists_eq_succ_of_ne_zero (Nat.pos_iff_ne_zero.mp h)
    exact ⟨_, by simp only [signalSyncEnd, Stats.count] at hn ⊢; rw [hn]⟩
  · obtain ⟨n, hn⟩ := Nat.exists_eq_succ_of_ne_zero (Nat.pos_iff_ne_zero.mp h)
    exact ⟨_, by simp only [signalSyncEnd, Stats.count] at hn ⊢; rw [hn]⟩

/-- The `on_remove` of a list of sessions gives back one slot for each. -/
theorem count_signalSyncEnds :
    ∀ {ss : List Synchronization} {stats stats' : Stats}, signalSyncEnds stats ss = some stats' →
      ∀ d, stats'.count d + ss.countP (·.direction == d) = stats.count d
  | [], _, _, h, d => by
    cases h
    simp
  | s :: ss, stats, stats', h, d => by
    rw [signalSyncEnds, List.foldlM_cons] at h
    obtain ⟨st, hst, h⟩ := Option.bind_eq_some_iff.mp h
    have h₁ := count_signalSyncEnd hst d
    have h₂ := count_signalSyncEnds h d
    rw [List.countP_cons]
    simp only [beq_iff_eq] at h₂ ⊢
    omega

end Signals

/-! ## Directions

A session that handles a message, or the tick, keeps its kind. -/

namespace Synchronization

variable {state : VNodeState} {limit window : ℕ} {src : NodeId}

@[simp] theorem direction_sendNext (s : Synchronization) :
    (s.sendNext state limit window src).1.direction = s.direction := by
  cases s <;> rfl

@[simp] theorem direction_onStart (s : Synchronization) :
    (s.onStart state limit window src).1.direction = s.direction := by
  cases s <;> rfl

theorem direction_onMsgSend {s : Synchronization} {seq : ℕ} {key : Bytes} {value : Cube}
    {r : Synchronization × VNodeState × List Msg} (h : s.onMsgSend state src seq key value = some r) :
    r.1.direction = s.direction := by
  cases s <;> simp only [onMsgSend, Option.bind_eq_bind, Option.bind_eq_some_iff, reduceCtorEq] at h
  all_goals
    obtain ⟨_, -, h⟩ := h
    cases h
    rfl

theorem direction_onMsgAck {s : Synchronization} {seq : ℕ} {r : Synchronization × List Msg}
    (h : s.onMsgAck state limit window src seq = some r) : r.1.direction = s.direction := by
  cases s <;> simp only [onMsgAck, Option.some.injEq, reduceCtorEq] at h <;> subst h <;>
    exact direction_sendNext _

theorem isReceiver_iff {s : Synchronization} : s.isReceiver = true ↔ s.direction = .incomming := by
  cases s <;> simp [isReceiver, direction]

end Synchronization

/-! ## What the vnode handlers do to the sessions -/

namespace VNode

variable {limit window : ℕ} {self : NodeId} {vn vn' : VNode}

theorem syncCount_of_syncs_eq (h : vn'.syncs = vn.syncs) (d : SyncDirection) :
    vn'.syncCount d = vn.syncCount d := by
  rw [syncCount, syncCount, h]

/-- A session registered under a new cookie counts in its direction. -/
theorem syncCount_of_insert {cookie : Cookie} {s : Synchronization} (hc : cookie ∉ vn.syncs.keys)
    (h : vn'.syncs = vn.syncs.insert cookie s) (d : SyncDirection) :
    vn'.syncCount d = vn.syncCount d + if s.direction = d then 1 else 0 := by
  rw [syncCount, syncCount, h, VecMap.countValues_insert_of_not_mem hc]
  simp only [beq_iff_eq]

/-- A session replaced by one of its direction leaves the counts as they were. -/
theorem syncCount_of_replace {cookie : Cookie} {s s' : Synchronization}
    (hs : vn.syncs.get? cookie = some s) (hd : s'.direction = s.direction)
    (h : vn'.syncs = vn.syncs.insert cookie s') (d : SyncDirection) :
    vn'.syncCount d = vn.syncCount d := by
  have hc := VecMap.countValues_insert_of_get? (p := fun s => s.direction == d) hs s'
  rw [hd] at hc
  rw [syncCount, syncCount, h]
  omega

/-- An erased session counts out of its direction. -/
theorem syncCount_of_erase {cookie : Cookie} {s : Synchronization}
    (hs : vn.syncs.get? cookie = some s) (h : vn'.syncs = vn.syncs.erase cookie)
    (d : SyncDirection) : vn'.syncCount d + (if s.direction = d then 1 else 0) = vn.syncCount d := by
  rw [syncCount, syncCount, h]
  simpa only [beq_iff_eq] using VecMap.countValues_erase (p := fun s => s.direction == d) hs

theorem removeSync_syncs {cookie : Cookie} {s : Synchronization}
    (h : vn.removeSync cookie s = some vn') : vn'.syncs = vn.syncs.erase cookie := by
  simp only [removeSync, Option.bind_eq_bind, Option.bind_eq_some_iff, Option.pure_def,
    Option.some.injEq] at h
  obtain ⟨st, -, rfl⟩ := h
  rfl

theorem handleBootstrapResult_syncs {promoted : Bool} {r : SyncResult}
    (h : vn.handleBootstrapResult promoted r = some vn') : vn'.syncs = vn.syncs := by
  cases r
  · cases h
    rfl
  · simp only [handleBootstrapResult, Option.bind_eq_bind, Option.bind_eq_some_iff,
      Option.pure_def, Option.some.injEq] at h
    obtain ⟨st, -, rfl⟩ := h
    rfl
  · cases h
    rfl

theorem handlerSetRemote_syncs {writes : RemoteWrites} (h : vn.handlerSetRemote writes = some vn') :
    vn'.syncs = vn.syncs := by
  unfold handlerSetRemote at h
  split at h
  · simp only [Option.bind_eq_bind, Option.bind_eq_some_iff, Option.pure_def,
      Option.some.injEq] at h
    obtain ⟨r, -, rfl⟩ := h
    rfl
  · simp only [Option.bind_eq_bind, Option.bind_eq_some_iff, Option.pure_def,
      Option.some.injEq] at h
    obtain ⟨r, -, rfl⟩ := h
    rfl
  · cases h
    rfl

/-- `handler_sync_start` registers a sender under the cookie when the vnode
accepts it, and changes nothing otherwise. -/
theorem handlerSyncStart_syncs {src : NodeId} {cookie : Cookie} {cip : BitmappedVersionVector}
    {target : Option NodeId} {zombieFresh : Bool} {out : List Msg}
    (h : vn.handlerSyncStart limit window self src cookie cip target zombieFresh = some (vn', out)) :
    if vn.acceptsSyncStart cookie zombieFresh then
      cookie ∉ vn.syncs.keys ∧ ∃ s, s.direction = .outgoing ∧ vn'.syncs = vn.syncs.insert cookie s
    else vn' = vn := by
  unfold handlerSyncStart at h
  split at h
  · -- a status that refuses syncs
    rename_i hst
    cases h
    rw [Bool.not_eq_true'] at hst
    rw [if_neg (by rw [acceptsSyncStart, hst, Bool.false_and]; exact Bool.false_ne_true)]
  split at h
  · -- a cookie it knows
    rename_i hc
    cases h
    rw [if_neg (by rw [acceptsSyncStart, hc, Bool.not_true, Bool.and_false]; exact Bool.false_ne_true)]
  rename_i hst hc
  rw [Bool.not_eq_true', Bool.not_eq_false] at hst
  rw [Bool.not_eq_true] at hc
  rw [if_pos (by rw [acceptsSyncStart, hst, hc]; rfl)]
  refine ⟨fun hk => Bool.noConfusion (hc.symm.trans ((vn.syncs.contains_iff).mpr hk)), ?_⟩
  -- a bootstrap sender, or a sync sender for this node
  cases target with
  | none =>
    simp only [Option.bind_eq_bind, Option.bind_some, Option.pure_def, Option.some.injEq,
      Prod.mk.injEq] at h
    obtain ⟨rfl, -⟩ := h
    exact ⟨_, rfl, rfl⟩
  | some t =>
    by_cases ht : t = self
    · simp only [ht, ↓reduceIte, Option.bind_eq_bind, Option.bind_some, Option.pure_def,
        Option.some.injEq, Prod.mk.injEq] at h
      obtain ⟨rfl, -⟩ := h
      exact ⟨_, rfl, rfl⟩
    · simp only [ht, ↓reduceIte, Option.bind_eq_bind, Option.bind_none, reduceCtorEq] at h

theorem handlerSyncSend_syncCount {src : NodeId} {cookie : Cookie} {seq : ℕ} {key : Bytes}
    {value : Cube} {out : List Msg}
    (h : vn.handlerSyncSend self src cookie seq key value = some (vn', out)) (d : SyncDirection) :
    vn'.syncCount d = vn.syncCount d := by
  unfold handlerSyncSend at h
  -- `Ready` and `Bootstrap` hand the pair to the session of the cookie
  split at h
  case h_1 | h_2 =>
    split at h
    · cases h
      rfl
    · rename_i s hs
      simp only [Option.bind_eq_bind, Option.bind_eq_some_iff, Option.pure_def,
        Option.some.injEq, Prod.mk.injEq] at h
      obtain ⟨r, hr, rfl, -⟩ := h
      exact syncCount_of_replace hs (Synchronization.direction_onMsgSend hr) rfl d
  case h_3 =>
    cases h
    rfl

theorem handlerSyncAck_syncCount {src : NodeId} {cookie : Cookie} {seq : ℕ} {out : List Msg}
    (h : vn.handlerSyncAck limit window self src cookie seq = some (vn', out)) (d : SyncDirection) :
    vn'.syncCount d = vn.syncCount d := by
  unfold handlerSyncAck at h
  split at h
  case h_1 | h_2 =>
    split at h
    · cases h
      rfl
    · rename_i s hs
      simp only [Option.bind_eq_bind, Option.bind_eq_some_iff, Option.pure_def,
        Option.some.injEq, Prod.mk.injEq] at h
      obtain ⟨r, hr, rfl, -⟩ := h
      exact syncCount_of_replace hs (Synchronization.direction_onMsgAck hr) rfl d
  case h_3 =>
    cases h
    rfl

theorem finEnds_get? {cookie : Cookie} {result : Except FabricError BitmappedVersionVector}
    {s : Synchronization} (h : vn.finEnds self cookie result = some s) :
    vn.syncs.get? cookie = some s := by
  unfold finEnds at h
  split at h
  · cases h
  split at h
  · split at h
    · cases h
    · cases h
      assumption
  · cases h

/-- `handler_sync_fin` erases the session it ends, and nothing else. -/
theorem handlerSyncFin_syncs {src : NodeId} {cookie : Cookie}
    {result : Except FabricError BitmappedVersionVector} {promoted : Bool} {out : List Msg}
    (h : vn.handlerSyncFin self src cookie result promoted = some (vn', out)) :
    vn'.syncs = match vn.finEnds self cookie result with
      | some _ => vn.syncs.erase cookie
      | none => vn.syncs := by
  unfold handlerSyncFin at h
  unfold finEnds
  split at h
  case h_4 hr hz hb =>
    have hab : vn.state.status = .absent := by
      cases hs : vn.state.status <;> simp_all
    cases h
    rw [if_pos hab]
  -- `Ready`, `Zombie` and `Bootstrap` handle the fin
  case h_1 hst | h_2 hst | h_3 hst =>
    rw [if_neg (by rw [hst]; decide)]
    split at h
    · rename_i hs
      cases h
      rw [hs]
    rename_i s hs
    have htail : ∀ (vn₂ : VNode) (r : SyncResult) (ms : List Msg),
        (if vn₂.state.status = .bootstrap then
          (vn₂.handleBootstrapResult promoted r).bind fun vn₃ => some (vn₃, ms)
        else (some vn₂).bind fun vn₃ => some (vn₃, ms)) = some (vn', out) →
          vn'.syncs = vn₂.syncs := by
      intro vn₂ r ms h
      split at h
      · obtain ⟨vn₃, h₃, h⟩ := Option.bind_eq_some_iff.mp h
        cases h
        exact handleBootstrapResult_syncs h₃
      · cases h
        rfl
    simp only [Option.bind_eq_bind, Option.pure_def] at h
    simp only [hs]
    cases hr : (s.onMsgFin vn.state self cookie result).1
    · rw [hr] at h
      simp only [↓reduceIte]
      exact htail { vn with state := (s.onMsgFin vn.state self cookie result).2.1 } _ _ h
    all_goals
      rw [hr] at h
      obtain ⟨vn₂, h₂, h⟩ := Option.bind_eq_some_iff.mp h
      simp only [reduceCtorEq, ↓reduceIte]
      rw [htail _ _ _ h, removeSync_syncs h₂]

/-- `do_start_sync` registers a receiver under a new cookie. -/
theorem doStartSync_syncs {peer : NodeId} {cookie : Cookie} {out : List Msg}
    (h : vn.doStartSync limit window self peer cookie = some (vn', out)) :
    cookie ∉ vn.syncs.keys ∧ ∃ s, s.direction = .incomming ∧ vn'.syncs = vn.syncs.insert cookie s := by
  unfold doStartSync at h
  split at h
  · rename_i hc
    cases h
    refine ⟨fun hk => ?_, _, rfl, rfl⟩
    have hnew := hc.2.2.2
    rw [(vn.syncs.contains_iff).mpr hk] at hnew
    exact Bool.false_ne_true hnew
  · cases h

/-- A bootstrap with no peer is done at once, and keeps the sessions. -/
theorem startBootstrap_none_syncs {cookie : Cookie} {promoted : Bool} {out : List Msg}
    (h : vn.startBootstrap self none cookie promoted = some (vn', out)) : vn'.syncs = vn.syncs := by
  unfold startBootstrap at h
  split at h
  · split at h
    · obtain ⟨vn₁, h₁, h⟩ := Option.map_eq_some_iff.mp h
      cases h
      have hsyncs := handleBootstrapResult_syncs h₁
      exact hsyncs
    · cases h
  · cases h

/-- A bootstrap from a peer registers its receiver in the empty session map. -/
theorem startBootstrap_some_syncs {p : NodeId} {cookie : Cookie} {promoted : Bool}
    {out : List Msg} (h : vn.startBootstrap self (some p) cookie promoted = some (vn', out)) :
    cookie ∉ vn.syncs.keys ∧ ∃ s, s.direction = .incomming ∧ vn'.syncs = vn.syncs.insert cookie s := by
  unfold startBootstrap at h
  split at h
  · split at h
    · rename_i hempty
      cases h
      refine ⟨fun hk => ?_, _, rfl, rfl⟩
      rw [VecMap.isEmpty_eq_false_of_mem_keys hk] at hempty
      exact Bool.false_ne_true hempty
    · cases h
  · cases h

/-- The cancelling loop of `handler_dht_change`, over entries each still
registered when the loop reaches it: it erases the receivers among them. -/
theorem syncCount_cancelLoop :
    ∀ {l : List (Cookie × Synchronization)} {acc acc' : VNode × List Msg},
      (l.map Prod.fst).Nodup → (∀ e ∈ l, acc.1.syncs.get? e.1 = some e.2) →
      l.foldlM (fun (acc : VNode × List Msg) e =>
        if e.2.isReceiver then do
          let vn' ← acc.1.removeSync e.1 e.2
          pure (vn', acc.2 ++ [errorFin self e.2.peer e.1 .badVNodeStatus])
        else pure acc) acc = some acc' →
      ∀ d, acc'.1.syncCount d + ((l.filter (·.2.isReceiver)).map Prod.snd).countP
        (·.direction == d) = acc.1.syncCount d
  | [], _, _, _, _, h, d => by
    cases h
    simp
  | e :: l, acc, acc', hl, hreg, h, d => by
    rw [List.map_cons, List.nodup_cons] at hl
    rw [List.foldlM_cons] at h
    obtain ⟨acc₁, h₁, h⟩ := Option.bind_eq_some_iff.mp h
    by_cases hr : e.2.isReceiver = true
    · -- a receiver is erased; the later entries have other keys
      rw [if_pos hr] at h₁
      simp only [Option.bind_eq_bind, Option.bind_eq_some_iff, Option.pure_def,
        Option.some.injEq] at h₁
      obtain ⟨vn₁, hvn₁, rfl⟩ := h₁
      have herase := removeSync_syncs hvn₁
      have hreg₁ : ∀ e' ∈ l, vn₁.syncs.get? e'.1 = some e'.2 := by
        intro e' he'
        have hne : e'.1 ≠ e.1 := fun heq => hl.1 (heq ▸ List.mem_map_of_mem he')
        rw [herase, VecMap.get?_erase, if_neg hne]
        exact hreg e' (List.mem_cons_of_mem _ he')
      have ih := syncCount_cancelLoop hl.2 hreg₁ h d
      have hcount := syncCount_of_erase (hreg e List.mem_cons_self) herase d
      rw [List.filter_cons_of_pos (by simpa using hr), List.map_cons, List.countP_cons]
      simp only [beq_iff_eq] at ih ⊢
      omega
    · rw [if_neg hr] at h₁
      cases h₁
      have ih := syncCount_cancelLoop hl.2 (fun e' he' => hreg e' (List.mem_cons_of_mem _ he')) h d
      rw [List.filter_cons_of_neg (by simpa using hr)]
      exact ih

theorem cancelIncoming_syncCount {out : List Msg} (h : vn.cancelIncoming self = some (vn', out))
    (d : SyncDirection) : vn'.syncCount d +
      ((vn.syncs.entries.filter (·.2.isReceiver)).map Prod.snd).countP (·.direction == d) =
        vn.syncCount d :=
  syncCount_cancelLoop vn.syncs.nodup (fun _ he => (vn.syncs.get?_eq_some_iff).mpr he) h d

/-- `handler_dht_change` unregisters the receivers it cancels, and no other
session. -/
theorem handlerDhtChange_syncCount {final : VNodeStatus} {rnd : ℕ} {out : List Msg}
    (h : vn.handlerDhtChange self final rnd = some (vn', out)) (d : SyncDirection) :
    vn'.syncCount d + (vn.dhtCancels final).countP (·.direction == d) = vn.syncCount d := by
  unfold handlerDhtChange at h
  split at h
  · cases h
  split at h
  -- leaving: the receivers are cancelled, then the status changes
  case h_1 _ _ hst _ | h_2 _ _ hst _ =>
    simp only [Option.bind_eq_bind, Option.bind_eq_some_iff, Option.pure_def,
      Option.some.injEq, Prod.mk.injEq] at h
    obtain ⟨r₁, h₁, st, -, rfl, -⟩ := h
    rw [dhtCancels, if_pos ⟨rfl, by simp [hst]⟩]
    exact cancelIncoming_syncCount h₁ d
  -- the other changes keep the sessions and cancel none
  case h_7 =>
    split at h
    · rename_i hsf
      cases h
      rw [dhtCancels, if_neg (by rw [hsf]; rintro ⟨rfl, h | h⟩ <;> cases h), List.countP_nil,
        Nat.add_zero]
    · cases h
  all_goals rw [dhtCancels, if_neg (by simp_all), List.countP_nil, Nat.add_zero]
  case h_3 | h_4 =>
    simp only [Option.bind_eq_bind, Option.bind_eq_some_iff, Option.pure_def,
      Option.some.injEq, Prod.mk.injEq] at h
    obtain ⟨st, -, rfl, -⟩ := h
    rfl
  case h_5 | h_6 =>
    cases h
    rfl

theorem zombieTimeout_syncs (h : vn.zombieTimeout = some vn') : vn'.syncs = vn.syncs := by
  unfold zombieTimeout at h
  split at h
  · simp only [Option.bind_eq_bind, Option.bind_eq_some_iff, Option.pure_def,
      Option.some.injEq] at h
    obtain ⟨st, -, rfl⟩ := h
    rfl
  · cases h

theorem syncTick_syncCount {cookie : Cookie} {out : List Msg}
    (h : vn.syncTick limit window self cookie = some (vn', out)) (d : SyncDirection) :
    vn'.syncCount d = vn.syncCount d := by
  simp only [syncTick, Option.bind_eq_bind, Option.bind_eq_some_iff] at h
  obtain ⟨s, hs, h⟩ := h
  split at h
  · cases h
  · cases h
    exact syncCount_of_replace hs (Synchronization.direction_sendNext s) rfl d

/-- A timed out session is erased, and a bootstrap's result keeps the rest. -/
theorem syncTimeout_syncs {cookie : Cookie} (h : vn.syncTimeout cookie = some vn') :
    vn'.syncs = vn.syncs.erase cookie := by
  simp only [syncTimeout, Option.bind_eq_bind, Option.bind_eq_some_iff] at h
  obtain ⟨s, -, vn₁, h₁, h⟩ := h
  rw [← removeSync_syncs h₁]
  split at h
  · exact handleBootstrapResult_syncs h
  · cases h
    rfl

end VNode

/-! ## The handlers keep the books -/

namespace Database

/-- What a handler run with its signals does to the counters, against the
sessions of the vnode it runs on: a count moves as the sessions of its
direction, and grows only while below its limit. -/
structure Accounted (config : SyncConfig) (vn : VNode) (stats : Stats) (vn' : VNode)
    (stats' : Stats) : Prop where
  balance : ∀ d, stats'.count d + vn.syncCount d = stats.count d + vn'.syncCount d
  bounded : ∀ d, stats'.count d ≤ stats.count d ∨ stats'.count d ≤ config.max d

namespace Accounted

variable {config : SyncConfig} {vn vn' : VNode} {stats stats' : Stats}

/-- No signal, and the sessions as they were. -/
theorem of_syncCount (h : ∀ d, vn'.syncCount d = vn.syncCount d) :
    Accounted config vn stats vn' stats :=
  ⟨fun d => by rw [h d], fun _ => .inl le_rfl⟩

theorem of_syncs (h : vn'.syncs = vn.syncs) : Accounted config vn stats vn' stats :=
  of_syncCount (VNode.syncCount_of_syncs_eq h)

/-- A slot taken for a session registered under a new cookie. -/
theorem of_start {d₀ : SyncDirection} (hs : signalSyncStart config stats d₀ = some stats')
    {cookie : Cookie} {s : Synchronization} (hd : s.direction = d₀) (hc : cookie ∉ vn.syncs.keys)
    (h : vn'.syncs = vn.syncs.insert cookie s) : Accounted config vn stats vn' stats' := by
  refine ⟨fun d => ?_, fun d => ?_⟩
  · rw [count_signalSyncStart hs d, VNode.syncCount_of_insert hc h d, hd]
    omega
  · by_cases hd' : d₀ = d
    · subst hd'
      have hlt := lt_max_of_signalSyncStart hs
      rw [count_signalSyncStart hs, if_pos rfl]
      exact .inr hlt
    · rw [count_signalSyncStart hs d, if_neg hd']
      exact .inl le_rfl

/-- Slots given back for the sessions unregistered, `k d` of direction `d`. -/
theorem of_ends {k : SyncDirection → ℕ} (hs : ∀ d, stats'.count d + k d = stats.count d)
    (hv : ∀ d, vn'.syncCount d + k d = vn.syncCount d) : Accounted config vn stats vn' stats' := by
  refine ⟨fun d => ?_, fun d => .inl ?_⟩
  · have h₁ := hs d
    have h₂ := hv d
    omega
  · have h₁ := hs d
    omega

end Accounted

section Handlers

variable {config : SyncConfig} {limit window : ℕ} {self : NodeId} {vn vn' : VNode}
  {stats stats' : Stats} {out : List Msg}

theorem handlerSyncStart_accounted {src : NodeId} {cookie : Cookie}
    {cip : BitmappedVersionVector} {target : Option NodeId} {zombieFresh : Bool}
    (h : handlerSyncStart config limit window self vn stats src cookie cip target zombieFresh =
      some (vn', stats', out)) : Accounted config vn stats vn' stats' := by
  simp only [handlerSyncStart] at h
  split at h
  · rename_i hacc
    split at h
    · -- refused: the vnode answers `NotReady` and registers nothing
      cases h
      exact .of_syncs rfl
    · rename_i stats₁ hs
      obtain ⟨r, hr, h⟩ := Option.map_eq_some_iff.mp h
      cases h
      have hsyncs := VNode.handlerSyncStart_syncs hr
      rw [if_pos hacc] at hsyncs
      obtain ⟨hc, s, hd, hins⟩ := hsyncs
      exact .of_start hs hd hc hins
  · rename_i hacc
    obtain ⟨r, hr, h⟩ := Option.map_eq_some_iff.mp h
    cases h
    have hsyncs := VNode.handlerSyncStart_syncs hr
    rw [if_neg hacc] at hsyncs
    rw [hsyncs]
    exact .of_syncs rfl

theorem handlerSyncFin_accounted {src : NodeId} {cookie : Cookie}
    {result : Except FabricError BitmappedVersionVector} {promoted : Bool}
    (h : handlerSyncFin self vn stats src cookie result promoted = some (vn', stats', out)) :
    Accounted config vn stats vn' stats' := by
  simp only [handlerSyncFin, Option.bind_eq_bind] at h
  obtain ⟨r, hr, h⟩ := Option.bind_eq_some_iff.mp h
  have hsyncs := VNode.handlerSyncFin_syncs hr
  -- the session the fin ends gives its slot back
  cases hf : vn.finEnds self cookie result with
  | none =>
    rw [hf] at h hsyncs
    cases h
    exact .of_syncs hsyncs
  | some s =>
    rw [hf] at h hsyncs
    obtain ⟨st, hst, h⟩ := Option.bind_eq_some_iff.mp h
    cases h
    exact .of_ends (k := fun d => if s.direction = d then 1 else 0) (count_signalSyncEnd hst)
      (VNode.syncCount_of_erase (VNode.finEnds_get? hf) hsyncs)

theorem handlerFabricMsg_accounted {zombieFresh promoted : Bool} {m : Msg}
    (h : handlerFabricMsg config limit window self vn stats zombieFresh promoted m =
      some (vn', stats', out)) : Accounted config vn stats vn' stats' := by
  cases m with
  | remoteSet _ _ writes =>
    obtain ⟨vn₁, h₁, h⟩ := Option.map_eq_some_iff.mp h
    cases h
    exact .of_syncs (VNode.handlerSetRemote_syncs h₁)
  | syncStart => exact handlerSyncStart_accounted h
  | syncSend =>
    obtain ⟨r, hr, h⟩ := Option.map_eq_some_iff.mp h
    cases h
    exact .of_syncCount (VNode.handlerSyncSend_syncCount hr)
  | syncAck =>
    obtain ⟨r, hr, h⟩ := Option.map_eq_some_iff.mp h
    cases h
    exact .of_syncCount (VNode.handlerSyncAck_syncCount hr)
  | syncFin => exact handlerSyncFin_accounted h

theorem doStartSync_accounted {peer : NodeId} {cookie : Cookie}
    (h : doStartSync config limit window self vn stats peer cookie = some (vn', stats', out)) :
    Accounted config vn stats vn' stats' := by
  unfold doStartSync at h
  split at h
  · split at h
    · cases h
      exact .of_syncs rfl
    · rename_i stats₁ hs
      obtain ⟨r, hr, h⟩ := Option.map_eq_some_iff.mp h
      cases h
      obtain ⟨hc, s, hd, hins⟩ := VNode.doStartSync_syncs hr
      exact .of_start hs hd hc hins
  · cases h

theorem startBootstrap_accounted {peer : Option NodeId} {cookie : Cookie} {promoted : Bool}
    (h : startBootstrap config self vn stats peer cookie promoted = some (vn', stats', out)) :
    Accounted config vn stats vn' stats' := by
  cases peer with
  | none =>
    simp only [startBootstrap] at h
    obtain ⟨r, hr, h⟩ := Option.map_eq_some_iff.mp h
    cases h
    exact .of_syncs (VNode.startBootstrap_none_syncs hr)
  | some p =>
    simp only [startBootstrap] at h
    split at h
    · split at h
      · -- refused: the bootstrap stays pending
        cases h
        exact .of_syncs rfl
      · rename_i stats₁ hs
        obtain ⟨r, hr, h⟩ := Option.map_eq_some_iff.mp h
        cases h
        obtain ⟨hc, s, hd, hins⟩ := VNode.startBootstrap_some_syncs hr
        exact .of_start hs hd hc hins
    · cases h

theorem syncTimeout_accounted {cookie : Cookie}
    (h : syncTimeout vn stats cookie = some (vn', stats', out)) :
    Accounted config vn stats vn' stats' := by
  simp only [syncTimeout, Option.bind_eq_bind, Option.bind_eq_some_iff, Option.pure_def,
    Option.some.injEq, Prod.mk.injEq] at h
  obtain ⟨s, hs, vn₁, h₁, st, hst, rfl, rfl, -⟩ := h
  exact .of_ends (k := fun d => if s.direction = d then 1 else 0) (count_signalSyncEnd hst)
    (VNode.syncCount_of_erase hs (VNode.syncTimeout_syncs h₁))

theorem handlerDhtChange_accounted {final : VNodeStatus} {rnd : ℕ}
    (h : handlerDhtChange self vn stats final rnd = some (vn', stats', out)) :
    Accounted config vn stats vn' stats' := by
  simp only [handlerDhtChange, Option.bind_eq_bind, Option.bind_eq_some_iff, Option.pure_def,
    Option.some.injEq, Prod.mk.injEq] at h
  obtain ⟨r, hr, st, hst, rfl, rfl, -⟩ := h
  exact .of_ends (count_signalSyncEnds hst) (VNode.handlerDhtChange_syncCount hr)

theorem flush_accounted {ws : List (Bytes × WriteCmd)}
    (h : flush vn stats ws = some (vn', stats', out)) : Accounted config vn stats vn' stats' := by
  unfold flush at h
  split at h
  · cases h
  · cases h
    exact .of_syncs rfl

end Handlers

end Database

/-! ## The counters over whole runs -/

namespace Database

variable {config : SyncConfig} {limit window : ℕ} {self : NodeId} {db db' : Database}

theorem update_spec {n : ℕ} {f : VNode → Stats → Option (VNode × Stats × List Msg)}
    (h : db.update n f = some db') :
    ∃ vn r, db.vnodes[n]? = some vn ∧ f vn db.stats = some r ∧
      db' = ⟨db.vnodes.set n r.1, r.2.1⟩ := by
  simp only [update, Option.bind_eq_bind, Option.bind_eq_some_iff, Option.pure_def,
    Option.some.injEq] at h
  obtain ⟨vn, hvn, r, hr, rfl⟩ := h
  exact ⟨vn, r, hvn, hr, rfl⟩

/-- Every event runs one handler on one vnode, and that handler keeps the
books. -/
theorem step_accounted {e : Event} (h : db.step config limit window self e = some db') :
    ∃ n vn vn', db.vnodes[n]? = some vn ∧ db'.vnodes = db.vnodes.set n vn' ∧
      Accounted config vn db.stats vn' db'.stats := by
  have hupd : ∀ {n : ℕ} {f : VNode → Stats → Option (VNode × Stats × List Msg)},
      db.update n f = some db' →
      (∀ vn r, f vn db.stats = some r → Accounted config vn db.stats r.1 r.2.1) →
      ∃ n vn vn', db.vnodes[n]? = some vn ∧
        db'.vnodes = db.vnodes.set n vn' ∧ Accounted config vn db.stats vn' db'.stats := by
    intro n f hu hf
    obtain ⟨vn, r, hvn, hr, rfl⟩ := update_spec hu
    exact ⟨n, vn, r.1, hvn, rfl, hf vn r hr⟩
  cases e <;> rw [step] at h
  case fabric => exact hupd h fun _ _ hr => handlerFabricMsg_accounted hr
  case flush => exact hupd h fun _ _ hr => flush_accounted hr
  case startSync => exact hupd h fun _ _ hr => doStartSync_accounted hr
  case startBootstrap => exact hupd h fun _ _ hr => startBootstrap_accounted hr
  case syncTick =>
    refine hupd h fun vn r hr => ?_
    obtain ⟨r₁, h₁, rfl⟩ := Option.map_eq_some_iff.mp hr
    exact .of_syncCount (VNode.syncTick_syncCount h₁)
  case syncTimeout => exact hupd h fun _ _ hr => syncTimeout_accounted hr
  case dhtChange => exact hupd h fun _ _ hr => handlerDhtChange_accounted hr
  case zombieTimeout =>
    refine hupd h fun vn r hr => ?_
    obtain ⟨vn₁, h₁, rfl⟩ := Option.map_eq_some_iff.mp hr
    exact .of_syncs (VNode.zombieTimeout_syncs h₁)

/-- Replacing one entry of a list moves its sum by the difference. -/
private theorem sum_map_set {f : VNode → ℕ} {b : VNode} :
    ∀ {l : List VNode} {n : ℕ} {a : VNode}, l[n]? = some a →
      ((l.set n b).map f).sum + f a = (l.map f).sum + f b
  | [], _, _, h => by simp at h
  | x :: l, 0, a, h => by
    simp only [List.getElem?_cons_zero, Option.some.injEq] at h
    subst h
    simp only [List.set_cons_zero, List.map_cons, List.sum_cons]
    omega
  | x :: l, n + 1, a, h => by
    simp only [List.getElem?_cons_succ] at h
    have ih := sum_map_set (f := f) (b := b) h
    simp only [List.set_cons_succ, List.map_cons, List.sum_cons]
    omega

/-- The counters count the registered sessions, and stay within their limits. -/
structure SyncsCounted (config : SyncConfig) (db : Database) : Prop where
  count_eq : ∀ d, db.stats.count d = (db.vnodes.map (·.syncCount d)).sum
  le_max : ∀ d, db.stats.count d ≤ config.max d

theorem syncsCounted_initial (h : Initial db) : SyncsCounted config db := by
  obtain ⟨hstats, hvn⟩ := h
  refine ⟨fun d => ?_, fun d => ?_⟩
  · have hzero : ∀ x ∈ db.vnodes.map (·.syncCount d), x = 0 := by
      intro x hx
      obtain ⟨vn, hmem, rfl⟩ := List.mem_map.mp hx
      rw [VNode.syncCount, hvn vn hmem, VecMap.countValues_empty]
    rw [List.sum_eq_zero hzero, hstats]
    cases d <;> rfl
  · rw [hstats]
    cases d <;> exact Nat.zero_le _

theorem SyncsCounted.step (hinv : SyncsCounted config db) {e : Event}
    (h : db.step config limit window self e = some db') : SyncsCounted config db' := by
  obtain ⟨n, vn, vn', hvn, hvs, hacc⟩ := step_accounted h
  refine ⟨fun d => ?_, fun d => ?_⟩
  · have hsum := sum_map_set (f := (·.syncCount d)) (b := vn') hvn
    have hbal := hacc.balance d
    have hcount := hinv.count_eq d
    rw [hvs]
    omega
  · rcases hacc.bounded d with hle | hle
    · exact hle.trans (hinv.le_max d)
    · exact hle

theorem syncsCounted_of_reachable (h : Reachable config limit window self db) :
    SyncsCounted config db :=
  Sucredb.Reachable.induct (fun _ hs => syncsCounted_initial hs)
    (fun _ _ _ _ hinv hs => hinv.step hs) h

/-- In every reachable database the counters equal the registered sessions
of their direction over all vnodes, stay within their limits, and
`signal_sync_end` finds a slot to give back for every registered session. -/
theorem stats_count_registered (h : Reachable config limit window self db) :
    db.stats.incommingSyncs = (db.vnodes.map (·.syncCount .incomming)).sum ∧
    db.stats.outgoingSyncs = (db.vnodes.map (·.syncCount .outgoing)).sum ∧
    db.stats.incommingSyncs ≤ config.syncIncommingMax ∧
    db.stats.outgoingSyncs ≤ config.syncOutgoingMax ∧
    ∀ vn ∈ db.vnodes, ∀ cookie s, vn.syncs.get? cookie = some s →
      ∃ stats', signalSyncEnd db.stats s.direction = some stats' := by
  have hinv := syncsCounted_of_reachable h
  refine ⟨hinv.count_eq .incomming, hinv.count_eq .outgoing, hinv.le_max .incomming,
    hinv.le_max .outgoing, fun vn hvn cookie s hs => signalSyncEnd_isSome ?_⟩
  -- the session counts in its vnode, and the vnode in the sum
  have hpos : 0 < vn.syncCount s.direction :=
    VecMap.countValues_pos hs (beq_self_eq_true s.direction)
  have hle : vn.syncCount s.direction ≤ (db.vnodes.map (·.syncCount s.direction)).sum :=
    List.le_sum_of_mem (List.mem_map_of_mem hvn)
  rw [hinv.count_eq s.direction]
  omega

/-- A node with one `Ready` vnode starts a sync from node 2: the incoming
counter holds the one receiver registered. -/
theorem stats_count_after_start_sync :
    ∃ db, run (step ⟨10, 10⟩ 1000 4 1)
        ⟨[⟨VNodeState.newEmpty 0 .ready .empty 1 0, VecMap.empty⟩], ⟨0, 0⟩⟩
        [.startSync 0 2 7] = some db ∧ db.stats.incommingSyncs = 1 ∧
      (db.stats.incommingSyncs = (db.vnodes.map (·.syncCount .incomming)).sum ∧
        db.stats.outgoingSyncs = (db.vnodes.map (·.syncCount .outgoing)).sum ∧
        db.stats.incommingSyncs ≤ 10 ∧ db.stats.outgoingSyncs ≤ 10 ∧
        ∀ vn ∈ db.vnodes, ∀ cookie s, vn.syncs.get? cookie = some s →
          ∃ stats', signalSyncEnd db.stats s.direction = some stats') := by
  obtain ⟨db, hr⟩ : ∃ db, run (step ⟨10, 10⟩ 1000 4 1)
      ⟨[⟨VNodeState.newEmpty 0 .ready .empty 1 0, VecMap.empty⟩], ⟨0, 0⟩⟩
      [.startSync 0 2 7] = some db := ⟨_, rfl⟩
  have hinit : Initial ⟨[⟨VNodeState.newEmpty 0 .ready .empty 1 0, VecMap.empty⟩], ⟨0, 0⟩⟩ :=
    ⟨rfl, by simp⟩
  refine ⟨db, hr, ?_, stats_count_registered (reachable_of_run hinit hr)⟩
  cases hr
  rfl

end Database

end Sucredb
