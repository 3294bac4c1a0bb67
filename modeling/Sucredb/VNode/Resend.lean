/-
Sucredb.VNode.Resend — the resend loop at the head of
`Synchronization::send_next`, for a `SyncSender` and a `BootstrapSender`
alike:

    let timeout = now + Duration::from_millis(db.config.sync_msg_timeout as _);
    while let Some((seq, msg)) = inflight.touch_expired(now, timeout) {
        let _ = stry!(db.fabric.send_msg(peer, msg,));
    }

`touch_expired` hands back a due message and moves its deadline to `timeout`.
The loop ends because each message it resends lowers the number of entries
due at `now` (`touchExpired_due_lt`), as long as `timeout` is later than
`now`. Nothing checks that. A configuration with `sync_msg_timeout: "0ms"` is
read as 0, and `timeout` is then `now`. A message touched then is still due,
so `touch_expired` hands it back again, for as long as the fabric takes the
sends (`resendLoop_eq_none_of_due`).

`Instant`s are counted in nanoseconds, and `Instant + Duration` cannot
overflow here. The fabric's answer to each send is a parameter.
-/
import Sucredb.InFlightMapTheorems
import Sucredb.Config

namespace Sucredb

/-- `std::time::Instant`, in nanoseconds. -/
abbrev Instant := ℕ

/-- `Duration::from_millis`, in nanoseconds. -/
def fromMillis (ms : ℕ) : ℕ := ms * 1000000

namespace Synchronization

open MinHeap (PrioLe)

variable {K V T : Type*} [DecidableEq K] [LinearOrder T]

/-- The resend loop of `send_next`. `send` says whether the fabric took the
message; a refused one ends `send_next` with `SyncResult::Error` (`stry!`).
The result is the messages sent again, whether a send was refused, and the
in-flight map; `none` when `fuel` rounds did not end the loop. -/
def resendLoop (send : K → V → Bool) (now timeout : T) :
    ℕ → InFlightMap K V T → Option (List (K × V) × Bool × InFlightMap K V T)
  | 0, _ => none
  | fuel + 1, m =>
    match m.touchExpired now timeout with
    | (none, m') => some ([], false, m')
    | (some (k, v), m') =>
      if send k v then (resendLoop send now timeout fuel m').map fun r => ((k, v) :: r.1, r.2)
      else some ([(k, v)], true, m')

/-- The heap entries due at `now`, stale or not: what the loop can still hand
back. -/
def dueEntries (now : T) (m : InFlightMap K V T) : ℕ := m.heap.entries.countP (·.1 ≤ now)

omit [DecidableEq K] in
theorem dueEntries_le_size (now : T) (m : InFlightMap K V T) : dueEntries now m ≤ m.heap.size :=
  List.countP_le_length

/-- A round of `touch_expired` that hands back a message leaves fewer entries
due, when the new deadline is later than `now`: the stale entries it pops and
the entry it touches are no longer due. -/
theorem touchLoop_due_lt {now expire : T} (hlt : now < expire) (map : VecMap K V) :
    ∀ (l : List (T × K)) (hl : l.Pairwise PrioLe) {kv : K × V},
      (InFlightMap.touchLoop now expire map l hl).1 = some kv →
      (InFlightMap.touchLoop now expire map l hl).2.entries.countP (·.1 ≤ now) <
        l.countP (·.1 ≤ now)
  | [], _, _, h => by simp [InFlightMap.touchLoop] at h
  | (e, k) :: rest, hl, kv, h => by
    by_cases hdue : e ≤ now
    · have hcount : ((e, k) :: rest).countP (·.1 ≤ now) = rest.countP (·.1 ≤ now) + 1 :=
        List.countP_cons_of_pos (by simpa using hdue)
      rw [hcount]
      cases hk : map.get? k with
      | none =>
        simp only [InFlightMap.touchLoop, if_pos hdue, hk] at h ⊢
        have hrest := touchLoop_due_lt hlt map rest hl.of_cons h
        omega
      | some v =>
        have hnot : ¬ expire ≤ now := not_le.mpr hlt
        simp only [InFlightMap.touchLoop, if_pos hdue, hk, MinHeap.replaceTop,
          MinHeap.countP_push, decide_eq_true_eq, hnot, if_false]
        exact Nat.lt_succ_self _
    · simp [InFlightMap.touchLoop, if_neg hdue] at h

theorem touchExpired_due_lt {now expire : T} (hlt : now < expire) {m m' : InFlightMap K V T}
    {kv : K × V} (hr : m.touchExpired now expire = (some kv, m')) :
    dueEntries now m' < dueEntries now m := by
  have h₁ : (InFlightMap.touchLoop now expire m.map m.heap.entries m.heap.sorted).1 = some kv :=
    congrArg Prod.fst hr
  have h₂ : m'.heap = (InFlightMap.touchLoop now expire m.map m.heap.entries m.heap.sorted).2 :=
    (congrArg (fun r => r.2.heap) hr).symm
  unfold dueEntries
  rw [h₂]
  exact touchLoop_due_lt hlt m.map m.heap.entries m.heap.sorted h₁

/-- With `timeout` later than `now`, the loop ends within one round more than
the entries due at `now`, and resends at most that many messages. -/
theorem resendLoop_ends (send : K → V → Bool) {now timeout : T} (hlt : now < timeout) :
    ∀ (fuel : ℕ) (m : InFlightMap K V T), dueEntries now m < fuel →
      ∃ sent failed m', resendLoop send now timeout fuel m = some (sent, failed, m') ∧
        sent.length ≤ dueEntries now m
  | 0, _, h => absurd h (Nat.not_lt_zero _)
  | fuel + 1, m, h => by
    rcases hr : m.touchExpired now timeout with ⟨_ | ⟨k, v⟩, m'⟩
    · exact ⟨[], false, m', by simp [resendLoop, hr], Nat.zero_le _⟩
    · have hlow := touchExpired_due_lt hlt hr
      by_cases hsend : send k v
      · -- sent: the rest of the loop starts with fewer entries due
        obtain ⟨sent, failed, m'', hrun, hlen⟩ := resendLoop_ends send hlt fuel m' (by omega)
        refine ⟨(k, v) :: sent, failed, m'', by simp [resendLoop, hr, hsend, hrun], ?_⟩
        simp only [List.length_cons]
        omega
      · exact ⟨[(k, v)], true, m', by simp [resendLoop, hr, hsend], by simp; omega⟩

section Abstracts

open InFlightMap (Abstracts)

/-- With `timeout` later than `now`, every message the loop resends was live
and due, and none comes twice: once touched, a message is no longer due. -/
theorem resendLoop_sent (send : K → V → Bool) {now timeout : T} (hlt : now < timeout) :
    ∀ (fuel : ℕ) {m : InFlightMap K V T} {a : TimedMap K V T} {used : List K},
      Abstracts m a used → ∀ {sent : List (K × V)} {failed : Bool} {m' : InFlightMap K V T},
      resendLoop send now timeout fuel m = some (sent, failed, m') →
      (sent.map Prod.fst).Nodup ∧ ∀ kv ∈ sent, ∃ d, a.get? kv.1 = some (kv.2, d) ∧ d ≤ now
  | 0, _, _, _, _, _, _, _, h => by cases h
  | fuel + 1, m, a, used, habs, sent, failed, m', h => by
    have hans := habs.touchExpired_answers now timeout
    rcases hr : m.touchExpired now timeout with ⟨_ | ⟨k, v⟩, m₁⟩ <;> rw [hr] at hans
    · -- nothing due: nothing sent
      simp only [resendLoop, hr, Option.some.injEq, Prod.mk.injEq] at h
      obtain ⟨rfl, -, -⟩ := h
      simp
    · obtain ⟨d, hnext, h₁⟩ := hans
      have hfirst : ∃ d, a.get? k = some (v, d) ∧ d ≤ now := ⟨d, hnext.1, hnext.2.1⟩
      by_cases hsend : send k v
      · simp only [resendLoop, hr, hsend, if_true] at h
        obtain ⟨⟨rest, failed', m''⟩, hrun, hsent⟩ := Option.map_eq_some_iff.mp h
        simp only [Prod.mk.injEq] at hsent
        obtain ⟨rfl, -, -⟩ := hsent
        obtain ⟨hnd, hdue⟩ := resendLoop_sent send hlt fuel h₁ hrun
        -- the rest was due after the touch, which made `k` due only at `timeout`
        have hne : ∀ kv ∈ rest, kv.1 ≠ k := by
          rintro kv hkv rfl
          obtain ⟨d', hget, hd'⟩ := hdue kv hkv
          simp only [VecMap.get?_insert, if_pos, Option.some.injEq, Prod.mk.injEq] at hget
          exact absurd (hget.2 ▸ hd') (not_le.mpr hlt)
        refine ⟨List.nodup_cons.mpr ⟨fun hk => ?_, hnd⟩, fun kv hkv => ?_⟩
        · obtain ⟨kv, hkv, hkk⟩ := List.mem_map.mp hk
          exact hne kv hkv hkk
        · rcases List.mem_cons.mp hkv with rfl | hkv
          · exact hfirst
          · obtain ⟨d', hget, hd'⟩ := hdue kv hkv
            rw [VecMap.get?_insert, if_neg (hne kv hkv)] at hget
            exact ⟨d', hget, hd'⟩
      · simp only [resendLoop, hr, hsend, Bool.false_eq_true, if_false, Option.some.injEq,
          Prod.mk.injEq] at h
        obtain ⟨rfl, -, -⟩ := h
        simpa using hfirst

/-- With `timeout` equal to `now` and a fabric that takes every message, the
loop never ends once a live message is due: the message it touches is due
again at `now`. -/
theorem resendLoop_eq_none_of_due {now : T} :
    ∀ (fuel : ℕ) {m : InFlightMap K V T} {a : TimedMap K V T} {used : List K},
      Abstracts m a used → (∃ k v d, a.get? k = some (v, d) ∧ d ≤ now) →
      resendLoop (fun _ _ => true) now now fuel m = none
  | 0, _, _, _, _, _ => rfl
  | fuel + 1, m, a, used, habs, ⟨k, v, d, ha, hd⟩ => by
    have hans := habs.touchExpired_answers now now
    rcases hr : m.touchExpired now now with ⟨_ | ⟨k', v'⟩, m'⟩ <;> rw [hr] at hans
    · exact absurd (hans.1 k v d ha) (not_lt.mpr hd)
    · obtain ⟨-, -, h'⟩ := hans
      have hdue : ∃ k v d, (a.insert k' (v', now)).get? k = some (v, d) ∧ d ≤ now :=
        ⟨k', v', now, by simp, le_rfl⟩
      simp only [resendLoop, hr, if_true, resendLoop_eq_none_of_due fuel h' hdue, Option.map_none]

end Abstracts

end Synchronization

open Synchronization InFlightMap Config in
/-- The resend loop of `send_next`, on the in-flight map of any sync or
bootstrap sender (one that never inserts a sequence number twice), at any
`now`. For every positive `sync_msg_timeout` that `read_config_file` admits,
and whatever the fabric answers, the loop ends within one round more than the
heap has entries. Each message it resends was in flight and due, and none is
resent twice. Yet the configuration admits `"0ms"` as 0, and with that
timeout a message in flight and due is handed back forever while the fabric
takes the sends. -/
theorem resend_loop_spins_on_zero_timeout {K V : Type*} [DecidableEq K]
    (ops : List (Op K V Instant)) (hfresh : (insertedKeys ops).Nodup) {m : InFlightMap K V Instant}
    (hm : Sucredb.run InFlightMap.step InFlightMap.new ops = some m) (now : Instant) :
    (∀ text t, readDurationField text = some t → 0 < t → ∀ send : K → V → Bool,
      ∃ sent failed m', resendLoop send now (now + fromMillis t) (m.heap.size + 1) m =
          some (sent, failed, m') ∧
        sent.length ≤ m.heap.size ∧ (sent.map Prod.fst).Nodup ∧
        ∀ kv ∈ sent, m.map.get? kv.1 = some kv.2 ∧ ∃ e ≤ now, (e, kv.1) ∈ m.heap.entries) ∧
    readDurationField ['0', 'm', 's'] = some 0 ∧
    ∀ k v e, m.map.get? k = some v → (e, k) ∈ m.heap.entries → e ≤ now →
      ∀ fuel, resendLoop (fun _ _ => true) now (now + fromMillis 0) fuel m = none := by
  obtain ⟨m₀, a, hrun, -, habs⟩ :=
    (abstracts_new (K := K) (V := V) (T := Instant) []).runs hfresh
      fun _ _ h => absurd h List.not_mem_nil
  rw [hm, Option.some.injEq] at hrun
  subst hrun
  refine ⟨?_, by decide, ?_⟩
  · -- a positive timeout: the loop ends, and resends each due message once
    intro text t _ ht send
    have hlt : now < now + fromMillis t := Nat.lt_add_of_pos_right (Nat.mul_pos ht (by norm_num))
    obtain ⟨sent, failed, m', hloop, hlen⟩ :=
      resendLoop_ends send hlt (m.heap.size + 1) m (Nat.lt_succ_of_le (dueEntries_le_size now m))
    obtain ⟨hnd, hdue⟩ := resendLoop_sent send hlt _ habs hloop
    refine ⟨sent, failed, m', hloop, hlen.trans (dueEntries_le_size now m), hnd, ?_⟩
    intro kv hkv
    obtain ⟨d, ha, hd⟩ := hdue kv hkv
    exact ⟨habs.get?_map ha, d, hd, habs.mem_heap ha⟩
  · -- a zero timeout: the loop spins
    intro k v e hk he hdue fuel
    obtain ⟨d, ha⟩ := habs.exists_of_map hk
    have hed : e = d := habs.deadline_eq ha he
    subst hed
    exact resendLoop_eq_none_of_due fuel habs ⟨k, v, e, ha, hdue⟩

open Synchronization InFlightMap Config in
/-- One `SyncSend` in flight, inserted at time 0 with a zero timeout and not
acknowledged: the next `send_next`, at time 5, resends it forever. -/
theorem zero_timeout_resends_forever :
    ∃ m, Sucredb.run InFlightMap.step InFlightMap.new
        ([.insert 0 () 0] : List (Op ℕ Unit Instant)) = some m ∧
      readDurationField ['0', 'm', 's'] = some 0 ∧
      ∀ fuel, resendLoop (fun _ _ => true) 5 (5 + fromMillis 0) fuel m = none := by
  refine ⟨_, rfl, ?_⟩
  have h := resend_loop_spins_on_zero_timeout ([.insert 0 () 0] : List (Op ℕ Unit Instant))
    (by decide) rfl 5
  exact ⟨h.2.1, h.2.2 0 () 0 (by decide) (by decide) (by decide)⟩

end Sucredb
