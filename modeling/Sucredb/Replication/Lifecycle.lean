/-
Sucredb.Replication.Lifecycle — what leaving a partition and restarting do to
a vnode's clocks.

The comment on `VNodeState` states two invariants: `log_clocks` is a subset of
`clocks`, and every dot of `log_clocks` has an entry in the dot-key log
(`LogClocksTrusted`). `set_status(Absent)` runs `clear`, which empties the
clock and the storage but not `log_clocks`: from any state whose `log_clocks`
holds a dot, going `Absent` breaks both (`setStatus_absent_untrusted`).

The same comment says the id is regenerated so that a vnode never reuses a dot
after a round of `Absent` and bootstrap. `Absent` keeps the id, and a clean
`load` keeps it too, with the clock `Absent` emptied: the first write after
such a reload draws version `1` of the old id again
(`absent_clean_reload_event`).

After an unclean shutdown `load` runs `recover_dots`, which scans the dot log
only for the ids of the saved clock: a dot of an id the saved clock lacks,
such as the vnode's own id when its first write came after the last save, is
in the log and not in the clock, and `log_clocks` stays as saved
(`load_misses_unsaved_id`). `load` also asserts that only `Ready` loads a
saved record, while every vnode is saved when created, so a vnode created as
`Bootstrap` and restarted before its bootstrap ends panics
(`VNode.restart_bootstrap_panics`).
-/
import Sucredb.Replication.Partition
import Sucredb.VersionVector.BitmappedTheorems

namespace Sucredb

namespace VNodeState

/-- The invariant the comment on `VNodeState` states: every dot of
`log_clocks` is in `clocks` and has a dot-log entry. -/
def LogClocksTrusted (s : VNodeState) : Prop :=
  ∀ i v, s.logClocks.contains i v = true →
    s.clocks.contains i v = true ∧ (s.storage.logGet (i, v)).isSome = true

variable {s s₁ s₂ : VNodeState} {rnd : ℕ}

/-- `set_status(Absent)` from another status: `clear`, then the status change
and the save. -/
theorem setStatus_absent (hne : s.status ≠ .absent) (h : s.setStatus .absent rnd = some s₁) :
    s₁ = { s.clear with pendingBootstrap := false, status := .absent }.save false := by
  unfold setStatus at h
  rw [if_neg (Ne.symm hne)] at h
  by_cases hs : s.syncNodes = ∅
  · simp only [hs, if_true] at h
    exact (Option.some.inj h).symm
  · simp [hs] at h

theorem setStatus_absent_clocks (hne : s.status ≠ .absent)
    (h : s.setStatus .absent rnd = some s₁) : s₁.clocks = .new := by
  rw [setStatus_absent hne h]
  rfl

theorem setStatus_absent_logClocks (hne : s.status ≠ .absent)
    (h : s.setStatus .absent rnd = some s₁) : s₁.logClocks = s.logClocks := by
  rw [setStatus_absent hne h]
  rfl

theorem setStatus_absent_id (hne : s.status ≠ .absent)
    (h : s.setStatus .absent rnd = some s₁) : s₁.id = s.id := by
  rw [setStatus_absent hne h]
  rfl

/-- Going `Absent` with a dot in `log_clocks` leaves that dot in `log_clocks`
and none in `clocks`. -/
theorem setStatus_absent_untrusted {i : NodeId} {v : Version} (hne : s.status ≠ .absent)
    (hv : s.logClocks.contains i v = true) (h : s.setStatus .absent rnd = some s₁) :
    ¬ s₁.LogClocksTrusted := by
  intro htrust
  have hlog : s₁.logClocks.contains i v = true := by
    rw [setStatus_absent_logClocks hne h]
    exact hv
  have hclocks : s₁.clocks.contains i v = false := by
    rw [setStatus_absent_clocks hne h]
    rfl
  have := (htrust i v hlog).1
  rw [hclocks] at this
  exact Bool.false_ne_true this

/-- A fresh partition: node 1 stores a SET, the ring moves the vnode away
(`Zombie`), and the zombie timeout makes it `Absent`. -/
theorem log_clocks_untrusted_after_absent :
    ∃ p, run (Partition.step 1000 10) (Partition.initial 0 (fun _ => .ready) fun n => n)
        [.flush 1 [([107], .set [118] .new)] [], .dhtChange 1 .absent 0,
          .zombieTimeout 1] = some p ∧
      ¬ (p.nodes 1).state.LogClocksTrusted := by
  refine ⟨_, rfl, fun h => ?_⟩
  have := (h 1 1 (by decide)).1
  revert this
  decide

/-- After `Absent` and a clean shutdown, `load` as `Ready` gives back the old id
with an empty clock, so the next write draws version `1` of that id. -/
theorem absent_clean_reload_event {node rnd' : ℕ} (hne : s.status ≠ .absent)
    (h₁ : s.setStatus .absent rnd = some s₁)
    (h₂ : load s₁.num .ready (s₁.save true).saved s₁.storage node rnd' = some s₂) :
    s₂.id = s.id ∧ (s₂.clocks.event s₂.id).1 = 1 := by
  have hid := setStatus_absent_id hne h₁
  have hclocks := setStatus_absent_clocks hne h₁
  -- the saved record is the cleared state, marked clean
  simp only [load, save, if_true, reduceCtorEq, ne_eq, not_true_eq_false, if_false,
    Option.some.injEq] at h₂
  subst h₂
  refine ⟨hid, ?_⟩
  apply BitmappedVersionVector.event_fst_of_get?_eq_none
  rw [hclocks]
  rfl

/-! ## Recovery after an unclean shutdown -/

/-- `recover_dots` scans the log only for the ids the saved clock has: an id
it lacks keeps no entry. -/
theorem recoverDots_get?_of_get?_eq_none {i : NodeId} (hi : s.clocks.get? i = none) :
    s.recoverDots.clocks.get? i = none := by
  simp only [recoverDots, BitmappedVersionVector.get?, VecMap.get?_mapValues, Option.map_eq_none_iff]
  exact hi

/-- `load` after an unclean shutdown recovers no dot of a node id that the
saved clock lacks, though the dot log has it, and keeps `log_clocks` as saved. -/
theorem load_misses_unsaved_id {num node : ℕ} {sv : SavedVNodeState} {storage : Storage}
    {i : NodeId} {v : Version} {key : Bytes} (hclean : sv.cleanShutdown = false)
    (hi : sv.clocks.get? i = none) (hlog : storage.logGet (i, v) = some key) :
    ∃ st, load num .ready (some sv) storage node rnd = some st ∧
      st.storage.logGet (i, v) = some key ∧ st.clocks.contains i v = false ∧
      st.logClocks = sv.logClocks := by
  simp only [load, reduceCtorEq, if_false, ne_eq, not_true_eq_false, hclean,
    Bool.false_eq_true]
  refine ⟨_, rfl, hlog, ?_, rfl⟩
  rw [BitmappedVersionVector.contains_eq, recoverDots_get?_of_get?_eq_none hi]
  rfl

end VNodeState

/-- Node 1's vnode was saved when it was created, with an empty clock; its
first write, the dot `(id, 1)`, reaches the dot log after that save. -/
theorem first_write_after_save_not_recovered :
    ∃ p, run (Partition.step 1000 10) (Partition.initial 0 (fun _ => .ready) fun n => n)
        [.flush 1 [([107], .set [118] .new)] []] = some p ∧
      ∃ sv, (p.nodes 1).state.saved = some sv ∧ sv.cleanShutdown = false ∧
        sv.clocks.get? (p.nodes 1).state.id = none ∧
        (p.nodes 1).state.storage.logGet ((p.nodes 1).state.id, 1) = some [107] ∧
        ∃ st, VNodeState.load 0 .ready (some sv) (p.nodes 1).state.storage 1 5 = some st ∧
          st.storage.logGet ((p.nodes 1).state.id, 1) = some [107] ∧
          st.clocks.contains (p.nodes 1).state.id 1 = false ∧ st.logClocks = sv.logClocks :=
  ⟨_, rfl, _, rfl, rfl, rfl, rfl, VNodeState.load_misses_unsaved_id rfl rfl rfl⟩

/-- `VNode::new` as `Bootstrap` on a node that has a saved record of the vnode:
`load` reaches its `assert_eq!(status, Ready)`. -/
theorem VNode.restart_bootstrap_panics {self : NodeId} {st : VNodeState} {sv : SavedVNodeState}
    (hs : st.saved = some sv) (rnd : ℕ) : VNode.restart self st .bootstrap rnd = none := by
  simp [VNode.restart, VNodeState.load, hs]

/-- Node 1 is pending for the vnode when the node first starts, so its vnode is
created as `Bootstrap` and saved; the node restarts before the bootstrap ends. -/
theorem pending_vnode_restart_panics :
    ∃ sv, ((Partition.initial 0 (fun _ => .bootstrap) fun n => n).nodes 1).state.saved = some sv ∧
      VNode.restart 1 ((Partition.initial 0 (fun _ => .bootstrap) fun n => n).nodes 1).state
        .bootstrap 5 = none ∧
      run (Partition.step 1000 10) (Partition.initial 0 (fun _ => .bootstrap) fun n => n)
        [.restart 1 false .bootstrap 5] = none :=
  ⟨_, rfl, VNode.restart_bootstrap_panics rfl 5, rfl⟩

/-- Node 1 stores a SET under dot `(1, 1)`, goes `Zombie` and `Absent`, shuts
down cleanly and loads the vnode as `Ready` again: its next SET gets the dot
`(1, 1)` too. -/
theorem dot_reused_after_absent_reload :
    (run (Partition.step 1000 10) (Partition.initial 0 (fun _ => .ready) fun n => n)
      [.flush 1 [([107], .set [118] .new)] [], .dhtChange 1 .absent 0, .zombieTimeout 1,
        .restart 1 true .ready 5, .flush 1 [([108], .set [119] .new)] []]).map
      (·.writes) = some [((1, 1), [107]), ((1, 1), [108])] := by
  decide

end Sucredb
