/-
Sucredb.Replication.RemoteWrite — what a replica stores for a client write,
against what the coordinator stored.

`storage_set_remote` walks the dots of each proposed cube: it logs a dot only
if it is a dot of that cube (`recordDots_batch`), and it keeps the write
unless no dot was new to `log_clocks` (`recordDots_snd_of_new`), since `add`
calls a positive version old only when the clock has it. A kept write stores
`old.merge(proposed)`, where `old` is the cube the replica held
(`remoteWrite_batch`, `storageSetRemote_single`).

The coordinator stores the proposed cube itself (`doFlush_single`). The two
agree when the merge gives back the proposed cube, and an SREM shows that it
does not: `CausalMap::merge` keeps a key that only the old cube has, so a
replica that held the member stores the set with it, while the coordinator's
set has lost it (`srem_member_survives_on_replica`).
-/
import Sucredb.Replication.Partition
import Sucredb.VNode.FlushTheorems
import Sucredb.VersionVector.BitmappedTheorems

namespace Sucredb

namespace VNodeState

/-! ## The loop over the dots of a proposed cube -/

/-- The flag of `for_each_dot` stays `false` once a dot was new. -/
theorem recordDots_snd_false (key : Bytes) :
    ∀ (ds : List Dot) (a : RemoteAcc), (recordDots key (a, false) ds).2 = false
  | [], _ => rfl
  | (i, v) :: ds, a => by
    simp only [recordDots]
    split
    · exact recordDots_snd_false key ds _
    · exact recordDots_snd_false key ds _

/-- A write is kept when a positive dot of its cube is new to `log_clocks`. -/
theorem recordDots_snd_of_new (key : Bytes) :
    ∀ (ds : List Dot) (a : RemoteAcc) (empty : Bool),
      (∃ d ∈ ds, 0 < d.2 ∧ a.logClocks.contains d.1 d.2 = false) →
        (recordDots key (a, empty) ds).2 = false
  | [], _, _, ⟨_, hd, _⟩ => absurd hd List.not_mem_nil
  | (i, v) :: ds, a, empty, ⟨d, hd, hpos, hnew⟩ => by
    simp only [recordDots]
    split
    · exact recordDots_snd_false key ds _
    · rename_i hold
      have hold : (a.logClocks.add i v).1 = false := Bool.eq_false_iff.mpr hold
      -- `(i, v)` was old, so the new dot is a later one, and still new
      rcases List.mem_cons.mp hd with rfl | hd
      · have := BitmappedVersionVector.contains_of_add_fst_eq_false hpos hold
        rw [hnew] at this
        exact absurd this Bool.false_ne_true
      · refine recordDots_snd_of_new key ds _ empty ⟨d, hd, hpos, ?_⟩
        rw [BitmappedVersionVector.contains_add_of_fst_eq_false hold d.1 hpos]
        exact hnew

/-- `for_each_dot` of `storage_set_remote` adds a log entry only for a dot of
the proposed cube, under the write's key. -/
theorem recordDots_batch (key : Bytes) :
    ∀ (ds : List Dot) (a : RemoteAcc) (empty : Bool),
      ∀ op ∈ (recordDots key (a, empty) ds).1.batch, op ∈ a.batch ∨ ∃ d ∈ ds, op = .logSet d key
  | [], _, _, op, hop => Or.inl hop
  | (i, v) :: ds, a, empty, op, hop => by
    simp only [recordDots] at hop
    split at hop
    · rcases recordDots_batch key ds _ false op hop with hop | ⟨d, hd, rfl⟩
      · rcases List.mem_append.mp hop with hop | hop
        · exact Or.inl hop
        · rw [List.mem_singleton.mp hop]
          exact Or.inr ⟨_, List.mem_cons_self .., rfl⟩
      · exact Or.inr ⟨d, List.mem_cons_of_mem _ hd, rfl⟩
    · rcases recordDots_batch key ds _ empty op hop with hop | ⟨d, hd, rfl⟩
      · exact Or.inl hop
      · exact Or.inr ⟨d, List.mem_cons_of_mem _ hd, rfl⟩

/-- What one write of `storage_set_remote` adds to the batch: log entries for
dots of the proposed cube, then the key's deletion or `old.merge(proposed)`. -/
theorem remoteWrite_batch {storage : Storage} {a a' : RemoteAcc} {w : Bytes × Cube × Bool}
    (h : remoteWrite storage a w = some a') :
    ∀ op ∈ a'.batch, op ∈ a.batch ∨ (∃ d ∈ w.2.1.dots, op = .logSet d w.1) ∨ op = .del w.1 ∨
      op = .set w.1 (((storage.get w.1).getD (Cube.new a.clocks)).merge w.2.1) := by
  obtain ⟨key, proposed, replyResult⟩ := w
  simp only [remoteWrite] at h
  split at h
  · cases h
  rename_i ds hds
  have hdots : proposed.dots = ds := by simp [Cube.dots, hds]
  rcases hr : recordDots key (a, true) ds with ⟨a₁, empty⟩
  have hrec : ∀ op ∈ a₁.batch, op ∈ a.batch ∨ ∃ d ∈ proposed.dots, op = .logSet d key := by
    intro op hop
    rw [hdots]
    have := recordDots_batch key ds a true op
    rw [hr] at this
    exact this hop
  rw [hr] at h
  intro op hop
  simp only at h
  split at h
  · cases h
    exact (hrec op hop).imp_right Or.inl
  split at h
  · cases h
    exact (hrec op hop).imp_right Or.inl
  split at h
  · cases h
  · cases h
    rcases List.mem_append.mp hop with hop | hop
    · exact (hrec op hop).imp_right Or.inl
    · rw [List.mem_singleton.mp hop]
      split
      · exact Or.inr (Or.inr (Or.inl rfl))
      · exact Or.inr (Or.inr (Or.inr rfl))

/-- A kept write whose merge holds data ends the batch with the merge. -/
theorem remoteWrite_stores {storage : Storage} {a : RemoteAcc} {key : Bytes} {proposed : Cube}
    (replyResult : Bool) {ds : List Dot} (hds : proposed.forEachDot = some ds)
    (hnew : ∃ d ∈ ds, 0 < d.2 ∧ a.logClocks.contains d.1 d.2 = false)
    (hsub : ∀ bvv, (((storage.get key).getD (Cube.new a.clocks)).merge proposed).isSubsumed bvv =
      some false) :
    ∃ a', remoteWrite storage a (key, proposed, replyResult) = some a' ∧
      ∃ b, a'.batch = b ++ [.set key (((storage.get key).getD (Cube.new a.clocks)).merge proposed)] := by
  simp only [remoteWrite, hds]
  rcases hr : recordDots key (a, true) ds with ⟨a₁, empty⟩
  have hempty : empty = false := by
    have := recordDots_snd_of_new key ds a true hnew
    rwa [hr] at this
  subst hempty
  simp only [Bool.false_and, Bool.false_eq_true, if_false, hsub]
  exact ⟨_, rfl, a₁.batch, rfl⟩

/-- One replicated write that is kept and holds data is applied, and it is what
the replica then stores under its key. -/
theorem storageSetRemote_single {s : VNodeState} (key : Bytes) (proposed : Cube) {ds : List Dot}
    (hds : proposed.forEachDot = some ds)
    (hnew : ∃ d ∈ ds, 0 < d.2 ∧ s.logClocks.contains d.1 d.2 = false)
    (hsub : ∀ bvv, (((s.storage.get key).getD (Cube.new s.clocks)).merge proposed).isSubsumed bvv =
      some false) :
    ∃ r, s.storageSetRemote [(key, proposed, false)] = some r ∧
      r.1.storage.get key = some (((s.storage.get key).getD (Cube.new s.clocks)).merge proposed) := by
  obtain ⟨a, ha, b, hb⟩ := @remoteWrite_stores s.storage ⟨s.clocks, s.logClocks, [], []⟩ key proposed false ds
    hds hnew hsub
  have hrun : s.storageSetRemote [(key, proposed, false)] = some
      ({ s with clocks := a.clocks, logClocks := a.logClocks, storage := s.storage.batchWrite a.batch },
        a.results) := by
    simp only [storageSetRemote, List.foldlM_cons, List.foldlM_nil, ha, Option.bind_eq_bind,
      Option.bind_some, Option.pure_def]
  refine ⟨_, hrun, ?_⟩
  show (s.storage.batchWrite a.batch).get key = _
  rw [hb]
  exact Storage.get_batchWrite_append_set _ _ _ _

/-! ## SREM at the coordinator and at a replica -/

/-- SREM of `x` at a coordinator that holds a set under `k`, replicated to a
replica that holds a set with `x` and has not seen the write's dot: the write
is stored and applied, and then SMEMBERS at the coordinator no longer shows
`x` while SMEMBERS at the replica still does. -/
theorem srem_member_survives_on_replica {s r : VNodeState} {k x : Bytes} {a a₂ : Cubes.Set}
    (hs : s.status = .ready) (hsk : s.storage.get k = some (.set a))
    (hrk : r.storage.get k = some (.set a₂)) (hx : x ∈ a₂.values.map.keys)
    (ha : a.dots.contains s.id (s.clocks.event s.id).1 = false)
    (hr : r.logClocks.contains s.id (s.clocks.event s.id).1 = false) :
    ∃ s' done msg r', s.doFlush [.ofCmd k (.srem x)] = (s', .ok done msg) ∧
      r.storageSetRemote msg = some r' ∧
      x ∉ (s'.storageGet k).visible.members ∧ x ∈ (r'.1.storageGet k).visible.members := by
  -- the cube SREM makes from the coordinator's set, under the dot `(s.id, v)`
  obtain ⟨resp, hw⟩ : ∃ resp, (ContextWrite.ofCmd k (.srem x)).mutatorFn s.id
      (s.clocks.event s.id).1 (s.storageGet k) =
        .ok (.set (a.remove s.id (s.clocks.event s.id).1 x).2, resp) := by
    rw [storageGet_of_get_eq_some hsk]
    exact ⟨_, rfl⟩
  obtain ⟨s', done, hflush, hcoord⟩ := doFlush_single hs hw (fun vv h => Cube.noConfusion h)
  simp only [ContextWrite.ofCmd] at hcoord
  have hgone : x ∉ (a.remove s.id (s.clocks.event s.id).1 x).2.values.map.keys :=
    Cubes.Set.not_mem_keys_remove
  -- the replica sees the write's dot as new and stores the merge, which keeps `x`
  have hkeep : x ∈ (a₂.merge (a.remove s.id (s.clocks.event s.id).1 x).2).values.map.keys :=
    Cubes.Set.mem_keys_merge_of_left_only hx hgone
  have hdot : (s.id, (s.clocks.event s.id).1) ∈
      (a.remove s.id (s.clocks.event s.id).1 x).2.dots.iter :=
    VersionVector.mem_iter_add_self ha
  obtain ⟨r', hremote, hget⟩ :=
    storageSetRemote_single k (.set (a.remove s.id (s.clocks.event s.id).1 x).2) rfl
    ⟨_, hdot, BitmappedVersionVector.event_fst_pos _ _, hr⟩
    (fun bvv => by
      rw [hrk]
      simp [Cube.merge, Cube.isSubsumed, VecMap.isEmpty_eq_false_of_mem_keys hkeep])
  refine ⟨s', done, _, r', hflush, hremote, ?_, ?_⟩
  · -- the coordinator stores the cube, or deletes the key
    rcases hcoord with hget | hget
    · rw [storageGet_of_get_eq_some hget]
      simpa [Cube.visible] using hgone
    · rw [storageGet_of_get_eq_none hget]
      simp [Cube.new, Cube.visible]
  · rw [hrk] at hget
    rw [storageGet_of_get_eq_some hget]
    simpa [Cube.merge, Cube.visible] using hkeep

end VNodeState

/-- Node 1 stores SADD of a member and replicates it to node 2; node 1 then
runs SREM of the member, and node 2 applies its message. -/
theorem srem_member_survives_after_sadd :
    ∃ p, run (Partition.step 1000 10) (Partition.initial 0 (fun _ => .ready) fun n => n)
        [.flush 1 [([107], .sadd [120])] [2], .deliver 0 false false] = some p ∧
      ∃ s' done msg r', (p.nodes 1).state.doFlush [.ofCmd [107] (.srem [120])] =
          (s', .ok done msg) ∧
        (p.nodes 2).state.storageSetRemote msg = some r' ∧
        [120] ∉ (s'.storageGet [107]).visible.members ∧
        [120] ∈ (r'.1.storageGet [107]).visible.members := by
  refine ⟨_, rfl, VNodeState.srem_member_survives_on_replica rfl rfl rfl ?_ ?_ ?_⟩
  -- the member, and the freshness of the SREM's dot `(1, 2)` at both ends
  · decide
  · decide
  · decide

end Sucredb
