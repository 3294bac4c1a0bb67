/-
Sucredb.VNode.FlushTheorems — what one pass of `do_flush` does to the vnode,
and where it panics.

The spec lemmas take a batch apart write by write: `storage_get` of an absent
key is the `Void` of the clock (`storageGet_of_get_eq_none`), one write of the
loop draws a version and runs its mutator (`flushWrites_cons_ok`,
`flushWrites_cons_error`), and `storage_set_local` fails exactly when one of
the cubes it stores is a `Void` (`localBatch_eq_none_iff`).

A mutator's error ends the batch after the loop drew the version of its first
write: the clock keeps that version although nothing is stored
(`doFlush_err_changes_clocks`).

`Cube::del` on a `Void` returns the `Void` (`delMutator_void`), so DEL of a key
the vnode does not hold hands a `Void` to `storage_set_local`, whose
`is_subsumed` is `unreachable!()` there (`doFlush_del_absent_panics`).
-/
import Sucredb.VNode.Flush
import Sucredb.CubeTheorems
import Sucredb.VersionVector.BitmappedTheorems

namespace Sucredb

namespace VNodeState

variable {s : VNodeState} {k : Bytes}

@[simp] theorem storageGet_of_get_eq_none (h : s.storage.get k = none) :
    s.storageGet k = Cube.new s.clocks := by
  simp [storageGet, h]

theorem storageGet_of_get_eq_some {c : Cube} (h : s.storage.get k = some c) :
    s.storageGet k = c := by
  simp [storageGet, h]

/-- The dots of `storage_get` depend on the storage only: the `Void` of an
absent key reports none, whatever the clock. -/
theorem dots_storageGet (s : VNodeState) (k : Bytes) :
    (s.storageGet k).dots = ((s.storage.get k).map Cube.dots).getD [] := by
  unfold storageGet
  cases s.storage.get k <;> rfl

/-! ## `storage_set_local` -/

theorem isSubsumed_eq_none_iff {c : Cube} {bvv : BitmappedVersionVector} :
    c.isSubsumed bvv = none ↔ ∃ vv, c = .void vv := by
  cases c <;> simp [Cube.isSubsumed]

/-- The batch of `storage_set_local` is built unless one of the cubes is a
`Void`. -/
theorem localBatch_eq_none_iff {id : NodeId} {clocks : BitmappedVersionVector} :
    ∀ {ws : List (Version × Bytes × Cube)},
      localBatch id clocks ws = none ↔ ∃ w ∈ ws, ∃ vv, w.2.2 = .void vv
  | [] => by simp [localBatch]
  | (v, key, c) :: ws => by
    have ih := @localBatch_eq_none_iff id clocks ws
    cases hc : c.isSubsumed clocks with
    | none =>
      obtain ⟨vv, rfl⟩ := isSubsumed_eq_none_iff.mp hc
      simp [localBatch, hc]
    | some sub =>
      have hne : ∀ vv, c ≠ .void vv := fun vv h => by simp [h, Cube.isSubsumed] at hc
      cases hr : localBatch id clocks ws with
      | none => simp only [localBatch, hc, hr]; simp_all
      | some rest => simp only [localBatch, hc, hr]; simp_all

/-- What `localBatch` puts in a batch: a deletion, or a write's cube under its
key, or its dot logged under its key. -/
theorem mem_localBatch {id : NodeId} {clocks : BitmappedVersionVector} :
    ∀ {ws : List (Version × Bytes × Cube)} {batch : List BatchOp},
      localBatch id clocks ws = some batch → ∀ op ∈ batch,
        (∃ key, op = .del key) ∨ ∃ w ∈ ws, op = .set w.2.1 w.2.2 ∨ op = .logSet (id, w.1) w.2.1
  | [], batch, h => by
    cases h
    simp
  | (v, key, c) :: ws, batch, h => by
    simp only [localBatch, Option.bind_eq_bind, Option.bind_eq_some_iff, Option.pure_def,
      Option.some.injEq] at h
    obtain ⟨sub, -, rest, hrest, rfl⟩ := h
    intro op hop
    -- the cube or its deletion, the dot, or an operation of the rest
    rcases List.mem_cons.mp hop with rfl | hop
    · cases sub
      · exact Or.inr ⟨_, List.mem_cons_self .., Or.inl rfl⟩
      · exact Or.inl ⟨key, rfl⟩
    rcases List.mem_cons.mp hop with rfl | hop
    · exact Or.inr ⟨_, List.mem_cons_self .., Or.inr rfl⟩
    rcases mem_localBatch hrest op hop with h | ⟨w, hw, h⟩
    · exact Or.inl h
    · exact Or.inr ⟨w, List.mem_cons_of_mem _ hw, h⟩

theorem storageSetLocal_eq_some {ws : List (Version × Bytes × Cube)} {s' : VNodeState} :
    s.storageSetLocal ws = some s' ↔
      ∃ batch, localBatch s.id s.clocks ws = some batch ∧
        s' = { s with storage := s.storage.batchWrite batch } := by
  simp only [storageSetLocal, Option.bind_eq_bind, Option.bind_eq_some_iff, Option.pure_def,
    Option.some.injEq]
  exact exists_congr fun _ => and_congr_right fun _ => eq_comm

/-! ## The loop of `do_flush` -/

/-- The state after one write of the loop drew `version`. -/
theorem flushWrites_cons_error {w : ContextWrite} {ws : List ContextWrite} {e : CommandError}
    (h : w.mutatorFn s.id (s.clocks.event s.id).1 (s.storageGet w.key) = .error e) :
    s.flushWrites (w :: ws) =
      ({ s with clocks := (s.clocks.event s.id).2,
                logClocks := (s.logClocks.add s.id (s.clocks.event s.id).1).2 }, .error e) := by
  simp [flushWrites, h]

theorem flushWrites_cons_ok {w : ContextWrite} {ws : List ContextWrite} {c : Cube}
    {r : Option RespValue}
    (h : w.mutatorFn s.id (s.clocks.event s.id).1 (s.storageGet w.key) = .ok (c, r)) :
    s.flushWrites (w :: ws) =
      let s₁ := { s with clocks := (s.clocks.event s.id).2,
                         logClocks := (s.logClocks.add s.id (s.clocks.event s.id).1).2 }
      ((s₁.flushWrites ws).1, (s₁.flushWrites ws).2.map
        ({ w with version := (s.clocks.event s.id).1, cube := c, response := r } :: ·)) := by
  simp [flushWrites, h]

theorem flushWrites_storage : ∀ {s : VNodeState} {ws : List ContextWrite},
    (s.flushWrites ws).1.storage = s.storage
  | _, [] => rfl
  | s, w :: ws => by
    simp only [flushWrites]
    split
    · rfl
    · exact flushWrites_storage

theorem flushWrites_id : ∀ {s : VNodeState} {ws : List ContextWrite},
    (s.flushWrites ws).1.id = s.id
  | _, [] => rfl
  | s, w :: ws => by
    simp only [flushWrites]
    split
    · rfl
    · exact flushWrites_id

/-- The loop only raises the clock: what it covers in full stays covered. -/
theorem flushWrites_containsAll {i : NodeId} {v : Version} :
    ∀ {s : VNodeState} {ws : List ContextWrite},
      s.clocks.containsAll i v = true → (s.flushWrites ws).1.clocks.containsAll i v = true
  | _, [], h => h
  | s, w :: ws, h => by
    simp only [flushWrites]
    split
    · exact BitmappedVersionVector.containsAll_event_of_containsAll h
    · exact flushWrites_containsAll (BitmappedVersionVector.containsAll_event_of_containsAll h)

/-- The first write of a batch draws its version before its mutator runs, and
the clock the loop ends with covers it, however the loop ends. -/
theorem flushWrites_cons_containsAll (w : ContextWrite) (ws : List ContextWrite) :
    (s.flushWrites (w :: ws)).1.clocks.containsAll s.id (s.clocks.event s.id).1 = true := by
  have hdrawn := (BitmappedVersionVector.containsAll_event_fst s.clocks s.id).2
  simp only [flushWrites]
  split
  · exact hdrawn
  · exact flushWrites_containsAll hdrawn

/-- Every cube of a successful loop of client commands reports only dots of
the cube `storage_get` returned for its key and the write's own dot. -/
theorem flushWrites_ok_dots : ∀ {s s' : VNodeState} {ws done : List ContextWrite},
    (∀ w ∈ ws, ∃ cmd : WriteCmd, w.mutatorFn = cmd.mutatorFn) →
    s.flushWrites ws = (s', .ok done) →
      ∀ w ∈ done, ∀ d ∈ w.cube.dots, d ∈ (s.storageGet w.key).dots ∨ d = (s.id, w.version)
  | _, _, [], done, _, h => by
    simp only [flushWrites, Prod.mk.injEq, Except.ok.injEq] at h
    rw [← h.2]
    simp
  | s, s', w :: ws, done, hws, h => by
    simp only [flushWrites] at h
    split at h
    · simp at h
    · rename_i c r hmut
      obtain ⟨cmd, hcmd⟩ := hws w (List.mem_cons_self ..)
      rw [hcmd] at hmut
      rcases hr : VNodeState.flushWrites
        { s with clocks := (s.clocks.event s.id).2,
                 logClocks := (s.logClocks.add s.id (s.clocks.event s.id).1).2 } ws with ⟨s₁, r₁⟩
      rw [hr] at h
      cases r₁ with
      | error e => simp [Except.map] at h
      | ok done' =>
        simp only [Except.map, Prod.mk.injEq, Except.ok.injEq] at h
        rw [← h.2]
        intro x hx d hd
        rcases List.mem_cons.mp hx with rfl | hx
        · exact mem_dots_mutatorFn hmut hd
        · have := flushWrites_ok_dots (fun w' hw' => hws w' (List.mem_cons_of_mem _ hw')) hr x hx d hd
          simpa only [dots_storageGet] using this

/-! ## `do_flush` -/

/-- A stored batch: the loop succeeded and `storage_set_local` stored its
cubes, which are also the writes of the `MsgRemoteSet`. -/
theorem doFlush_eq_ok {ws done : List ContextWrite} {msg : RemoteWrites} {s' : VNodeState}
    (h : s.doFlush ws = (s', .ok done msg)) :
    ∃ s₁, s.flushWrites ws = (s₁, .ok done) ∧
      s₁.storageSetLocal (done.map fun w => (w.version, w.key, w.cube)) = some s' ∧
      msg = done.map fun w => (w.key, w.cube, w.replyResult) := by
  unfold doFlush at h
  split at h
  · simp at h
  rcases hf : s.flushWrites ws with ⟨s₁, _ | ws'⟩
  · rw [hf] at h
    simp at h
  rw [hf] at h
  cases hl : s₁.storageSetLocal (ws'.map fun w => (w.version, w.key, w.cube)) with
  | none =>
    simp only [hl] at h
    simp at h
  | some s₂ =>
    simp only [hl, Prod.mk.injEq, FlushResult.ok.injEq] at h
    obtain ⟨rfl, rfl, rfl⟩ := h
    exact ⟨s₁, rfl, hl, rfl⟩

/-- A batch that was not stored leaves the storage as it was. -/
theorem doFlush_storage_of_not_ok {ws : List ContextWrite} {s' : VNodeState} {r : FlushResult}
    (h : s.doFlush ws = (s', r)) (hr : ∀ done msg, r ≠ .ok done msg) : s'.storage = s.storage := by
  unfold doFlush at h
  split at h
  · cases h
    rfl
  have hst := @flushWrites_storage s ws
  rcases hf : s.flushWrites ws with ⟨s₁, _ | ws'⟩
  · rw [hf] at h hst
    cases h
    exact hst
  rw [hf] at h hst
  cases hl : s₁.storageSetLocal (ws'.map fun w => (w.version, w.key, w.cube)) with
  | none =>
    simp only [hl, Prod.mk.injEq] at h
    rw [← h.1]
    exact hst
  | some s₂ =>
    simp only [hl, Prod.mk.injEq] at h
    exact absurd h.2.symm (hr _ _)

/-- A batch that fails in a mutator still changes the clock: the loop drew a
version of the vnode's id for its first write before any mutator ran, and
the error returns the clock as the loop left it. -/
theorem doFlush_err_changes_clocks {ws : List ContextWrite} {e : CommandError}
    (h : (s.doFlush ws).2 = .err e) :
    s.clocks.containsAll s.id (s.clocks.event s.id).1 = false ∧
      (s.doFlush ws).1.clocks.containsAll s.id (s.clocks.event s.id).1 = true ∧
      (s.doFlush ws).1.clocks ≠ s.clocks := by
  have hfresh := (BitmappedVersionVector.containsAll_event_fst s.clocks s.id).1
  have hdrawn : (s.doFlush ws).1.clocks.containsAll s.id (s.clocks.event s.id).1 = true := by
    unfold doFlush at h ⊢
    split at h
    · cases h
    rename_i hready
    rw [if_neg hready]
    rcases hf : s.flushWrites ws with ⟨s₁, _ | done⟩
    · -- the loop failed, so it ran a first write
      cases ws with
      | nil => simp [flushWrites] at hf
      | cons w ws =>
        have hw := flushWrites_cons_containsAll (s := s) w ws
        rw [hf] at hw
        exact hw
    · rw [hf] at h
      dsimp only at h
      split at h <;> cases h
  refine ⟨hfresh, hdrawn, fun heq => ?_⟩
  rw [heq, hfresh] at hdrawn
  cases hdrawn

/-- INCRBY of a key that holds a value: the mutator fails with a type error. -/
theorem incrby_on_value_changes_clocks :
    ∃ s, s = ((newEmpty 0 .ready .empty 1 0).doFlush [.ofCmd [107] (.set [118] .new)]).1 ∧
      (s.doFlush [.ofCmd [107] (.incrby 1)]).2 = .err .typeError ∧
      (s.clocks.containsAll s.id (s.clocks.event s.id).1 = false ∧
        (s.doFlush [.ofCmd [107] (.incrby 1)]).1.clocks.containsAll s.id
          (s.clocks.event s.id).1 = true ∧
        (s.doFlush [.ofCmd [107] (.incrby 1)]).1.clocks ≠ s.clocks) :=
  ⟨_, rfl, rfl, doFlush_err_changes_clocks rfl⟩

/-- A batch of one write whose mutator returns a cube other than a `Void` is
stored: the message carries that cube, and the storage holds it under the key,
or nothing when the clock covers it. -/
theorem doFlush_single {w : ContextWrite} {c : Cube} {resp : Option RespValue}
    (hs : s.status = .ready)
    (hw : w.mutatorFn s.id (s.clocks.event s.id).1 (s.storageGet w.key) = .ok (c, resp))
    (hc : ∀ vv, c ≠ .void vv) :
    ∃ s' done, s.doFlush [w] = (s', .ok done [(w.key, c, w.replyResult)]) ∧
      (s'.storage.get w.key = some c ∨ s'.storage.get w.key = none) := by
  obtain ⟨sub, hsub⟩ : ∃ sub, c.isSubsumed (s.clocks.event s.id).2 = some sub := by
    cases c with
    | void vv => exact absurd rfl (hc vv)
    | _ => exact ⟨_, rfl⟩
  unfold doFlush
  rw [if_neg (by simp [hs]), flushWrites_cons_ok hw]
  simp only [flushWrites, Except.map, List.map_cons, List.map_nil, storageSetLocal, localBatch,
    hsub, Option.bind_eq_bind, Option.bind_some, Option.pure_def]
  refine ⟨_, _, rfl, ?_⟩
  -- the cube or its deletion, then the dot's log entry
  cases sub <;> simp

/-! ## DEL of an absent key -/

/-- `Cube::del` leaves a `Void` as it is, and the DEL closure returns it. -/
theorem delMutator_void (vv w : VersionVector) (i : NodeId) (v : Version) :
    delMutator vv i v (.void w) = .ok (.void w, some (.int 0)) := rfl

/-- DEL of a key the vnode does not hold: the mutator returns the `Void` of the
clock, and `storage_set_local` reaches `unreachable!()` in `is_subsumed`. -/
theorem doFlush_del_absent_panics (hs : s.status = .ready) (hk : s.storage.get k = none)
    (vv : VersionVector) : (s.doFlush [.ofCmd k (.del vv)]).2 = .panic := by
  -- the batch holds one write, whose cube is the `Void` of the clock
  have hw : (ContextWrite.ofCmd k (.del vv)).mutatorFn s.id (s.clocks.event s.id).1
      (s.storageGet k) = .ok (Cube.new s.clocks, some (.int 0)) := by
    rw [storageGet_of_get_eq_none hk]
    rfl
  unfold doFlush
  rw [if_neg (by simp [hs]), flushWrites_cons_ok hw]
  simp only [flushWrites, Except.map, List.map_cons, List.map_nil, storageSetLocal]
  rw [localBatch_eq_none_iff.mpr ⟨_, List.mem_singleton_self _, _, rfl⟩]
  rfl

/-- A fresh vnode, and DEL of a key it never stored. -/
theorem doFlush_del_absent_panics_fresh :
    (newEmpty 0 .ready .empty 1 0).status = .ready ∧
      (newEmpty 0 .ready .empty 1 0).storage.get [107] = none ∧
      ((newEmpty 0 .ready .empty 1 0).doFlush [.ofCmd [107] (.del .new)]).2 = .panic :=
  ⟨rfl, rfl, doFlush_del_absent_panics rfl rfl _⟩

end VNodeState

end Sucredb
