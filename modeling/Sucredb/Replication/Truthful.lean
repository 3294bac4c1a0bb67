/-
Sucredb.Replication.Truthful — "every dot names a write on its key", for each
place a partition keeps dots, and what the storage write paths do to it.

`W` is a list of (dot, key) pairs, in the end the writes `do_flush` stored. A
cube is truthful for a key when every dot it reports names a write on that
key; a storage is truthful when its cubes are, each for the key it is stored
under, and each dot-log entry names a write on its key. A batch operation is
truthful when it stores a truthful cube or logs a pair of `W`, and a batch of
truthful operations keeps a storage truthful (`StorageTruthful.batchWrite`).

Both write paths build such batches: `storage_set_local` from the cubes of a
`do_flush`, each made of the cube `storage_get` returned and the write's own
dot (`doFlush_ok_truthful`), and `storage_set_remote` from the dots of the
proposed cubes and `old.merge(proposed)` (`storageSetRemote_truthful`). The
`Void` that `storage_get` builds for an absent key reports no dot, whatever the
clock it is built from.
-/
import Sucredb.Replication.RemoteWrite

namespace Sucredb

section Defs

variable (W : List (Dot × Bytes))

/-- Every dot the cube reports names a write on `key`. -/
def CubeTruthful (key : Bytes) (c : Cube) : Prop :=
  ∀ d ∈ c.dots, (d, key) ∈ W

/-- Every cube is truthful for its key, and every log entry names a write on
its key. -/
def StorageTruthful (st : Storage) : Prop :=
  (∀ k c, st.get k = some c → CubeTruthful W k c) ∧
    ∀ d k, st.logGet d = some k → (d, k) ∈ W

/-- A batch operation that stores a truthful cube or logs a pair of `W`. -/
def OpTruthful : BatchOp → Prop
  | .set key c => CubeTruthful W key c
  | .del _ => True
  | .logSet d key => (d, key) ∈ W

end Defs

variable {W W' : List (Dot × Bytes)}

theorem CubeTruthful.mono (h : W ⊆ W') {k : Bytes} {c : Cube} (hc : CubeTruthful W k c) :
    CubeTruthful W' k c :=
  fun d hd => h (hc d hd)

theorem StorageTruthful.mono (h : W ⊆ W') {st : Storage} (hs : StorageTruthful W st) :
    StorageTruthful W' st :=
  ⟨fun k c hc => (hs.1 k c hc).mono h, fun d k hk => h (hs.2 d k hk)⟩

theorem cubeTruthful_void (k : Bytes) (vv : VersionVector) : CubeTruthful W k (.void vv) := by
  intro d hd
  simp at hd

theorem cubeTruthful_new (k : Bytes) (bvv : BitmappedVersionVector) :
    CubeTruthful W k (Cube.new bvv) :=
  cubeTruthful_void k _

/-- A merge of two truthful cubes is truthful. -/
theorem CubeTruthful.merge {k : Bytes} {a b : Cube} (ha : CubeTruthful W k a)
    (hb : CubeTruthful W k b) : CubeTruthful W k (a.merge b) := by
  intro d hd
  rcases Cube.mem_dots_merge hd with h | h
  · exact ha d h
  · exact hb d h

namespace StorageTruthful

theorem empty : StorageTruthful W Storage.empty :=
  ⟨fun k c h => by simp [Storage.get, Storage.empty] at h,
    fun d k h => by simp [Storage.logGet, Storage.empty] at h⟩

theorem clear {st : Storage} : StorageTruthful W st.clear := empty

theorem apply {st : Storage} {op : BatchOp} (hs : StorageTruthful W st) (hop : OpTruthful W op) :
    StorageTruthful W (st.apply op) := by
  obtain ⟨hdata, hlog⟩ := hs
  cases op with
  | set key c =>
    refine ⟨fun k c' h => ?_, hlog⟩
    simp only [Storage.get, Storage.apply, VecMap.get?_insert] at h
    split at h
    · rename_i hk
      cases h
      rw [hk]
      exact hop
    · exact hdata k c' h
  | del key =>
    refine ⟨fun k c' h => ?_, hlog⟩
    simp only [Storage.get, Storage.apply, VecMap.get?_erase] at h
    split at h
    · cases h
    · exact hdata k c' h
  | logSet dot key =>
    refine ⟨hdata, fun d k h => ?_⟩
    simp only [Storage.logGet, Storage.apply, VecMap.get?_insert] at h
    split at h
    · rename_i hd
      cases h
      rw [hd]
      exact hop
    · exact hlog d k h

/-- A batch of truthful operations keeps the storage truthful. -/
theorem batchWrite {batch : List BatchOp} :
    ∀ {st : Storage}, StorageTruthful W st → (∀ op ∈ batch, OpTruthful W op) →
      StorageTruthful W (st.batchWrite batch) := by
  induction batch with
  | nil => exact fun hs _ => hs
  | cons op batch ih =>
    intro st hs hops
    rw [Storage.batchWrite_cons]
    exact ih (hs.apply (hops op (List.mem_cons_self ..)))
      (fun op' h => hops op' (List.mem_cons_of_mem _ h))

end StorageTruthful

/-- What a read with a `Void` fallback returns is truthful: a stored cube, or
a `Void` that reports no dot. -/
theorem StorageTruthful.getD {st : Storage} (hs : StorageTruthful W st) (k : Bytes)
    (bvv : BitmappedVersionVector) : CubeTruthful W k ((st.get k).getD (Cube.new bvv)) := by
  cases h : st.get k with
  | none => exact cubeTruthful_new k _
  | some c => exact hs.1 k c h

namespace VNodeState

variable {s s' : VNodeState}

theorem storageGet_truthful (hs : StorageTruthful W s.storage) (k : Bytes) :
    CubeTruthful W k (s.storageGet k) :=
  hs.getD k s.clocks

/-! ## `storage_set_local` -/

/-- The batch of `storage_set_local` is truthful when every cube is, and every
write's dot is a write on its key. -/
theorem localBatch_truthful {id : NodeId} {clocks : BitmappedVersionVector}
    {ws : List (Version × Bytes × Cube)} {batch : List BatchOp}
    (h : localBatch id clocks ws = some batch)
    (hws : ∀ w ∈ ws, CubeTruthful W w.2.1 w.2.2 ∧ ((id, w.1), w.2.1) ∈ W) :
    ∀ op ∈ batch, OpTruthful W op := by
  intro op hop
  rcases mem_localBatch h op hop with ⟨key, rfl⟩ | ⟨w, hw, rfl | rfl⟩
  · trivial
  · exact (hws w hw).1
  · exact (hws w hw).2

/-- A stored batch of client commands: every cube reports dots of the cube
`storage_get` read or the write's own dot, so the storage and the replicated
cubes are truthful for the writes so far and the batch's own. -/
theorem doFlush_ok_truthful {ws done : List ContextWrite} {msg : RemoteWrites}
    (hs : StorageTruthful W s.storage)
    (hws : ∀ w ∈ ws, ∃ cmd : WriteCmd, w.mutatorFn = cmd.mutatorFn)
    (h : s.doFlush ws = (s', .ok done msg)) :
    StorageTruthful (W ++ done.map fun w => ((s.id, w.version), w.key)) s'.storage ∧
      ∀ w ∈ msg, CubeTruthful (W ++ done.map fun w => ((s.id, w.version), w.key)) w.1 w.2.1 := by
  obtain ⟨s₁, hf, hl, rfl⟩ := doFlush_eq_ok h
  have hst : s₁.storage = s.storage := by
    have := @flushWrites_storage s ws
    rwa [hf] at this
  have hid : s₁.id = s.id := by
    have := @flushWrites_id s ws
    rwa [hf] at this
  have hsub : W ⊆ W ++ done.map fun w => ((s.id, w.version), w.key) :=
    List.subset_append_left _ _
  -- every cube of the batch: an old dot, or the dot the loop drew for it
  have hcube : ∀ w ∈ done,
      CubeTruthful (W ++ done.map fun w => ((s.id, w.version), w.key)) w.key w.cube := by
    intro w hw d hd
    rcases flushWrites_ok_dots hws hf w hw d hd with hd | rfl
    · exact hsub (storageGet_truthful hs w.key d hd)
    · exact List.mem_append_right _ (List.mem_map_of_mem hw)
  obtain ⟨batch, hb, rfl⟩ := storageSetLocal_eq_some.mp hl
  refine ⟨?_, ?_⟩
  · rw [hst]
    apply (hs.mono hsub).batchWrite
    apply localBatch_truthful hb
    intro x hx
    obtain ⟨w, hw, rfl⟩ := List.mem_map.mp hx
    refine ⟨hcube w hw, ?_⟩
    rw [hid]
    exact List.mem_append_right _ (List.mem_map_of_mem hw)
  · intro x hx
    obtain ⟨w, hw, rfl⟩ := List.mem_map.mp hx
    exact hcube w hw

/-! ## `storage_set_remote` -/

/-- A replicated batch of truthful cubes keeps the storage truthful: the log
entries name dots of the proposed cubes, and the stored cubes are merges of
truthful ones. -/
theorem storageSetRemote_truthful {ws : RemoteWrites} {r : VNodeState × List (Option Cube)}
    (hs : StorageTruthful W s.storage) (hws : ∀ w ∈ ws, CubeTruthful W w.1 w.2.1)
    (h : s.storageSetRemote ws = some r) : StorageTruthful W r.1.storage := by
  simp only [storageSetRemote, Option.bind_eq_bind, Option.bind_eq_some_iff, Option.pure_def,
    Option.some.injEq] at h
  obtain ⟨a, ha, rfl⟩ := h
  apply hs.batchWrite
  have hstep : ∀ (b : RemoteAcc) (w : Bytes × Cube × Bool) (b' : RemoteAcc), w ∈ ws →
      (∀ op ∈ b.batch, OpTruthful W op) → remoteWrite s.storage b w = some b' →
        ∀ op ∈ b'.batch, OpTruthful W op := by
    intro b w b' hw hb hwr op hop
    rcases remoteWrite_batch hwr op hop with hop | ⟨d, hd, rfl⟩ | rfl | rfl
    · exact hb op hop
    · exact hws w hw d hd
    · trivial
    · exact (hs.getD w.1 b.clocks).merge (hws w hw)
  exact foldlM_induct hstep (fun op hop => by simp at hop) ha

/-! ## Status changes and restarts -/

/-- `set_status` keeps the storage, or clears it on entering `Absent` or
`Bootstrap`. -/
theorem setStatus_storage {new : VNodeStatus} {rnd : ℕ} (h : s.setStatus new rnd = some s') :
    s'.storage = s.storage ∨ s'.storage = Storage.empty := by
  unfold setStatus at h
  split at h
  · cases h
    exact Or.inl rfl
  -- the status and the save do not touch the storage; `clear` empties it
  cases new with
  | ready | zombie =>
    simp only [Option.pure_def, Option.bind_eq_bind, Option.bind_some, Option.some.injEq] at h
    rw [← h]
    exact Or.inl rfl
  | bootstrap | absent =>
    simp only [Option.pure_def, Option.bind_eq_bind] at h
    split at h
    · simp only [Option.bind_some, Option.some.injEq] at h
      rw [← h]
      exact Or.inr rfl
    · simp at h

/-- `load` keeps the storage it is given, or clears it for a new vnode. -/
theorem load_storage {num : ℕ} {status : VNodeStatus} {saved : Option SavedVNodeState}
    {storage : Storage} {node : NodeId} {rnd : ℕ}
    (h : load num status saved storage node rnd = some s') :
    s'.storage = storage ∨ s'.storage = Storage.empty := by
  unfold load at h
  split at h
  · cases h
    exact Or.inr rfl
  split at h
  · cases h
    exact Or.inr rfl
  split at h
  · cases h
  · cases h
    split <;> exact Or.inl rfl

theorem setStatus_truthful {new : VNodeStatus} {rnd : ℕ} (hs : StorageTruthful W s.storage)
    (h : s.setStatus new rnd = some s') : StorageTruthful W s'.storage := by
  rcases setStatus_storage h with h | h <;> rw [h]
  · exact hs
  · exact StorageTruthful.empty

theorem load_truthful {num : ℕ} {status : VNodeStatus} {saved : Option SavedVNodeState}
    {storage : Storage} {node : NodeId} {rnd : ℕ} (hs : StorageTruthful W storage)
    (h : load num status saved storage node rnd = some s') : StorageTruthful W s'.storage := by
  rcases load_storage h with h | h <;> rw [h]
  · exact hs
  · exact StorageTruthful.empty

end VNodeState

end Sucredb
