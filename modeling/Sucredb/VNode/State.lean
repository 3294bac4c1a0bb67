/-
Sucredb.VNode.State — `VNodeState` of `vnode.rs`: the clocks and storage of one
vnode, the two write paths into storage, status changes, and save/load.

* `storage_get` falls back to `Cube::new(&self.clocks)`, a `Void` under the
  clock's bases, for an absent key.
* `storage_set_local` stores the coordinator's cubes and logs each write's dot.
* `storage_set_remote` applies a replicated batch: it adds every dot of the
  proposed cube that `log_clocks` did not have to both clocks and to the dot
  log, skips a cube with no new dot unless its result is wanted, and stores
  `old.merge(proposed)`.
* `set_status` clears the clock and storage on entering `Absent` or
  `Bootstrap`, and draws a new id on entering `Bootstrap`; `log_clocks` is left
  as it is.

Panics (`unreachable!()`, `assert!`) are `none`. The database's meta storage
entry of the vnode, which `save` writes and `load` reads, is the field `saved`.
The random half of a generated id is an argument (`rnd`), and the time of the
last status change is not modelled: where the source compares it with a
timeout, the model lets the environment choose.
-/
import Sucredb.Storage

namespace Sucredb

/-- `vnode::VNodeStatus`. -/
inductive VNodeStatus where
  | ready
  | bootstrap
  | zombie
  | absent
deriving DecidableEq, Repr

/-- `vnode::SavedVNodeState`. -/
structure SavedVNodeState where
  id : NodeId
  clocks : BitmappedVersionVector
  logClocks : BitmappedVersionVector
  cleanShutdown : Bool

/-- `vnode::VNodeState`, with the vnode's meta storage record as `saved`. -/
structure VNodeState where
  id : NodeId
  num : ℕ
  status : VNodeStatus
  clocks : BitmappedVersionVector
  logClocks : BitmappedVersionVector
  storage : Storage
  pendingBootstrap : Bool
  syncNodes : Finset NodeId
  saved : Option SavedVNodeState

namespace VNodeState

/-! ## Storage -/

/-- `VNodeState::storage_get`. -/
def storageGet (s : VNodeState) (key : Bytes) : Cube :=
  (s.storage.get key).getD (Cube.new s.clocks)

/-- The batch `storage_set_local` builds: per write, store or delete the cube
and log the write's dot. -/
def localBatch (id : NodeId) (clocks : BitmappedVersionVector) :
    List (Version × Bytes × Cube) → Option (List BatchOp)
  | [] => some []
  | (version, key, cube) :: ws => do
    let sub ← cube.isSubsumed clocks
    let rest ← localBatch id clocks ws
    pure ((if sub then .del key else .set key cube) :: .logSet (id, version) key :: rest)

/-- `VNodeState::storage_set_local`. -/
def storageSetLocal (s : VNodeState) (writes : List (Version × Bytes × Cube)) :
    Option VNodeState := do
  let batch ← localBatch s.id s.clocks writes
  pure { s with storage := s.storage.batchWrite batch }

/-- The running state of `storage_set_remote`'s loop. -/
structure RemoteAcc where
  clocks : BitmappedVersionVector
  logClocks : BitmappedVersionVector
  batch : List BatchOp
  results : List (Option Cube)

/-- The `for_each_dot` callback of `storage_set_remote`, over the dots of one
proposed cube: a dot new to `log_clocks` goes into both clocks and the log.
The flag stays `true` while no dot was new. -/
def recordDots (key : Bytes) :
    RemoteAcc × Bool → List Dot → RemoteAcc × Bool
  | acc, [] => acc
  | (a, empty), (i, v) :: ds =>
    let r := a.logClocks.add i v
    if r.1 then
      let a' : RemoteAcc :=
        ⟨(a.clocks.add i v).2, r.2, a.batch ++ [.logSet (i, v) key], a.results⟩
      recordDots key (a', false) ds
    else recordDots key (⟨a.clocks, r.2, a.batch, a.results⟩, empty) ds

/-- One write of `storage_set_remote`. `old` is read from the storage before the
batch, under the clock as the earlier writes of the batch left it. -/
def remoteWrite (storage : Storage) (a : RemoteAcc) (w : Bytes × Cube × Bool) :
    Option RemoteAcc :=
  let (key, proposed, replyResult) := w
  let old := (storage.get key).getD (Cube.new a.clocks)
  match proposed.forEachDot with
  | none => none
  | some ds =>
    let (a', empty) := recordDots key (a, true) ds
    if empty && !replyResult then some { a' with results := a'.results ++ [none] }
    else
      let new := old.merge proposed
      let result := if replyResult then some new else none
      if empty then some { a' with results := a'.results ++ [result] }
      else
        match new.isSubsumed a'.clocks with
        | none => none
        | some sub =>
          some { a' with batch := a'.batch ++ [if sub then .del key else .set key new],
                         results := a'.results ++ [result] }

/-- `VNodeState::storage_set_remote`: the new state and the per-write results. -/
def storageSetRemote (s : VNodeState) (writes : List (Bytes × Cube × Bool)) :
    Option (VNodeState × List (Option Cube)) := do
  let a ← writes.foldlM (remoteWrite s.storage) ⟨s.clocks, s.logClocks, [], []⟩
  pure ({ s with clocks := a.clocks, logClocks := a.logClocks,
                 storage := s.storage.batchWrite a.batch }, a.results)

/-! ## Status and persistence -/

/-- `VNodeState::clear`: empty the clock and the storage. -/
def clear (s : VNodeState) : VNodeState :=
  { s with clocks := s.clocks.clear, storage := s.storage.clear }

/-- `VNodeState::generate_id`: the high half of `base`, a random low half. -/
def generateId (base : NodeId) (rnd : ℕ) : NodeId := joinU64 (splitU64 base).1 rnd

/-- `VNodeState::save`. -/
def save (s : VNodeState) (shutdown : Bool) : VNodeState :=
  { s with saved := some ⟨s.id, s.clocks, s.logClocks, shutdown⟩ }

/-- `VNodeState::set_status`; `none` is a failed `assert!`. -/
def setStatus (s : VNodeState) (new : VNodeStatus) (rnd : ℕ) : Option VNodeState :=
  if new = s.status then some s
  else do
    let s' ← match new with
      | .bootstrap =>
        if !s.pendingBootstrap ∧ s.syncNodes = ∅ then
          some { s.clear with id := generateId s.id rnd }
        else none
      | .absent => if s.syncNodes = ∅ then some s.clear else none
      | .ready | .zombie => some s
    pure ({ s' with pendingBootstrap := false, status := new }.save false)

/-- `VNodeState::new_empty`: a fresh id under `node`, nothing stored, no meta record. -/
def newEmpty (num : ℕ) (status : VNodeStatus) (storage : Storage) (node : NodeId)
    (rnd : ℕ) : VNodeState :=
  ⟨generateId node rnd, num, status, BitmappedVersionVector.new, BitmappedVersionVector.new,
    storage.clear, false, ∅, none⟩

/-- `VNodeState::recover_dots`: for every id of the clock, add the logged dots
above its base. -/
def recoverDots (s : VNodeState) : VNodeState :=
  { s with clocks := ⟨s.clocks.map.mapValues fun node bv =>
      (s.storage.logIterator node (bv.base + 1)).foldl (fun b e => (b.add e.1.2).2) bv⟩ }

/-- `VNodeState::load`: the saved state, under a new id and with the dots of
the log recovered after an unclean shutdown; `none` is the `assert_eq!` that
only `Ready` may load saved state. -/
def load (num : ℕ) (status : VNodeStatus) (saved : Option SavedVNodeState)
    (storage : Storage) (node : NodeId) (rnd : ℕ) : Option VNodeState :=
  match saved with
  | none => some (newEmpty num status storage node rnd)
  | some sv =>
    if status = .absent then some (newEmpty num status storage node rnd)
    else if status ≠ .ready then none
    else
      let st : VNodeState := ⟨if sv.cleanShutdown then sv.id else generateId sv.id rnd, num,
        status, sv.clocks, sv.logClocks, storage, false, ∅, saved⟩
      some (if sv.cleanShutdown then st else st.recoverDots)

end VNodeState

end Sucredb
