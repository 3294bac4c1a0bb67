/-
Sucredb.Replication.SyncTheorems — what a sync hands its receiver.

A sync receiver merges the sender's snapshot into its clock as soon as a
successful `SyncFin` arrives (`handlerSyncFin_ok_clocks`), whatever keys it
received. The sender's keys come from `log_clocks.delta(clocks_in_peer)`, and
`BitmappedVersion::delta` returns nothing for an id whose base is below the
receiver's (`BitmappedVersionVector.delta_gap`): the versions of the sender's
bitmap for that id reach the receiver's clock without their keys.

In the run below node 3 ends with the dot `(1, 3)` of a SET in its clock while
it holds the key's older cube: merging the SET's cube into it changes what
GET shows, so the clock claims a write the replica lacks.
-/
import Sucredb.Replication.Lifecycle
import Sucredb.CubeTheorems

namespace Sucredb

namespace VNode

/-- A receiving session that gets a successful fin merges the snapshot into
the clock. -/
theorem handlerSyncFin_ok_clocks {vn : VNode} {self src : NodeId} {cookie : Cookie}
    {snap : BitmappedVersionVector} {promoted : Bool} {s : Synchronization}
    {r : VNode × List Msg} (hst : vn.state.status = .ready) (hs : vn.syncs.get? cookie = some s)
    (hrecv : s.isReceiver = true)
    (h : vn.handlerSyncFin self src cookie (.ok snap) promoted = some r) :
    r.1.state.clocks = vn.state.clocks.merge snap := by
  cases s with
  | syncReceiver cip c peer n =>
    simp only [handlerSyncFin, hst, hs, Synchronization.onMsgFin, removeSync,
      Synchronization.onRemove, VNodeState.save] at h
    -- `on_remove` asserts the peer was registered
    split at h
    · simp at h
      obtain ⟨rfl⟩ := h
      rfl
    · simp at h
  | bootstrapReceiver c peer n =>
    simp [handlerSyncFin, hst, hs, Synchronization.onMsgFin, removeSync,
      Synchronization.onRemove, VNodeState.save] at h
    obtain ⟨rfl⟩ := h
    rfl
  | _ => simp [Synchronization.isReceiver] at hrecv

end VNode

/-- Node 1 coordinates SET c (dot `(1, 1)`), SET b (`(1, 2)`) and SET c again
(`(1, 3)`), each replicated to nodes 2 and 3; node 2 receives the first and
the third, node 3 the first two. Node 3 then syncs from node 2, whose
`log_clocks` base for id 1 is below node 3's. -/
theorem sync_claims_missing_write :
    ∃ p, run (Partition.step 1000 10) (Partition.initial 0 (fun _ => .ready) fun n => n)
        [.flush 1 [([99], .set [48] .new)] [2, 3],
         .flush 1 [([98], .set [49] .new)] [2, 3],
         .flush 1 [([99], .set [50] .new)] [2, 3],
         .deliver 0 false false, .deliver 1 false false, .deliver 3 false false,
         .deliver 4 false false, .startSync 3 2 7, .deliver 6 false false,
         .deliver 7 false false] = some p ∧
      (p.nodes 3).state.clocks.contains 1 3 = true ∧
      ∃ w, .remoteSet 1 3 [([99], w, false)] ∈ p.net ∧ (1, 3) ∈ w.dots ∧
        (((p.nodes 3).state.storageGet [99]).merge w).visible ≠
          ((p.nodes 3).state.storageGet [99]).visible := by
  refine ⟨_, rfl, by decide, _, @List.mem_of_getElem? _ _ 5 _ rfl, by decide, by decide⟩

end Sucredb
