/-
Sucredb.VNode.Flush — `VNode::do_flush`, the coordinator's write path.

For each write of the batch, in order: read the key's cube, draw the next
version of the vnode's own id from `clocks` (`event`), add it to `log_clocks`,
and run the write's `MutatorFn`. The first failing mutator ends the batch with
its error, and the clocks keep the versions drawn so far. When every mutator
succeeds, `storage_set_local` stores the cubes, and the cubes go to the other
replicas as the writes of a `MsgRemoteSet`.

A vnode that is not `Ready` does not coordinate (`respond_cant_coordinate`).
The request bookkeeping of `do_flush` (the `ReqState` in the in-flight map, the
consistency level and the sends) is not part of this module.
-/
import Sucredb.VNode.State
import Sucredb.Command.Mutators

namespace Sucredb

/-- `database::ContextWrite`, the fields `do_flush` reads and fills in. -/
structure ContextWrite where
  key : Bytes
  mutatorFn : MutatorFn
  replyResult : Bool
  version : Version
  cube : Cube
  response : Option RespValue

/-- A client write as `Database::set` queues it. -/
def ContextWrite.ofCmd (key : Bytes) (cmd : WriteCmd) : ContextWrite :=
  ⟨key, cmd.mutatorFn, cmd.replyResult, 0, default, none⟩

/-- The writes of a `MsgRemoteSet`: key, cube and `reply_result`. -/
abbrev RemoteWrites := List (Bytes × Cube × Bool)

/-- How `do_flush` ends. -/
inductive FlushResult where
  /-- The vnode is not `Ready`: the client is redirected. -/
  | cantCoordinate
  /-- A mutator failed. -/
  | err (e : CommandError)
  /-- `storage_set_local` reached `unreachable!()`. -/
  | panic
  /-- The batch was stored; the filled-in writes and the replication message. -/
  | ok (writes : List ContextWrite) (msg : RemoteWrites)

namespace VNodeState

/-- The loop of `do_flush` over the batch. -/
def flushWrites (s : VNodeState) :
    List ContextWrite → VNodeState × Except CommandError (List ContextWrite)
  | [] => (s, .ok [])
  | w :: ws =>
    let old := s.storageGet w.key
    let (version, clocks) := s.clocks.event s.id
    let s₁ := { s with clocks := clocks, logClocks := (s.logClocks.add s.id version).2 }
    match w.mutatorFn s.id version old with
    | .error e => (s₁, .error e)
    | .ok (cube, resp) =>
      let r := flushWrites s₁ ws
      (r.1, r.2.map ({ w with version := version, cube := cube, response := resp } :: ·))

/-- `VNode::do_flush`, on the vnode's state. -/
def doFlush (s : VNodeState) (writes : List ContextWrite) : VNodeState × FlushResult :=
  if s.status ≠ .ready then (s, .cantCoordinate)
  else
    match s.flushWrites writes with
    | (s₁, .error e) => (s₁, .err e)
    | (s₁, .ok ws) =>
      match s₁.storageSetLocal (ws.map fun w => (w.version, w.key, w.cube)) with
      | none => (s₁, .panic)
      | some s₂ => (s₂, .ok ws (ws.map fun w => (w.key, w.cube, w.replyResult)))

end VNodeState

end Sucredb
