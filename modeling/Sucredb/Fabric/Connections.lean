/-
Sucredb.Fabric.Connections — the connections of `fabric.rs`: the registry of
`SharedContext` that the writer of every TCP connection enters and leaves,
the choice of a connection in `send_msg`, and the node addresses that
`register_node` and `set_nodes` keep.

A connection's writer is a `WriterContext`: `WriterContext::new` registers the
connection's channel under a fresh id (`register_connection`), and its `Drop`
removes it again (`remove_connection`, which panics on a peer or an id it does
not hold). The connection handlers run on the first connection of a peer;
`DHT::on_connection` is one of them. `send_msg` picks one of the peer's
connections at random and fails with `NoRoute` when the peer has none, or when
the channel picked has lost its receiver, which the writer's future drops when
the socket's write half ends, before the writer itself goes.

`Net` is the registry together with the writers alive, the peers the
handlers ran for, and the writers whose receiver went. In every run
(`Net.Reachable`) the registry lists, peer by peer, exactly the ids of the
writers alive, and a channel lacks its receiver exactly when its writer lost
it (`Net.Inv`). So no `Drop` of a writer ever makes `remove_connection` panic,
`connections()` names exactly the peers with a writer, the handlers run
exactly when a peer gets its first writer, and `send_msg`, which does not fall
back to another connection, fails for some pick as soon as one connection of
the peer lost its receiver.

The addresses are `nodes_addr`. `set_nodes` makes them exactly the members it
is given, itself apart, and starts a connection to exactly the members whose
address changed (`setNodes_spec`); a second call with the same members starts
none.

The `usize` counter `connection_gen` is a `ℕ`: it would wrap only after `2 ^ 64`
connections. The handshake, the sockets and the futures are not modelled;
their effects are the events of `Net`.
-/
import Sucredb.VNode.Sync
import Sucredb.Dht.Ring
import Sucredb.Lib.Reachable

namespace Sucredb

namespace Fabric

open Dht (SocketAddr)

/-- `SenderChan`, by what `send_msg` sees of it: whether its receiving end,
which the writer's future owns, is still there. -/
structure SenderChan where
  receiverAlive : Bool
deriving DecidableEq

/-- The part of `fabric::SharedContext` the connections change. -/
structure SharedContext where
  node : NodeId
  nodesAddr : VecMap NodeId SocketAddr
  connections : VecMap NodeId (List (ℕ × SenderChan))
  connectionGen : ℕ

namespace SharedContext

/-- `SharedContext::register_connection`: the context with the connection
pushed under a fresh id, the id, and whether the peer had no connection, in
which case the connection handlers run. -/
def registerConnection (c : SharedContext) (peer : NodeId) (sender : SenderChan) :
    SharedContext × ℕ × Bool :=
  let connectionId := c.connectionGen
  let isNew := ((c.connections.get? peer).getD []).isEmpty
  ({ c with
      connections := c.connections.upsert peer [] (· ++ [(connectionId, sender)])
      connectionGen := connectionId + 1 },
    connectionId, isNew)

/-- `SharedContext::remove_connection`: `swap_remove` the connection, and drop
the peer's entry once it is empty; `none` is the `panic!` of a peer with no
entry or the `expect` of an id the entry does not hold. -/
def removeConnection (c : SharedContext) (peer : NodeId) (connectionId : ℕ) :
    Option SharedContext := do
  let conns ← c.connections.get? peer
  let p ← conns.findIdx? (·.1 == connectionId)
  let conns' := conns.swapRemove p
  pure { c with
    connections :=
      if conns'.isEmpty then c.connections.erase peer else c.connections.insert peer conns' }

/-- What dropping a connection's receiver does to its channel: sends on it
fail from then on. -/
def dropReceiver (c : SharedContext) (peer : NodeId) (connectionId : ℕ) : SharedContext :=
  { c with
    connections := c.connections.mapValues fun p conns =>
      if p = peer then
        conns.map fun e => if e.1 = connectionId then (e.1, ⟨false⟩) else e
      else conns }

/-- The ids of the connections the registry holds for `peer`. -/
def connectionIds (c : SharedContext) (peer : NodeId) : List ℕ :=
  ((c.connections.get? peer).getD []).map Prod.fst

/-! ### What each call does to the registry -/

variable {c : SharedContext} {peer : NodeId}

@[simp] theorem connectionGen_registerConnection (s : SenderChan) :
    (c.registerConnection peer s).1.connectionGen = c.connectionGen + 1 := rfl

@[simp] theorem id_registerConnection (s : SenderChan) :
    (c.registerConnection peer s).2.1 = c.connectionGen := rfl

theorem get?_registerConnection (s : SenderChan) (q : NodeId) :
    (c.registerConnection peer s).1.connections.get? q =
      if q = peer then some ((c.connections.get? peer).getD [] ++ [(c.connectionGen, s)])
      else c.connections.get? q := by
  simp only [registerConnection, VecMap.get?_upsert]

theorem connectionIds_registerConnection (s : SenderChan) (q : NodeId) :
    (c.registerConnection peer s).1.connectionIds q =
      c.connectionIds q ++ if q = peer then [c.connectionGen] else [] := by
  by_cases hq : q = peer
  · subst hq
    simp [connectionIds, get?_registerConnection]
  · simp [connectionIds, get?_registerConnection, hq]

theorem connectionIds_dropReceiver (q : NodeId) (connectionId : ℕ) :
    (c.dropReceiver peer connectionId).connectionIds q = c.connectionIds q := by
  simp only [connectionIds, dropReceiver, VecMap.get?_mapValues]
  cases c.connections.get? q with
  | none => rfl
  | some conns =>
    split_ifs
    · simp only [Option.map_some, Option.getD_some, List.map_map]
      congr 1
      funext e
      by_cases he : e.1 = connectionId <;> simp [he]
    · rfl

theorem get?_dropReceiver_ne_nil (h : ∀ q l, c.connections.get? q = some l → l ≠ [])
    (connectionId : ℕ) (q : NodeId) (l : List (ℕ × SenderChan))
    (hl : (c.dropReceiver peer connectionId).connections.get? q = some l) : l ≠ [] := by
  simp only [dropReceiver, VecMap.get?_mapValues, Option.map_eq_some_iff] at hl
  obtain ⟨conns, hc, rfl⟩ := hl
  split_ifs
  · exact fun hnil => h q conns hc (List.map_eq_nil_iff.mp hnil)
  · exact h q conns hc

/-- A channel after `dropReceiver` is one the entry had, with its receiver
gone when it is the one dropped. -/
theorem mem_dropReceiver {connectionId : ℕ} {q : NodeId} {e : ℕ × SenderChan}
    (he : e ∈ ((c.dropReceiver peer connectionId).connections.get? q).getD []) :
    if q = peer ∧ e.1 = connectionId then e.2 = ⟨false⟩
    else e ∈ (c.connections.get? q).getD [] := by
  simp only [dropReceiver, VecMap.get?_mapValues] at he
  cases hc : c.connections.get? q with
  | none => simp [hc] at he
  | some conns =>
    rw [hc, Option.map_some, Option.getD_some] at he
    split_ifs at he with hq
    · obtain ⟨e₀, he₀, rfl⟩ := List.mem_map.mp he
      by_cases h₀ : e₀.1 = connectionId <;> simp [hq, h₀, he₀]
    · simp [hq, he]

/-- Removing a connection whose id the peer's entry holds once: it succeeds,
and the peer's entry loses that id and nothing else, keeping the channels of
the others. -/
theorem removeConnection_spec {connectionId : ℕ} (hmem : connectionId ∈ c.connectionIds peer)
    (hnodup : (c.connectionIds peer).Nodup) :
    ∃ c', c.removeConnection peer connectionId = some c' ∧
      c'.connectionGen = c.connectionGen ∧
      (c'.connectionIds peer).Perm ((c.connectionIds peer).erase connectionId) ∧
      (∀ l, c'.connections.get? peer = some l →
        l ≠ [] ∧ ∀ e ∈ l, e ∈ (c.connections.get? peer).getD []) ∧
      ∀ q, q ≠ peer → c'.connections.get? q = c.connections.get? q := by
  obtain ⟨conns, hconns⟩ : ∃ conns, c.connections.get? peer = some conns := by
    cases hc : c.connections.get? peer with
    | none => simp [connectionIds, hc] at hmem
    | some conns => exact ⟨conns, rfl⟩
  rw [connectionIds, hconns, Option.getD_some] at hmem hnodup
  -- the position `findIdx?` finds holds the id
  obtain ⟨i, hi⟩ : ∃ i, conns.findIdx? (·.1 == connectionId) = some i := by
    cases hf : conns.findIdx? (·.1 == connectionId) with
    | none =>
      obtain ⟨e, he, rfl⟩ := List.mem_map.mp hmem
      exact absurd (List.findIdx?_eq_none_iff.mp hf e he) (by simp)
    | some i => exact ⟨i, rfl⟩
  obtain ⟨hlt, hid, -⟩ := List.findIdx?_eq_some_iff_getElem.mp hi
  have hlt' : i < (conns.map Prod.fst).length := by simpa using hlt
  have hidx : (conns.map Prod.fst)[i] = connectionId := by simpa using hid
  have hperm :
      ((conns.swapRemove i).map Prod.fst).Perm ((conns.map Prod.fst).erase connectionId) := by
    rw [← hidx, hnodup.erase_getElem, List.eraseIdx_map]
    exact (List.swapRemove_perm hlt).map Prod.fst
  refine ⟨{ c with
      connections := if (conns.swapRemove i).isEmpty then c.connections.erase peer
        else c.connections.insert peer (conns.swapRemove i) },
    by simp [removeConnection, hconns, hi], rfl, ?_, ?_, fun q hq => ?_⟩
  · -- the entry goes once it is empty, which leaves no id either
    by_cases he : (conns.swapRemove i).isEmpty
    · rw [List.isEmpty_iff.mp he] at hperm
      simpa [connectionIds, he, hconns] using hperm
    · simpa [connectionIds, he, hconns] using hperm
  · intro l hl
    by_cases he : (conns.swapRemove i).isEmpty
    · simp [he] at hl
    · simp only [he, Bool.false_eq_true, if_false, VecMap.get?_insert, if_true,
        Option.some.injEq] at hl
      rw [← hl, hconns, Option.getD_some]
      exact ⟨fun h => he (List.isEmpty_iff.mpr h),
        fun e he' => (List.eraseIdx_sublist _ _).subset ((List.swapRemove_perm hlt).subset he')⟩
  · by_cases he : (conns.swapRemove i).isEmpty <;> simp [he, hq]

end SharedContext

/-- `Fabric::connections`: the peers with a connection. -/
def connections (c : SharedContext) : List NodeId :=
  (c.connections.entries.filter fun e => !e.2.isEmpty).map Prod.fst

/-- `Fabric::send_msg` to `node`, with `choice` the pick of
`thread_rng().choose` among its connections; `none` is the panic of a message
to the node itself. -/
def sendMsg (c : SharedContext) (node : NodeId) (choice : ℕ) :
    Option (Except FabricError Unit) :=
  if node = c.node then none
  else
    match c.connections.get? node with
    | none => some (.error .noRoute)
    | some conns =>
      match conns[choice % conns.length]? with
      | some (_, chan) => some (if chan.receiverAlive then .ok () else .error .noRoute)
      | none => some (.error .noRoute)

section SendMsg

variable {c : SharedContext} {node : NodeId} {conns : List (ℕ × SenderChan)}

theorem sendMsg_none (hnode : node ≠ c.node) (hc : c.connections.get? node = none)
    (choice : ℕ) : sendMsg c node choice = some (.error .noRoute) := by
  simp [sendMsg, hnode, hc]

/-- The pick `i`, below the number of the node's connections, uses the `i`-th. -/
theorem sendMsg_getElem (hnode : node ≠ c.node) (hc : c.connections.get? node = some conns)
    (i : ℕ) (hi : i < conns.length) :
    sendMsg c node i = some (if conns[i].2.receiverAlive then .ok () else .error .noRoute) := by
  simp [sendMsg, hnode, hc, Nat.mod_eq_of_lt hi, List.getElem?_eq_getElem hi]

/-- Every pick uses one of the node's connections. -/
theorem sendMsg_mem (hnode : node ≠ c.node) (hc : c.connections.get? node = some conns)
    (hne : conns ≠ []) (choice : ℕ) :
    ∃ e ∈ conns,
      sendMsg c node choice = some (if e.2.receiverAlive then .ok () else .error .noRoute) := by
  have hi : choice % conns.length < conns.length := Nat.mod_lt _ (List.length_pos_iff.mpr hne)
  refine ⟨conns[choice % conns.length], List.getElem_mem hi, ?_⟩
  rw [← sendMsg_getElem hnode hc _ hi]
  simp [sendMsg, hnode, hc]

end SendMsg

/-! ## The node addresses -/

/-- The state of `set_nodes`'s loop: the addresses so far, the old addresses
of the nodes not listed yet (`x_nodes`), and the `start_connect` calls. -/
structure SetNodesAcc where
  nodes : VecMap NodeId SocketAddr
  xNodes : VecMap NodeId SocketAddr
  started : List (NodeId × SocketAddr)

/-- One member of `set_nodes`'s loop; the node itself is skipped. -/
def setNodesStep (self : NodeId) (acc : SetNodesAcc) (m : NodeId × SocketAddr) : SetNodesAcc :=
  if m.1 ≠ self then
    ⟨acc.nodes.insert m.1 m.2, acc.xNodes.erase m.1,
      if acc.nodes.get? m.1 ≠ some m.2 then acc.started ++ [m] else acc.started⟩
  else acc

/-- `Fabric::set_nodes`: the context with the addresses of the members, the
others removed, and the `start_connect(Some(node), addr)` calls made. -/
def setNodes (c : SharedContext) (members : List (NodeId × SocketAddr)) :
    SharedContext × List (NodeId × SocketAddr) :=
  let r := members.foldl (setNodesStep c.node) ⟨c.nodesAddr, c.nodesAddr, []⟩
  ({ c with nodesAddr := r.xNodes.keys.foldl VecMap.erase r.nodes }, r.started)

/-- The end of `Fabric::connect` to an expected node: once the connection ends,
connect again to the node's address, if it still has one. -/
def reconnect (c : SharedContext) (expectedNode : Option NodeId) :
    Option (NodeId × SocketAddr) := do
  let node ← expectedNode
  let addr ← c.nodesAddr.get? node
  pure (node, addr)

section SetNodes

variable {self : NodeId}

theorem setNodesStep_nodes (acc : SetNodesAcc) (m : NodeId × SocketAddr) (k : NodeId) :
    (setNodesStep self acc m).nodes.get? k =
      if m.1 ≠ self ∧ k = m.1 then some m.2 else acc.nodes.get? k := by
  by_cases hm : m.1 = self <;> by_cases hk : k = m.1 <;> simp [setNodesStep, hm, hk]

/-- The addresses after the loop over members with distinct ids: a member
other than the node itself has its own, any other node keeps what it had. -/
theorem foldl_setNodesStep_nodes :
    ∀ {members : List (NodeId × SocketAddr)} (acc : SetNodesAcc),
      (members.map Prod.fst).Nodup → ∀ k,
        (members.foldl (setNodesStep self) acc).nodes.get? k =
          if k ≠ self ∧ k ∈ members.map Prod.fst then List.lookup k members
          else acc.nodes.get? k
  | [], _, _, k => by simp
  | (mk, ma) :: ms, acc, hnd, k => by
    rw [List.map_cons, List.nodup_cons] at hnd
    rw [List.foldl_cons, foldl_setNodesStep_nodes _ hnd.2, setNodesStep_nodes]
    by_cases hms : k ∈ ms.map Prod.fst
    · -- a later member, so not `m`
      have hkm : k ≠ mk := fun h => hnd.1 (h ▸ hms)
      by_cases hs : k = self
      · subst hs
        simp [hms, hkm]
      · simp [hms, hs, hkm, List.lookup_cons, beq_eq_false_iff_ne.mpr hkm]
    · by_cases hkm : k = mk
      · subst hkm
        by_cases hs : k = self <;> simp [hms, hs]
      · simp [hms, hkm]

/-- The nodes left in `x_nodes` after the loop: the old ones the members do not
name, the node itself apart. -/
theorem foldl_setNodesStep_xNodes :
    ∀ {members : List (NodeId × SocketAddr)} (acc : SetNodesAcc) (k : NodeId),
      (members.foldl (setNodesStep self) acc).xNodes.get? k =
        if k ≠ self ∧ k ∈ members.map Prod.fst then none else acc.xNodes.get? k
  | [], _, k => by simp
  | m :: ms, acc, k => by
    rw [List.foldl_cons, foldl_setNodesStep_xNodes]
    by_cases hm : m.1 = self <;> by_cases hk : k = m.1 <;> by_cases hms : k ∈ ms.map Prod.fst <;>
      simp_all [setNodesStep]

/-- The connections the loop starts: to the members, the node itself apart,
whose address was another when the loop began. -/
theorem foldl_setNodesStep_started :
    ∀ {members : List (NodeId × SocketAddr)} (acc : SetNodesAcc),
      (members.map Prod.fst).Nodup →
        (members.foldl (setNodesStep self) acc).started =
          acc.started ++ members.filter fun m => m.1 ≠ self ∧ acc.nodes.get? m.1 ≠ some m.2
  | [], _, _ => by simp
  | m :: ms, acc, hnd => by
    rw [List.map_cons, List.nodup_cons] at hnd
    rw [List.foldl_cons, foldl_setNodesStep_started _ hnd.2, List.filter_cons]
    -- the later members are looked up where `m` did not write
    have hrest : (ms.filter fun m' => m'.1 ≠ self ∧
        (setNodesStep self acc m).nodes.get? m'.1 ≠ some m'.2) =
        ms.filter fun m' => m'.1 ≠ self ∧ acc.nodes.get? m'.1 ≠ some m'.2 := by
      refine List.filter_congr fun m' hm' => ?_
      have hne : m'.1 ≠ m.1 := fun h => hnd.1 (h ▸ List.mem_map_of_mem hm')
      rw [setNodesStep_nodes]
      simp [hne]
    rw [hrest]
    by_cases hm : m.1 = self
    · simp [setNodesStep, hm]
    · by_cases ha : acc.nodes.get? m.1 = some m.2 <;> simp [setNodesStep, hm, ha]

theorem lookup_eq_none_of_not_mem {members : List (NodeId × SocketAddr)} {k : NodeId}
    (hk : k ∉ members.map Prod.fst) : List.lookup k members = none := by
  induction members with
  | nil => rfl
  | cons m ms ih =>
    obtain ⟨mk, ma⟩ := m
    have hne : k ≠ mk := fun h => hk (by simp [h])
    simp only [List.lookup_cons, beq_eq_false_iff_ne.mpr hne]
    exact ih fun h => hk (List.mem_cons_of_mem _ h)

/-- `set_nodes` with members of distinct ids, as `DHT::members` gives them:
the addresses become exactly those of the members, the node itself apart, and
a connection starts to exactly the members whose address was another. -/
theorem setNodes_spec (c : SharedContext) {members : List (NodeId × SocketAddr)}
    (hnd : (members.map Prod.fst).Nodup) :
    (∀ k, (setNodes c members).1.nodesAddr.get? k =
      if k ≠ c.node then List.lookup k members else none) ∧
    (setNodes c members).2 =
      members.filter fun m => m.1 ≠ c.node ∧ c.nodesAddr.get? m.1 ≠ some m.2 := by
  refine ⟨fun k => ?_, by simp [setNodes, foldl_setNodesStep_started _ hnd]⟩
  simp only [setNodes, VecMap.get?_foldl_erase, foldl_setNodesStep_nodes _ hnd]
  by_cases hk : k ≠ c.node ∧ k ∈ members.map Prod.fst
  · -- a member left `x_nodes`, so keeps the address it was given
    have hx : k ∉ (members.foldl (setNodesStep c.node) ⟨c.nodesAddr, c.nodesAddr, []⟩).xNodes.keys := by
      rw [← VecMap.get?_eq_none_iff, foldl_setNodesStep_xNodes, if_pos hk]
    simp [hx, hk]
  · -- any other node lost its address, or never had one
    have hnone : k ≠ c.node → List.lookup k members = none := fun hs =>
      lookup_eq_none_of_not_mem fun hm => hk ⟨hs, hm⟩
    have hx : (members.foldl (setNodesStep c.node) ⟨c.nodesAddr, c.nodesAddr, []⟩).xNodes.get? k =
        c.nodesAddr.get? k := by
      rw [foldl_setNodesStep_xNodes, if_neg hk]
    rw [if_neg hk]
    cases hc : c.nodesAddr.get? k with
    | none =>
      rw [if_neg (by rw [← VecMap.get?_eq_none_iff, hx, hc])]
      by_cases hs : k ≠ c.node <;> simp [hs, hnone]
    | some a =>
      rw [if_pos ((VecMap.mem_keys_iff _).mpr ⟨a, hx.trans hc⟩)]
      by_cases hs : k ≠ c.node <;> simp [hs, hnone]

end SetNodes

/-! ## The writers of a node's connections -/

/-- The registry, the writers alive, the peers the connection handlers ran
for, in order, and the writers whose channel lost its receiver. -/
structure Net where
  context : SharedContext
  writers : List (NodeId × ℕ)
  handlerCalls : List NodeId
  receiverless : List (NodeId × ℕ)

/-- What happens to a node's connections. -/
inductive Event where
  /-- A handshake with `peer` completes: `steady_connection` builds the
  connection's `WriterContext`. -/
  | connected (peer : NodeId)
  /-- The writer's future ends and drops the channel's receiver. -/
  | receiverDropped (peer : NodeId) (connectionId : ℕ)
  /-- The `WriterContext` of a connection is dropped. -/
  | writerDropped (peer : NodeId) (connectionId : ℕ)

namespace Net

/-- One event. Only a writer alive can lose its receiver or be dropped;
`none` is also the panic of `remove_connection`. -/
def step (n : Net) : Event → Option Net
  | .connected peer =>
    let r := n.context.registerConnection peer ⟨true⟩
    some ⟨r.1, n.writers ++ [(peer, r.2.1)],
      if r.2.2 then n.handlerCalls ++ [peer] else n.handlerCalls, n.receiverless⟩
  | .receiverDropped peer connectionId =>
    if (peer, connectionId) ∈ n.writers then
      some { n with
        context := n.context.dropReceiver peer connectionId
        receiverless := n.receiverless ++ [(peer, connectionId)] }
    else none
  | .writerDropped peer connectionId =>
    if (peer, connectionId) ∈ n.writers then
      (n.context.removeConnection peer connectionId).map fun c =>
        { n with context := c, writers := n.writers.erase (peer, connectionId) }
    else none

/-- The ids of the writers alive for `peer`. -/
def writerIds (ws : List (NodeId × ℕ)) (peer : NodeId) : List ℕ :=
  (ws.filter (·.1 = peer)).map Prod.snd

theorem writerIds_append (ws : List (NodeId × ℕ)) (w : NodeId × ℕ) (q : NodeId) :
    writerIds (ws ++ [w]) q = writerIds ws q ++ if w.1 = q then [w.2] else [] := by
  by_cases hq : w.1 = q <;> simp [writerIds, List.filter_append, hq]

/-- A writer taken out of the list is taken out of its peer's ids. -/
theorem writerIds_perm_erase {ws : List (NodeId × ℕ)} {w : NodeId × ℕ} (hw : w ∈ ws)
    (q : NodeId) :
    (writerIds ws q).Perm ((if w.1 = q then [w.2] else []) ++ writerIds (ws.erase w) q) := by
  have h := ((List.perm_cons_erase hw).filter (·.1 = q)).map Prod.snd
  by_cases hq : w.1 = q <;> simpa [writerIds, List.filter_cons, hq] using h

theorem writerIds_sublist (ws : List (NodeId × ℕ)) (q : NodeId) :
    (writerIds ws q).Sublist (ws.map Prod.snd) :=
  List.filter_sublist.map Prod.snd

theorem mem_writerIds {ws : List (NodeId × ℕ)} {p : NodeId} {id : ℕ} :
    id ∈ writerIds ws p ↔ (p, id) ∈ ws := by
  simp [writerIds]

/-- The registry holds, peer by peer, the ids of the writers alive, each once
and below the counter, and never an empty entry; a channel has its receiver
unless its writer lost it; the connection handlers have run for every peer
with a writer. -/
structure Inv (n : Net) : Prop where
  ids_perm : ∀ p, (n.context.connectionIds p).Perm (writerIds n.writers p)
  ne_nil : ∀ p l, n.context.connections.get? p = some l → l ≠ []
  ids_nodup : (n.writers.map Prod.snd).Nodup
  lt_gen : ∀ w ∈ n.writers, w.2 < n.context.connectionGen
  called : ∀ w ∈ n.writers, w.1 ∈ n.handlerCalls
  alive : ∀ p, ∀ e ∈ (n.context.connections.get? p).getD [],
    e.2.receiverAlive = !decide ((p, e.1) ∈ n.receiverless)
  receiverless_lt : ∀ w ∈ n.receiverless, w.2 < n.context.connectionGen

/-- A node's fabric as `Fabric::init` builds it: no address, no connection. -/
def Initial (self : NodeId) (n : Net) : Prop :=
  n = ⟨⟨self, .empty, .empty, 0⟩, [], [], []⟩

/-- The states of a node's connections that some run reaches. -/
abbrev Reachable (self : NodeId) : Net → Prop :=
  Sucredb.Reachable (Initial self) step

section Invariant

variable {n : Net}

/-- The registry holds a writer's id in its peer's entry, with no other copy. -/
theorem Inv.mem_connectionIds (h : n.Inv) {w : NodeId × ℕ} (hw : w ∈ n.writers) :
    w.2 ∈ n.context.connectionIds w.1 ∧ (n.context.connectionIds w.1).Nodup := by
  refine ⟨(h.ids_perm w.1).mem_iff.mpr ?_, (h.ids_perm w.1).nodup_iff.mpr
    ((writerIds_sublist _ _).nodup h.ids_nodup)⟩
  exact List.mem_map.mpr ⟨w, List.mem_filter.mpr ⟨hw, by simp⟩, rfl⟩

/-- The channels of a peer's entry are those of its writers. -/
theorem Inv.mem_entry_iff (h : n.Inv) {p : NodeId} {conns : List (ℕ × SenderChan)}
    (hc : n.context.connections.get? p = some conns) (id : ℕ) :
    id ∈ conns.map Prod.fst ↔ (p, id) ∈ n.writers := by
  have hp : id ∈ n.context.connectionIds p ↔ id ∈ writerIds n.writers p := (h.ids_perm p).mem_iff
  rw [SharedContext.connectionIds, hc, Option.getD_some, mem_writerIds] at hp
  exact hp

/-- A peer has a writer exactly when the registry holds an entry for it. -/
theorem Inv.get?_isSome_iff (h : n.Inv) (p : NodeId) :
    (n.context.connections.get? p).isSome ↔ ∃ id, (p, id) ∈ n.writers := by
  constructor
  · intro hs
    obtain ⟨l, hl⟩ := Option.isSome_iff_exists.mp hs
    obtain ⟨e, he⟩ := List.exists_mem_of_ne_nil l (h.ne_nil p l hl)
    exact ⟨e.1, (h.mem_entry_iff hl e.1).mp (List.mem_map_of_mem he)⟩
  · rintro ⟨id, hw⟩
    have hmem := (h.mem_connectionIds hw).1
    cases hc : n.context.connections.get? p with
    | none => simp [SharedContext.connectionIds, hc] at hmem
    | some l => rfl

/-- A channel has its receiver exactly when its writer has not lost it. -/
theorem Inv.receiverAlive_iff (h : n.Inv) {p : NodeId} {conns : List (ℕ × SenderChan)}
    (hc : n.context.connections.get? p = some conns) {e : ℕ × SenderChan} (he : e ∈ conns) :
    e.2.receiverAlive = true ↔ (p, e.1) ∉ n.receiverless := by
  rw [h.alive p e (by rwa [hc, Option.getD_some])]
  simp

theorem Inv.connected (h : n.Inv) (peer : NodeId) :
    (⟨(n.context.registerConnection peer ⟨true⟩).1,
      n.writers ++ [(peer, (n.context.registerConnection peer ⟨true⟩).2.1)],
      if (n.context.registerConnection peer ⟨true⟩).2.2 then n.handlerCalls ++ [peer]
      else n.handlerCalls, n.receiverless⟩ : Net).Inv where
  ids_perm q := by
    rw [SharedContext.connectionIds_registerConnection, SharedContext.id_registerConnection,
      writerIds_append]
    by_cases hq : q = peer
    · subst hq
      simpa using (h.ids_perm q).append_right [n.context.connectionGen]
    · simpa [hq, Ne.symm hq] using h.ids_perm q
  ne_nil q l hl := by
    rw [SharedContext.get?_registerConnection] at hl
    split_ifs at hl
    · cases hl
      simp
    · exact h.ne_nil q l hl
  ids_nodup := by
    -- the new id is the counter, above every id in use
    rw [List.map_append, List.nodup_append]
    refine ⟨h.ids_nodup, List.nodup_singleton _, fun a ha b hb => ?_⟩
    obtain ⟨w, hw, rfl⟩ := List.mem_map.mp ha
    simp only [List.map_cons, List.map_nil, List.mem_singleton] at hb
    subst hb
    exact Nat.ne_of_lt (h.lt_gen w hw)
  lt_gen w hw := by
    rcases List.mem_append.mp hw with hw | hw
    · exact Nat.lt_succ_of_lt (h.lt_gen w hw)
    · rw [List.mem_singleton.mp hw]
      exact Nat.lt_succ_self _
  called w hw := by
    rcases List.mem_append.mp hw with hw | hw
    · split_ifs
      · exact List.mem_append_left _ (h.called w hw)
      · exact h.called w hw
    · rw [List.mem_singleton.mp hw]
      split_ifs with hnew
      · exact List.mem_append_right _ (List.mem_singleton_self _)
      · -- the peer had an entry, so a writer, for which the handlers ran
        have hsome : (n.context.connections.get? peer).isSome := by
          cases hc : n.context.connections.get? peer with
          | none => simp [SharedContext.registerConnection, hc] at hnew
          | some l => rfl
        obtain ⟨id, hw'⟩ := (h.get?_isSome_iff peer).mp hsome
        exact h.called (peer, id) hw'
  alive q e he := by
    rw [SharedContext.get?_registerConnection] at he
    split_ifs at he with hq
    · subst hq
      rw [Option.getD_some] at he
      rcases List.mem_append.mp he with he | he
      · exact h.alive q e he
      · -- the new channel: its id is the counter, which no receiver lost yet
        have hfresh : (q, n.context.connectionGen) ∉ n.receiverless :=
          fun hr => Nat.lt_irrefl _ (h.receiverless_lt _ hr)
        simp [List.mem_singleton.mp he, hfresh]
    · exact h.alive q e he
  receiverless_lt w hw := Nat.lt_succ_of_lt (h.receiverless_lt w hw)

theorem Inv.receiverDropped (h : n.Inv) {peer : NodeId} {connectionId : ℕ}
    (hw : (peer, connectionId) ∈ n.writers) :
    ({ n with
        context := n.context.dropReceiver peer connectionId
        receiverless := n.receiverless ++ [(peer, connectionId)] }).Inv where
  ids_perm q := by
    rw [SharedContext.connectionIds_dropReceiver]
    exact h.ids_perm q
  ne_nil := SharedContext.get?_dropReceiver_ne_nil h.ne_nil connectionId
  ids_nodup := h.ids_nodup
  lt_gen := h.lt_gen
  called := h.called
  alive q e he := by
    have he' := SharedContext.mem_dropReceiver he
    split_ifs at he' with hd
    · obtain ⟨rfl, hid⟩ := hd
      simp [he', hid]
    · rw [h.alive q e he']
      simp [hd]
  receiverless_lt w hw' := by
    rcases List.mem_append.mp hw' with hw' | hw'
    · exact h.receiverless_lt w hw'
    · rw [List.mem_singleton.mp hw']
      exact h.lt_gen _ hw

theorem Inv.writerDropped (h : n.Inv) {peer : NodeId} {connectionId : ℕ}
    (hw : (peer, connectionId) ∈ n.writers) :
    ∃ c, n.context.removeConnection peer connectionId = some c ∧
      ({ n with context := c, writers := n.writers.erase (peer, connectionId) }).Inv := by
  obtain ⟨hmem, hnodup⟩ := h.mem_connectionIds hw
  obtain ⟨c, hc, hgen, hperm, hne, hother⟩ := SharedContext.removeConnection_spec hmem hnodup
  refine ⟨c, hc, ⟨fun q => ?_, fun q l hl => ?_, ?_, fun w hw' => ?_, fun w hw' => ?_,
    fun q e he => ?_, fun w hw' => ?_⟩⟩
  · have hw := writerIds_perm_erase hw q
    by_cases hq : q = peer
    · -- the peer's entry and its writers both lose the id
      subst hq
      simp only [if_true] at hw
      refine hperm.trans (((h.ids_perm q).erase connectionId).trans ?_)
      simpa using hw.erase connectionId
    · have heq : c.connectionIds q = n.context.connectionIds q := by
        simp [SharedContext.connectionIds, hother q hq]
      rw [heq]
      simpa [Ne.symm hq] using (h.ids_perm q).trans hw
  · by_cases hq : q = peer
    · subst hq
      exact (hne l hl).1
    · exact h.ne_nil q l (by rwa [hother q hq] at hl)
  · exact (List.erase_sublist.map Prod.snd).nodup h.ids_nodup
  · rw [hgen]
    exact h.lt_gen w (List.mem_of_mem_erase hw')
  · exact h.called w (List.mem_of_mem_erase hw')
  · -- the channels left are ones the registry had
    by_cases hq : q = peer
    · subst hq
      cases hl : c.connections.get? q with
      | none => simp [hl] at he
      | some l =>
        rw [hl, Option.getD_some] at he
        exact h.alive q e ((hne l hl).2 e he)
    · rw [hother q hq] at he
      exact h.alive q e he
  · rw [hgen]
    exact h.receiverless_lt w hw'

theorem Inv.step (h : n.Inv) {e : Event} {n' : Net} (hs : n.step e = some n') : n'.Inv := by
  cases e with
  | connected peer =>
    cases hs
    exact h.connected peer
  | receiverDropped peer connectionId =>
    simp only [Net.step] at hs
    split_ifs at hs with hw
    cases hs
    exact h.receiverDropped hw
  | writerDropped peer connectionId =>
    simp only [Net.step] at hs
    split_ifs at hs with hw
    obtain ⟨c, hc, hinv⟩ := h.writerDropped hw
    rw [hc, Option.map_some, Option.some.injEq] at hs
    rw [← hs]
    exact hinv

theorem inv_initial {self : NodeId} (h : Initial self n) : n.Inv := by
  subst h
  exact ⟨fun _ => by simp [SharedContext.connectionIds, writerIds], fun _ _ h => (by cases h),
    List.nodup_nil, fun _ h => absurd h List.not_mem_nil, fun _ h => absurd h List.not_mem_nil,
    fun _ _ h => absurd h (by simp), fun _ h => absurd h List.not_mem_nil⟩

theorem inv_of_reachable {self : NodeId} (h : Reachable self n) : n.Inv :=
  Sucredb.Reachable.induct (fun _ hs => inv_initial hs) (fun _ _ _ _ hinv hs => hinv.step hs) h

end Invariant

/-- The registry follows the writers in every run: it holds, peer by peer,
exactly the ids of the writers alive, so the `Drop` of a writer never makes
`remove_connection` panic; `connections()` names exactly the peers with a
writer; and a new connection runs the connection handlers exactly when its
peer has no writer. -/
theorem connection_registry_tracks_writers {self : NodeId} {n : Net} (h : Reachable self n) :
    (∀ p id, id ∈ n.context.connectionIds p ↔ (p, id) ∈ n.writers) ∧
    (∀ w ∈ n.writers, ∃ c, n.context.removeConnection w.1 w.2 = some c) ∧
    (∀ p, p ∈ connections n.context ↔ ∃ id, (p, id) ∈ n.writers) ∧
    ∀ p, (n.context.registerConnection p ⟨true⟩).2.2 = true ↔ ∀ id, (p, id) ∉ n.writers := by
  have hinv := inv_of_reachable h
  refine ⟨fun p id => ?_, fun w hw => ?_, fun p => ?_, fun p => ?_⟩
  · rw [(hinv.ids_perm p).mem_iff, mem_writerIds]
  · obtain ⟨c, hc, -⟩ := hinv.writerDropped hw
    exact ⟨c, hc⟩
  · -- the entries listed are the non-empty ones, which are all of them
    rw [← hinv.get?_isSome_iff]
    simp only [connections, List.mem_map, List.mem_filter]
    constructor
    · rintro ⟨e, ⟨he, -⟩, rfl⟩
      simp [(n.context.connections.get?_eq_some_iff).mpr he]
    · intro hs
      obtain ⟨l, hl⟩ := Option.isSome_iff_exists.mp hs
      exact ⟨(p, l), ⟨(n.context.connections.get?_eq_some_iff).mp hl,
        by simpa using hinv.ne_nil p l hl⟩, rfl⟩
  · rw [← not_exists, ← hinv.get?_isSome_iff]
    cases hc : n.context.connections.get? p with
    | none => simp [SharedContext.registerConnection, hc]
    | some l => simp [SharedContext.registerConnection, hc, hinv.ne_nil p l hc]

/-- A node that connected to node 1 twice and to node 2 once, and whose first
connection ended: node 1 keeps its second connection, and a new one to node 2
runs no handler. -/
theorem registry_after_two_peers :
    ∃ n, run step ⟨⟨0, .empty, .empty, 0⟩, [], [], []⟩
        [.connected 1, .connected 2, .connected 1, .writerDropped 1 0] = some n ∧
      1 ∈ connections n.context ∧ (n.context.registerConnection 2 ⟨true⟩).2.2 = false := by
  obtain ⟨n, hr⟩ : ∃ n, run step ⟨⟨0, .empty, .empty, 0⟩, [], [], []⟩
      [.connected 1, .connected 2, .connected 1, .writerDropped 1 0] = some n := ⟨_, rfl⟩
  have hreach : Reachable 0 n := reachable_of_run rfl hr
  have hreg := connection_registry_tracks_writers hreach
  refine ⟨n, hr, ?_, ?_⟩
  · cases hr
    exact (hreg.2.2.1 1).mpr ⟨2, by decide⟩
  · cases hr
    exact Bool.eq_false_iff.mpr fun ht => (hreg.2.2.2 2).mp ht 1 (by decide)

/-- What `send_msg` to another node gives in every run, whatever connection it
picks: `NoRoute` when the node has no writer; success for every pick exactly
when the node has a writer and none of its writers lost its receiver; and,
since a pick does not fall back to another connection, `NoRoute` for some pick
as soon as one of them did. -/
theorem send_msg_fails_on_lost_receiver {self : NodeId} {n : Net} (h : Reachable self n)
    {node : NodeId} (hnode : node ≠ n.context.node) :
    ((∀ id, (node, id) ∉ n.writers) →
      ∀ choice, sendMsg n.context node choice = some (.error .noRoute)) ∧
    ((∀ choice, sendMsg n.context node choice = some (.ok ())) ↔
      (∃ id, (node, id) ∈ n.writers) ∧ ∀ id, (node, id) ∈ n.writers → (node, id) ∉ n.receiverless) ∧
    ∀ id, (node, id) ∈ n.writers → (node, id) ∈ n.receiverless →
      ∃ choice, sendMsg n.context node choice = some (.error .noRoute) := by
  have hinv := inv_of_reachable h
  cases hc : n.context.connections.get? node with
  | none =>
    -- no entry, so no writer
    have hw : ∀ id, (node, id) ∉ n.writers := fun id hw => by
      simpa [hc] using (hinv.get?_isSome_iff node).mpr ⟨id, hw⟩
    refine ⟨fun _ => sendMsg_none hnode hc, ?_, fun id hid => absurd hid (hw id)⟩
    simp [sendMsg_none hnode hc, hw]
  | some conns =>
    have hne := hinv.ne_nil node conns hc
    -- each writer's channel is the pick at its position
    have hpick : ∀ id, (node, id) ∈ n.writers → ∃ choice, ∃ e ∈ conns, e.1 = id ∧
        sendMsg n.context node choice = some (if e.2.receiverAlive then .ok () else .error .noRoute) := by
      intro id hid
      obtain ⟨e, he, rfl⟩ := List.mem_map.mp ((hinv.mem_entry_iff hc id).mpr hid)
      obtain ⟨i, hi, rfl⟩ := List.mem_iff_getElem.mp he
      exact ⟨i, conns[i], he, rfl, sendMsg_getElem hnode hc i hi⟩
    obtain ⟨e₀, he₀⟩ := List.exists_mem_of_ne_nil conns hne
    have hw₀ := (hinv.mem_entry_iff hc e₀.1).mp (List.mem_map_of_mem he₀)
    refine ⟨fun hw => absurd hw₀ (hw e₀.1), ⟨fun hok => ⟨⟨e₀.1, hw₀⟩, fun id hid hr => ?_⟩,
      fun hall choice => ?_⟩, fun id hid hr => ?_⟩
    · obtain ⟨choice, e, he, rfl, hs⟩ := hpick _ hid
      have hok' := hok choice
      rw [hs] at hok'
      split_ifs at hok' with ha
      · exact (hinv.receiverAlive_iff hc he).mp ha hr
      · cases hok'
    · obtain ⟨e, he, hs⟩ := sendMsg_mem hnode hc hne choice
      have hw := (hinv.mem_entry_iff hc e.1).mp (List.mem_map_of_mem he)
      rw [hs, if_pos ((hinv.receiverAlive_iff hc he).mpr (hall.2 e.1 hw))]
    · obtain ⟨choice, e, he, rfl, hs⟩ := hpick _ hid
      have ha : e.2.receiverAlive ≠ true := fun ha => (hinv.receiverAlive_iff hc he).mp ha hr
      exact ⟨choice, by rw [hs, if_neg ha]⟩

/-- A node whose first of two connections to node 1 lost its receiver: a send
to node 1 can fail, although the second connection works. -/
theorem send_after_lost_receiver :
    ∃ n, run step ⟨⟨0, .empty, .empty, 0⟩, [], [], []⟩
        [.connected 1, .connected 1, .receiverDropped 1 0] = some n ∧
      (∃ choice, sendMsg n.context 1 choice = some (.error .noRoute)) ∧
      sendMsg n.context 1 1 = some (.ok ()) := by
  obtain ⟨n, hr⟩ : ∃ n, run step ⟨⟨0, .empty, .empty, 0⟩, [], [], []⟩
      [.connected 1, .connected 1, .receiverDropped 1 0] = some n := ⟨_, rfl⟩
  have hreach : Reachable 0 n := reachable_of_run rfl hr
  refine ⟨n, hr, ?_, ?_⟩
  · cases hr
    exact (send_msg_fails_on_lost_receiver hreach (by decide)).2.2 0 (by decide) (by decide)
  · cases hr
    rfl

end Net

/-- `set_nodes` keeps the fabric's addresses to the members it is given, as
`Database` calls it with `DHT::members` on every ring change. The addresses
become exactly the members', the node itself apart; a connection starts to
exactly the members whose address changed, so the same members again start
none; and the connection to a node left out is not made again when it ends. -/
theorem set_nodes_tracks_members (c : SharedContext) {members : List (NodeId × SocketAddr)}
    (hnd : (members.map Prod.fst).Nodup) :
    (∀ k, (setNodes c members).1.nodesAddr.get? k =
      if k ≠ c.node then List.lookup k members else none) ∧
    (∀ m, m ∈ (setNodes c members).2 ↔
      m ∈ members ∧ m.1 ≠ c.node ∧ c.nodesAddr.get? m.1 ≠ some m.2) ∧
    (setNodes (setNodes c members).1 members).2 = [] ∧
    ∀ k, (k = c.node ∨ k ∉ members.map Prod.fst) → reconnect (setNodes c members).1 (some k) = none := by
  obtain ⟨haddr, hstart⟩ := setNodes_spec c hnd
  refine ⟨haddr, fun m => by simp [hstart], ?_, fun k hk => ?_⟩
  · -- every member other than the node now has its own address
    rw [(setNodes_spec _ hnd).2, List.filter_eq_nil_iff]
    intro m hm
    have hnode : (setNodes c members).1.node = c.node := rfl
    simp only [hnode, haddr, decide_eq_true_eq, not_and, not_not]
    intro hs
    rw [if_pos hs, VecMap.lookup_eq_some_of_nodup hnd]
    exact hm
  · have hnone : (setNodes c members).1.nodesAddr.get? k = none := by
      rw [haddr]
      rcases hk with rfl | hk
      · simp
      · simp [lookup_eq_none_of_not_mem hk]
    simp [reconnect, hnone]

/-- Node 1 given itself and node 2 at a new address starts a connection to
node 2 only. -/
example : (setNodes ⟨1, VecMap.empty.insert 2 8, .empty, 0⟩ [(1, 7), (2, 9)]).2 = [(2, 9)] := by
  decide

end Fabric

end Sucredb
