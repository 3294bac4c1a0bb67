/-
Sucredb.Dht.Ring — the ring of `dht.rs`: the nodes of the cluster, the owners
of each vnode, and the proposals and the merge that change it.

The ring is `Ring<T>` of the source with its `Metadata` type `T` left generic.
`nodes` is an `IdHashMap` and each vnode's `owners` a `LinearMap`; both are a
`VecMap` here, and a loop over a hash map walks the entries in `VecMap` order,
one of the orders the source allows. A `SocketAddr` is only compared, so it is
a number. The field `meta` of `Node` is `metadata`: `meta` is a Lean keyword.

The proposals return `Except RingError`: `RingError.error` is the source's
`GenericError` (its text as the source formats it), and `RingError.panic` an
index out of bounds, a failed `unwrap` or `assert!`, or `unreachable!`. A
proposal mutates a clone of the ring, so the ring a failed proposal leaves is
never seen: the model returns the ring only on success.

`merge` decides by the ring versions alone: a ring whose version the local
one descends is dropped whole, one that descends the local version replaces
it, and only concurrent versions are merged node by node and vnode by vnode.
Its lemmas are here with the definitions; what follows from them for the
cluster is in `Sucredb.Dht.RingTheorems`.
-/
import Sucredb.VersionVector.Basic
import Sucredb.Lib.Reachable

namespace Sucredb

namespace Dht

/-- `std::net::SocketAddr`, which the ring only compares. -/
abbrev SocketAddr := ℕ

/-- `database::VNodeNo`. -/
abbrev VNodeNo := ℕ

/-- `dht::NodeStatus`. -/
inductive NodeStatus where
  | valid
  | leaving
  | invalid
deriving DecidableEq, Repr

/-- `dht::VNodeNodeStatus`. -/
inductive VNodeNodeStatus where
  | owner
  | pending
  | retiring
deriving DecidableEq, Repr

/-- `dht::Node`: a member of the cluster. -/
structure Node (T : Type) where
  addr : SocketAddr
  status : NodeStatus
  metadata : T
  version : VersionVector
deriving DecidableEq

/-- `dht::VNode`: the nodes that own a vnode, with the vnode's version. -/
structure VNode where
  owners : VecMap NodeId VNodeNodeStatus
  version : VersionVector
deriving DecidableEq

/-- `dht::Ring`. -/
structure Ring (T : Type) where
  vnodes : List VNode
  nodes : VecMap NodeId (Node T)
  replicationFactor : ℕ
  version : VersionVector
  cluster : String
deriving DecidableEq

/-- How a proposal or a merge fails: a `GenericError`, or a panic. -/
inductive RingError where
  | error (msg : String)
  | panic
deriving DecidableEq, Repr

/-- `VNode::default`. -/
def VNode.empty : VNode := ⟨VecMap.empty, .new⟩

/-- Drop the `Retiring` owners once no owner is `Pending`: the end of
`promote_pending_node` and of a vnode's merge. -/
def VNode.pruneRetiring (vn : VNode) : VNode :=
  if vn.owners.entries.any (·.2 == .pending) then vn
  else { vn with owners := vn.owners.retain fun _ s => s != .retiring }

namespace Ring

variable {T : Type}

/-- `Ring::new`. -/
def new (cluster : String) (partitions replicationFactor : ℕ) : Ring T :=
  ⟨List.replicate partitions VNode.empty, VecMap.empty, replicationFactor, .new, cluster⟩

/-- `Ring::valid_nodes_count`. -/
def validNodesCount (r : Ring T) : ℕ :=
  (r.nodes.entries.filter (·.2.status == .valid)).length

/-- `Ring::valid_physical_count`: the valid nodes on one physical node. -/
def validPhysicalCount (r : Ring T) (physical : ℕ) : ℕ :=
  (r.nodes.entries.filter fun e => (splitU64 e.1).1 == physical && e.2.status == .valid).length

/-- The node update `leave_node`, `remove_node` and `replace_node` share: give
node `n` the status, and bump its version, unless it has that status. -/
def markNode (nodes : VecMap NodeId (Node T)) (this n : NodeId) (status : NodeStatus) :
    VecMap NodeId (Node T) :=
  match nodes.get? n with
  | some node =>
    if node.status ≠ status then
      nodes.insert n { node with status, version := node.version.event this }
    else nodes
  | none => nodes

/-- `Ring::leave_node`. The ring version is not bumped. -/
def leaveNode (r : Ring T) (this leaving : NodeId) : Except RingError (Ring T) :=
  .ok { r with
    nodes := markNode r.nodes this leaving .leaving
    vnodes := r.vnodes.map fun vn =>
      match vn.owners.get? leaving with
      | some status =>
        if status ≠ .retiring then ⟨vn.owners.insert leaving .retiring, vn.version.event this⟩
        else vn
      | none => vn }

/-- The end of `join_node` and of `replace_node`: refuse a second valid node on
the physical node of `node`. -/
def checkPhysical (r : Ring T) (node : NodeId) : Except RingError (Ring T) :=
  if r.validPhysicalCount (splitU64 node).1 > 1 then .error (.error "Duplicated physical node id")
  else .ok r

/-- `Ring::join_node`. A node already present with this address and metadata
leaves the ring as it is; otherwise the ring version is bumped after the
physical check. -/
def joinNode [DecidableEq T] (r : Ring T) (this node : NodeId) (addr : SocketAddr) (metadata : T) :
    Except RingError (Ring T) :=
  match r.nodes.get? node with
  | none =>
    (checkPhysical { r with
      nodes := r.nodes.insert node ⟨addr, .valid, metadata, VersionVector.new.event this⟩ }
        node).map fun r => { r with version := r.version.event this }
  | some n =>
    if n.metadata = metadata ∧ n.addr = addr then .ok r
    else
      -- the status is kept: a node that left or was removed joins again as it was
      (checkPhysical { r with
        nodes := r.nodes.insert node { n with metadata, addr, version := n.version.event this } }
          node).map fun r => { r with version := r.version.event this }

/-- `Ring::remove_node`. -/
def removeNode (r : Ring T) (this removed : NodeId) : Except RingError (Ring T) :=
  .ok { r with
    version := r.version.event this
    nodes := markNode r.nodes this removed .invalid
    vnodes := r.vnodes.map fun vn =>
      if vn.owners.contains removed then ⟨vn.owners.erase removed, vn.version.event this⟩
      else vn }

/-- `Ring::promote_pending_node`. The ring version is bumped first, so
promoting a node that already owns the vnode bumps it and nothing else. -/
def promotePendingNode (r : Ring T) (this promoted : NodeId) (vnNo : VNodeNo) :
    Except RingError (Ring T) :=
  let r := { r with version := r.version.event this }
  match r.vnodes[vnNo]? with
  | none => .error .panic
  | some vn =>
    match vn.owners.get? promoted with
    | none =>
      .error (.error (toString promoted ++ " is not part of vnodes[" ++ toString vnNo ++ "]"))
    | some status =>
      if status ≠ .pending ∧ status ≠ .owner then
        .error (.error (toString promoted ++ " cant be promoted"))
      else if status ≠ .owner then
        let vn := VNode.pruneRetiring ⟨vn.owners.insert promoted .owner, vn.version.event this⟩
        .ok { r with vnodes := r.vnodes.set vnNo vn }
      else .ok r

/-- The ownership move of `replace_node` on one vnode. -/
def replaceOwner (this old new : NodeId) (vn : VNode) : VNode :=
  match vn.owners.get? old with
  | some status => ⟨(vn.owners.erase old).insert new status, vn.version.event this⟩
  | none => vn

/-- `Ring::replace_node`. Its second error names the new node, as the source
formats it, though the node missing is the old one. -/
def replaceNode (r : Ring T) (this old new : NodeId) (addr : SocketAddr) (metadata : T) :
    Except RingError (Ring T) :=
  let r := { r with version := r.version.event this }
  if r.nodes.contains new then .error (.error (toString new ++ " is already in the cluster"))
  else
    let nodes := r.nodes.insert new ⟨addr, .valid, metadata, VersionVector.new.event this⟩
    if !nodes.contains old then .error (.error (toString new ++ " is not in the cluster"))
    else
      checkPhysical { r with
        nodes := markNode nodes this old .invalid
        vnodes := r.vnodes.map (replaceOwner this old new) } new

/-! ## Merge -/

/-- The status `merge` gives a node both rings hold with concurrent versions,
from the pair of statuses it matches on. -/
def mergeNodeStatus (cur : NodeStatus) : NodeStatus × NodeStatus → NodeStatus
  | (.valid, .valid) => cur
  | (.leaving, _) | (_, .leaving) => .leaving
  | (.invalid, _) | (_, .invalid) => .invalid

/-- What `merge` keeps of a node both rings hold. -/
def mergeNodeValue (node other : Node T) : Node T :=
  if node.version.descends other.version then node
  -- the source tests `other_node.version.descends(&other_node.version)`, which always holds
  else if other.version.descends other.version then other
  else { node with
    version := node.version.merge other.version
    status := mergeNodeStatus node.status (other.status, other.status) }

/-- One node of the other ring merged into `nodes`. -/
def mergeNode (nodes : VecMap NodeId (Node T)) (e : NodeId × Node T) : VecMap NodeId (Node T) :=
  match nodes.get? e.1 with
  | none => nodes.insert e.1 e.2
  | some node => nodes.insert e.1 (mergeNodeValue node e.2)

/-- The owner status `merge` keeps for a node both vnodes list. -/
def mergeOwnerStatus : VNodeNodeStatus → VNodeNodeStatus → VNodeNodeStatus
  | .owner, _ | _, .owner => .owner
  | .pending, _ | _, .pending => .pending
  | .retiring, .retiring => .retiring

/-- One owner of the other vnode merged into `owners`. -/
def mergeOwner (owners : VecMap NodeId VNodeNodeStatus) (e : NodeId × VNodeNodeStatus) :
    VecMap NodeId VNodeNodeStatus :=
  match owners.get? e.1 with
  | none => owners.insert e.1 e.2
  | some status => owners.insert e.1 (mergeOwnerStatus status e.2)

/-- The merge of one vnode with the other ring's vnode of the same number. -/
def mergeVNode (vnode other : VNode) : VNode :=
  if vnode.version.descends other.version then vnode
  else if other.version.descends vnode.version then other
  else VNode.pruneRetiring
    ⟨other.owners.entries.foldl mergeOwner vnode.owners, vnode.version.merge other.version⟩

/-- `Ring::merge`: whether the local ring changed, and the ring. -/
def merge (r other : Ring T) : Except RingError (Bool × Ring T) :=
  if r.cluster ≠ other.cluster then
    .error (.error ("Cluster name differs " ++ r.cluster.quote ++ " != " ++ other.cluster.quote))
  else if r.vnodes.length ≠ other.vnodes.length ∧ !r.vnodes.isEmpty then
    .error (.error ("Incompatible partition count " ++ toString r.vnodes.length ++ " != " ++
      toString other.vnodes.length))
  else if other.vnodes.isEmpty then .error (.error "Other ring isn't valid")
  else if r.version.descends other.version then .ok (false, r)
  else if other.version.descends r.version then .ok (true, other)
  else .ok (true, { r with
    version := r.version.merge other.version
    nodes := other.nodes.entries.foldl mergeNode r.nodes
    vnodes := if r.vnodes.isEmpty then other.vnodes
      else List.zipWith mergeVNode r.vnodes other.vnodes })

/-! ## Lemmas -/

@[simp] theorem VNode.pruneRetiring_version (vn : VNode) : vn.pruneRetiring.version = vn.version := by
  unfold VNode.pruneRetiring
  split <;> rfl

@[simp] theorem get?_markNode (nodes : VecMap NodeId (Node T)) (this n k : NodeId)
    (status : NodeStatus) :
    (markNode nodes this n status).get? k =
      if k = n then (nodes.get? n).map fun node =>
        if node.status ≠ status then { node with status, version := node.version.event this }
        else node
      else nodes.get? k := by
  unfold markNode
  by_cases hk : k = n
  · subst hk
    cases h : nodes.get? k with
    | none => simp [h]
    | some node => by_cases hs : node.status = status <;> simp [h, hs]
  · cases h : nodes.get? n with
    | none => simp [hk]
    | some node => by_cases hs : node.status = status <;> simp [hk, hs]

/-- A node that `markNode` reaches ends with the status, and with a version
that covers its old one. -/
theorem get?_markNode_self {nodes : VecMap NodeId (Node T)} {this n : NodeId}
    {status : NodeStatus} {node : Node T} (h : nodes.get? n = some node) :
    ∃ x, (markNode nodes this n status).get? n = some x ∧ x.status = status ∧
      x.version.descends node.version = true := by
  rw [get?_markNode, if_pos rfl, h]
  by_cases hs : node.status = status
  · exact ⟨node, by simp [hs], hs, VersionVector.descends_self _⟩
  · exact ⟨{ node with status, version := node.version.event this }, by simp [hs], rfl,
      VersionVector.event_descends _ _⟩

/-- What `leave_node` changes: the nodes and the vnodes, and not the version. -/
theorem leaveNode_spec {r r' : Ring T} {this n : NodeId} (h : r.leaveNode this n = .ok r') :
    r'.version = r.version ∧ r'.cluster = r.cluster ∧ r'.vnodes.length = r.vnodes.length ∧
      r'.nodes = markNode r.nodes this n .leaving := by
  cases h
  exact ⟨rfl, rfl, List.length_map .., rfl⟩

/-- What `remove_node` changes: the version, the node, and every vnode the
node is listed for. -/
theorem removeNode_spec {r r' : Ring T} {this n : NodeId} (h : r.removeNode this n = .ok r') :
    r'.version = r.version.event this ∧ r'.cluster = r.cluster ∧
      r'.nodes = markNode r.nodes this n .invalid ∧
      r'.vnodes = r.vnodes.map fun vn =>
        if vn.owners.contains n then ⟨vn.owners.erase n, vn.version.event this⟩ else vn := by
  cases h
  exact ⟨rfl, rfl, rfl, rfl⟩

/-- Promoting a `Pending` owner of an existing vnode: the version and that
vnode change. -/
theorem promotePendingNode_spec {r : Ring T} {this n : NodeId} {i : VNodeNo} {vn : VNode}
    (hvn : r.vnodes[i]? = some vn) (hp : vn.owners.get? n = some .pending) :
    ∃ r', r.promotePendingNode this n i = .ok r' ∧ r'.version = r.version.event this ∧
      r'.cluster = r.cluster ∧ r'.nodes = r.nodes ∧
      r'.vnodes = r.vnodes.set i
        (VNode.pruneRetiring ⟨vn.owners.insert n .owner, vn.version.event this⟩) :=
  ⟨{ r with
      version := r.version.event this
      vnodes := r.vnodes.set i
        (VNode.pruneRetiring ⟨vn.owners.insert n .owner, vn.version.event this⟩) },
    by simp [promotePendingNode, hvn, hp], rfl, rfl, rfl, rfl⟩

theorem checkPhysical_eq_ok {r r' : Ring T} {node : NodeId} (h : r.checkPhysical node = .ok r') :
    r' = r := by
  unfold checkPhysical at h
  split at h
  · cases h
  · cases h
    rfl

/-- What a successful `join_node` returns: the ring itself, when the node is
there with this address and metadata, or the ring with the node's entry
written and the version bumped. A new node is valid, and a known one keeps its
status. -/
theorem joinNode_spec [DecidableEq T] {r r' : Ring T} {this node : NodeId} {addr : SocketAddr}
    {metadata : T} (h : r.joinNode this node addr metadata = .ok r') :
    r' = r ∨ ∃ nd : Node T,
      r' = { r with version := r.version.event this, nodes := r.nodes.insert node nd } ∧
      nd.status = ((r.nodes.get? node).map (·.status)).getD .valid := by
  unfold joinNode at h
  split at h
  · rename_i hn
    obtain ⟨r₁, hc, rfl⟩ := except_map_eq_ok h
    cases checkPhysical_eq_ok hc
    exact .inr ⟨_, rfl, by simp [hn]⟩
  · rename_i n₀ hn
    split at h
    · cases h
      exact .inl rfl
    · obtain ⟨r₁, hc, rfl⟩ := except_map_eq_ok h
      cases checkPhysical_eq_ok hc
      exact .inr ⟨_, rfl, by simp [hn]⟩

/-- What a successful `replace_node` returns: the new node valid, the old one
invalid, the old node's vnodes handed to the new one, and the version bumped.
The new node was not in the ring. -/
theorem replaceNode_spec {r r' : Ring T} {this old new : NodeId} {addr : SocketAddr}
    {metadata : T} (h : r.replaceNode this old new addr metadata = .ok r') :
    r.nodes.contains new = false ∧ r' = { r with
      version := r.version.event this
      nodes := markNode (r.nodes.insert new ⟨addr, .valid, metadata, VersionVector.new.event this⟩)
        this old .invalid
      vnodes := r.vnodes.map (replaceOwner this old new) } := by
  unfold replaceNode at h
  dsimp only at h
  split at h
  · cases h
  · rename_i hnew
    split at h
    · cases h
    · exact ⟨Bool.eq_false_iff.mpr hnew, checkPhysical_eq_ok h⟩

/-- What a successful `promote_pending_node` returns: the ring with its
version bumped, and, when the node was `Pending`, the vnode with the node an
owner. -/
theorem promotePendingNode_eq_ok {r r' : Ring T} {this n : NodeId} {i : VNodeNo}
    (h : r.promotePendingNode this n i = .ok r') :
    r' = { r with version := r.version.event this } ∨ ∃ vn, r.vnodes[i]? = some vn ∧
      vn.owners.get? n = some .pending ∧ r' = { r with
        version := r.version.event this
        vnodes := r.vnodes.set i
          (VNode.pruneRetiring ⟨vn.owners.insert n .owner, vn.version.event this⟩) } := by
  unfold promotePendingNode at h
  dsimp only at h
  split at h
  · cases h
  · rename_i vn hvn
    split at h
    · cases h
    · rename_i status hs
      split at h
      · cases h
      · rename_i hst
        split at h
        · rename_i hno
          cases h
          -- a status that can be promoted and is not `Owner` is `Pending`
          have hp : status = .pending := by
            cases status with
            | owner => exact absurd rfl hno
            | pending => rfl
            | retiring => exact absurd ⟨by decide, by decide⟩ hst
          exact .inr ⟨vn, hvn, hp ▸ hs, rfl⟩
        · cases h
          exact .inl rfl

@[simp] theorem get?_mergeNode (nodes : VecMap NodeId (Node T)) (e : NodeId × Node T) (k : NodeId) :
    (mergeNode nodes e).get? k =
      if k = e.1 then some (((nodes.get? k).map (mergeNodeValue · e.2)).getD e.2)
      else nodes.get? k := by
  unfold mergeNode
  by_cases hk : k = e.1
  · rw [hk]
    cases nodes.get? e.1 <;> simp
  · cases nodes.get? e.1 <;> simp [hk]

@[simp] theorem get?_mergeOwner (owners : VecMap NodeId VNodeNodeStatus)
    (e : NodeId × VNodeNodeStatus) (k : NodeId) :
    (mergeOwner owners e).get? k =
      if k = e.1 then some (((owners.get? k).map (mergeOwnerStatus · e.2)).getD e.2)
      else owners.get? k := by
  unfold mergeOwner
  by_cases hk : k = e.1
  · rw [hk]
    cases owners.get? e.1 <;> simp
  · cases owners.get? e.1 <;> simp [hk]

/-- A node of the other ring whose version the local node's does not descend
is taken whole: the node branch's second test always holds. -/
theorem mergeNodeValue_of_not_descends {node other : Node T}
    (h : node.version.descends other.version = false) : mergeNodeValue node other = other := by
  simp [mergeNodeValue, h]

/-- A local node whose version descends the other's is kept. -/
theorem mergeNodeValue_of_descends {node other : Node T}
    (h : node.version.descends other.version = true) : mergeNodeValue node other = node := by
  simp [mergeNodeValue, h]

/-- At a node both rings hold, the merged nodes take what `mergeNodeValue`
keeps. -/
theorem get?_foldl_mergeNode {nodes other : VecMap NodeId (Node T)} {n : NodeId}
    {node o : Node T} (hn : nodes.get? n = some node) (ho : other.get? n = some o) :
    (other.entries.foldl mergeNode nodes).get? n = some (mergeNodeValue node o) := by
  rw [@VecMap.get?_foldl_entries _ _ _ _
    (fun (cur : Option (Node T)) o => some ((cur.map (mergeNodeValue · o)).getD o))
    get?_mergeNode other nodes n, hn, ho]
  rfl

/-- A node the other ring does not hold keeps its local value. -/
theorem get?_foldl_mergeNode_of_none {nodes other : VecMap NodeId (Node T)} {n : NodeId}
    (ho : other.get? n = none) :
    (other.entries.foldl mergeNode nodes).get? n = nodes.get? n := by
  rw [@VecMap.get?_foldl_entries _ _ _ _
    (fun (cur : Option (Node T)) o => some ((cur.map (mergeNodeValue · o)).getD o))
    get?_mergeNode other nodes n, ho]
  rfl

/-- At a node only the other vnode lists, the merged owners take its status. -/
theorem get?_foldl_mergeOwner_of_none {owners other : VecMap NodeId VNodeNodeStatus}
    {n : NodeId} {s : VNodeNodeStatus} (hn : owners.get? n = none) (ho : other.get? n = some s) :
    (other.entries.foldl mergeOwner owners).get? n = some s := by
  rw [@VecMap.get?_foldl_entries _ _ _ _
    (fun (cur : Option VNodeNodeStatus) o => some ((cur.map (mergeOwnerStatus · o)).getD o))
    get?_mergeOwner other owners n, hn, ho]
  rfl

/-- Pruning keeps every owner that is not `Retiring`. -/
theorem get?_pruneRetiring_of_ne {vn : VNode} {n : NodeId} {s : VNodeNodeStatus}
    (hs : s ≠ .retiring) (h : vn.owners.get? n = some s) :
    vn.pruneRetiring.owners.get? n = some s := by
  unfold VNode.pruneRetiring
  split
  · exact h
  · simp [h, hs]

/-- Two concurrent vnodes merge their owners, and keep an owner that is not
`Retiring`. -/
theorem get?_mergeVNode_of_concurrent {vnode other : VNode} {n : NodeId} {s : VNodeNodeStatus}
    (h₁ : vnode.version.descends other.version = false)
    (h₂ : other.version.descends vnode.version = false)
    (hn : vnode.owners.get? n = none) (ho : other.owners.get? n = some s) (hs : s ≠ .retiring) :
    (mergeVNode vnode other).owners.get? n = some s := by
  unfold mergeVNode
  rw [h₁, h₂]
  exact get?_pruneRetiring_of_ne hs (get?_foldl_mergeOwner_of_none hn ho)

section Merge

variable {r other : Ring T}

/-- The checks `merge` makes before it compares versions. -/
def MergeCompatible (r other : Ring T) : Prop :=
  r.cluster = other.cluster ∧ r.vnodes.length = other.vnodes.length ∧ other.vnodes ≠ []

/-- Equal partition counts and a non-empty other ring make the local ring
non-empty too. -/
theorem MergeCompatible.ne_nil_left (hc : MergeCompatible r other) : r.vnodes ≠ [] := fun h =>
  hc.2.2 (List.eq_nil_of_length_eq_zero (by rw [← hc.2.1, h]; rfl))

theorem MergeCompatible.symm (hc : MergeCompatible r other) : MergeCompatible other r :=
  ⟨hc.1.symm, hc.2.1.symm, hc.ne_nil_left⟩

theorem merge_of_descends (hc : MergeCompatible r other)
    (h : r.version.descends other.version = true) : r.merge other = .ok (false, r) := by
  obtain ⟨hcl, hlen, hne⟩ := hc
  simp [merge, hcl, hlen, hne, h]

theorem merge_of_descended (hc : MergeCompatible r other)
    (h₁ : r.version.descends other.version = false)
    (h₂ : other.version.descends r.version = true) : r.merge other = .ok (true, other) := by
  obtain ⟨hcl, hlen, hne⟩ := hc
  simp [merge, hcl, hlen, hne, h₁, h₂]

/-- Two rings with concurrent versions merge node by node and vnode by vnode. -/
theorem merge_of_concurrent (hc : MergeCompatible r other)
    (h₁ : r.version.descends other.version = false)
    (h₂ : other.version.descends r.version = false) :
    r.merge other = .ok (true, { r with
      version := r.version.merge other.version
      nodes := other.nodes.entries.foldl mergeNode r.nodes
      vnodes := List.zipWith mergeVNode r.vnodes other.vnodes }) := by
  have hr := hc.ne_nil_left
  obtain ⟨hcl, hlen, hne⟩ := hc
  simp [merge, hcl, hlen, hne, hr, h₁, h₂]

end Merge

end Ring

end Dht

end Sucredb
