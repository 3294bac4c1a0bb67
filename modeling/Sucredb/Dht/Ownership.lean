/-
Sucredb.Dht.Ownership — the owners of every ring stay valid nodes when all
proposals are made at one node.

`OwnersValid` (every vnode owner that is not `Retiring` is a valid node) is
what `rebalance` needs of a ring, and every proposal keeps it: `leave_node`
retires the node from its vnodes, `remove_node` drops it from them,
`replace_node` hands them to a new valid node, `join_node` turns no valid node
invalid, `promote_pending_node` promotes a node that was already listed, and
`rebalance` adds only keys of `node_map` (`Proposal.apply_ownersValid`).
Every proposal keeps or bumps the ring version (`Proposal.apply_version`).

What breaks it is the merge of two rings with concurrent versions
(`Sucredb.Dht.RingTheorems`). With every proposal made at one node `p` there
is no such merge: `p`'s ring covers every ring the cluster holds, at a node or
in a `DHTSync`, and any two of those have comparable versions (`SerialInv`),
so a merge keeps one of its two rings. Every node's ring then keeps its owners
valid over every run (`serial_ownersValid`).
-/
import Sucredb.Dht.Cluster

namespace Sucredb

namespace Dht

variable {T : Type}

/-! ## Proposals keep the owners valid -/

section Owners

variable {P Q : NodeId → Prop} {owners owners' : VecMap NodeId VNodeNodeStatus}

/-- An owners map that agrees with one in `P` away from `n`, and lists `n`
only as `Retiring` if at all, is in any `Q` that agrees with `P` away from `n`. -/
theorem OwnersIn.of_eq_off {n : NodeId} (h : OwnersIn P owners)
    (hk : ∀ k, k ≠ n → owners'.get? k = owners.get? k)
    (hn : ∀ s, owners'.get? n = some s → s = .retiring) (hQ : ∀ k, k ≠ n → P k → Q k) :
    OwnersIn Q owners' := by
  rw [ownersIn_iff] at h ⊢
  intro k s hs hr
  by_cases hkn : k = n
  · subst hkn
    exact absurd (hn s hs) hr
  · exact hQ k hkn (h k s ((hk k hkn).symm.trans hs) hr)

/-- `replace_node` on one vnode: the new node takes the old one's status. A
new node outside `P` can only have been listed as `Retiring`. -/
theorem replaceOwner_ownersIn {this old new : NodeId} {vn : VNode} (h : OwnersIn P vn.owners)
    (hnew : ¬ P new) (hQ : ∀ k, k ≠ old → P k → Q k) (hQnew : old ≠ new → Q new) :
    OwnersIn Q (Ring.replaceOwner this old new vn).owners := by
  rw [ownersIn_iff] at h ⊢
  intro k s hs hr
  unfold Ring.replaceOwner at hs
  split at hs
  · rename_i s₀ hs₀
    simp only [VecMap.get?_insert, VecMap.get?_erase] at hs
    by_cases hkn : k = new
    · subst hkn
      rw [if_pos rfl, Option.some.injEq] at hs
      subst hs
      by_cases hon : old = k
      · subst hon
        exact absurd (h old s₀ hs₀ hr) hnew
      · exact hQnew hon
    · rw [if_neg hkn] at hs
      by_cases hko : k = old
      · rw [if_pos hko] at hs
        cases hs
      · rw [if_neg hko] at hs
        exact hQ k hko (h k s hs hr)
  · rename_i hs₀
    have hko : k ≠ old := by
      rintro rfl
      rw [hs₀] at hs
      cases hs
    exact hQ k hko (h k s hs hr)

end Owners

namespace Ring

section Proposals

variable {r r' : Ring T} {this : NodeId}

theorem isValidNode_of_get? {k : NodeId} (h : r'.nodes.get? k = r.nodes.get? k)
    (hk : r.IsValidNode k) : r'.IsValidNode k := by
  rw [IsValidNode, h]
  exact hk

/-- A ring with the vnodes of one whose owners are valid, and in which every
valid node stays valid, has valid owners. -/
theorem ownersValid_of_isValidNode (hr : r.OwnersValid) (hv : r'.vnodes = r.vnodes)
    (hn : ∀ k, r.IsValidNode k → r'.IsValidNode k) : r'.OwnersValid :=
  ownersValid_iff.mpr fun vn hvn => (ownersValid_iff.mp hr vn (hv ▸ hvn)).mono hn

/-- A ring whose vnodes are rewritten each at node `n` alone, listing `n` only
as `Retiring` if at all, and whose nodes other than `n` keep their entries,
keeps the owners valid: what `leave_node` and `remove_node` do. -/
theorem ownersValid_map_of_eq_off {n : NodeId} (hr : r.OwnersValid) {f : VNode → VNode}
    (hv : r'.vnodes = r.vnodes.map f)
    (hk : ∀ vn k, k ≠ n → (f vn).owners.get? k = vn.owners.get? k)
    (hn : ∀ vn s, (f vn).owners.get? n = some s → s = .retiring)
    (hnodes : ∀ k, k ≠ n → r'.nodes.get? k = r.nodes.get? k) : r'.OwnersValid := by
  refine ownersValid_iff.mpr fun vn hvn => ?_
  obtain ⟨vn₀, hvn₀, rfl⟩ := List.mem_map.mp (hv ▸ hvn)
  exact (ownersValid_iff.mp hr vn₀ hvn₀).of_eq_off (hk vn₀) (hn vn₀)
    fun k hkn => isValidNode_of_get? (hnodes k hkn)

theorem leaveNode_ownersValid {n : NodeId} (hr : r.OwnersValid) (h : r.leaveNode this n = .ok r') :
    r'.OwnersValid := by
  cases h
  refine ownersValid_map_of_eq_off (n := n) hr rfl (fun vn₀ k hk => ?_) (fun vn₀ s hs => ?_)
    (fun k hk => by simp [hk])
  · split
    · split
      · simp [hk]
      · rfl
    · rfl
  · -- `n` is now listed as `Retiring`, or not at all
    split at hs
    · rename_i status hst
      split at hs
      · simpa using hs.symm
      · rename_i hnr
        obtain rfl : status = s := Option.some.inj (hst.symm.trans hs)
        exact not_not.mp hnr
    · rename_i hnone
      rw [hnone] at hs
      cases hs

theorem removeNode_ownersValid {n : NodeId} (hr : r.OwnersValid) (h : r.removeNode this n = .ok r') :
    r'.OwnersValid := by
  cases h
  refine ownersValid_map_of_eq_off (n := n) hr rfl (fun vn₀ k hk => ?_) (fun vn₀ s hs => ?_)
    (fun k hk => by simp [hk])
  · split
    · simp [hk]
    · rfl
  · -- `n` is erased, or was never listed
    split at hs
    · simp at hs
    · rename_i hc
      rw [(vn₀.owners.get?_eq_none_iff).mpr (by simpa using hc)] at hs
      cases hs

theorem joinNode_ownersValid [DecidableEq T] {node : NodeId} {addr : SocketAddr} {metadata : T}
    (hr : r.OwnersValid) (h : r.joinNode this node addr metadata = .ok r') : r'.OwnersValid := by
  obtain rfl | ⟨nd, rfl, hs⟩ := joinNode_spec h
  · exact hr
  · refine ownersValid_of_isValidNode hr rfl fun k hk => ?_
    by_cases hkn : k = node
    · subst hkn
      obtain ⟨n₀, hn₀, hv⟩ : ∃ n₀, r.nodes.get? k = some n₀ ∧ n₀.status = .valid := by
        simpa [IsValidNode] using hk
      simp [IsValidNode, hs, hn₀, hv]
    · exact isValidNode_of_get? (by simp [hkn]) hk

theorem replaceNode_ownersValid {old new : NodeId} {addr : SocketAddr} {metadata : T}
    (hr : r.OwnersValid) (h : r.replaceNode this old new addr metadata = .ok r') :
    r'.OwnersValid := by
  obtain ⟨hnew, rfl⟩ := replaceNode_spec h
  have hnv : ¬ r.IsValidNode new := by
    have hk : new ∉ r.nodes.keys := fun hk => by
      rw [(r.nodes.contains_iff).mpr hk] at hnew
      cases hnew
    simp [IsValidNode, (r.nodes.get?_eq_none_iff).mpr hk]
  refine ownersValid_iff.mpr fun vn hvn => ?_
  obtain ⟨vn₀, hvn₀, rfl⟩ := List.mem_map.mp hvn
  refine replaceOwner_ownersIn (ownersValid_iff.mp hr vn₀ hvn₀) hnv (fun k hk hv => ?_)
    (fun hon => by simp [IsValidNode, Ne.symm hon])
  by_cases hkn : k = new
  · subst hkn
    simp [IsValidNode, hk]
  · exact isValidNode_of_get? (by simp [hk, hkn]) hv

theorem promotePendingNode_ownersValid {n : NodeId} {i : VNodeNo} (hr : r.OwnersValid)
    (h : r.promotePendingNode this n i = .ok r') : r'.OwnersValid := by
  obtain rfl | ⟨vn, hvn, hp, rfl⟩ := promotePendingNode_eq_ok h
  · exact hr
  · have hvn' := ownersValid_iff.mp hr vn (List.mem_of_getElem? hvn)
    -- the promoted node was listed as `Pending`, so it is valid
    have hvalid : r.IsValidNode n := ownersIn_iff.mp hvn' n .pending hp (by decide)
    refine ownersValid_iff.mpr fun v hv => ?_
    rcases List.mem_or_eq_of_mem_set hv with hv | rfl
    · exact ownersValid_iff.mp hr v hv
    · exact OwnersIn.pruneRetiring (hvn'.insert fun _ => hvalid)

end Proposals

end Ring

namespace Proposal

variable [DecidableEq T] {p : Proposal T} {this : NodeId} {r r' : Ring T}

theorem apply_ownersValid (hr : r.OwnersValid) (h : p.apply this r = .ok r') : r'.OwnersValid := by
  cases p with
  | rebalance => exact Ring.rebalance_ownersValid hr h
  | removeNode node => exact Ring.removeNode_ownersValid hr h
  | joinNode node addr metadata => exact Ring.joinNode_ownersValid hr h
  | replaceNode old node addr metadata => exact Ring.replaceNode_ownersValid hr h
  | leaveNode node => exact Ring.leaveNode_ownersValid hr h
  | promotePendingNode node vnode => exact Ring.promotePendingNode_ownersValid hr h

/-- A proposal keeps the ring version, or bumps it at the proposing node. -/
theorem apply_version (h : p.apply this r = .ok r') :
    r'.version = r.version ∨ r'.version = r.version.event this := by
  cases p with
  | rebalance =>
    obtain ⟨vs, rfl, -⟩ := Ring.rebalance_spec h
    exact .inr rfl
  | removeNode node => exact .inr (Ring.removeNode_spec h).1
  | joinNode node addr metadata =>
    obtain rfl | ⟨nd, rfl, -⟩ := Ring.joinNode_spec h
    · exact .inl rfl
    · exact .inr rfl
  | replaceNode old node addr metadata =>
    obtain ⟨-, rfl⟩ := Ring.replaceNode_spec h
    exact .inr rfl
  | leaveNode node => exact .inl (Ring.leaveNode_spec h).1
  | promotePendingNode node vnode =>
    obtain rfl | ⟨vn, -, -, rfl⟩ := Ring.promotePendingNode_eq_ok h
    · exact .inr rfl
    · exact .inr rfl

theorem apply_descends (h : p.apply this r = .ok r') : r'.version.descends r.version = true := by
  rcases apply_version h with hv | hv <;> rw [hv]
  · exact VersionVector.descends_self _
  · exact VersionVector.event_descends _ _

end Proposal

/-! ## Merging comparable rings -/

/-- Two rings with comparable versions: `merge` keeps one of them, and takes
the other one only when the local version does not cover it. -/
theorem Ring.merge_eq_ok_of_comparable {r other m : Ring T} {b : Bool}
    (hc : r.version.descends other.version = true ∨ other.version.descends r.version = true)
    (h : r.merge other = .ok (b, m)) :
    (b = false ∧ m = r) ∨ (b = true ∧ m = other ∧ r.version.descends other.version = false) := by
  unfold Ring.merge at h
  split_ifs at h with hcl hlen hne hd hd'
  · cases h
    exact .inl ⟨rfl, rfl⟩
  · cases h
    exact .inr ⟨rfl, rfl, Bool.eq_false_iff.mpr hd⟩
  -- concurrent versions, with an empty local ring or not
  · exact (hc.elim hd hd').elim
  · exact (hc.elim hd hd').elim

theorem onSync_eq_or {ring incoming : Ring T}
    (hc : ring.version.descends incoming.version = true ∨
      incoming.version.descends ring.version = true) :
    onSync ring incoming = ring ∨
      (onSync ring incoming = incoming ∧ ring.version.descends incoming.version = false) := by
  unfold onSync
  split
  · rename_i r' hm
    rcases Ring.merge_eq_ok_of_comparable hc hm with ⟨h, -⟩ | ⟨-, rfl, hnd⟩
    · cases h
    · exact .inr ⟨rfl, hnd⟩
  · exact .inl rfl

/-- What `on_message` keeps is the local ring, or the merge with a ring a
`DHTSync` brought; what it sends is the local ring. -/
theorem onMessage_spec (this : NodeId) (ring : Ring T) (m : Msg T) :
    ((onMessage this ring m).1 = ring ∨
      ∃ src dst q, m = .dhtSync src dst q ∧ (onMessage this ring m).1 = onSync ring q) ∧
    ∀ src dst q, Msg.dhtSync src dst q ∈ (onMessage this ring m).2 → q = ring := by
  cases m with
  | dhtSync src dst q => exact ⟨.inr ⟨src, dst, q, rfl, rfl⟩, fun _ _ _ hm => by cases hm⟩
  | dhtAE src dst version =>
    refine ⟨.inl ?_, fun s d q hm => ?_⟩
    · simp only [onMessage]
      split_ifs <;> rfl
    · simp only [onMessage] at hm
      split_ifs at hm
      · cases hm
      · cases List.mem_singleton.mp hm
        rfl
      · cases hm

theorem ring_of_mem_broadcast {this src dst : NodeId} {r q : Ring T}
    (h : Msg.dhtSync src dst q ∈ broadcast this r) : q = r := by
  obtain ⟨e, -, he⟩ := List.mem_filterMap.mp h
  split at he
  · cases he
  · cases he
    rfl

/-! ## One proposer -/

/-- The node an event makes propose, if it is a proposal. -/
def Event.proposer : Event T → Option NodeId
  | .propose n _ => some n
  | _ => none

namespace Cluster

/-- The rings a cluster holds: each node's, and each one a `DHTSync` carries. -/
def Holds (c : Cluster T) (r : Ring T) : Prop :=
  (∃ n, c.rings n = r) ∨ ∃ src dst, Msg.dhtSync src dst r ∈ c.net

theorem holds_rings (c : Cluster T) (n : NodeId) : c.Holds (c.rings n) :=
  .inl ⟨n, rfl⟩

theorem holds_of_mem_net {c : Cluster T} {src dst : NodeId} {r : Ring T}
    (h : Msg.dhtSync src dst r ∈ c.net) : c.Holds r :=
  .inr ⟨src, dst, h⟩

theorem holds_send {c : Cluster T} {q : Ring T} {out : List (Msg T)} (h : (c.send out).Holds q) :
    c.Holds q ∨ ∃ src dst, Msg.dhtSync src dst q ∈ out := by
  rcases h with ⟨k, hk⟩ | ⟨src, dst, hm⟩
  · exact .inl (.inl ⟨k, hk⟩)
  · rcases List.mem_append.mp hm with hm | hm
    · exact .inl (.inr ⟨src, dst, hm⟩)
    · exact .inr ⟨src, dst, hm⟩

theorem holds_setRing {c : Cluster T} {n : NodeId} {r q : Ring T} (h : (c.setRing n r).Holds q) :
    q = r ∨ c.Holds q := by
  rcases h with ⟨k, hk⟩ | hm
  · by_cases hkn : k = n
    · subst hkn
      exact .inl (by simpa using hk.symm)
    · exact .inr (.inl ⟨k, by simpa [hkn] using hk⟩)
  · exact .inr (.inr hm)

theorem holds_setRing_send {c : Cluster T} {n : NodeId} {r q : Ring T} {out : List (Msg T)}
    (h : ((c.setRing n r).send out).Holds q) :
    q = r ∨ c.Holds q ∨ ∃ src dst, Msg.dhtSync src dst q ∈ out :=
  (holds_send h).elim (fun h => (holds_setRing h).imp_right .inl) (fun h => .inr (.inr h))

/-- The invariant of a cluster whose proposals are all made at node `p`. -/
structure SerialInv (p : NodeId) (c : Cluster T) : Prop where
  ownersValid : ∀ r, c.Holds r → r.OwnersValid
  /-- `p`'s ring covers every ring the cluster holds. -/
  covered : ∀ r, c.Holds r → (c.rings p).version.descends r.version = true
  comparable : ∀ r₁ r₂, c.Holds r₁ → c.Holds r₂ →
    r₁.version.descends r₂.version = true ∨ r₂.version.descends r₁.version = true

namespace SerialInv

variable {p : NodeId} {c c' : Cluster T}

/-- A step after which the cluster holds only rings it held and a ring `top`
at `p`, with valid owners and covering every ring held before, keeps the
invariant. -/
theorem of_holds (h : SerialInv p c) (top : Ring T) (htop : c'.rings p = top)
    (hold : ∀ q, c'.Holds q → q = top ∨ c.Holds q) (hvalid : top.OwnersValid)
    (hcov : ∀ q, c.Holds q → top.version.descends q.version = true) : SerialInv p c' := by
  have hcov' : ∀ q, c'.Holds q → top.version.descends q.version = true := by
    intro q hq
    rcases hold q hq with rfl | hq
    · exact VersionVector.descends_self _
    · exact hcov q hq
  refine ⟨fun q hq => ?_, fun q hq => by rw [htop]; exact hcov' q hq, fun q₁ q₂ h₁ h₂ => ?_⟩
  · rcases hold q hq with rfl | hq
    · exact hvalid
    · exact h.ownersValid q hq
  · rcases hold q₁ h₁ with rfl | h₁
    · exact .inl (hcov' q₂ h₂)
    · rcases hold q₂ h₂ with rfl | h₂
      · exact .inr (hcov q₁ h₁)
      · exact h.comparable q₁ q₂ h₁ h₂

/-- A step that keeps `p`'s ring and holds only rings held before keeps the
invariant. -/
theorem of_subset (h : SerialInv p c) (htop : c'.rings p = c.rings p)
    (hold : ∀ q, c'.Holds q → c.Holds q) : SerialInv p c' :=
  h.of_holds (c.rings p) htop (fun q hq => .inr (hold q hq)) (h.ownersValid _ (holds_rings c p))
    h.covered

theorem send (h : SerialInv p c) {out : List (Msg T)}
    (hout : ∀ src dst q, Msg.dhtSync src dst q ∈ out → c.Holds q) : SerialInv p (c.send out) :=
  h.of_subset rfl fun q hq => (holds_send hq).elim id fun ⟨src, dst, hm⟩ => hout src dst q hm

theorem setRing_send (h : SerialInv p c) {n : NodeId} {r : Ring T} {out : List (Msg T)}
    (hr : c.Holds r) (hp : n = p → r = c.rings p)
    (hout : ∀ src dst q, Msg.dhtSync src dst q ∈ out → c.Holds q) :
    SerialInv p ((c.setRing n r).send out) := by
  refine h.of_subset ?_ fun q hq => ?_
  · by_cases hn : n = p
    · subst hn
      simp [hp rfl]
    · simp [Ne.symm hn]
  · rcases holds_setRing_send hq with rfl | hq | ⟨src, dst, hm⟩
    · exact hr
    · exact hq
    · exact hout src dst q hm

theorem propose [DecidableEq T] (h : SerialInv p c) {q : Proposal T}
    (hs : c.propose p q = some c') : SerialInv p c' := by
  unfold Cluster.propose at hs
  split at hs
  · rename_i r hr
    cases hs
    refine h.of_holds r (by simp) (fun q' hq' => ?_)
      (q.apply_ownersValid (h.ownersValid _ (holds_rings c p)) hr)
      (fun q' hq' => VersionVector.descends_trans (Proposal.apply_descends hr) (h.covered q' hq'))
    rcases holds_setRing_send hq' with rfl | hq' | ⟨src, dst, hm⟩
    · exact .inl rfl
    · exact .inr hq'
    · exact .inl (ring_of_mem_broadcast hm)
  · cases hs
    exact h
  · cases hs

theorem deliver [DecidableEq T] (h : SerialInv p c) {a b : Bool} {i : ℕ}
    (hs : c.step a b (.deliver i) = some c') : SerialInv p c' := by
  obtain ⟨m, hm, hs⟩ := Option.bind_eq_some_iff.mp hs
  have hnet := List.mem_of_getElem? hm
  obtain ⟨hring, hout⟩ := onMessage_spec m.dst (c.rings m.dst) m
  generalize onMessage m.dst (c.rings m.dst) m = res at hring hout hs
  obtain ⟨r', out⟩ := res
  cases hs
  -- the receiver keeps its ring or takes the one it received, and `p`, whose
  -- ring covers every ring, keeps its own
  have hr' : c.Holds r' ∧ (m.dst = p → r' = c.rings p) := by
    rcases hring with rfl | ⟨src, dst, q, rfl, rfl⟩
    · exact ⟨holds_rings c _, fun hd => by rw [hd]⟩
    · have hq := holds_of_mem_net hnet
      show c.Holds (onSync (c.rings dst) q) ∧ (dst = p → onSync (c.rings dst) q = c.rings p)
      rcases onSync_eq_or (h.comparable _ _ (holds_rings c dst) hq) with hon | ⟨hon, hnd⟩
      · rw [hon]
        exact ⟨holds_rings c _, fun hd => by rw [hd]⟩
      · refine ⟨by rw [hon]; exact hq, fun hd => ?_⟩
        subst hd
        rw [h.covered q hq] at hnd
        cases hnd
  exact h.setRing_send hr'.1 hr'.2 fun src dst q hm' => (hout src dst q hm') ▸ holds_rings c _

theorem step [DecidableEq T] (h : SerialInv p c) {a b : Bool} {e : Event T}
    (he : ∀ n ∈ e.proposer, n = p) (hs : c.step a b e = some c') : SerialInv p c' := by
  cases e with
  | propose n q =>
    obtain rfl : n = p := he n rfl
    exact h.propose hs
  | deliver i => exact h.deliver hs
  | connect n peer =>
    simp only [Cluster.step] at hs
    split at hs
    · cases hs
      exact h.send fun _ _ q hm => by
        cases List.mem_singleton.mp hm
        exact holds_rings c n
    · cases hs
      exact h
  | aeRequest n peer =>
    simp only [Cluster.step] at hs
    split at hs
    · cases hs
      exact h.send fun _ _ q hm => by cases List.mem_singleton.mp hm
    · cases hs

theorem initial {r : Ring T} (hr : r.OwnersValid) (p : NodeId) :
    SerialInv p (Cluster.initial r) := by
  have hold : ∀ q, (Cluster.initial r).Holds q → q = r := by
    rintro q (⟨n, rfl⟩ | ⟨src, dst, hm⟩)
    · rfl
    · cases hm
  refine ⟨fun q hq => hold q hq ▸ hr, fun q hq => ?_, fun q₁ q₂ h₁ h₂ => ?_⟩
  · rw [hold q hq]
    exact VersionVector.descends_self _
  · rw [hold q₁ h₁, hold q₂ h₂]
    exact .inl (VersionVector.descends_self _)

theorem of_run [DecidableEq T] {a b : Bool} {r : Ring T} (hr : r.OwnersValid)
    {es : List (Event T)} (hes : ∀ e ∈ es, ∀ n ∈ e.proposer, n = p)
    (h : Sucredb.run (Cluster.step a b) (Cluster.initial r) es = some c) : SerialInv p c :=
  run_induct (fun _ e _ he hs hstep => hs.step (hes e he) hstep) (initial hr p) h

end SerialInv

end Cluster

section Serial

variable [DecidableEq T] {syncOnConnect syncAae : Bool} {p : NodeId} {r : Ring T}
  {es : List (Event T)} {c : Cluster T}

/-- With every proposal made at node `p`, every node's ring keeps its owners
valid, over every run from a common ring whose owners are valid. -/
theorem serial_ownersValid (hr : r.OwnersValid) (hes : ∀ e ∈ es, ∀ n ∈ e.proposer, n = p)
    (h : run (Cluster.step syncOnConnect syncAae) (Cluster.initial r) es = some c) (n : NodeId) :
    (c.rings n).OwnersValid :=
  (Cluster.SerialInv.of_run hr hes h).ownersValid _ (Cluster.holds_rings c n)

end Serial

end Dht

end Sucredb
