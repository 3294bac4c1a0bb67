/-
Sucredb.Dht.Rebalance — `Ring::rebalance` and `Ring::is_valid`.

`rebalance` bumps the ring version and then has two cases. With no more valid
nodes than the replication factor, every valid node is listed for every
vnode. Otherwise it builds `node_map`, the vnodes each valid node replicates,
completes the vnodes that have fewer replicas than the factor (step 1), moves
replicas from the nodes doing more than their share to those doing less
(step 2, "robin-hood"), and checks the result with `is_valid`.

`node_map` is an `IdHashMap` of `IdHashSet`s: a `VecMap` of `Finset`s here,
walked in entry order. The share `vnpn` is the ceiling of a float quotient of
small numbers, which is the integer ceiling. Every `unwrap`, `assert!` and
`unreachable!` of the source is a `RingError.panic`.

The results are about `OwnersValid`: every vnode owner that is not `Retiring`
is a valid node. Without it `node_map` has no entry for some owner and the
first loop panics (`rebalance_eq_panic`); with it `rebalance` keeps it
(`rebalance_ownersValid`), since every node it adds to a vnode is a key of
`node_map`, and the loops keep "every key and every owner satisfy `P`".
-/
import Sucredb.Dht.Ring
import Sucredb.Lib.Reachable

namespace Sucredb

namespace Dht

/-- `node_map` of `rebalance`: the vnodes each valid node replicates. -/
abbrev NodeMap := VecMap NodeId (Finset ℕ)

/-- The replicas of a vnode: its owners that are not `Retiring`. -/
def VNode.replicas (vn : VNode) : ℕ :=
  (vn.owners.entries.filter (·.2 != .retiring)).length

/-- The least `(len, node)` pair: the `.min()` of `rebalance`'s second search. -/
def lexMin? (l : List (ℕ × NodeId)) : Option (ℕ × NodeId) :=
  l.foldl (fun acc p => match acc with
    | none => some p
    | some q => if p.1 < q.1 ∨ (p.1 = q.1 ∧ p.2 < q.2) then some p else some q) none

/-- `for _ in 0..n` over a body that can fail. -/
def repeatM {σ : Type} (f : σ → Except RingError σ) : ℕ → σ → Except RingError σ
  | 0, s => .ok s
  | n + 1, s => f s >>= repeatM f n

/-- The vnodes, each with its number, as `iter().enumerate()` walks them. -/
def enumerateVNodes (vnodes : List VNode) : List (VNode × ℕ) := vnodes.zipIdx

namespace Ring

variable {T : Type}

/-- The small-cluster case of `rebalance` on one vnode and one node: a valid
node that is not listed for the vnode, or only retires from it, gets `status`,
and the vnode's version is bumped. -/
def assignSmall (this : NodeId) (status : VNodeNodeStatus) (vn : VNode) (e : NodeId × Node T) :
    VNode :=
  if e.2.status ≠ .valid then vn
  else
    match vn.owners.get? e.1 with
    | none => ⟨vn.owners.insert e.1 status, vn.version.event this⟩
    | some s => if s ≠ .retiring then vn else ⟨vn.owners.insert e.1 status, vn.version.event this⟩

/-- `node_map` before any vnode is read: an empty set for every valid node. -/
def validNodeMap (r : Ring T) : NodeMap :=
  r.nodes.entries.foldl (fun m e => if e.2.status == .valid then m.insert e.1 ∅ else m)
    VecMap.empty

end Ring

/-- One owner of vnode `vnNo` read into `node_map`. An owner that is not
`Retiring` must have an entry: `node_map.get_mut(node).unwrap()` panics
otherwise, which is `none`. -/
def readOwner (vnNo : ℕ) (m : NodeMap) (e : NodeId × VNodeNodeStatus) : Option NodeMap :=
  if e.2 ≠ .retiring then (m.get? e.1).map fun vns => m.insert e.1 (insert vnNo vns)
  else some m

/-- The first loop of `rebalance`'s main case: the vnodes each valid node
replicates. -/
def readOwners (m : NodeMap) (vnodes : List VNode) : Option NodeMap :=
  (enumerateVNodes vnodes).foldlM (fun m p => p.1.owners.entries.foldlM (readOwner p.2) m) m

/-- One missing replica of vnode `vnNo` (step 1 of `rebalance`): the node doing
the least work among those not listed for the vnode becomes `Pending`; when
every node is listed, the least loaded `Retiring` one owns the vnode again. -/
def addReplica (vnNo : ℕ) (s : NodeMap × VNode) : Except RingError (NodeMap × VNode) :=
  let (m, vn) := s
  match (m.entries.filter fun e => !vn.owners.contains e.1).argmin (·.2.card) with
  | some (node, vns) =>
    -- `assert!(vns.insert(vn_no))` and `assert!(vn.owners.insert(node, Pending).is_none())`
    if vnNo ∈ vns ∨ vn.owners.contains node then .error .panic
    else .ok (m.insert node (insert vnNo vns), { vn with owners := vn.owners.insert node .pending })
  | none =>
    let retiring := vn.owners.entries.filterMap fun e =>
      if e.2 = .retiring then (m.get? e.1).map fun p => (p.card, e.1) else none
    match lexMin? retiring with
    | some (_, node) =>
      match m.get? node with
      | some vns =>
        if vnNo ∈ vns ∨ !vn.owners.contains node then .error .panic
        else .ok (m.insert node (insert vnNo vns), { vn with owners := vn.owners.insert node .owner })
      | none => .error .panic
    -- `unreachable!("Can't find replica for vnode ...")`
    | none => .error .panic

/-- Step 1 of `rebalance`: complete the replicas of each vnode in turn,
threading `node_map`. -/
def completeReplicas (rf : ℕ) (m : NodeMap) (vnodes : List VNode) :
    Except RingError (NodeMap × List VNode) :=
  (enumerateVNodes vnodes).foldlM (fun (acc : NodeMap × List VNode) p => do
    let (m, vn) ← repeatM (addReplica p.2) (rf - p.1.replicas) (acc.1, p.1)
    pure (m, acc.2 ++ [vn])) (m, [])

/-- One move of step 2 on vnode `vnNo`: `toNode` becomes `Pending` and
`fromNode` retires, with the four assertions of the source in their order. -/
def moveReplica (vnNo : ℕ) (s : NodeMap × VNode) (p : NodeId × NodeId) :
    Except RingError (NodeMap × VNode) :=
  let (m, vn) := s
  let (fromNode, toNode) := p
  if vn.owners.contains toNode then .error .panic
  else
    let owners := vn.owners.insert toNode .pending
    if !owners.contains fromNode then .error .panic
    else
      let vn := { vn with owners := owners.insert fromNode .retiring }
      match m.get? fromNode with
      | none => .error .panic
      | some fs =>
        if vnNo ∉ fs then .error .panic
        else
          let m := m.insert fromNode (fs.erase vnNo)
          match m.get? toNode with
          | none => .error .panic
          | some ts => if vnNo ∈ ts then .error .panic else .ok (m.insert toNode (insert vnNo ts), vn)

/-- Step 2 of `rebalance` on one vnode: the owners doing more than `vnpn`
vnodes are paired with the nodes doing less that are not listed for it. -/
def robinHoodVNode (vnpn : ℕ) (m : NodeMap) (p : VNode × ℕ) :
    Except RingError (NodeMap × VNode) := do
  let doingMuch ← p.1.owners.entries.filterMapM fun e =>
    if e.2 ≠ .retiring then
      match m.get? e.1 with
      | some vns => pure (if vns.card > vnpn then some e.1 else none)
      | none => throw .panic
    else pure none
  let candidates :=
    (m.entries.filter fun e => decide (e.2.card < vnpn) && !p.1.owners.contains e.1).map Prod.fst
  (doingMuch.zip candidates).foldlM (moveReplica p.2) (m, p.1)

/-- Step 2 of `rebalance` over every vnode. -/
def robinHood (vnpn : ℕ) (m : NodeMap) (vnodes : List VNode) : Except RingError (List VNode) :=
  ((enumerateVNodes vnodes).foldlM (fun (acc : NodeMap × List VNode) p => do
    let (m, vn) ← robinHoodVNode vnpn acc.1 p
    pure (m, acc.2 ++ [vn])) (m, [])).map Prod.snd

/-- The check of `is_valid` on one vnode, and the count of the vnodes each
node replicates. -/
def countReplicas (desired : ℕ) (acc : VecMap NodeId ℕ) (p : VNode × ℕ) :
    Except RingError (VecMap NodeId ℕ) :=
  let owners := (p.1.owners.entries.filter (·.2 == .owner)).map Prod.fst
  let pending := (p.1.owners.entries.filter (·.2 == .pending)).map Prod.fst
  if owners.length + pending.length ≠ desired then
    .error (.error ("vnode " ++ toString p.2 ++ " has only " ++ toString owners ++
      toString pending ++ " replicas"))
  else .ok ((owners ++ pending).foldl (fun m n => m.upsert n 0 (· + 1)) acc)

/-- The `{:?}` text of the count map. -/
def debugCounts (m : VecMap NodeId ℕ) : String :=
  "\x7b" ++ String.intercalate ", " (m.entries.map fun e => toString e.1 ++ ": " ++ toString e.2) ++
    "\x7d"

namespace Ring

variable {T : Type}

/-- `Ring::is_valid`. -/
def isValid (r : Ring T) : Except RingError Unit :=
  let valid := r.validNodesCount
  let desired := min valid r.replicationFactor
  -- `vnodes.len() * replication_factor % valid_nodes_count` divides by zero
  if valid = 0 then .error .panic
  else
    let total := r.vnodes.length * r.replicationFactor
    let vnpn := (total + valid - 1) / valid
    let rest := total % valid
    match (enumerateVNodes r.vnodes).foldlM (countReplicas desired) VecMap.empty with
    | .error e => .error e
    | .ok counts =>
      match counts.entries.find? (·.2 > vnpn + rest) with
      | some (n, count) =>
        .error (.error ("node " ++ toString n ++ " is a replica for " ++ toString count ++
          " vnodes, expected " ++ toString (vnpn + rest) ++ " max, " ++ debugCounts counts))
      | none => .ok ()

/-- `Ring::rebalance`. -/
def rebalance (r : Ring T) (this : NodeId) : Except RingError (Ring T) :=
  let r := { r with version := r.version.event this }
  if r.validNodesCount ≤ r.replicationFactor then
    -- a lone node owns every vnode at once; otherwise the valid nodes are pending
    let status := if r.nodes.size = 1 then VNodeNodeStatus.owner else .pending
    .ok { r with vnodes := r.vnodes.map fun vn => r.nodes.entries.foldl (assignSmall this status) vn }
  else
    match readOwners r.validNodeMap r.vnodes with
    | none => .error .panic
    | some m => do
      let vnodes := r.vnodes.map fun vn => { vn with version := vn.version.event this }
      -- `node_map` has an entry for each valid node, so it is not empty here
      let vnpn := (r.vnodes.length * r.replicationFactor + m.size - 1) / m.size
      let (m, vnodes) ← completeReplicas r.replicationFactor m vnodes
      let vnodes ← robinHood vnpn m vnodes
      let r := { r with vnodes }
      r.isValid
      pure r

/-! ## Where the first loop panics -/

/-- Every owner of a vnode that is not `Retiring` is a valid node: what
`rebalance` needs of the ring when it looks owners up in `node_map`. -/
def OwnersValid (r : Ring T) : Prop :=
  ∀ vn ∈ r.vnodes, ∀ e ∈ vn.owners.entries, e.2 ≠ .retiring →
    (r.nodes.get? e.1).map (·.status) = some .valid

instance (r : Ring T) : Decidable r.OwnersValid :=
  inferInstanceAs (Decidable (∀ vn ∈ r.vnodes, ∀ e ∈ vn.owners.entries, e.2 ≠ .retiring →
    (r.nodes.get? e.1).map (·.status) = some .valid))

/-- An owner that is not `Retiring` and not a valid node breaks `OwnersValid`. -/
theorem not_ownersValid {r : Ring T} {i : VNodeNo} {vn : VNode} {n : NodeId}
    {s : VNodeNodeStatus} (hvn : r.vnodes[i]? = some vn) (hs : vn.owners.get? n = some s)
    (hr : s ≠ .retiring) (hn : (r.nodes.get? n).map (·.status) ≠ some .valid) :
    ¬ r.OwnersValid := fun h =>
  hn (h vn (List.mem_of_getElem? hvn) (n, s) ((VecMap.get?_eq_some_iff _).mp hs) hr)

/-- `node_map` has an entry only for the valid nodes. -/
theorem mem_keys_validNodeMap {r : Ring T} {k : NodeId} (hk : k ∈ r.validNodeMap.keys) :
    (r.nodes.get? k).map (·.status) = some .valid := by
  rcases VecMap.mem_keys_foldl_insert _ _ hk with h | ⟨e, he, rfl, hv⟩
  · simp [VecMap.empty, VecMap.keys] at h
  · have hg : r.nodes.get? e.1 = some e.2 := (VecMap.get?_eq_some_iff _).mpr he
    simpa [hg] using hv

end Ring

/-- Reading an owner keeps the keys of `node_map`. -/
theorem readOwner_keys {vnNo : ℕ} {m m' : NodeMap} {e : NodeId × VNodeNodeStatus}
    (h : readOwner vnNo m e = some m') (k : NodeId) : k ∈ m'.keys ↔ k ∈ m.keys := by
  unfold readOwner at h
  split at h
  · obtain ⟨vns, hg, rfl⟩ := Option.map_eq_some_iff.mp h
    have he : e.1 ∈ m.keys := (m.mem_keys_iff).mpr ⟨vns, hg⟩
    rw [VecMap.mem_keys_insert]
    constructor
    · rintro (rfl | hk)
      · exact he
      · exact hk
    · exact Or.inr
  · cases h
    rfl

/-- The first loop panics at an owner that is not `Retiring` and has no entry,
whatever it read before: reading keeps the keys. -/
theorem readOwners_eq_none {m : NodeMap} {vnodes : List VNode} {vn : VNode}
    {e : NodeId × VNodeNodeStatus} (hvn : vn ∈ vnodes) (he : e ∈ vn.owners.entries)
    (hs : e.2 ≠ .retiring) (hk : e.1 ∉ m.keys) : readOwners m vnodes = none := by
  -- the invariant of both loops: the keys are those of the start
  let P : NodeMap → Prop := fun m' => ∀ k, k ∈ m'.keys ↔ k ∈ m.keys
  have hinner : ∀ (i : ℕ) (l : List (NodeId × VNodeNodeStatus)),
      ∀ b x b', x ∈ l → P b → readOwner i b x = some b' → P b' :=
    fun i _ b x b' _ hb hx k => (readOwner_keys hx k).trans (hb k)
  obtain ⟨i, hi⟩ : ∃ i, (vn, i) ∈ enumerateVNodes vnodes := by
    obtain ⟨i, hi, hget⟩ := List.getElem_of_mem hvn
    exact ⟨i, List.mem_zipIdx_iff_getElem?.mpr (List.getElem?_eq_some_iff.mpr ⟨hi, hget⟩)⟩
  refine foldlM_eq_none (P := P) (fun b p b' _ hb hp => foldlM_induct (hinner p.2 _) hb hp)
    (fun b hb => ?_) hi (fun k => Iff.rfl)
  refine foldlM_eq_none (P := P) (hinner i _) (fun b' hb' => ?_) he hb
  have hnone : b'.get? e.1 = none := (b'.get?_eq_none_iff).mpr fun h => hk ((hb' e.1).mp h)
  simp [readOwner, hs, hnone]

namespace Ring

variable {T : Type}

/-- With more valid nodes than the replication factor, `rebalance` panics on a
ring whose owners are not all valid. -/
theorem rebalance_eq_panic {r : Ring T} {this : NodeId} (hv : r.replicationFactor < r.validNodesCount)
    (h : ¬ r.OwnersValid) : r.rebalance this = .error .panic := by
  simp only [OwnersValid, not_forall] at h
  obtain ⟨vn, hvn, e, he, hs, hnv⟩ := h
  have hk : e.1 ∉ r.validNodeMap.keys := fun hk => hnv (mem_keys_validNodeMap hk)
  have hnone : readOwners ({ r with version := r.version.event this } : Ring T).validNodeMap
      r.vnodes = none := readOwners_eq_none hvn he hs hk
  have hv' : ¬ ({ r with version := r.version.event this } : Ring T).validNodesCount ≤
      r.replicationFactor := Nat.not_le.mpr hv
  unfold rebalance
  dsimp only
  rw [if_neg hv', hnone]

end Ring

/-! ## Rebalance lists only valid nodes

Every owner that `rebalance` adds is a key of `node_map`, hence a valid node,
or, with few nodes, a valid node of the ring. So a ring whose owners are valid
keeps them valid: the loops keep "every key of `node_map` and every owner
that is not `Retiring` satisfies `P`". -/

/-- The owners of a vnode that are not `Retiring` satisfy `P`. -/
def OwnersIn (P : NodeId → Prop) (owners : VecMap NodeId VNodeNodeStatus) : Prop :=
  ∀ e ∈ owners.entries, e.2 ≠ .retiring → P e.1

section OwnersIn

variable {P : NodeId → Prop} {owners : VecMap NodeId VNodeNodeStatus}

theorem ownersIn_iff :
    OwnersIn P owners ↔ ∀ k s, owners.get? k = some s → s ≠ .retiring → P k := by
  constructor
  · intro h k s hs hr
    exact h (k, s) ((VecMap.get?_eq_some_iff _).mp hs) hr
  · intro h e he hr
    exact h e.1 e.2 ((VecMap.get?_eq_some_iff _).mpr he) hr

theorem OwnersIn.insert (h : OwnersIn P owners) {k : NodeId} {s : VNodeNodeStatus}
    (hk : s ≠ .retiring → P k) : OwnersIn P (owners.insert k s) := by
  intro e he hs
  rcases VecMap.mem_entries_insert he with he | rfl
  · exact h e he hs
  · exact hk hs

theorem OwnersIn.erase (h : OwnersIn P owners) (k : NodeId) : OwnersIn P (owners.erase k) :=
  fun e he hs => h e (List.mem_of_mem_filter he) hs

theorem OwnersIn.retain (h : OwnersIn P owners) (p : NodeId → VNodeNodeStatus → Bool) :
    OwnersIn P (owners.retain p) :=
  fun e he hs => h e (VecMap.mem_entries_retain he).1 hs

theorem OwnersIn.mono {Q : NodeId → Prop} (h : OwnersIn P owners) (hPQ : ∀ k, P k → Q k) :
    OwnersIn Q owners :=
  fun e he hs => hPQ _ (h e he hs)

theorem OwnersIn.pruneRetiring {vn : VNode} (h : OwnersIn P vn.owners) :
    OwnersIn P vn.pruneRetiring.owners := by
  unfold VNode.pruneRetiring
  split
  · exact h
  · exact h.retain _

/-- Inserting a key `node_map` already has keeps its keys in `P`. -/
theorem keys_insert_of_mem {m : NodeMap} (hm : ∀ k ∈ m.keys, P k) {node : NodeId}
    (hn : node ∈ m.keys) (vns : Finset ℕ) : ∀ k ∈ (m.insert node vns).keys, P k := fun k hk =>
  (VecMap.mem_keys_insert_of_mem hk).elim (hm k) fun h => h ▸ hm _ hn

/-- A replica step 1 adds is a node of `node_map`. -/
theorem addReplica_ownersIn {vnNo : ℕ} {s s' : NodeMap × VNode}
    (h : addReplica vnNo s = .ok s') (hm : ∀ k ∈ s.1.keys, P k) (hv : OwnersIn P s.2.owners) :
    (∀ k ∈ s'.1.keys, P k) ∧ OwnersIn P s'.2.owners := by
  obtain ⟨m, vn⟩ := s
  -- both branches insert, into both maps, a node `node_map` has
  have hins : ∀ node vns (st : VNodeNodeStatus), node ∈ m.keys →
      (∀ k ∈ (m.insert node vns).keys, P k) ∧ OwnersIn P (vn.owners.insert node st) :=
    fun node vns _ hn => ⟨keys_insert_of_mem hm hn vns, hv.insert fun _ => hm _ hn⟩
  dsimp only [addReplica] at h
  split at h
  · rename_i node vns hmin
    have hn : node ∈ m.keys :=
      List.mem_map.mpr ⟨(node, vns), List.mem_of_mem_filter (List.argmin_mem hmin), rfl⟩
    split at h
    · cases h
    · cases h
      exact hins _ _ _ hn
  · split at h
    · split at h
      · rename_i vns hg
        split at h
        · cases h
        · cases h
          exact hins _ _ _ ((m.mem_keys_iff).mpr ⟨vns, hg⟩)
      · cases h
    · cases h

/-- `for _ in 0..n` keeps what every successful body keeps. -/
theorem repeatM_induct {σ : Type} {Q : σ → Prop} {f : σ → Except RingError σ}
    (hf : ∀ s s', Q s → f s = .ok s' → Q s') : ∀ {n : ℕ} {s s' : σ}, Q s → repeatM f n s = .ok s' → Q s'
  | 0, _, _, hs, h => by
    cases h
    exact hs
  | n + 1, s, _, hs, h => by
    rw [repeatM] at h
    obtain ⟨s₁, h₁, h⟩ := except_bind_eq_ok h
    exact repeatM_induct hf (hf s s₁ hs h₁) h

/-- Steps 1 and 2 thread `node_map` through the vnodes and collect the new
ones: they keep `P` when the work on each vnode does. -/
theorem foldlM_vnodes_ownersIn (g : NodeMap → VNode × ℕ → Except RingError (NodeMap × VNode))
    {l : List (VNode × ℕ)} {m m' : NodeMap} {vs : List VNode}
    (hg : ∀ m p s', (∀ k ∈ m.keys, P k) → OwnersIn P p.1.owners → g m p = .ok s' →
      (∀ k ∈ s'.1.keys, P k) ∧ OwnersIn P s'.2.owners)
    (hl : ∀ p ∈ l, OwnersIn P p.1.owners) (hm : ∀ k ∈ m.keys, P k)
    (h : l.foldlM (fun (acc : NodeMap × List VNode) p => do
      let (m, vn) ← g acc.1 p
      pure (m, acc.2 ++ [vn])) (m, []) = .ok (m', vs)) :
    (∀ k ∈ m'.keys, P k) ∧ ∀ vn ∈ vs, OwnersIn P vn.owners := by
  refine foldlM_except_induct
    (P := fun acc : NodeMap × List VNode =>
      (∀ k ∈ acc.1.keys, P k) ∧ ∀ vn ∈ acc.2, OwnersIn P vn.owners) ?_ ⟨hm, by simp⟩ h
  rintro ⟨m₁, acc⟩ p b hp ⟨hm₁, hacc⟩ hb
  obtain ⟨⟨m₂, vn₂⟩, hstep, hb⟩ := except_bind_eq_ok hb
  cases hb
  obtain ⟨hm₂, hvn₂⟩ := hg m₁ p _ hm₁ (hl p hp) hstep
  exact ⟨hm₂, List.forall_mem_append.mpr ⟨hacc, List.forall_mem_singleton.mpr hvn₂⟩⟩

/-- Step 1 keeps the keys of `node_map` and the owners of every vnode in `P`. -/
theorem completeReplicas_ownersIn {rf : ℕ} {m m' : NodeMap} {vnodes vs : List VNode}
    (h : completeReplicas rf m vnodes = .ok (m', vs)) (hm : ∀ k ∈ m.keys, P k)
    (hv : ∀ vn ∈ vnodes, OwnersIn P vn.owners) :
    (∀ k ∈ m'.keys, P k) ∧ ∀ vn ∈ vs, OwnersIn P vn.owners := by
  refine foldlM_vnodes_ownersIn (fun m p => repeatM (addReplica p.2) (rf - p.1.replicas) (m, p.1))
    (fun m p s' hm hp hs => ?_) (fun p hp => hv p.1 (List.fst_mem_of_mem_zipIdx hp)) hm h
  exact repeatM_induct
    (Q := fun s : NodeMap × VNode => (∀ k ∈ s.1.keys, P k) ∧ OwnersIn P s.2.owners)
    (fun _ _ hs hs' => addReplica_ownersIn hs' hs.1 hs.2) ⟨hm, hp⟩ hs

/-- A move of step 2 hands the vnode to a node of `node_map`. -/
theorem moveReplica_ownersIn {vnNo : ℕ} {s s' : NodeMap × VNode} {p : NodeId × NodeId}
    (h : moveReplica vnNo s p = .ok s') (hm : ∀ k ∈ s.1.keys, P k) (hv : OwnersIn P s.2.owners) :
    (∀ k ∈ s'.1.keys, P k) ∧ OwnersIn P s'.2.owners := by
  obtain ⟨m, vn⟩ := s
  obtain ⟨fromNode, toNode⟩ := p
  dsimp only [moveReplica] at h
  split at h
  · cases h
  · split at h
    · cases h
    · split at h
      · cases h
      · rename_i fs hfs
        split at h
        · cases h
        · split at h
          · cases h
          · rename_i ts hts
            split at h
            · cases h
            · cases h
              -- `fromNode` had an entry, and `toNode` has one after it
              have hfrom : fromNode ∈ m.keys := (m.mem_keys_iff).mpr ⟨fs, hfs⟩
              have hm₁ := keys_insert_of_mem hm hfrom (fs.erase vnNo)
              have hto : toNode ∈ (m.insert fromNode (fs.erase vnNo)).keys :=
                (VecMap.mem_keys_iff _).mpr ⟨ts, hts⟩
              refine ⟨keys_insert_of_mem hm₁ hto _, ?_⟩
              exact (hv.insert fun _ => hm₁ _ hto).insert fun hs => absurd rfl hs

/-- Step 2 on one vnode only moves replicas: the scan for the owners doing
too much only reads. -/
theorem robinHoodVNode_ownersIn {vnpn : ℕ} {m : NodeMap} {p : VNode × ℕ} {s' : NodeMap × VNode}
    (h : robinHoodVNode vnpn m p = .ok s') (hm : ∀ k ∈ m.keys, P k)
    (hv : OwnersIn P p.1.owners) : (∀ k ∈ s'.1.keys, P k) ∧ OwnersIn P s'.2.owners := by
  obtain ⟨doingMuch, -, h⟩ := except_bind_eq_ok h
  exact foldlM_except_induct
    (P := fun s : NodeMap × VNode => (∀ k ∈ s.1.keys, P k) ∧ OwnersIn P s.2.owners)
    (fun _ _ _ _ hs hs' => moveReplica_ownersIn hs' hs.1 hs.2) ⟨hm, hv⟩ h

theorem robinHood_ownersIn {vnpn : ℕ} {m : NodeMap} {vnodes vs : List VNode}
    (h : robinHood vnpn m vnodes = .ok vs) (hm : ∀ k ∈ m.keys, P k)
    (hv : ∀ vn ∈ vnodes, OwnersIn P vn.owners) : ∀ vn ∈ vs, OwnersIn P vn.owners := by
  obtain ⟨⟨m', vs'⟩, hloop, rfl⟩ := except_map_eq_ok h
  exact (foldlM_vnodes_ownersIn (robinHoodVNode vnpn)
    (fun _ _ _ hm hp hs => robinHoodVNode_ownersIn hs hm hp)
    (fun p hp => hv p.1 (List.fst_mem_of_mem_zipIdx hp)) hm hloop).2

end OwnersIn

/-- The first loop keeps the keys of `node_map`. -/
theorem readOwners_keys {m m' : NodeMap} {vnodes : List VNode} (h : readOwners m vnodes = some m')
    (k : NodeId) : k ∈ m'.keys ↔ k ∈ m.keys := by
  let Q : NodeMap → Prop := fun b => k ∈ b.keys ↔ k ∈ m.keys
  refine foldlM_induct (P := Q) (fun b p b' _ hb hp => ?_) Iff.rfl h
  exact foldlM_induct (P := Q) (fun c e c' _ hc he => (readOwner_keys he k).trans hc) hb hp

namespace Ring

variable {T : Type}

/-- Node `k` is a valid node of the ring. -/
def IsValidNode (r : Ring T) (k : NodeId) : Prop :=
  (r.nodes.get? k).map (·.status) = some .valid

theorem ownersValid_iff {r : Ring T} :
    r.OwnersValid ↔ ∀ vn ∈ r.vnodes, OwnersIn r.IsValidNode vn.owners :=
  Iff.rfl

/-- The small case lists only valid nodes of the ring. -/
theorem assignSmall_ownersIn {r : Ring T} {this : NodeId} {status : VNodeNodeStatus} {vn : VNode}
    {e : NodeId × Node T} (he : e ∈ r.nodes.entries) (hv : OwnersIn r.IsValidNode vn.owners) :
    OwnersIn r.IsValidNode (assignSmall this status vn e).owners := by
  unfold assignSmall
  split
  · exact hv
  · rename_i hs
    have hvalid : r.IsValidNode e.1 := by
      rw [IsValidNode, (VecMap.get?_eq_some_iff _).mpr he, Option.map_some, not_not.mp hs]
    split
    · exact hv.insert fun _ => hvalid
    · split
      · exact hv
      · exact hv.insert fun _ => hvalid

/-- What a successful `rebalance` returns: the ring with its version bumped
and new vnodes, from the small case, or from the two steps of the main case
after the first loop. -/
theorem rebalance_spec {r r' : Ring T} {this : NodeId} (h : r.rebalance this = .ok r') :
    ∃ vs, r' = { r with version := r.version.event this, vnodes := vs } ∧
      ((r.validNodesCount ≤ r.replicationFactor ∧
          vs = r.vnodes.map fun vn => r.nodes.entries.foldl
            (assignSmall this (if r.nodes.size = 1 then .owner else .pending)) vn) ∨
        ∃ m m₁ vs₁, readOwners r.validNodeMap r.vnodes = some m ∧
          completeReplicas r.replicationFactor m
            (r.vnodes.map fun vn => { vn with version := vn.version.event this }) = .ok (m₁, vs₁) ∧
          robinHood ((r.vnodes.length * r.replicationFactor + m.size - 1) / m.size) m₁ vs₁ =
            .ok vs) := by
  unfold rebalance at h
  dsimp only at h
  split at h
  · rename_i hsmall
    cases h
    exact ⟨_, rfl, .inl ⟨hsmall, rfl⟩⟩
  · split at h
    · cases h
    · rename_i m hm
      obtain ⟨⟨m₁, vs₁⟩, h₁, h⟩ := except_bind_eq_ok h
      obtain ⟨vs₂, h₂, h⟩ := except_bind_eq_ok h
      obtain ⟨-, -, h⟩ := except_bind_eq_ok h
      cases h
      exact ⟨vs₂, rfl, .inr ⟨m, m₁, vs₁, hm, h₁, h₂⟩⟩

/-- `rebalance` keeps the owners valid: every owner it adds is a valid node. -/
theorem rebalance_ownersValid {r r' : Ring T} {this : NodeId} (hr : r.OwnersValid)
    (h : r.rebalance this = .ok r') : r'.OwnersValid := by
  obtain ⟨vs, rfl, ⟨-, rfl⟩ | ⟨m, m₁, vs₁, hm, h₁, h₂⟩⟩ := rebalance_spec h
  · -- each vnode is folded over the nodes of the ring
    refine ownersValid_iff.mpr fun vn hvn => ?_
    obtain ⟨vn₀, hvn₀, rfl⟩ := List.mem_map.mp hvn
    exact foldl_induct (P := fun v : VNode => OwnersIn r.IsValidNode v.owners)
      (fun _ _ he hv => assignSmall_ownersIn he hv) (hr vn₀ hvn₀)
  · -- `node_map` starts with the valid nodes, and the vnodes with valid owners
    have hkeys : ∀ k ∈ m.keys, r.IsValidNode k := fun k hk =>
      mem_keys_validNodeMap ((readOwners_keys hm k).mp hk)
    have hvs : ∀ vn ∈ r.vnodes.map (fun vn => { vn with version := vn.version.event this }),
        OwnersIn r.IsValidNode vn.owners := by
      intro vn hvn
      obtain ⟨vn₀, hvn₀, rfl⟩ := List.mem_map.mp hvn
      exact hr vn₀ hvn₀
    obtain ⟨hm₁, hvs₁⟩ := completeReplicas_ownersIn h₁ hkeys hvs
    exact robinHood_ownersIn h₂ hm₁ hvs₁

end Ring

end Dht

end Sucredb
