/-
Sucredb.Dht.Queries — what a node asks of its ring: `DHT::partitions`,
`key_vnode`, `vnodes_for_node`, `nodes_for_vnode_ex`, `members` and `slots`.

`key_vnode` sends a key to vnode `hash_slot / (HASH_SLOTS / partitions)`, so
each vnode gets a run of consecutive hash slots. `slots`, which answers
`CLUSTER SLOTS`, gives every vnode that run as the range `(vn_no *
slots_per_partition, (vn_no + 1) * slots_per_partition - 1)`, computed in
`u16`, with its owners that are not retiring. When the number of vnodes
divides `HASH_SLOTS`, as the powers of two that `DHT::init` accepts do,
nothing wraps: the range of vnode `i` holds exactly the slots `key_vnode`
sends to `i` (`mem_slotRange_iff`). So the ranges tile the slots, and the one
holding a key's slot is its vnode's, listing the nodes that
`nodes_for_vnode_ex(_, true, false)` gives for it
(`cluster_slots_route_every_key`).

`slots` returns a `BTreeMap`, kept here as a `VecMap` in the order the vnodes
insert their ranges; `members` returns a hash map, kept as the list of its
entries in the ring's order. Arithmetic in `u16` wraps, as in a release build.
-/
import Sucredb.Dht.Cluster
import Sucredb.Dht.Hash

namespace Sucredb

namespace Dht

variable {T : Type}

/-- Whether `nodes_for_vnode_ex` lists an owner of this status. -/
def VNodeNodeStatus.isListed (includePending includeRetiring : Bool) : VNodeNodeStatus → Bool
  | .owner => true
  | .pending => includePending
  | .retiring => includeRetiring

namespace Ring

/-! ## The model -/

/-- `DHT::partitions`: the number of vnodes. -/
def partitions (r : Ring T) : ℕ := r.vnodes.length

/-- `DHT::key_vnode`. -/
def keyVnode (r : Ring T) (key : Bytes) : Option VNodeNo := Hash.keyVnode r.partitions key

/-- `DHT::vnodes_for_node`: the vnodes whose data `node` holds, as an owner or
retiring, and those it is pending for. -/
def vnodesForNode (r : Ring T) (node : NodeId) : List VNodeNo × List VNodeNo :=
  (enumerateVNodes r.vnodes).foldl (fun result p =>
      match p.1.owners.get? node with
      | some .owner => (result.1 ++ [p.2], result.2)
      | some .pending => (result.1, result.2 ++ [p.2])
      | some .retiring => (result.1 ++ [p.2], result.2)
      | none => result)
    ([], [])

/-- The entry of an owner in `nodes_for_vnode_ex` and `slots`: its id, address
and metadata; `none` is the `unwrap` of an owner with no node. -/
def ownerEntry (r : Ring T) (nodeId : NodeId) : Option (NodeId × (SocketAddr × T)) :=
  (r.nodes.get? nodeId).map fun node => (nodeId, (node.addr, node.metadata))

/-- `DHT::nodes_for_vnode_ex`; `none` is the index panic or an `unwrap`. -/
def nodesForVnodeEx (r : Ring T) (vnNo : VNodeNo) (includePending includeRetiring : Bool) :
    Option (List (NodeId × (SocketAddr × T))) := do
  let vn ← r.vnodes[vnNo]?
  (vn.owners.entries.filter fun e => e.2.isListed includePending includeRetiring).mapM
    fun e => r.ownerEntry e.1

/-- `DHT::members`: the nodes that are not `Invalid`, with their addresses. -/
def members (r : Ring T) : List (NodeId × SocketAddr) :=
  (r.nodes.entries.filter fun e => e.2.status ≠ .invalid).map fun e => (e.1, e.2.addr)

/-- The first and last hash slot of vnode `vnNo` in `DHT::slots`, in `u16`. -/
def slotRange (slotsPerPartition : UInt16) (vnNo : ℕ) : UInt16 × UInt16 :=
  (vnNo.toUInt16 * slotsPerPartition, (vnNo.toUInt16 + 1) * slotsPerPartition - 1)

/-- The members `DHT::slots` lists for a vnode: its owners that are not
retiring; `none` is an `unwrap`. -/
def slotMembers (r : Ring T) (vn : VNode) : Option (List (NodeId × (SocketAddr × T))) :=
  (vn.owners.entries.filter fun e => e.2 ≠ .retiring).mapM fun e => r.ownerEntry e.1

/-- `DHT::slots`; `none` is the division by zero of a ring whose number of
vnodes is `0` as a `u16`, or an `unwrap`. -/
def slots (r : Ring T) : Option (VecMap (UInt16 × UInt16) (List (NodeId × (SocketAddr × T)))) :=
  if r.partitions.toUInt16 = 0 then none
  else
    let slotsPerPartition := Hash.hashSlots / r.partitions.toUInt16
    (enumerateVNodes r.vnodes).foldlM (fun result p => do
        let members ← r.slotMembers p.1
        pure (result.insert (slotRange slotsPerPartition p.2) members))
      VecMap.empty

/-! ## What the queries list -/

section Lists

variable {r : Ring T}

/-- `slots` lists for a vnode what `nodes_for_vnode_ex` gives with the pending
owners and without the retiring ones. -/
theorem nodesForVnodeEx_true_false {i : VNodeNo} {vn : VNode} (hvn : r.vnodes[i]? = some vn) :
    r.nodesForVnodeEx i true false = r.slotMembers vn := by
  simp only [nodesForVnodeEx, hvn, Option.bind_eq_bind, Option.bind_some, slotMembers]
  congr 1
  refine List.filter_congr fun e _ => ?_
  cases e.2 <;> rfl

/-- Under `OwnersValid` every owner `slots` lists is a node. -/
theorem slotMembers_isSome (hr : r.OwnersValid) {vn : VNode} (hvn : vn ∈ r.vnodes) :
    (r.slotMembers vn).isSome := by
  have hall : ∀ e ∈ vn.owners.entries.filter (fun e => e.2 ≠ .retiring),
      (r.ownerEntry e.1).isSome := by
    intro e he
    obtain ⟨he, hs⟩ := List.mem_filter.mp he
    have hv := hr vn hvn e he (of_decide_eq_true hs)
    cases hn : r.nodes.get? e.1 with
    | none => simp [hn] at hv
    | some node => simp [ownerEntry, hn]
  rw [slotMembers, (mapM_eq_some_iff.mpr ⟨hall, rfl⟩)]
  rfl

/-- The two lists of `vnodes_for_node`, as filters of the vnodes. -/
theorem vnodesForNode_eq (node : NodeId) :
    r.vnodesForNode node =
      (((enumerateVNodes r.vnodes).filter fun p =>
          p.1.owners.get? node = some .owner ∨ p.1.owners.get? node = some .retiring).map Prod.snd,
        ((enumerateVNodes r.vnodes).filter fun p =>
          p.1.owners.get? node = some .pending).map Prod.snd) := by
  -- the loop appends each vnode to one list at most
  suffices h : ∀ (l : List (VNode × ℕ)) (acc : List VNodeNo × List VNodeNo),
      l.foldl (fun result p =>
          match p.1.owners.get? node with
          | some .owner => (result.1 ++ [p.2], result.2)
          | some .pending => (result.1, result.2 ++ [p.2])
          | some .retiring => (result.1 ++ [p.2], result.2)
          | none => result) acc =
        (acc.1 ++ (l.filter fun p =>
            p.1.owners.get? node = some .owner ∨ p.1.owners.get? node = some .retiring).map Prod.snd,
          acc.2 ++ (l.filter fun p => p.1.owners.get? node = some .pending).map Prod.snd) from
    h _ ([], [])
  intro l
  induction l with
  | nil => simp
  | cons p l ih =>
    intro acc
    rw [List.foldl_cons, ih]
    rcases hs : p.1.owners.get? node with _ | ⟨_ | _ | _⟩ <;> simp [hs]

/-- The positions of the items of `l` that `P` holds of. -/
theorem mem_map_snd_filter_zipIdx {α : Type*} {P : α → Prop} [DecidablePred P] {l : List α}
    {i : ℕ} : i ∈ ((l.zipIdx.filter fun p => P p.1).map Prod.snd) ↔ ∃ a, l[i]? = some a ∧ P a := by
  simp [List.mem_zipIdx_iff_getElem?]

/-- `vnodes_for_node` lists vnode `i` first when the node owns it or is
retiring from it, second when it is pending for it. -/
theorem mem_vnodesForNode {node : NodeId} {i : VNodeNo} :
    (i ∈ (r.vnodesForNode node).1 ↔ ∃ vn, r.vnodes[i]? = some vn ∧
      (vn.owners.get? node = some .owner ∨ vn.owners.get? node = some .retiring)) ∧
    (i ∈ (r.vnodesForNode node).2 ↔ ∃ vn, r.vnodes[i]? = some vn ∧
      vn.owners.get? node = some .pending) := by
  rw [vnodesForNode_eq, enumerateVNodes]
  exact ⟨mem_map_snd_filter_zipIdx (P := fun vn : VNode =>
      vn.owners.get? node = some .owner ∨ vn.owners.get? node = some .retiring),
    mem_map_snd_filter_zipIdx (P := fun vn : VNode => vn.owners.get? node = some .pending)⟩

/-- `members` names each node once. -/
theorem nodup_members : (r.members.map Prod.fst).Nodup := by
  have hsub := (List.filter_sublist (p := fun e : NodeId × Node T => e.2.status ≠ .invalid)
    (l := r.nodes.entries)).map Prod.fst
  simpa [members, List.map_map, Function.comp_def] using hsub.nodup r.nodes.nodup

theorem mem_members {k : NodeId} {a : SocketAddr} :
    (k, a) ∈ r.members ↔
      ∃ node, r.nodes.get? k = some node ∧ node.status ≠ .invalid ∧ node.addr = a := by
  simp only [members, List.mem_map, List.mem_filter, Prod.mk.injEq]
  constructor
  · rintro ⟨⟨k', node⟩, ⟨he, hs⟩, rfl, rfl⟩
    exact ⟨node, (r.nodes.get?_eq_some_iff).mpr he, by simpa using hs, rfl⟩
  · rintro ⟨node, hk, hs, rfl⟩
    exact ⟨(k, node), ⟨(r.nodes.get?_eq_some_iff).mp hk, by simpa using hs⟩, rfl, rfl⟩

/-- `members` lists each node that is not `Invalid` once, at its address. -/
theorem lookup_members (k : NodeId) :
    r.members.lookup k =
      ((r.nodes.get? k).filter fun node => node.status ≠ .invalid).map (·.addr) := by
  cases h : (r.nodes.get? k).filter fun node => node.status ≠ .invalid with
  | none =>
    -- a listed entry under `k` would be a node that is not `Invalid`
    rw [Option.map_none, List.lookup_eq_none_iff]
    rintro ⟨k', a⟩ he
    obtain ⟨node, hk, hs, -⟩ := mem_members.mp he
    refine bne_iff_ne.mpr fun hkk => ?_
    subst hkk
    exact Option.filter_eq_none_iff.mp h node hk (by simpa using hs)
  | some node =>
    obtain ⟨hk, hs⟩ := Option.filter_eq_some_iff.mp h
    exact (VecMap.lookup_eq_some_of_nodup nodup_members).mpr
      (mem_members.mpr ⟨node, hk, by simpa using hs, rfl⟩)

end Lists

/-! ## The slot ranges -/

section SlotRanges

variable {p : ℕ}

theorem toNat_hashSlot_lt (key : Bytes) : (Hash.hashSlot key).toNat < 16384 := by
  rw [Hash.hashSlot, UInt16.toNat_mod]
  exact Nat.mod_lt _ (by decide)

/-- With `p` dividing `HASH_SLOTS`, `slots_per_partition` is `16384 / p`. -/
theorem toNat_slotsPerPartition (hp : p ∣ 16384) :
    (Hash.hashSlots / p.toUInt16).toNat = 16384 / p := by
  have hle : p ≤ 16384 := Nat.le_of_dvd (by decide) hp
  have hp' : p.toUInt16.toNat = p := by
    simp only [Nat.toUInt16, UInt16.toNat_ofNat']
    omega
  rw [UInt16.toNat_div, hp']
  rfl

/-- The range of vnode `i < p`, without wrapping. -/
theorem slotRange_toNat (hp : p ∣ 16384) {i : ℕ} (hi : i < p) :
    (slotRange (Hash.hashSlots / p.toUInt16) i).1.toNat = i * (16384 / p) ∧
      (slotRange (Hash.hashSlots / p.toUInt16) i).2.toNat = (i + 1) * (16384 / p) - 1 := by
  have hw := Nat.div_mul_cancel hp
  have hwpos : 0 < 16384 / p := Nat.div_pos (Nat.le_of_dvd (by decide) hp) (by omega)
  -- the last range ends at the last slot: no product wraps
  have hend : (i + 1) * (16384 / p) ≤ 16384 := by
    calc (i + 1) * (16384 / p) ≤ p * (16384 / p) := Nat.mul_le_mul_right _ hi
      _ = 16384 := by rw [Nat.mul_comm, hw]
  have hi' : i.toUInt16.toNat = i := by
    simp only [Nat.toUInt16, UInt16.toNat_ofNat']
    have : i < 16384 := by nlinarith
    omega
  simp only [slotRange, UInt16.toNat_mul, UInt16.toNat_add, UInt16.toNat_sub, hi',
    toNat_slotsPerPartition hp, UInt16.toNat_one]
  have hadd : (i + 1) % 2 ^ 16 = i + 1 := by
    have : i < 16384 := by nlinarith
    omega
  rw [hadd, Nat.add_mul, Nat.one_mul] at *
  constructor <;> omega

/-- Vnode `i`'s range holds exactly the slots `key_vnode` sends to `i`. -/
theorem mem_slotRange_iff (hp : p ∣ 16384) {i : ℕ} (hi : i < p) (s : UInt16) :
    ((slotRange (Hash.hashSlots / p.toUInt16) i).1 ≤ s ∧
        s ≤ (slotRange (Hash.hashSlots / p.toUInt16) i).2) ↔
      s.toNat / (16384 / p) = i := by
  obtain ⟨h₁, h₂⟩ := slotRange_toNat hp hi
  have hwpos : 0 < 16384 / p := Nat.div_pos (Nat.le_of_dvd (by decide) hp) (by omega)
  rw [UInt16.le_iff_toNat_le, UInt16.le_iff_toNat_le, h₁, h₂, Nat.div_eq_iff hwpos, Nat.add_mul,
    Nat.one_mul]

/-- Distinct vnodes have distinct ranges. -/
theorem slotRange_injOn (hp : p ∣ 16384) {i j : ℕ} (hi : i < p) (hj : j < p)
    (h : slotRange (Hash.hashSlots / p.toUInt16) i = slotRange (Hash.hashSlots / p.toUInt16) j) :
    i = j := by
  have hwpos : 0 < 16384 / p := Nat.div_pos (Nat.le_of_dvd (by decide) hp) (by omega)
  have h₁ := congrArg (fun k => k.1.toNat) h
  simp only [(slotRange_toNat hp hi).1, (slotRange_toNat hp hj).1] at h₁
  exact Nat.eq_of_mul_eq_mul_right hwpos h₁

/-- `key_vnode` on `p` vnodes dividing `HASH_SLOTS`: the vnode whose run holds
the key's slot, one of the `p`. -/
theorem keyVnode_eq (hp : p ∣ 16384) (hpos : 0 < p) (key : Bytes) :
    Hash.keyVnode p key = some ((Hash.hashSlot key).toNat / (16384 / p)) ∧
      (Hash.hashSlot key).toNat / (16384 / p) < p := by
  have hwpos : 0 < 16384 / p := Nat.div_pos (Nat.le_of_dvd (by decide) hp) hpos
  have hne : Hash.hashSlots / p.toUInt16 ≠ 0 := fun h => by
    have := congrArg UInt16.toNat h
    rw [toNat_slotsPerPartition hp] at this
    exact absurd this (Nat.pos_iff_ne_zero.mp hwpos)
  refine ⟨?_, ?_⟩
  · simp only [Hash.keyVnode, if_neg hne, UInt16.toNat_div, toNat_slotsPerPartition hp]
  · rw [Nat.div_lt_iff_lt_mul hwpos, Nat.mul_div_cancel' hp]
    exact toNat_hashSlot_lt key

end SlotRanges

/-! ## `slots` -/

section Slots

variable {r : Ring T}

/-- The ranges of the vnodes, one per vnode, are distinct. -/
theorem nodup_slotRanges (hp : r.partitions ∣ 16384) :
    ((enumerateVNodes r.vnodes).map fun x => slotRange (Hash.hashSlots / r.partitions.toUInt16) x.2).Nodup := by
  have hmap : (enumerateVNodes r.vnodes).map (fun x => slotRange (Hash.hashSlots / r.partitions.toUInt16) x.2) =
      (List.range' 0 r.vnodes.length).map (slotRange (Hash.hashSlots / r.partitions.toUInt16)) := by
    rw [← List.zipIdx_map_snd 0 r.vnodes, List.map_map]
    rfl
  have hlt : ∀ i ∈ List.range' 0 r.vnodes.length, i < r.partitions := fun i hi => by
    have := (List.mem_range'_1.mp hi).2
    rw [Nat.zero_add] at this
    exact this
  rw [hmap]
  exact List.Nodup.map_on (fun i hi j hj h => slotRange_injOn hp (hlt i hi) (hlt j hj) h)
    List.nodup_range'

/-- With the vnodes dividing `HASH_SLOTS` and every listed owner a node,
`slots` gives each vnode its range and members, and has no other range. -/
theorem slots_spec (hp : r.partitions ∣ 16384) (hpos : 0 < r.partitions) (hr : r.OwnersValid) :
    ∃ m, r.slots = some m ∧
      (∀ k ∈ m.keys, ∃ i < r.partitions, k = slotRange (Hash.hashSlots / r.partitions.toUInt16) i) ∧
      ∀ i vn, r.vnodes[i]? = some vn →
        m.get? (slotRange (Hash.hashSlots / r.partitions.toUInt16) i) = r.slotMembers vn := by
  have hw : r.partitions.toUInt16 ≠ 0 := fun h => by
    have := congrArg UInt16.toNat h
    have hle : r.partitions ≤ 16384 := Nat.le_of_dvd (by decide) hp
    simp only [Nat.toUInt16, UInt16.toNat_ofNat', UInt16.toNat_zero] at this
    omega
  -- every vnode's members exist, so the loop is a plain fold of inserts
  have hstep : ∀ (b : VecMap (UInt16 × UInt16) (List (NodeId × (SocketAddr × T)))) (a : VNode × ℕ),
      a ∈ enumerateVNodes r.vnodes →
        (do
          let members ← r.slotMembers a.1
          pure (b.insert (slotRange (Hash.hashSlots / r.partitions.toUInt16) a.2) members)) =
        some (b.insert (slotRange (Hash.hashSlots / r.partitions.toUInt16) a.2)
          ((r.slotMembers a.1).getD [])) := by
    intro b a ha
    obtain ⟨ms, hms⟩ := Option.isSome_iff_exists.mp
      (slotMembers_isSome hr (List.fst_mem_of_mem_zipIdx ha))
    rw [hms]
    rfl
  refine ⟨_, by rw [slots, if_neg hw]; exact foldlM_eq_some_foldl _ hstep, ?_, ?_⟩
  · intro k hk
    obtain ⟨v, hv⟩ := (VecMap.mem_keys_iff _).mp hk
    rw [VecMap.get?_foldl_insert k _ _ (nodup_slotRanges hp), VecMap.get?_empty,
      Option.or_none] at hv
    obtain ⟨x, hx, -⟩ := Option.map_eq_some_iff.mp hv
    have hxk := List.find?_some hx
    have hxm := List.mem_of_find?_eq_some hx
    exact ⟨x.2, List.snd_lt_of_mem_zipIdx hxm, (of_decide_eq_true hxk).symm⟩
  · intro i vn hvn
    have hmem : (vn, i) ∈ enumerateVNodes r.vnodes := List.mem_zipIdx_iff_getElem?.mpr hvn
    obtain ⟨ms, hms⟩ := Option.isSome_iff_exists.mp
      (slotMembers_isSome hr (List.mem_of_getElem? hvn))
    have hval : r.slotMembers vn = some ((r.slotMembers vn).getD []) := by
      rw [hms]
      rfl
    rw [hval]
    exact VecMap.get?_foldl_insert_of_mem VecMap.empty (nodup_slotRanges hp) hmem

/-- The range of each vnode is a key of `slots`, holding the nodes
`nodes_for_vnode_ex(_, true, false)` gives for the vnode. -/
theorem slots_get?_slotRange (hp : r.partitions ∣ 16384) (hpos : 0 < r.partitions)
    (hr : r.OwnersValid) {m : VecMap (UInt16 × UInt16) (List (NodeId × (SocketAddr × T)))}
    (hm : r.slots = some m) {i : ℕ} (hi : i < r.partitions) :
    ∃ ms, m.get? (slotRange (Hash.hashSlots / r.partitions.toUInt16) i) = some ms ∧
      r.nodesForVnodeEx i true false = some ms := by
  obtain ⟨m', hm', -, hget⟩ := slots_spec hp hpos hr
  obtain rfl : m' = m := Option.some.inj (hm'.symm.trans hm)
  obtain ⟨vn, hvn⟩ : ∃ vn, r.vnodes[i]? = some vn := ⟨_, List.getElem?_eq_getElem hi⟩
  obtain ⟨ms, hms⟩ := Option.isSome_iff_exists.mp
    (slotMembers_isSome hr (List.mem_of_getElem? hvn))
  exact ⟨ms, (hget i vn hvn).trans hms, (nodesForVnodeEx_true_false hvn).trans hms⟩

/-- The ranges of `slots` tile the hash slots: each slot is in exactly one. -/
theorem slots_tile (hp : r.partitions ∣ 16384) (hpos : 0 < r.partitions) (hr : r.OwnersValid)
    {m : VecMap (UInt16 × UInt16) (List (NodeId × (SocketAddr × T)))} (hm : r.slots = some m)
    {s : UInt16} (hs : s < Hash.hashSlots) : ∃! k, k ∈ m.keys ∧ k.1 ≤ s ∧ s ≤ k.2 := by
  obtain ⟨m', hm', hkeys, -⟩ := slots_spec hp hpos hr
  obtain rfl : m' = m := Option.some.inj (hm'.symm.trans hm)
  have hv : s.toNat / (16384 / r.partitions) < r.partitions := by
    rw [Nat.div_lt_iff_lt_mul (Nat.div_pos (Nat.le_of_dvd (by decide) hp) hpos),
      Nat.mul_div_cancel' hp]
    exact UInt16.lt_iff_toNat_lt.mp hs
  obtain ⟨ms, hms, -⟩ := slots_get?_slotRange hp hpos hr hm' hv
  refine ⟨_, ⟨(VecMap.mem_keys_iff _).mpr ⟨ms, hms⟩, (mem_slotRange_iff hp hv s).mpr rfl⟩, ?_⟩
  -- any range holding `s` is the range of `s`'s vnode
  rintro k ⟨hk, hk₁, hk₂⟩
  obtain ⟨j, hj, rfl⟩ := hkeys k hk
  rw [(mem_slotRange_iff hp hj s).mp ⟨hk₁, hk₂⟩]

/-- The range of `slots` that holds a key's hash slot is the one of the vnode
`key_vnode` picks, and lists what `nodes_for_vnode_ex(_, true, false)` gives
for it. -/
theorem slots_route_key (hp : r.partitions ∣ 16384) (hpos : 0 < r.partitions)
    (hr : r.OwnersValid) {m : VecMap (UInt16 × UInt16) (List (NodeId × (SocketAddr × T)))}
    (hm : r.slots = some m) (key : Bytes) :
    ∃ v k ms, r.keyVnode key = some v ∧ k ∈ m.keys ∧
      k.1 ≤ Hash.hashSlot key ∧ Hash.hashSlot key ≤ k.2 ∧
      m.get? k = some ms ∧ r.nodesForVnodeEx v true false = some ms := by
  obtain ⟨hkv, hlt⟩ := keyVnode_eq hp hpos key
  obtain ⟨ms, hms, hex⟩ := slots_get?_slotRange hp hpos hr hm hlt
  have hin := (mem_slotRange_iff hp hlt (Hash.hashSlot key)).mpr rfl
  exact ⟨_, _, ms, hkv, (VecMap.mem_keys_iff _).mpr ⟨ms, hms⟩, hin.1, hin.2, hms, hex⟩

end Slots

/-- `CLUSTER SLOTS` routes every key to its vnode. On a ring whose vnodes
divide `HASH_SLOTS` and whose listed owners are valid nodes, `slots` succeeds;
its ranges tile the hash slots, each slot in exactly one; and the range that
holds a key's hash slot lists exactly the nodes `nodes_for_vnode_ex(_, true,
false)` gives for the vnode `key_vnode` picks for the key. -/
theorem cluster_slots_route_every_key {r : Ring T} (hp : r.partitions ∣ 16384)
    (hpos : 0 < r.partitions) (hr : r.OwnersValid) :
    ∃ m, r.slots = some m ∧
      (∀ s : UInt16, s < Hash.hashSlots → ∃! k, k ∈ m.keys ∧ k.1 ≤ s ∧ s ≤ k.2) ∧
      ∀ key, ∃ v k ms, r.keyVnode key = some v ∧ k ∈ m.keys ∧
        k.1 ≤ Hash.hashSlot key ∧ Hash.hashSlot key ≤ k.2 ∧
        m.get? k = some ms ∧ r.nodesForVnodeEx v true false = some ms := by
  obtain ⟨m, hm, -⟩ := slots_spec hp hpos hr
  exact ⟨m, hm, fun _ hs => slots_tile hp hpos hr hm hs, slots_route_key hp hpos hr hm⟩

/-- The ring `DHT::init` starts from with 32 vnodes. -/
theorem cluster_slots_fresh_ring :
    (Ring.new "sucredb" 32 1 : Ring Unit).partitions ∣ 16384 ∧
      0 < (Ring.new "sucredb" 32 1 : Ring Unit).partitions ∧
      (Ring.new "sucredb" 32 1 : Ring Unit).OwnersValid ∧
      ∃ m, (Ring.new "sucredb" 32 1 : Ring Unit).slots = some m ∧
        ∀ s : UInt16, s < Hash.hashSlots → ∃! k, k ∈ m.keys ∧ k.1 ≤ s ∧ s ≤ k.2 := by
  have hp : (Ring.new "sucredb" 32 1 : Ring Unit).partitions ∣ 16384 := by decide
  have hpos : 0 < (Ring.new "sucredb" 32 1 : Ring Unit).partitions := by decide
  have hr : (Ring.new "sucredb" 32 1 : Ring Unit).OwnersValid := by decide
  obtain ⟨m, hm, hs, -⟩ := cluster_slots_route_every_key hp hpos hr
  exact ⟨hp, hpos, hr, m, hm, hs⟩

/-! ## `DHT::init` -/

/-- The node `join_node` adds: valid, at its address, with a version that has
seen one event of `this`. -/
def initNode (this : NodeId) (addr : SocketAddr) (metadata : T) : Node T :=
  ⟨addr, .valid, metadata, VersionVector.new.event this⟩

/-- The first node to join a new ring is added as it is, and bumps the ring
version. -/
theorem joinNode_new [DecidableEq T] (cluster : String) (this : NodeId) (addr : SocketAddr)
    (metadata : T) (partitions rf : ℕ) :
    (Ring.new cluster partitions rf : Ring T).joinNode this this addr metadata =
      .ok { (Ring.new cluster partitions rf : Ring T) with
        nodes := VecMap.empty.insert this (initNode this addr metadata)
        version := VersionVector.new.event this } := by
  simp [joinNode, Ring.new, checkPhysical, validPhysicalCount, VecMap.insert, VecMap.keys,
    VecMap.empty, VecMap.get?, initNode]
  rfl

/-- The vnode a lone node owns once `DHT::init` has rebalanced. -/
def loneVNode (this : NodeId) : VNode :=
  ⟨VecMap.empty.insert this .owner, VersionVector.new.event this⟩

/-- The ring `DHT::init` ends with: the node alone, owning every vnode. -/
def initialRing (cluster : String) (this : NodeId) (addr : SocketAddr) (metadata : T)
    (partitions rf : ℕ) : Ring T :=
  ⟨List.replicate partitions (loneVNode this), VecMap.empty.insert this (initNode this addr metadata),
    rf, (VersionVector.new.event this).event this, cluster⟩

/-- A rebalance of a ring with one node and empty vnodes, as `DHT::init` makes
it: the node owns every vnode. -/
theorem rebalance_lone (r : Ring T) (this : NodeId) (addr : SocketAddr) (metadata : T)
    (hn : r.nodes = VecMap.empty.insert this (initNode this addr metadata))
    (hv : r.vnodes = List.replicate r.vnodes.length VNode.empty) (hrf : 1 ≤ r.replicationFactor) :
    r.rebalance this = .ok { r with
      version := r.version.event this
      vnodes := List.replicate r.vnodes.length (loneVNode this) } := by
  have hvalid : ({ r with version := r.version.event this } : Ring T).validNodesCount = 1 := by
    simp [validNodesCount, hn, VecMap.insert, VecMap.keys, VecMap.empty, initNode]
  have hsize : r.nodes.size = 1 := by
    simp [VecMap.size, hn, VecMap.insert, VecMap.keys, VecMap.empty]
  have hentries : r.nodes.entries = [(this, initNode this addr metadata)] := by
    rw [hn]
    rfl
  -- the small-cluster case: the lone node owns every vnode at once
  simp only [rebalance, hvalid, hsize, if_pos hrf, if_true, hentries, List.foldl_cons,
    List.foldl_nil]
  rw [hv, List.map_replicate, List.length_replicate]
  rfl

end Ring

/-- `DHT::init`'s ring, as `Database::new` starts a cluster: `Ring::new`, then
this node joins it, or replaces `old_node` in it, then a rebalance. `none` is
one of its `assert!`s on the partition count (`u16::is_power_of_two`, between
32 and 1024) and the replication factor (between 1 and 6), or an `unwrap`. -/
def initRing [DecidableEq T] (cluster : String) (this : NodeId) (addr : SocketAddr)
    (metadata : T) (partitions replicationFactor : ℕ) (oldNode : Option NodeId) :
    Option (Ring T) :=
  if ((List.range 16).any fun k => partitions = 2 ^ k) ∧ 32 ≤ partitions ∧ partitions ≤ 1024 ∧
      1 ≤ replicationFactor ∧ replicationFactor ≤ 6 then
    let ring : Ring T := Ring.new cluster partitions replicationFactor
    let joined := match oldNode with
      | some old => ring.replaceNode this old this addr metadata
      | none => ring.joinNode this this addr metadata
    match joined >>= fun r => r.rebalance this with
    | .ok r => some r
    | .error _ => none
  else none

/-- `DHT::init` with the counts it accepts and no old node id: the node alone
owns every vnode. -/
theorem initRing_eq [DecidableEq T] (cluster : String) (this : NodeId) (addr : SocketAddr)
    (metadata : T) {partitions rf : ℕ} (hpow : ∃ k, partitions = 2 ^ k) (h32 : 32 ≤ partitions)
    (h1024 : partitions ≤ 1024) (hrf : 1 ≤ rf) (hrf6 : rf ≤ 6) :
    initRing cluster this addr metadata partitions rf none =
      some (Ring.initialRing cluster this addr metadata partitions rf) := by
  obtain ⟨k, rfl⟩ := hpow
  have hk : k < 16 := by
    by_contra hk
    have := Nat.pow_le_pow_right (by decide : 0 < 2) (Nat.le_of_not_lt hk)
    omega
  have hcheck : ((List.range 16).any fun j => 2 ^ k = 2 ^ j) = true :=
    List.any_eq_true.mpr ⟨k, List.mem_range.mpr hk, decide_eq_true rfl⟩
  have hreb := Ring.rebalance_lone
    { (Ring.new cluster (2 ^ k) rf : Ring T) with
      nodes := VecMap.empty.insert this (Ring.initNode this addr metadata)
      version := VersionVector.new.event this } this addr metadata rfl
    (by simp [Ring.new]) hrf
  simp only [Ring.new, List.length_replicate] at hreb
  simp only [initRing, hcheck, h32, h1024, hrf, hrf6, and_self, if_true, Ring.joinNode_new,
    bind, Except.bind]
  simp only [Ring.new, hreb]
  rfl

namespace Ring

section InitialRing

variable {cluster : String} {this : NodeId} {addr : SocketAddr} {metadata : T} {partitions rf : ℕ}

@[simp] theorem partitions_initialRing :
    (initialRing cluster this addr metadata partitions rf).partitions = partitions :=
  List.length_replicate

theorem getElem?_vnodes_initialRing (cluster : String) (this : NodeId) (addr : SocketAddr)
    (metadata : T) (rf : ℕ) {i partitions : ℕ} (hi : i < partitions) :
    (initialRing cluster this addr metadata partitions rf).vnodes[i]? = some (loneVNode this) :=
  List.getElem?_replicate_of_lt hi

theorem entries_loneVNode : (loneVNode this).owners.entries = [(this, .owner)] := rfl

theorem get?_owners_loneVNode : (loneVNode this).owners.get? this = some .owner := by
  simp [VecMap.get?, entries_loneVNode]

theorem get?_nodes_initialRing :
    (initialRing cluster this addr metadata partitions rf).nodes.get? this =
      some (initNode this addr metadata) := by
  simp [initialRing, VecMap.insert, VecMap.keys, VecMap.empty, VecMap.get?]

/-- The lone node is valid, so the ring keeps its owners valid. -/
theorem ownersValid_initialRing : (initialRing cluster this addr metadata partitions rf).OwnersValid := by
  intro vn hmem e he _
  obtain rfl := List.eq_of_mem_replicate hmem
  rw [entries_loneVNode, List.mem_singleton] at he
  subst he
  rw [get?_nodes_initialRing]
  rfl

/-- `slots` and `nodes_for_vnode_ex` list the lone node for each vnode. -/
theorem slotMembers_initialRing :
    (initialRing cluster this addr metadata partitions rf).slotMembers (loneVNode this) =
      some [(this, (addr, metadata))] := by
  simp [slotMembers, entries_loneVNode, ownerEntry, get?_nodes_initialRing, initNode]

end InitialRing

end Ring

end Dht

end Sucredb
