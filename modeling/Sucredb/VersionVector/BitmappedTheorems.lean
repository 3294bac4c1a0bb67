/-
Sucredb.VersionVector.BitmappedTheorems — what the clock operations do to the
set of versions a `BitmappedVersion` stands for.

`contains` reads the set `{v | v ≤ base} ∪ bitmap`. `norm` does not change it
(`contains_norm`), so `merge` is the union (`contains_merge`). The loop of
`norm` stops for want of a successor in the bitmap, never for want of fuel
(`normBase_succ_not_mem`).

`delta` with the bases in order yields exactly the versions the first has and
the second lacks, in increasing order (`mem_delta_iff`, `delta_pairwise`).

Lifted to `BitmappedVersionVector`, id by id, this gives the clock a sync
receiver ends with (`BitmappedVersionVector.contains_merge`), and the gap in
`delta`: when the sender's base is below the receiver's, the delta of that id
is empty, whatever the sender's bitmap holds (`delta_gap`), so it misses the
dots of that bitmap the receiver lacks (`delta_omits_dot`).
-/
import Sucredb.VersionVector.Bitmapped

namespace Sucredb

namespace BitmappedVersion

variable {bm : Finset Version}

theorem le_normBase : ∀ (fuel base : ℕ), base ≤ normBase bm fuel base
  | 0, _ => le_rfl
  | fuel + 1, base => by
    unfold normBase
    split
    · exact (Nat.le_succ base).trans (le_normBase fuel (base + 1))
    · exact le_rfl

/-- Every version the loop of `norm` passes over is in the bitmap. -/
theorem mem_of_lt_of_le_normBase : ∀ {fuel base w : ℕ}, base < w → w ≤ normBase bm fuel base →
    w ∈ bm
  | 0, _, _, hlt, hle => absurd hle (Nat.not_le.mpr hlt)
  | fuel + 1, base, w, hlt, hle => by
    unfold normBase at hle
    split at hle
    · rename_i hmem
      rcases Nat.lt_or_ge (base + 1) w with h | h
      · exact mem_of_lt_of_le_normBase h hle
      · obtain rfl : w = base + 1 := le_antisymm h hlt
        exact hmem
    · exact absurd hle (Nat.not_le.mpr hlt)

/-- With one unit of fuel per bitmap entry above the base, the loop of `norm`
ends because the next version is missing. -/
theorem normBase_succ_not_mem : ∀ {fuel base : ℕ}, (bm.filter (base < ·)).card ≤ fuel →
    normBase bm fuel base + 1 ∉ bm
  | 0, base, hcard => by
    -- no entry above the base is left, so not `base + 1` either
    intro hmem
    have hpos : 0 < (bm.filter (base < ·)).card :=
      Finset.card_pos.mpr ⟨base + 1, Finset.mem_filter.mpr ⟨hmem, Nat.lt_succ_self base⟩⟩
    exact absurd hcard (Nat.not_le.mpr hpos)
  | fuel + 1, base, hcard => by
    unfold normBase
    split
    · rename_i hmem
      apply normBase_succ_not_mem
      -- the step consumes `base + 1`, one of the entries above the base
      have hsub : bm.filter (base + 1 < ·) ⊂ bm.filter (base < ·) := by
        refine Finset.ssubset_iff_of_subset ?_ |>.mpr ⟨base + 1, ?_, ?_⟩
        · intro w hw
          simp only [Finset.mem_filter] at hw ⊢
          exact ⟨hw.1, by omega⟩
        · simp [hmem]
        · simp
      have := Finset.card_lt_card hsub
      omega
    · assumption

theorem normBase_norm (bv : BitmappedVersion) :
    (norm bv).base = normBase bv.bitmap bv.bitmap.card bv.base := rfl

@[simp] theorem contains_norm (bv : BitmappedVersion) (v : Version) :
    (norm bv).contains v = bv.contains v := by
  have hle : bv.base ≤ normBase bv.bitmap bv.bitmap.card bv.base := le_normBase _ _
  simp only [contains, norm, Finset.mem_filter, Bool.decide_and]
  by_cases hv : v ≤ normBase bv.bitmap bv.bitmap.card bv.base
  · -- below the new base: either below the old one, or passed over by the loop
    have : v ≤ bv.base ∨ v ∈ bv.bitmap := by
      rcases Nat.lt_or_ge bv.base v with h | h
      · exact Or.inr (mem_of_lt_of_le_normBase h hv)
      · exact Or.inl h
    simp [hv, this]
  · have hb : ¬ v ≤ bv.base := fun h => hv (h.trans hle)
    simp [hv, hb, Nat.lt_of_not_le hv]

@[simp] theorem contains_merge (bv other : BitmappedVersion) (v : Version) :
    (bv.merge other).contains v = (bv.contains v || other.contains v) := by
  rw [merge, contains_norm]
  simp only [contains, le_max_iff, Finset.mem_union, Bool.decide_or]
  cases decide (v ≤ bv.base) <;> cases decide (v ≤ other.base) <;>
    cases decide (v ∈ bv.bitmap) <;> cases decide (v ∈ other.bitmap) <;> rfl

/-- `add` reports a version as old only when `contains` has it, and then leaves
the version as it is. -/
theorem add_fst_eq_false {bv : BitmappedVersion} {v : Version} (h : (bv.add v).1 = false) :
    bv.contains v = true ∧ (bv.add v).2 = bv := by
  unfold add at h ⊢
  by_cases h₁ : v = bv.base + 1
  · simp [h₁] at h
  by_cases h₂ : bv.base < v
  · by_cases h₃ : v ∈ bv.bitmap
    · simp [h₁, h₂, h₃, contains]
    · simp [h₁, h₂, h₃] at h
  · -- a version the base covers
    simp only [h₁, h₂, if_false, and_true]
    simp [contains, Nat.le_of_not_lt h₂]

/-! ## `delta` -/

/-- Every version `contains` has is at most the base or the largest bitmap
entry: the last version the delta iterator looks at. -/
theorem le_of_contains {bv : BitmappedVersion} {v : Version} (h : bv.contains v = true) :
    v ≤ max (bv.bitmap.sup id) bv.base := by
  simp only [contains, Bool.or_eq_true, decide_eq_true_eq] at h
  rcases h with h | h
  · exact le_max_of_le_right h
  · exact le_max_of_le_left (Finset.le_sup (f := id) h)

/-- With the bases in order, `delta` yields exactly the versions above
`other`'s base that `other`'s bitmap lacks and `bv` has. -/
theorem mem_delta_iff {bv other : BitmappedVersion} (h : other.base ≤ bv.base) {v : Version} :
    v ∈ bv.delta other ↔ other.base < v ∧ v ∉ other.bitmap ∧ bv.contains v = true := by
  rw [delta, if_neg (Nat.not_lt.mpr h)]
  simp only [List.mem_filterMap, List.mem_range]
  constructor
  · rintro ⟨i, -, hi⟩
    split at hi
    · rename_i hc
      cases hi
      exact ⟨Nat.lt_add_of_pos_right (Nat.succ_pos i), hc.1, hc.2⟩
    · cases hi
  · rintro ⟨hlt, hnot, hc⟩
    have hle := le_of_contains hc
    -- `omega` reads `Version` only as the `ℕ` it abbreviates
    unfold Version at hlt hle
    refine ⟨v - other.base - 1, by omega, ?_⟩
    have hv : other.base + (v - other.base - 1 + 1) = v := by
      unfold Version
      omega
    simp [hv, hnot, hc]

/-- `delta` yields its versions in increasing order, each once. -/
theorem delta_pairwise (bv other : BitmappedVersion) : (bv.delta other).Pairwise (· < ·) := by
  unfold delta
  split
  · exact List.Pairwise.nil
  · refine List.Pairwise.filterMap _ (fun i j hij a ha b hb => ?_) List.pairwise_lt_range
    simp only [Option.ite_none_right_eq_some, Option.some.injEq] at ha hb
    rw [← ha.2, ← hb.2]
    exact Nat.add_lt_add_left (Nat.succ_lt_succ hij) _

end BitmappedVersion

namespace BitmappedVersionVector

open BitmappedVersion

@[simp] theorem get?_new (id : NodeId) : new.get? id = none := rfl

@[simp] theorem contains_new (id : NodeId) (v : Version) : new.contains id v = false := rfl

@[simp] theorem clear_eq_new (bvv : BitmappedVersionVector) : bvv.clear = new := rfl

theorem contains_eq (bvv : BitmappedVersionVector) (id : NodeId) (v : Version) :
    bvv.contains id v = ((bvv.get? id).map (·.contains v)).getD false := rfl

/-- One round of `merge`'s loop. -/
theorem contains_mergeStep (acc : BitmappedVersionVector) (e : NodeId × BitmappedVersion)
    (i : NodeId) (v : Version) :
    (match acc.get? e.1 with
      | none => (⟨acc.map.insert e.1 e.2⟩ : BitmappedVersionVector)
      | some bv => ⟨acc.map.insert e.1 (bv.merge e.2)⟩).contains i v =
      (acc.contains i v || (decide (i = e.1) && e.2.contains v)) := by
  obtain ⟨j, bv'⟩ := e
  by_cases hi : i = j
  · -- the entry of `j` is added, or merged with the one `acc` has
    rw [hi]
    cases h : acc.get? j with
    | none =>
      simp only [get?] at h
      simp [contains_eq, get?, h]
    | some bv =>
      simp only [get?] at h
      simp [contains_eq, get?, h]
  · cases acc.get? j <;> simp [contains_eq, get?, hi]

theorem contains_foldl_mergeStep (i : NodeId) (v : Version) :
    ∀ (l : List (NodeId × BitmappedVersion)) (acc : BitmappedVersionVector),
      (l.map Prod.fst).Nodup →
      (l.foldl (fun acc e =>
        match acc.get? e.1 with
        | none => (⟨acc.map.insert e.1 e.2⟩ : BitmappedVersionVector)
        | some bv => ⟨acc.map.insert e.1 (bv.merge e.2)⟩) acc).contains i v =
        (acc.contains i v || ((l.lookup i).map (·.contains v)).getD false)
  | [], _, _ => by simp
  | ⟨j, bv'⟩ :: l, acc, hnd => by
    rw [List.map_cons, List.nodup_cons] at hnd
    rw [List.foldl_cons, contains_foldl_mergeStep i v l _ hnd.2, contains_mergeStep]
    simp only at hnd ⊢
    by_cases hi : i = j
    · -- the entry of `i` is this one, and no later one
      rw [← hi] at hnd
      have hl : l.lookup i = none := by
        cases h : l.lookup i with
        | none => rfl
        | some bv =>
          have hmem : (i, bv) ∈ l := (VecMap.lookup_eq_some_of_nodup hnd.2).mp h
          exact absurd (List.mem_map_of_mem hmem) hnd.1
      have h₁ : ((j, bv') :: l).lookup i = some bv' := by simp [List.lookup, hi]
      rw [h₁, hl]
      simp [hi]
    · have hb : (i == j) = false := beq_false_of_ne hi
      have h₁ : ((j, bv') :: l).lookup i = l.lookup i := by simp only [List.lookup, hb]
      rw [h₁]
      simp [hi]

/-- A merged clock holds the versions of both clocks: what `on_msg_fin` does to
a receiver's clock. -/
theorem contains_merge (bvv other : BitmappedVersionVector) (i : NodeId) (v : Version) :
    (bvv.merge other).contains i v = (bvv.contains i v || other.contains i v) := by
  unfold merge
  exact contains_foldl_mergeStep i v other.map.entries bvv other.map.nodup

theorem mem_delta {bvv other : BitmappedVersionVector} {i : NodeId} {v : Version} :
    (i, v) ∈ bvv.delta other ↔ ∃ bv, bvv.get? i = some bv ∧
      v ∈ bv.delta ((other.get? i).getD (BitmappedVersion.new 0 0)) := by
  simp only [delta, iter, List.mem_flatMap, List.mem_map, Prod.mk.injEq]
  constructor
  · rintro ⟨⟨j, bv⟩, he, w, hw, rfl, rfl⟩
    exact ⟨bv, (bvv.map.get?_eq_some_iff).mpr he, hw⟩
  · rintro ⟨bv, hbv, hv⟩
    exact ⟨(i, bv), (bvv.map.get?_eq_some_iff).mp hbv, v, hv, rfl, rfl⟩

/-- When the sender's base for an id is below the receiver's, `delta` yields no
dot of that id, yet merging the sender's clock gives the receiver every
version of the sender's bitmap. -/
theorem delta_gap {snap peer : BitmappedVersionVector} {i : NodeId}
    {bv bv' : BitmappedVersion} {v : Version} (hs : snap.get? i = some bv)
    (hp : peer.get? i = some bv') (hlt : bv.base < bv'.base) (hv : v ∈ bv.bitmap) :
    (∀ w, (i, w) ∉ snap.delta peer) ∧ (peer.merge snap).contains i v = true := by
  refine ⟨fun w hw => ?_, ?_⟩
  · obtain ⟨bv₁, h₁, hw⟩ := mem_delta.mp hw
    rw [hs] at h₁
    cases h₁
    -- the early exit of `BitmappedVersion::delta`
    rw [hp, Option.getD_some, BitmappedVersion.delta, if_pos hlt] at hw
    exact List.not_mem_nil hw
  · rw [contains_merge, contains_eq snap, hs]
    simp [BitmappedVersion.contains, hv]

/-- `delta` of two clocks misses a dot that the first has and the second lacks
when the first's base for its id is below the second's: the early exit of
`BitmappedVersion::delta` drops the first's bitmap above the second's base. -/
theorem delta_omits_dot {A B : BitmappedVersionVector} {i : NodeId} {a b : BitmappedVersion}
    (ha : A.get? i = some a) (hb : B.get? i = some b) (hlt : a.base < b.base) {v : Version}
    (hv : v ∈ a.bitmap) (hbv : b.contains v = false) :
    (i, v) ∉ A.delta B ∧ A.contains i v = true ∧ B.contains i v = false := by
  refine ⟨(delta_gap ha hb hlt hv).1 v, ?_, ?_⟩
  · rw [contains_eq, ha]
    simp [BitmappedVersion.contains, hv]
  · rw [contains_eq, hb]
    simp [hbv]

/-- Two normalized clocks of one id: `{1} ∪ {3}` against `{1, 2}`. -/
theorem delta_omits_dot_of_lower_base :
    BitmappedVersion.norm ⟨1, {3}⟩ = ⟨1, {3}⟩ ∧ BitmappedVersion.norm ⟨2, ∅⟩ = ⟨2, ∅⟩ ∧
      ((1, 3) ∉ (⟨VecMap.empty.insert 1 ⟨1, {3}⟩⟩ : BitmappedVersionVector).delta
          ⟨VecMap.empty.insert 1 ⟨2, ∅⟩⟩ ∧
        (⟨VecMap.empty.insert 1 ⟨1, {3}⟩⟩ : BitmappedVersionVector).contains 1 3 = true ∧
        (⟨VecMap.empty.insert 1 ⟨2, ∅⟩⟩ : BitmappedVersionVector).contains 1 3 = false) :=
  ⟨by decide, by decide, delta_omits_dot rfl rfl (by decide) (by decide) (by decide)⟩

/-- A positive version that `add` reports as old was in the clock. Version `0`,
which no dot has, is reported old for an id the clock lacks. -/
theorem contains_of_add_fst_eq_false {bvv : BitmappedVersionVector} {i : NodeId} {v : Version}
    (hv : 0 < v) (h : (bvv.add i v).1 = false) : bvv.contains i v = true := by
  have hc := (BitmappedVersion.add_fst_eq_false h).1
  simp only [get?] at hc
  cases hg : bvv.map.get? i with
  | none =>
    -- the `Default` entry holds no positive version
    simp [hg, BitmappedVersion.contains, BitmappedVersion.empty] at hc
    exact absurd hc (Nat.pos_iff_ne_zero.mp hv)
  | some bv =>
    rw [hg] at hc
    simpa [contains_eq, get?, hg] using hc

/-- An `add` that reports its version as old leaves the positive versions of
the clock as they were. -/
theorem contains_add_of_fst_eq_false {bvv : BitmappedVersionVector} {i : NodeId} {v : Version}
    (h : (bvv.add i v).1 = false) (j : NodeId) {w : Version} (hw : 0 < w) :
    (bvv.add i v).2.contains j w = bvv.contains j w := by
  have hadd := (BitmappedVersion.add_fst_eq_false h).2
  simp only [add, contains_eq, get?, VecMap.get?_insert]
  by_cases hj : j = i
  · subst hj
    simp only [get?] at hadd
    rw [if_pos rfl, hadd]
    cases hg : bvv.map.get? j with
    | none =>
      simp [BitmappedVersion.contains, BitmappedVersion.empty]
      exact Nat.pos_iff_ne_zero.mp hw
    | some bv => rfl
  · rw [if_neg hj]

theorem event_fst_pos (bvv : BitmappedVersionVector) (id : NodeId) : 0 < (bvv.event id).1 := by
  unfold event
  split <;> simp

/-- What a clock covers in full it still covers after an `event`: `event`
only raises the base of its id. -/
theorem containsAll_event_of_containsAll {bvv : BitmappedVersionVector} {id i : NodeId}
    {v : Version} (h : bvv.containsAll i v = true) : (bvv.event id).2.containsAll i v = true := by
  by_cases hi : i = id
  · subst hi
    cases hg : bvv.map.get? i with
    | none => simp [containsAll, get?, hg] at h
    | some bv =>
      simp only [containsAll, get?, hg, Option.map_some, Option.getD_some,
        BitmappedVersion.containsAll, decide_eq_true_eq] at h
      simpa [event, containsAll, get?, hg, BitmappedVersion.containsAll] using Nat.le_succ_of_le h
  · cases hg : bvv.map.get? id <;>
      simpa [event, containsAll, get?, hg, hi] using h

/-- The version `event` draws is new: the clock did not cover it in full, and
the clock `event` returns does. -/
theorem containsAll_event_fst (bvv : BitmappedVersionVector) (id : NodeId) :
    bvv.containsAll id (bvv.event id).1 = false ∧
      (bvv.event id).2.containsAll id (bvv.event id).1 = true := by
  cases hg : bvv.map.get? id with
  | none => simp [event, containsAll, get?, hg, BitmappedVersion.containsAll, BitmappedVersion.new]
  | some bv => simp [event, containsAll, get?, hg, BitmappedVersion.containsAll]

/-- The version `event` draws for an id the clock has never seen is `1`. -/
theorem event_fst_of_get?_eq_none {bvv : BitmappedVersionVector} {id : NodeId}
    (h : bvv.get? id = none) : (bvv.event id).1 = 1 := by
  simp [event, h]

end BitmappedVersionVector

end Sucredb
