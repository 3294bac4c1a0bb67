/-
Sucredb.VersionVector.BitmappedSets — the clocks as the sets of versions they
stand for.

A `BitmappedVersion` stands for `toSet bv = {1..base} ∪ bitmap`, and a
`BitmappedVersionVector` for the dots `(id, v)` with `v` in the clock of `id`,
the `Default` clock for an id it lacks (what `entry(id).or_insert_with` works
on). `norm` leaves its clock `Normalized`: every bitmap entry lies above
`base + 1`. On normalized clocks each operation is the set operation it is
named after:

* `add` adds its version and its flag says whether the version was new
  (`add_cases`); `add_all` adds the prefix `{1..v}`; `merge` is the union;
* `contains` is membership of a positive version, and `contains_all` the
  inclusion of a prefix, since a normalized bitmap never holds `base + 1`;
* every result is normalized again, as each one goes through `norm`.

Per id, the same holds of `BitmappedVersionVector`. `event` draws the
successor of the id's base, which is not in the set, and adds it
(`event_eq`); its clock stays normalized when the id's bitmap is empty, the
case the source's `debug_assert` asks for.

Version `0` is in no set, yet `contains(0)` is `true` of every clock: the
statements about `contains` are for positive versions, the only ones `event`
draws.
-/
import Sucredb.VersionVector.BitmappedTheorems

namespace Sucredb

namespace BitmappedVersion

/-- The versions a clock stands for: `{1..base} ∪ bitmap`. -/
def toSet (bv : BitmappedVersion) : Set Version := Set.Icc 1 bv.base ∪ ↑bv.bitmap

/-- What `norm` leaves: every bitmap entry lies above the base's successor. -/
def Normalized (bv : BitmappedVersion) : Prop := ∀ v ∈ bv.bitmap, bv.base + 1 < v

instance : DecidablePred Normalized := fun bv =>
  inferInstanceAs (Decidable (∀ v ∈ bv.bitmap, bv.base + 1 < v))

@[simp] theorem mem_toSet {bv : BitmappedVersion} {v : Version} :
    v ∈ bv.toSet ↔ (1 ≤ v ∧ v ≤ bv.base) ∨ v ∈ bv.bitmap := by
  simp [toSet]

/-- For a positive version, membership is what `contains` computes. -/
theorem mem_toSet_iff_contains {bv : BitmappedVersion} {v : Version} (hv : 0 < v) :
    v ∈ bv.toSet ↔ bv.contains v = true := by
  have h1 : 1 ≤ v := hv
  simp [contains, h1]

theorem Normalized.zero_not_mem {bv : BitmappedVersion} (h : bv.Normalized) : 0 ∉ bv.bitmap :=
  fun h0 => absurd (h 0 h0) (Nat.not_lt_zero _)

/-- The base's successor is the first version a normalized clock lacks. -/
theorem Normalized.succ_not_mem {bv : BitmappedVersion} (h : bv.Normalized) :
    bv.base + 1 ∉ bv.toSet := by
  rw [mem_toSet]
  rintro (⟨-, hle⟩ | hm)
  · exact absurd hle (Nat.not_succ_le_self _)
  · exact lt_irrefl _ (h _ hm)

theorem normalized_empty : empty.Normalized := by
  intro v hv
  simp [empty] at hv

@[simp] theorem toSet_empty : empty.toSet = ∅ := by
  ext v
  simp only [mem_toSet, empty, Set.mem_empty_iff_false]
  grind

/-- Two clocks without `0` in their bitmaps that `contains` cannot tell apart
on positive versions stand for the same set. -/
theorem toSet_eq_of_contains {a b : BitmappedVersion} (ha : 0 ∉ a.bitmap) (hb : 0 ∉ b.bitmap)
    (h : ∀ v, 0 < v → a.contains v = b.contains v) : a.toSet = b.toSet := by
  ext v
  rcases Nat.eq_zero_or_pos v with rfl | hv
  · simp [ha, hb]
  · rw [mem_toSet_iff_contains hv, mem_toSet_iff_contains hv, h v hv]

/-! ## The sets of the clocks the operations build before `norm` -/

theorem toSet_mk_succ (base : Version) (bitmap : Finset Version) :
    (⟨base + 1, bitmap⟩ : BitmappedVersion).toSet = (⟨base, bitmap⟩ : BitmappedVersion).toSet ∪ {base + 1} := by
  ext w
  simp only [mem_toSet, Set.mem_union, Set.mem_singleton_iff]
  grind

theorem toSet_mk_insert (base v : Version) (bitmap : Finset Version) :
    (⟨base, insert v bitmap⟩ : BitmappedVersion).toSet = (⟨base, bitmap⟩ : BitmappedVersion).toSet ∪ {v} := by
  simp only [toSet, Finset.coe_insert, Set.union_singleton, Set.union_insert]

theorem toSet_mk_of_le {base v : Version} (h : base ≤ v) (bitmap : Finset Version) :
    (⟨v, bitmap⟩ : BitmappedVersion).toSet = (⟨base, bitmap⟩ : BitmappedVersion).toSet ∪ Set.Icc 1 v := by
  ext w
  simp only [mem_toSet, Set.mem_union, Set.mem_Icc]
  grind

theorem toSet_mk_max (a b : BitmappedVersion) :
    (⟨max a.base b.base, a.bitmap ∪ b.bitmap⟩ : BitmappedVersion).toSet = a.toSet ∪ b.toSet := by
  ext w
  simp only [mem_toSet, Set.mem_union, Finset.mem_union]
  grind

/-! ## `norm` -/

theorem zero_not_mem_norm (bv : BitmappedVersion) : 0 ∉ (norm bv).bitmap := by
  simp [norm]

theorem toSet_norm {bv : BitmappedVersion} (h : 0 ∉ bv.bitmap) : (norm bv).toSet = bv.toSet :=
  toSet_eq_of_contains (zero_not_mem_norm bv) h fun v _ => contains_norm bv v

/-- `norm` establishes `Normalized`: its loop stops below a missing successor,
and `remove_range` drops every entry up to the new base. -/
theorem normalized_norm (bv : BitmappedVersion) : (norm bv).Normalized := by
  intro v hv
  simp only [norm, Finset.mem_filter] at hv
  have hsucc : normBase bv.bitmap bv.bitmap.card bv.base + 1 ∉ bv.bitmap :=
    normBase_succ_not_mem (Finset.card_filter_le _ _)
  have hne : v ≠ normBase bv.bitmap bv.bitmap.card bv.base + 1 := fun h => hsucc (h ▸ hv.1)
  rw [normBase_norm]
  unfold Version at *
  omega

/-! ## The operations -/

section Ops

variable {bv : BitmappedVersion} {v : Version}

/-- What `add` does to a normalized clock: it reports an old version and keeps
the clock, or reports a new one and normalizes a clock that has it as well. -/
theorem add_cases (h : bv.Normalized) (hv : 0 < v) :
    (v ∈ bv.toSet ∧ bv.add v = (false, bv)) ∨
      (v ∉ bv.toSet ∧ ∃ c : BitmappedVersion, 0 ∉ c.bitmap ∧ c.toSet = bv.toSet ∪ {v} ∧
        bv.add v = (true, norm c)) := by
  have h0 := h.zero_not_mem
  unfold add
  by_cases h₁ : v = bv.base + 1
  · -- the base's successor, which a normalized bitmap never holds
    subst h₁
    exact .inr ⟨h.succ_not_mem, ⟨bv.base + 1, bv.bitmap⟩, h0, toSet_mk_succ _ _, if_pos rfl⟩
  by_cases h₂ : bv.base < v
  · by_cases h₃ : v ∈ bv.bitmap
    · exact .inl ⟨mem_toSet.mpr (.inr h₃), by simp [h₁, h₂, h₃]⟩
    · -- a new version above the successor goes into the bitmap
      have hnot : v ∉ bv.toSet := by
        rw [mem_toSet]
        rintro (⟨-, hle⟩ | hm)
        · exact absurd hle (Nat.not_le.mpr h₂)
        · exact h₃ hm
      refine .inr ⟨hnot, ⟨bv.base, insert v bv.bitmap⟩, ?_, toSet_mk_insert _ _ _, ?_⟩
      · simp only [Finset.mem_insert, not_or]
        exact ⟨Nat.ne_of_lt hv, h0⟩
      · simp [h₁, h₂, h₃]
  · -- a version the base covers
    have hle : v ≤ bv.base := Nat.le_of_not_lt h₂
    exact .inl ⟨mem_toSet.mpr (.inl ⟨hv, hle⟩), by simp [h₁, h₂]⟩

theorem add_fst_iff (h : bv.Normalized) (hv : 0 < v) : (bv.add v).1 = true ↔ v ∉ bv.toSet := by
  rcases add_cases h hv with ⟨hm, he⟩ | ⟨hm, c, -, -, he⟩ <;> simp [he, hm]

theorem toSet_add (h : bv.Normalized) (hv : 0 < v) : (bv.add v).2.toSet = bv.toSet ∪ {v} := by
  rcases add_cases h hv with ⟨hm, he⟩ | ⟨-, c, hc, hset, he⟩
  · rw [he, Set.union_singleton, Set.insert_eq_of_mem hm]
  · rw [he, toSet_norm hc, hset]

theorem normalized_add (h : bv.Normalized) (hv : 0 < v) : (bv.add v).2.Normalized := by
  rcases add_cases h hv with ⟨-, he⟩ | ⟨-, c, -, -, he⟩
  · rw [he]
    exact h
  · rw [he]
    exact normalized_norm c

/-- `add_all` raises the base to `v` when that is higher, and then normalizes. -/
theorem toSet_addAll (h : bv.Normalized) (v : Version) :
    (bv.addAll v).2.toSet = bv.toSet ∪ Set.Icc 1 v := by
  by_cases hlt : bv.base < v
  · have h0 : 0 ∉ (⟨v, bv.bitmap⟩ : BitmappedVersion).bitmap := h.zero_not_mem
    rw [addAll, if_pos hlt, toSet_norm h0, toSet_mk_of_le hlt.le]
  · -- the prefix is already below the base
    rw [addAll, if_neg hlt]
    refine (Set.union_eq_left.mpr fun w hw => mem_toSet.mpr (.inl ⟨hw.1, ?_⟩)).symm
    exact hw.2.trans (Nat.le_of_not_lt hlt)

theorem normalized_addAll (h : bv.Normalized) (v : Version) : (bv.addAll v).2.Normalized := by
  unfold addAll
  split
  · exact normalized_norm _
  · exact h

theorem toSet_merge {o : BitmappedVersion} (h : bv.Normalized) (ho : o.Normalized) :
    (bv.merge o).toSet = bv.toSet ∪ o.toSet := by
  have h0 : 0 ∉ bv.bitmap ∪ o.bitmap := by
    simp only [Finset.mem_union, not_or]
    exact ⟨h.zero_not_mem, ho.zero_not_mem⟩
  rw [merge, toSet_norm h0, toSet_mk_max]

theorem normalized_merge (o : BitmappedVersion) : (bv.merge o).Normalized :=
  normalized_norm _

/-- `contains_all(v)` covers the prefix `{1..v}`: past the base it would need
the base's successor, which a normalized clock lacks. -/
theorem containsAll_iff (h : bv.Normalized) : bv.containsAll v = true ↔ Set.Icc 1 v ⊆ bv.toSet := by
  simp only [containsAll, decide_eq_true_eq]
  constructor
  · intro hle w hw
    exact mem_toSet.mpr (.inl ⟨hw.1, hw.2.trans hle⟩)
  · intro hsub
    by_contra hlt
    have hsucc : bv.base + 1 ∈ Set.Icc 1 v := ⟨Nat.succ_pos _, Nat.not_le.mp hlt⟩
    exact h.succ_not_mem (hsub hsucc)

end Ops

end BitmappedVersion

namespace BitmappedVersionVector

open BitmappedVersion

/-- The dots a node clock stands for: `(id, v)` with `v` in the clock of `id`,
the `Default` clock where the vector has none. -/
def toSet (bvv : BitmappedVersionVector) : Set Dot :=
  {d | d.2 ∈ ((bvv.get? d.1).getD BitmappedVersion.empty).toSet}

/-- Every clock of the vector is normalized. -/
def Normalized (bvv : BitmappedVersionVector) : Prop :=
  bvv.map.AllValues BitmappedVersion.Normalized

theorem normalized_iff (bvv : BitmappedVersionVector) :
    bvv.Normalized ↔ ∀ e ∈ bvv.map.entries, e.2.Normalized := by
  constructor
  · intro h e he
    exact h e.1 e.2 ((bvv.map.get?_eq_some_iff).mpr he)
  · intro h k v hk
    exact h (k, v) ((bvv.map.get?_eq_some_iff).mp hk)

instance : DecidablePred Normalized := fun bvv => decidable_of_iff _ (normalized_iff bvv).symm

@[simp] theorem mem_toSet {bvv : BitmappedVersionVector} {id : NodeId} {v : Version} :
    (id, v) ∈ bvv.toSet ↔ v ∈ ((bvv.get? id).getD BitmappedVersion.empty).toSet := Iff.rfl

section Ops

variable {bvv : BitmappedVersionVector} {id : NodeId} {v : Version}

theorem Normalized.getD (h : bvv.Normalized) (id : NodeId) :
    ((bvv.get? id).getD BitmappedVersion.empty).Normalized := by
  cases hg : bvv.get? id with
  | none => exact normalized_empty
  | some bv => exact h id bv hg

theorem Normalized.insert (h : bvv.Normalized) {bv : BitmappedVersion} (hbv : bv.Normalized) :
    (⟨bvv.map.insert id bv⟩ : BitmappedVersionVector).Normalized :=
  VecMap.AllValues.insert h hbv

/-- Storing at `id` a clock that holds the old clock's versions and `T` adds
`{id} × T` to the dots. -/
theorem toSet_insert {bv : BitmappedVersion} {T : Set Version}
    (h : bv.toSet = ((bvv.get? id).getD BitmappedVersion.empty).toSet ∪ T) :
    (⟨bvv.map.insert id bv⟩ : BitmappedVersionVector).toSet = bvv.toSet ∪ {id} ×ˢ T := by
  ext ⟨i, w⟩
  by_cases hi : i = id
  · subst hi
    simp [get?, h]
  · simp [get?, hi]

/-- For a positive version, `contains` reads the `Default` clock where the vector
has none: it holds no positive version. -/
theorem contains_eq_getD (hv : 0 < v) :
    bvv.contains id v = ((bvv.get? id).getD BitmappedVersion.empty).contains v := by
  unfold contains
  cases bvv.get? id with
  | none =>
    have : ¬ v ≤ 0 := Nat.not_le.mpr hv
    simp [BitmappedVersion.contains, BitmappedVersion.empty, this]
  | some bv => rfl

theorem containsAll_eq_getD (hv : 0 < v) :
    bvv.containsAll id v = ((bvv.get? id).getD BitmappedVersion.empty).containsAll v := by
  unfold containsAll
  cases bvv.get? id with
  | none =>
    have : ¬ v ≤ 0 := Nat.not_le.mpr hv
    simp [BitmappedVersion.containsAll, BitmappedVersion.empty, this]
  | some bv => rfl

theorem mem_toSet_iff_contains (hv : 0 < v) : (id, v) ∈ bvv.toSet ↔ bvv.contains id v = true := by
  rw [mem_toSet, contains_eq_getD hv, BitmappedVersion.mem_toSet_iff_contains hv]

theorem Normalized.zero_not_mem (h : bvv.Normalized) (id : NodeId) : (id, 0) ∉ bvv.toSet := by
  rw [mem_toSet, BitmappedVersion.mem_toSet]
  rintro (⟨h1, -⟩ | hm)
  · exact absurd h1 (by decide)
  · exact (h.getD id).zero_not_mem hm

theorem add_fst_eq : (bvv.add id v).1 = (((bvv.get? id).getD BitmappedVersion.empty).add v).1 :=
  rfl

theorem add_snd_eq : (bvv.add id v).2 =
    ⟨bvv.map.insert id (((bvv.get? id).getD BitmappedVersion.empty).add v).2⟩ := rfl

theorem addAll_snd_eq : (bvv.addAll id v).2 =
    ⟨bvv.map.insert id (((bvv.get? id).getD BitmappedVersion.empty).addAll v).2⟩ := rfl

/-- `event` on the `Default` clock of an id it has never seen: `new(1, 0)` is
`{1}`, the successor of the empty clock's base. -/
theorem event_eq (bvv : BitmappedVersionVector) (id : NodeId) :
    bvv.event id = (((bvv.get? id).getD BitmappedVersion.empty).base + 1,
      ⟨bvv.map.insert id ⟨((bvv.get? id).getD BitmappedVersion.empty).base + 1,
        ((bvv.get? id).getD BitmappedVersion.empty).bitmap⟩⟩) := by
  unfold event
  cases bvv.get? id with
  | none => rfl
  | some bv => rfl

theorem add_fst_iff (h : bvv.Normalized) (hv : 0 < v) :
    (bvv.add id v).1 = true ↔ (id, v) ∉ bvv.toSet := by
  rw [add_fst_eq, mem_toSet]
  exact BitmappedVersion.add_fst_iff (h.getD id) hv

theorem toSet_add (h : bvv.Normalized) (hv : 0 < v) :
    (bvv.add id v).2.toSet = bvv.toSet ∪ {(id, v)} := by
  rw [add_snd_eq, toSet_insert (BitmappedVersion.toSet_add (h.getD id) hv),
    Set.singleton_prod_singleton]

theorem normalized_add (h : bvv.Normalized) (hv : 0 < v) : (bvv.add id v).2.Normalized := by
  rw [add_snd_eq]
  exact h.insert (BitmappedVersion.normalized_add (h.getD id) hv)

theorem toSet_addAll (h : bvv.Normalized) (id : NodeId) (v : Version) :
    (bvv.addAll id v).2.toSet = bvv.toSet ∪ {id} ×ˢ Set.Icc 1 v := by
  rw [addAll_snd_eq, toSet_insert (BitmappedVersion.toSet_addAll (h.getD id) v)]

theorem normalized_addAll (h : bvv.Normalized) (id : NodeId) (v : Version) :
    (bvv.addAll id v).2.Normalized := by
  rw [addAll_snd_eq]
  exact h.insert (BitmappedVersion.normalized_addAll (h.getD id) v)

theorem toSet_addBv (h : bvv.Normalized) {bv : BitmappedVersion} (hbv : bv.Normalized) :
    (bvv.addBv id bv).toSet = bvv.toSet ∪ {id} ×ˢ bv.toSet :=
  toSet_insert (BitmappedVersion.toSet_merge (h.getD id) hbv)

theorem normalized_addBv (h : bvv.Normalized) (bv : BitmappedVersion) :
    (bvv.addBv id bv).Normalized :=
  h.insert (BitmappedVersion.normalized_merge bv)

/-- Each round of `merge`'s loop stores a normalized clock: a copy of one of
`other`'s, or the merge of two. -/
theorem normalized_foldl_mergeStep :
    ∀ (l : List (NodeId × BitmappedVersion)) (acc : BitmappedVersionVector),
      acc.Normalized → (∀ e ∈ l, e.2.Normalized) →
      (l.foldl (fun acc e =>
        match acc.get? e.1 with
        | none => (⟨acc.map.insert e.1 e.2⟩ : BitmappedVersionVector)
        | some bv => ⟨acc.map.insert e.1 (bv.merge e.2)⟩) acc).Normalized
  | [], _, hacc, _ => hacc
  | e :: l, acc, hacc, hl => by
    rw [List.foldl_cons]
    refine normalized_foldl_mergeStep l _ ?_ fun e' he' => hl e' (List.mem_cons_of_mem _ he')
    split
    · exact hacc.insert (hl e List.mem_cons_self)
    · exact hacc.insert (BitmappedVersion.normalized_merge _)

theorem normalized_merge {other : BitmappedVersionVector} (h : bvv.Normalized)
    (ho : other.Normalized) : (bvv.merge other).Normalized :=
  normalized_foldl_mergeStep other.iter bvv h ((normalized_iff other).mp ho)

theorem toSet_merge {other : BitmappedVersionVector} (h : bvv.Normalized)
    (ho : other.Normalized) : (bvv.merge other).toSet = bvv.toSet ∪ other.toSet := by
  ext ⟨i, w⟩
  rcases Nat.eq_zero_or_pos w with rfl | hw
  · -- no normalized clock holds version `0`
    simp only [Set.mem_union, iff_false_intro ((normalized_merge h ho).zero_not_mem i),
      iff_false_intro (h.zero_not_mem i), iff_false_intro (ho.zero_not_mem i), or_false]
  · rw [Set.mem_union, mem_toSet_iff_contains hw, mem_toSet_iff_contains hw,
      mem_toSet_iff_contains hw, contains_merge, Bool.or_eq_true]

theorem contains_iff (hv : 0 < v) : bvv.contains id v = true ↔ (id, v) ∈ bvv.toSet :=
  (mem_toSet_iff_contains hv).symm

theorem singleton_prod_subset_iff {T : Set Version} :
    {id} ×ˢ T ⊆ bvv.toSet ↔ T ⊆ ((bvv.get? id).getD BitmappedVersion.empty).toSet := by
  constructor
  · intro hsub w hw
    exact hsub (Set.mk_mem_prod rfl hw)
  · rintro hsub ⟨i, w⟩ ⟨hi, hw⟩
    rw [Set.mem_singleton_iff] at hi
    subst hi
    exact hsub hw

theorem containsAll_iff (h : bvv.Normalized) (hv : 0 < v) :
    bvv.containsAll id v = true ↔ {id} ×ˢ Set.Icc 1 v ⊆ bvv.toSet := by
  rw [containsAll_eq_getD hv, singleton_prod_subset_iff]
  exact BitmappedVersion.containsAll_iff (h.getD id)

theorem event_fst_not_mem (h : bvv.Normalized) (id : NodeId) :
    (id, (bvv.event id).1) ∉ bvv.toSet := by
  rw [event_eq]
  dsimp only
  rw [mem_toSet]
  exact (h.getD id).succ_not_mem

theorem toSet_event (bvv : BitmappedVersionVector) (id : NodeId) :
    (bvv.event id).2.toSet = bvv.toSet ∪ {(id, (bvv.event id).1)} := by
  have hc : (⟨((bvv.get? id).getD BitmappedVersion.empty).base + 1,
      ((bvv.get? id).getD BitmappedVersion.empty).bitmap⟩ : BitmappedVersion).toSet =
      ((bvv.get? id).getD BitmappedVersion.empty).toSet ∪
        {((bvv.get? id).getD BitmappedVersion.empty).base + 1} := toSet_mk_succ _ _
  rw [event_eq]
  dsimp only
  rw [toSet_insert hc, Set.singleton_prod_singleton]

/-- With the id's bitmap empty, as the source's `debug_assert` expects, the
clock `event` leaves is normalized. -/
theorem normalized_event (h : bvv.Normalized)
    (he : ((bvv.get? id).getD BitmappedVersion.empty).bitmap = ∅) : (bvv.event id).2.Normalized := by
  rw [event_eq]
  refine h.insert fun w hw => ?_
  rw [he] at hw
  exact absurd hw (Finset.notMem_empty w)

end Ops

/-- On normalized clocks and a positive version, every operation of
`BitmappedVersion` and, id by id, of `BitmappedVersionVector` is the set
operation it is named after, and leaves its clocks normalized. -/
theorem bitmapped_clocks_implement_sets (bv o : BitmappedVersion)
    (bvv other : BitmappedVersionVector) (id : NodeId) (v : Version) (hbv : bv.Normalized)
    (ho : o.Normalized) (hbvv : bvv.Normalized) (hother : other.Normalized) (hv : 1 ≤ v) :
    (((bv.add v).1 = true ↔ v ∉ bv.toSet) ∧ (bv.add v).2.toSet = bv.toSet ∪ {v} ∧
        (bv.add v).2.Normalized) ∧
      ((bv.addAll v).2.toSet = bv.toSet ∪ Set.Icc 1 v ∧ (bv.addAll v).2.Normalized) ∧
      ((bv.merge o).toSet = bv.toSet ∪ o.toSet ∧ (bv.merge o).Normalized) ∧
      (bv.contains v = true ↔ v ∈ bv.toSet) ∧
      (bv.containsAll v = true ↔ Set.Icc 1 v ⊆ bv.toSet) ∧
      (((bvv.add id v).1 = true ↔ (id, v) ∉ bvv.toSet) ∧
        (bvv.add id v).2.toSet = bvv.toSet ∪ {(id, v)} ∧ (bvv.add id v).2.Normalized) ∧
      ((bvv.addAll id v).2.toSet = bvv.toSet ∪ {id} ×ˢ Set.Icc 1 v ∧
        (bvv.addAll id v).2.Normalized) ∧
      ((bvv.addBv id bv).toSet = bvv.toSet ∪ {id} ×ˢ bv.toSet ∧ (bvv.addBv id bv).Normalized) ∧
      ((bvv.merge other).toSet = bvv.toSet ∪ other.toSet ∧ (bvv.merge other).Normalized) ∧
      (bvv.contains id v = true ↔ (id, v) ∈ bvv.toSet) ∧
      (bvv.containsAll id v = true ↔ {id} ×ˢ Set.Icc 1 v ⊆ bvv.toSet) ∧
      ((id, (bvv.event id).1) ∉ bvv.toSet ∧
        (bvv.event id).2.toSet = bvv.toSet ∪ {(id, (bvv.event id).1)} ∧
        (((bvv.get? id).getD BitmappedVersion.empty).bitmap = ∅ →
          (bvv.event id).2.Normalized)) :=
  ⟨⟨BitmappedVersion.add_fst_iff hbv hv, BitmappedVersion.toSet_add hbv hv,
      BitmappedVersion.normalized_add hbv hv⟩,
    ⟨BitmappedVersion.toSet_addAll hbv v, BitmappedVersion.normalized_addAll hbv v⟩,
    ⟨BitmappedVersion.toSet_merge hbv ho, BitmappedVersion.normalized_merge o⟩,
    (BitmappedVersion.mem_toSet_iff_contains hv).symm,
    BitmappedVersion.containsAll_iff hbv,
    ⟨add_fst_iff hbvv hv, toSet_add hbvv hv, normalized_add hbvv hv⟩,
    ⟨toSet_addAll hbvv id v, normalized_addAll hbvv id v⟩,
    ⟨toSet_addBv hbvv hbv, normalized_addBv hbvv bv⟩,
    ⟨toSet_merge hbvv hother, normalized_merge hbvv hother⟩,
    contains_iff hv,
    containsAll_iff hbvv hv,
    ⟨event_fst_not_mem hbvv id, toSet_event bvv id, normalized_event hbvv⟩⟩

/-- The clocks `{1} ∪ {3}` and `{1, 2}`, and the node clock holding the first
at node `1`, at version `2`. -/
theorem bitmapped_clocks_at_version_two :
    (⟨1, {3}⟩ : BitmappedVersion).Normalized ∧ (⟨2, ∅⟩ : BitmappedVersion).Normalized ∧
      (⟨VecMap.empty.insert 1 ⟨1, {3}⟩⟩ : BitmappedVersionVector).Normalized ∧
      (⟨VecMap.empty.insert 1 ⟨2, ∅⟩⟩ : BitmappedVersionVector).Normalized ∧
      ((((⟨1, {3}⟩ : BitmappedVersion).add 2).1 = true ↔ 2 ∉ (⟨1, {3}⟩ : BitmappedVersion).toSet) ∧
        ((⟨1, {3}⟩ : BitmappedVersion).add 2).2.toSet = (⟨1, {3}⟩ : BitmappedVersion).toSet ∪ {2}) := by
  have h₁ : (⟨1, {3}⟩ : BitmappedVersion).Normalized := by decide
  have h₂ : (⟨2, ∅⟩ : BitmappedVersion).Normalized := by decide
  have h₃ : (⟨VecMap.empty.insert 1 ⟨1, {3}⟩⟩ : BitmappedVersionVector).Normalized :=
    VecMap.allValues_empty.insert h₁
  have h₄ : (⟨VecMap.empty.insert 1 ⟨2, ∅⟩⟩ : BitmappedVersionVector).Normalized :=
    VecMap.allValues_empty.insert h₂
  have h := bitmapped_clocks_implement_sets ⟨1, {3}⟩ ⟨2, ∅⟩ _ _ 1 2 h₁ h₂ h₃ h₄ (by decide)
  exact ⟨h₁, h₂, h₃, h₄, h.1.1, h.1.2.1⟩

end BitmappedVersionVector

end Sucredb
