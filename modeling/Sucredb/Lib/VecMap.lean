/-
Sucredb.Lib.VecMap — finite maps stored as a vector of key-value pairs, the
representation of the `linear_map` crate's `LinearMap` and `LinearSet`.

A `VecMap K V` is a list of entries in insertion order with no key twice; the
`nodup` field makes a map with a repeated key unconstructible, so every lookup
lemma below holds without a side condition. The operations follow the crate's
documented behaviour:

* `insert` replaces the value of a present key in place and pushes a new key
  at the end;
* `upsert` is `entry(k).or_insert(d)` followed by an update of the value;
* `erase` removes a key (the crate does this with a swap-remove, which moves
  the last entry into the hole; no result of this development depends on the
  order of entries after a removal, so `erase` keeps the others in order);
* `retain` keeps the entries a predicate accepts.

`List.swapRemove` is `Vec::swap_remove` on a vector that a map holds as a
value; as a multiset it removes the element (`List.swapRemove_perm`).

Every operation has a `get?` lemma, and the simp set built from them is what
the version vectors, causal containers and storage maps rewrite with.

Nothing here names the repository: the module can be lifted out as is.
-/
import Mathlib

universe u v

/-- A finite map kept as a duplicate-free vector of entries. -/
structure VecMap (K : Type u) (V : Type v) where
  entries : List (K × V)
  nodup : (entries.map Prod.fst).Nodup

namespace VecMap

variable {K : Type u} {V : Type v} [DecidableEq K]

instance [DecidableEq V] : DecidableEq (VecMap K V) := fun a b =>
  if h : a.entries = b.entries then isTrue (by cases a; cases b; cases h; rfl)
  else isFalse (fun e => h (e ▸ rfl))

/-- The map with no entry. -/
def empty : VecMap K V := ⟨[], List.nodup_nil⟩

instance : Inhabited (VecMap K V) := ⟨empty⟩

/-- The keys, in entry order. -/
def keys (m : VecMap K V) : List K := m.entries.map Prod.fst

/-- The value stored at `k`. -/
def get? (m : VecMap K V) (k : K) : Option V := m.entries.lookup k

/-- Whether `k` has an entry. -/
def contains (m : VecMap K V) (k : K) : Bool := decide (k ∈ m.keys)

/-- The number of entries. -/
def size (m : VecMap K V) : ℕ := m.entries.length

/-- Whether there is no entry. -/
def isEmpty (m : VecMap K V) : Bool := m.entries.isEmpty

theorem keys_map_const {k : K} (v : V) (l : List (K × V)) :
    (l.map (fun p => if p.1 = k then (k, v) else p)).map Prod.fst = l.map Prod.fst := by
  induction l with
  | nil => rfl
  | cons p l ih =>
    by_cases h : p.1 = k
    · simp [h, ih]
    · simpa [h] using ih

/-- `insert k v`: overwrite the value of `k` in place, or push `(k, v)`. -/
def insert (m : VecMap K V) (k : K) (v : V) : VecMap K V :=
  if h : k ∈ m.keys then
    ⟨m.entries.map (fun p => if p.1 = k then (k, v) else p), by
      rw [keys_map_const]; exact m.nodup⟩
  else
    ⟨m.entries ++ [(k, v)], by
      rw [List.map_append, List.map_singleton, ← List.concat_eq_append]
      exact (List.nodup_concat _ _).mpr ⟨h, m.nodup⟩⟩

/-- `entry(k).or_insert(d)` followed by `f` on the value. -/
def upsert (m : VecMap K V) (k : K) (d : V) (f : V → V) : VecMap K V :=
  m.insert k (f ((m.get? k).getD d))

/-- Remove the entry of `k`, if any. -/
def erase (m : VecMap K V) (k : K) : VecMap K V :=
  ⟨m.entries.filter (fun p => p.1 ≠ k), by
    exact (List.Sublist.map Prod.fst List.filter_sublist).nodup m.nodup⟩

/-- Keep the entries that `p` accepts. -/
def retain (m : VecMap K V) (p : K → V → Bool) : VecMap K V :=
  ⟨m.entries.filter (fun e => p e.1 e.2), by
    exact (List.Sublist.map Prod.fst List.filter_sublist).nodup m.nodup⟩

/-- Apply `f` to every value, keeping the keys. -/
def mapValues {W : Type v} (m : VecMap K V) (f : K → V → W) : VecMap K W :=
  ⟨m.entries.map (fun e => (e.1, f e.1 e.2)), by
    simpa [List.map_map, Function.comp_def] using m.nodup⟩

/-! ## Lookup -/

section Lookup

theorem lookup_eq_some_of_nodup {l : List (K × V)} (hl : (l.map Prod.fst).Nodup)
    {k : K} {v : V} : l.lookup k = some v ↔ (k, v) ∈ l := by
  induction l with
  | nil => simp
  | cons p l ih =>
    obtain ⟨k', v'⟩ := p
    have hk' : k' ∉ l.map Prod.fst := (List.nodup_cons.mp hl).1
    have ih := ih (List.nodup_cons.mp hl).2
    by_cases h : k = k'
    · subst h
      have hnot : (k, v) ∉ l := fun hm => hk' (List.mem_map.mpr ⟨_, hm, rfl⟩)
      simp only [List.lookup_cons_self, Option.some.injEq, List.mem_cons, Prod.mk.injEq,
        true_and, hnot, or_false]
      exact eq_comm
    · have hne : (k == k') = false := by simpa using h
      simp [List.lookup_cons, hne, h, ih]

/-- A lookup succeeds exactly on the stored entries. -/
theorem get?_eq_some_iff (m : VecMap K V) {k : K} {v : V} :
    m.get? k = some v ↔ (k, v) ∈ m.entries :=
  lookup_eq_some_of_nodup m.nodup

/-- A lookup fails exactly on the absent keys. -/
theorem get?_eq_none_iff (m : VecMap K V) {k : K} : m.get? k = none ↔ k ∉ m.keys := by
  rw [Option.eq_none_iff_forall_ne_some]
  simp only [ne_eq, get?_eq_some_iff, keys, List.mem_map, not_exists, not_and]
  constructor
  · rintro h ⟨k', v⟩ hm rfl
    exact h v hm
  · intro h v hm
    exact h (k, v) hm rfl

theorem mem_keys_iff (m : VecMap K V) {k : K} : k ∈ m.keys ↔ ∃ v, m.get? k = some v := by
  constructor
  · intro hk
    cases hg : m.get? k with
    | none => exact absurd hk ((m.get?_eq_none_iff).mp hg)
    | some v => exact ⟨v, rfl⟩
  · rintro ⟨v, hv⟩
    exact List.mem_map.mpr ⟨(k, v), (m.get?_eq_some_iff).mp hv, rfl⟩

@[simp] theorem contains_iff (m : VecMap K V) {k : K} : m.contains k = true ↔ k ∈ m.keys := by
  simp [contains]

@[simp] theorem contains_eq_false_iff (m : VecMap K V) {k : K} :
    m.contains k = false ↔ k ∉ m.keys := by
  simp [contains]

@[simp] theorem get?_empty (k : K) : (empty : VecMap K V).get? k = none := rfl


/-- Two maps with the same lookups hold the same entries, up to order. -/
theorem perm_of_get? {m₁ m₂ : VecMap K V} (h : ∀ k, m₁.get? k = m₂.get? k) :
    m₁.entries.Perm m₂.entries := by
  have hn₁ : m₁.entries.Nodup := List.Nodup.of_map Prod.fst m₁.nodup
  have hn₂ : m₂.entries.Nodup := List.Nodup.of_map Prod.fst m₂.nodup
  refine (List.perm_ext_iff_of_nodup hn₁ hn₂).mpr ?_
  intro ⟨k, v⟩
  rw [← m₁.get?_eq_some_iff, ← m₂.get?_eq_some_iff, h]

end Lookup

/-! ## Updates -/

section Updates

@[simp] theorem get?_insert (m : VecMap K V) (k k' : K) (v : V) :
    (m.insert k v).get? k' = if k' = k then some v else m.get? k' := by
  by_cases hk' : k' = k
  · subst hk'
    rw [if_pos rfl, get?_eq_some_iff]
    unfold insert
    split
    · rename_i h
      obtain ⟨v₀, hv₀⟩ := (m.mem_keys_iff).mp h
      exact List.mem_map.mpr ⟨(k', v₀), (m.get?_eq_some_iff).mp hv₀, by simp⟩
    · simp
  · rw [if_neg hk']
    cases hg : m.get? k' with
    | none =>
      rw [get?_eq_none_iff] at hg ⊢
      unfold insert
      split
      · show k' ∉ (m.entries.map _).map Prod.fst
        rw [keys_map_const]
        exact hg
      · simpa [keys, hk'] using hg
    | some w =>
      rw [get?_eq_some_iff] at hg ⊢
      unfold insert
      split
      · exact List.mem_map.mpr ⟨(k', w), hg, by simp [hk']⟩
      · exact List.mem_append_left _ hg

theorem mem_keys_insert (m : VecMap K V) (k k' : K) (v : V) :
    k' ∈ (m.insert k v).keys ↔ k' = k ∨ k' ∈ m.keys := by
  rw [mem_keys_iff, mem_keys_iff]
  by_cases h : k' = k <;> simp [h]

@[simp] theorem get?_upsert (m : VecMap K V) (k k' : K) (d : V) (f : V → V) :
    (m.upsert k d f).get? k' = if k' = k then some (f ((m.get? k).getD d)) else m.get? k' := by
  simp [upsert]

@[simp] theorem get?_erase (m : VecMap K V) (k k' : K) :
    (m.erase k).get? k' = if k' = k then none else m.get? k' := by
  split
  · rename_i h
    subst h
    rw [get?_eq_none_iff]
    simp [keys, erase]
  · rename_i h
    cases hg : m.get? k' with
    | none =>
      rw [get?_eq_none_iff] at hg ⊢
      intro hm
      exact hg ((List.Sublist.map Prod.fst List.filter_sublist).subset hm)
    | some w =>
      rw [get?_eq_some_iff] at hg ⊢
      simp [erase, hg, h]

/-- Erasing the keys of a list one after the other. -/
theorem get?_foldl_erase (ks : List K) (m : VecMap K V) (k : K) :
    (ks.foldl erase m).get? k = if k ∈ ks then none else m.get? k := by
  induction ks generalizing m with
  | nil => simp
  | cons k' ks ih =>
    rw [List.foldl_cons, ih, get?_erase]
    by_cases h₁ : k ∈ ks
    · simp [h₁]
    · by_cases h₂ : k = k' <;> simp [h₁, h₂]

@[simp] theorem get?_retain (m : VecMap K V) (p : K → V → Bool) (k : K) :
    (m.retain p).get? k = (m.get? k).filter (p k) := by
  cases hg : m.get? k with
  | none =>
    rw [Option.filter_none, get?_eq_none_iff]
    rw [get?_eq_none_iff] at hg
    intro hm
    exact hg ((List.Sublist.map Prod.fst List.filter_sublist).subset hm)
  | some w =>
    rw [get?_eq_some_iff] at hg
    by_cases hp : p k w
    · rw [Option.filter_some, if_pos hp, get?_eq_some_iff]
      simp [retain, hg, hp]
    · rw [Option.filter_some, if_neg hp, get?_eq_none_iff]
      intro hm
      obtain ⟨⟨k', w'⟩, hm', hk⟩ := List.mem_map.mp hm
      simp only at hk
      subst hk
      obtain ⟨hmem, hpw⟩ := List.mem_filter.mp hm'
      have hw : w' = w := by
        have h1 := (m.get?_eq_some_iff).mpr hmem
        rw [(m.get?_eq_some_iff).mpr hg] at h1
        exact (Option.some.inj h1).symm
      subst hw
      exact hp hpw

@[simp] theorem get?_mapValues {W : Type v} (m : VecMap K V) (f : K → V → W) (k : K) :
    (m.mapValues f).get? k = (m.get? k).map (f k) := by
  cases hg : m.get? k with
  | none =>
    rw [Option.map_none, get?_eq_none_iff]
    rw [get?_eq_none_iff] at hg
    simpa [keys, mapValues, List.map_map, Function.comp_def] using hg
  | some w =>
    rw [get?_eq_some_iff] at hg
    rw [Option.map_some, get?_eq_some_iff]
    exact List.mem_map.mpr ⟨(k, w), hg, rfl⟩

end Updates

/-! ## Entries

What an update can put into the entry list: the lemmas a proof uses to show
that every entry of a result comes from one of the inputs. -/

section Entries

theorem mem_entries_insert {m : VecMap K V} {k : K} {v : V} {e : K × V}
    (he : e ∈ (m.insert k v).entries) : e ∈ m.entries ∨ e = (k, v) := by
  obtain ⟨k', w⟩ := e
  have hg := ((m.insert k v).get?_eq_some_iff).mpr he
  rw [get?_insert] at hg
  split at hg
  · rename_i h
    subst h
    exact Or.inr (by rw [Option.some.inj hg])
  · exact Or.inl ((m.get?_eq_some_iff).mp hg)

theorem mem_keys_insert_of_mem {m : VecMap K V} {k k' : K} {v : V}
    (hk : k' ∈ (m.insert k v).keys) : k' ∈ m.keys ∨ k' = k :=
  ((m.mem_keys_insert k k' v).mp hk).symm

omit [DecidableEq K] in
theorem eq_of_entries_eq {m m' : VecMap K V} (h : m.entries = m'.entries) : m = m' := by
  cases m
  cases m'
  cases h
  rfl

theorem entries_insert_of_not_mem {m : VecMap K V} {k : K} (hk : k ∉ m.keys) (v : V) :
    (m.insert k v).entries = m.entries ++ [(k, v)] := by
  simp only [insert, dif_neg hk]

/-- Entries with distinct keys, none of them in the map yet, are pushed in
order: a map read back from its own entries is the map. -/
theorem entries_foldl_insert :
    ∀ {l : List (K × V)} (m : VecMap K V), (l.map Prod.fst).Nodup →
      (∀ k ∈ l.map Prod.fst, k ∉ m.keys) →
        (l.foldl (fun acc e => acc.insert e.1 e.2) m).entries = m.entries ++ l
  | [], m, _, _ => (List.append_nil _).symm
  | (k, v) :: l, m, hnd, hfresh => by
    have hk : k ∉ m.keys := hfresh k List.mem_cons_self
    rw [List.map_cons, List.nodup_cons] at hnd
    have hfresh' : ∀ k' ∈ l.map Prod.fst, k' ∉ (m.insert k v).keys := by
      intro k' hk' hmem
      rcases (m.mem_keys_insert k k' v).mp hmem with rfl | hm
      · exact hnd.1 hk'
      · exact hfresh k' (List.mem_cons_of_mem k hk') hm
    rw [List.foldl_cons, entries_foldl_insert (m.insert k v) hnd.2 hfresh',
      entries_insert_of_not_mem hk]
    simp

omit [DecidableEq K] in
theorem mem_entries_retain {m : VecMap K V} {p : K → V → Bool} {e : K × V}
    (he : e ∈ (m.retain p).entries) : e ∈ m.entries ∧ p e.1 e.2 = true :=
  List.mem_filter.mp he

omit [DecidableEq K] in
theorem mem_keys_retain {m : VecMap K V} {p : K → V → Bool} {k : K}
    (hk : k ∈ (m.retain p).keys) : k ∈ m.keys :=
  (List.Sublist.map Prod.fst List.filter_sublist).subset hk

theorem mem_keys_erase {m : VecMap K V} {k k' : K} (hk : k' ∈ (m.erase k).keys) :
    k' ∈ m.keys :=
  (List.Sublist.map Prod.fst List.filter_sublist).subset hk

theorem mem_keys_erase_iff {m : VecMap K V} {k k' : K} :
    k' ∈ (m.erase k).keys ↔ k' ≠ k ∧ k' ∈ m.keys := by
  rw [mem_keys_iff, mem_keys_iff, get?_erase]
  by_cases h : k' = k <;> simp [h]

omit [DecidableEq K] in
@[simp] theorem keys_mapValues {W : Type v} (m : VecMap K V) (f : K → V → W) :
    (m.mapValues f).keys = m.keys := by
  simp [keys, mapValues, List.map_map, Function.comp_def]

/-- Folding conditional inserts over a list adds only the keys of the items
whose condition holds. -/
theorem mem_keys_foldl_insert {α : Type*} {c : α → Bool} {key : α → K} {val : α → V} {k : K} :
    ∀ (l : List α) (m : VecMap K V),
      k ∈ (l.foldl (fun acc x => if c x then acc.insert (key x) (val x) else acc) m).keys →
        k ∈ m.keys ∨ ∃ x ∈ l, key x = k ∧ c x = true
  | [], _, hk => Or.inl hk
  | x :: l, m, hk => by
    rcases mem_keys_foldl_insert l _ hk with h | ⟨y, hy, hyk, hyc⟩
    · dsimp only at h
      split at h
      · rename_i hc
        rcases mem_keys_insert_of_mem h with h' | rfl
        · exact Or.inl h'
        · exact Or.inr ⟨x, List.mem_cons_self .., rfl, hc⟩
      · exact Or.inl h
    · exact Or.inr ⟨y, List.mem_cons_of_mem _ hy, hyk, hyc⟩

/-- A key that no item inserts keeps its value through the fold. -/
theorem get?_foldl_insert_of_forall {α : Type*} {c : α → Bool} {key : α → K} {val : α → V}
    {k : K} : ∀ (l : List α) (m : VecMap K V), (∀ x ∈ l, c x = true → key x ≠ k) →
      (l.foldl (fun acc x => if c x then acc.insert (key x) (val x) else acc) m).get? k =
        m.get? k
  | [], _, _ => rfl
  | x :: l, m, h => by
    rw [List.foldl_cons, get?_foldl_insert_of_forall l _ (fun y hy => h y (List.mem_cons_of_mem _ hy))]
    split
    · rename_i hc
      rw [get?_insert, if_neg (Ne.symm (h x (List.mem_cons_self ..) hc))]
    · rfl

/-- Inserting the items of a list under distinct keys: a key holds the value
of the item inserted under it, or keeps its value where there is none. -/
theorem get?_foldl_insert {α : Type*} {key : α → K} {val : α → V} (k : K) :
    ∀ (l : List α) (m : VecMap K V), (l.map key).Nodup →
      (l.foldl (fun acc x => acc.insert (key x) (val x)) m).get? k =
        ((l.find? fun x => key x = k).map val).or (m.get? k)
  | [], _, _ => rfl
  | x :: l, m, hl => by
    rw [List.map_cons, List.nodup_cons] at hl
    rw [List.foldl_cons, get?_foldl_insert k l _ hl.2, get?_insert, List.find?_cons]
    by_cases hx : key x = k
    · -- no later item has the key
      have hnone : l.find? (fun y => key y = k) = none := List.find?_eq_none.mpr fun y hy hyk =>
        hl.1 (List.mem_map.mpr ⟨y, hy, (of_decide_eq_true hyk).trans hx.symm⟩)
      simp [hnone, hx]
    · simp [hx, Ne.symm hx]

/-- `get?_foldl_insert` at the key of an item. -/
theorem get?_foldl_insert_of_mem {α : Type*} {key : α → K} {val : α → V} :
    ∀ {l : List α} (m : VecMap K V), (l.map key).Nodup → ∀ {a : α}, a ∈ l →
      (l.foldl (fun acc x => acc.insert (key x) (val x)) m).get? (key a) = some (val a)
  | x :: l, m, hl, a, ha => by
    rw [List.map_cons, List.nodup_cons] at hl
    rw [List.foldl_cons]
    rcases List.mem_cons.mp ha with rfl | ha
    · -- no later item has the key of `a`, inserted first
      have hnone : l.find? (fun y => key y = key a) = none := List.find?_eq_none.mpr fun y hy hyk =>
        hl.1 (List.mem_map.mpr ⟨y, hy, of_decide_eq_true hyk⟩)
      rw [get?_foldl_insert _ l _ hl.2, hnone, Option.map_none, get?_insert, if_pos rfl]
      rfl
    · exact get?_foldl_insert_of_mem _ hl.2 ha

/-- A fold whose step changes only the key of its item, by a function of the
value stored there: at each key the result is that function applied once, to
the item with the key, or the old value where no item has it. -/
theorem get?_foldl_pointwise {α : Type*} {f : VecMap K V → K × α → VecMap K V}
    {g : Option V → α → Option V}
    (hf : ∀ m e k, (f m e).get? k = if k = e.1 then g (m.get? k) e.2 else m.get? k) (k : K) :
    ∀ (l : List (K × α)) (m : VecMap K V), (l.map Prod.fst).Nodup →
      (l.foldl f m).get? k = ((l.lookup k).map (g (m.get? k))).getD (m.get? k)
  | [], _, _ => rfl
  | (k', a) :: l, m, hl => by
    have hk' : k' ∉ l.map Prod.fst := (List.nodup_cons.mp hl).1
    rw [List.foldl_cons, get?_foldl_pointwise hf k l _ (List.nodup_cons.mp hl).2, hf]
    by_cases h : k = k'
    · subst h
      -- the item is the only one with its key, so the rest of the fold keeps it
      have hnone : l.lookup k = none := by
        rw [List.lookup_eq_none_iff]
        intro p hp
        have hpk : p.1 ≠ k := fun hpk => hk' (List.mem_map.mpr ⟨p, hp, hpk⟩)
        simpa using Ne.symm hpk
      simp [hnone]
    · have hne : (k == k') = false := by simpa using h
      simp [List.lookup_cons, hne, h]

/-- `get?_foldl_pointwise` over the entries of another map. -/
theorem get?_foldl_entries {f : VecMap K V → K × V → VecMap K V} {g : Option V → V → Option V}
    (hf : ∀ m e k, (f m e).get? k = if k = e.1 then g (m.get? k) e.2 else m.get? k)
    (other m : VecMap K V) (k : K) :
    (other.entries.foldl f m).get? k = ((other.get? k).map (g (m.get? k))).getD (m.get? k) :=
  get?_foldl_pointwise hf k other.entries m other.nodup

end Entries

omit [DecidableEq K] in
theorem isEmpty_eq_false_of_mem_keys {m : VecMap K V} {k : K} (hk : k ∈ m.keys) :
    m.isEmpty = false := by
  obtain ⟨e, he, -⟩ := List.mem_map.mp hk
  simp only [isEmpty, List.isEmpty_eq_false_iff]
  exact List.ne_nil_of_mem he

/-! ## A property of every value

What a map of sessions or of stored values keeps as an invariant: each update
keeps it when the value it stores has the property. -/

section AllValues

/-- Every stored value satisfies `P`. -/
def AllValues (P : V → Prop) (m : VecMap K V) : Prop :=
  ∀ k v, m.get? k = some v → P v

variable {P : V → Prop} {m : VecMap K V}

theorem allValues_empty : (empty : VecMap K V).AllValues P := by
  intro k v h
  simp at h

theorem AllValues.imp {Q : V → Prop} (hm : m.AllValues P) (h : ∀ v, P v → Q v) :
    m.AllValues Q :=
  fun k v hk => h v (hm k v hk)

theorem AllValues.insert (hm : m.AllValues P) {k : K} {v : V} (hv : P v) :
    (m.insert k v).AllValues P := by
  intro k' v' h
  rw [get?_insert] at h
  split at h
  · cases h
    exact hv
  · exact hm k' v' h

theorem AllValues.erase (hm : m.AllValues P) (k : K) : (m.erase k).AllValues P := by
  intro k' v' h
  rw [get?_erase] at h
  split at h
  · cases h
  · exact hm k' v' h

end AllValues

/-! ## Counting values

How many stored values a predicate accepts, and how each update moves that
number: what a counter kept beside a map has to follow. The lemmas are stated
as sums, so that they hold in `ℕ` without a subtraction. -/

section Count

/-- The number of stored values that `p` accepts. -/
def countValues (m : VecMap K V) (p : V → Bool) : ℕ :=
  m.entries.countP fun e => p e.2

variable {p : V → Bool} {m : VecMap K V} {k : K}

omit [DecidableEq K] in
/-- In a list with no key twice, the entry holding `k` is the one with key `k`. -/
private theorem eq_of_key_eq {e : K × V} {l : List (K × V)} {v₀ : V}
    (hl : e.1 ∉ l.map Prod.fst) (h : (k, v₀) ∈ e :: l) (he : e.1 = k) : e = (k, v₀) := by
  rcases List.mem_cons.mp h with h | h
  · exact h.symm
  · exact absurd (he ▸ List.mem_map_of_mem (f := Prod.fst) h) hl

/-- In a list with no key twice, dropping the entry of `k` counts its value
out. -/
private theorem countP_filter_ne_key :
    ∀ {l : List (K × V)} {v₀ : V}, (l.map Prod.fst).Nodup → (k, v₀) ∈ l →
      (l.filter fun e => e.1 ≠ k).countP (fun e => p e.2) + (if p v₀ then 1 else 0) =
        l.countP fun e => p e.2
  | [], _, _, h => absurd h List.not_mem_nil
  | e :: l, v₀, hl, h => by
    rw [List.map_cons, List.nodup_cons] at hl
    by_cases he : e.1 = k
    · -- the head is the entry of `k`, and no other entry has that key
      have hrest : l.filter (fun e => e.1 ≠ k) = l :=
        List.filter_eq_self.mpr fun x hx =>
          decide_eq_true fun hx' => hl.1 (he ▸ hx' ▸ List.mem_map_of_mem hx)
      rw [eq_of_key_eq hl.1 h he, List.filter_cons_of_neg (by simp), hrest, List.countP_cons]
    · have h' : (k, v₀) ∈ l := (List.mem_cons.mp h).resolve_left fun h => he (h ▸ rfl)
      have ih := countP_filter_ne_key hl.2 h'
      rw [List.filter_cons_of_pos (by simpa using he), List.countP_cons, List.countP_cons]
      omega

/-- In a list with no key twice, overwriting the value of `k` counts the old
value out and the new one in. -/
private theorem countP_map_key {v : V} :
    ∀ {l : List (K × V)} {v₀ : V}, (l.map Prod.fst).Nodup → (k, v₀) ∈ l →
      (l.map fun e => if e.1 = k then (k, v) else e).countP (fun e => p e.2) +
          (if p v₀ then 1 else 0) =
        (l.countP fun e => p e.2) + if p v then 1 else 0
  | [], _, _, h => absurd h List.not_mem_nil
  | e :: l, v₀, hl, h => by
    rw [List.map_cons, List.nodup_cons] at hl
    by_cases he : e.1 = k
    · have hrest : l.map (fun e => if e.1 = k then (k, v) else e) = l :=
        (List.map_congr_left fun x hx => if_neg (show ¬x.1 = k from
          fun hx' => hl.1 (he ▸ hx' ▸ List.mem_map_of_mem hx))).trans (List.map_id l)
      rw [eq_of_key_eq hl.1 h he, List.map_cons, if_pos rfl, hrest, List.countP_cons,
        List.countP_cons]
      dsimp only
      omega
    · have h' : (k, v₀) ∈ l := (List.mem_cons.mp h).resolve_left fun h => he (h ▸ rfl)
      have ih := countP_map_key (v := v) hl.2 h'
      rw [List.map_cons, if_neg he, List.countP_cons, List.countP_cons]
      omega

omit [DecidableEq K] in
@[simp] theorem countValues_empty : (empty : VecMap K V).countValues p = 0 := rfl

/-- A new key counts its value in. -/
theorem countValues_insert_of_not_mem (hk : k ∉ m.keys) (v : V) :
    (m.insert k v).countValues p = m.countValues p + if p v then 1 else 0 := by
  simp [insert, hk, countValues, List.countP_append]

/-- Overwriting the value of a present key. -/
theorem countValues_insert_of_get? {v₀ : V} (h : m.get? k = some v₀) (v : V) :
    (m.insert k v).countValues p + (if p v₀ then 1 else 0) =
      m.countValues p + if p v then 1 else 0 := by
  have hk : k ∈ m.keys := (m.mem_keys_iff).mpr ⟨v₀, h⟩
  simp only [insert, hk, ↓reduceDIte, countValues]
  exact countP_map_key m.nodup ((m.get?_eq_some_iff).mp h)

/-- Erasing a present key counts its value out. -/
theorem countValues_erase {v₀ : V} (h : m.get? k = some v₀) :
    (m.erase k).countValues p + (if p v₀ then 1 else 0) = m.countValues p :=
  countP_filter_ne_key m.nodup ((m.get?_eq_some_iff).mp h)

/-- A stored value that `p` accepts is counted. -/
theorem countValues_pos {v : V} (h : m.get? k = some v) (hv : p v) : 0 < m.countValues p :=
  List.countP_pos_iff.mpr ⟨(k, v), (m.get?_eq_some_iff).mp h, hv⟩

/-- No stored value that `p` accepts, no count. -/
theorem countValues_eq_zero (h : ∀ k v, m.get? k = some v → p v = false) :
    m.countValues p = 0 :=
  List.countP_eq_zero.mpr fun e he => by
    simp [h e.1 e.2 ((m.get?_eq_some_iff).mpr he)]

omit [DecidableEq K] in
/-- The size counts every value. -/
theorem size_eq_countValues (m : VecMap K V) : m.size = m.countValues fun _ => true := by
  simp [size, countValues]

theorem size_insert_of_not_mem (hk : k ∉ m.keys) (v : V) : (m.insert k v).size = m.size + 1 := by
  simpa [size_eq_countValues] using countValues_insert_of_not_mem (p := fun _ => true) hk v

theorem size_insert_of_get? {v₀ : V} (h : m.get? k = some v₀) (v : V) :
    (m.insert k v).size = m.size := by
  have hcount := countValues_insert_of_get? (p := fun _ => true) h v
  rw [size_eq_countValues, size_eq_countValues]
  simpa using hcount

theorem size_erase {v₀ : V} (h : m.get? k = some v₀) : (m.erase k).size + 1 = m.size := by
  simpa [size_eq_countValues] using countValues_erase (p := fun _ => true) h

omit [DecidableEq K] in
theorem isEmpty_eq_true_iff : m.isEmpty = true ↔ m.size = 0 := by
  simp [isEmpty, size]

/-- A map of size zero holds nothing. -/
theorem get?_eq_none_of_size_eq_zero (h : m.size = 0) (k : K) : m.get? k = none := by
  rw [get?_eq_none_iff]
  simp [keys, List.eq_nil_of_length_eq_zero h]

/-- A map in which every lookup fails has size zero. -/
theorem size_eq_zero_of_get?_eq_none (h : ∀ k, m.get? k = none) : m.size = 0 := by
  rw [size_eq_countValues]
  exact countValues_eq_zero fun k v hv => by simp [h k] at hv

end Count

end VecMap

/-! ## `Vec::swap_remove`

The values of a map may themselves be vectors, from which the code removes an
element with `swap_remove`: the last element moves into the hole. As a
multiset the result is the vector without the element. -/

/-- `Vec::swap_remove(p)`: the last element takes the place of the one at `p`,
and the vector loses its last slot. -/
def List.swapRemove {α : Type*} (l : List α) (p : ℕ) : List α :=
  match l.getLast? with
  | none => l
  | some x => (l.set p x).dropLast

theorem List.swapRemove_perm {α : Type*} {l : List α} {p : ℕ} (hp : p < l.length) :
    (l.swapRemove p).Perm (l.eraseIdx p) := by
  obtain ⟨a, x, rfl⟩ : ∃ a x, l = a ++ [x] :=
    ⟨l.dropLast, l.getLast (List.ne_nil_of_length_pos (by omega)),
      (List.dropLast_append_getLast _).symm⟩
  rw [List.length_append, List.length_singleton] at hp
  rw [List.swapRemove, List.getLast?_concat]
  dsimp only
  rcases Nat.lt_succ_iff_lt_or_eq.mp hp with hlt | rfl
  · -- the hole is filled by the last element
    rw [List.set_append_left _ _ hlt, List.dropLast_concat, List.eraseIdx_append_of_lt_length hlt,
      List.set_eq_take_append_cons_drop, if_pos hlt, List.eraseIdx_eq_take_drop_succ]
    exact List.perm_middle.trans (List.perm_append_singleton _ _).symm
  · -- the last element itself goes
    rw [List.set_append_right _ _ (Nat.le_refl _), Nat.sub_self, List.set_cons_zero,
      List.dropLast_concat, List.eraseIdx_append_of_length_le (Nat.le_refl _), Nat.sub_self,
      List.eraseIdx_cons_zero, List.append_nil]
