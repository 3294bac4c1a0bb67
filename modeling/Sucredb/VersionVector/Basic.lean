/-
Sucredb.VersionVector.Basic — `VersionVector` of `version_vector.rs`: one
version per node id, read as "every version up to it".

The representation is the source's `LinearMap<Id, Version>`, a `VecMap`. The
operations are translated one to one (`contains`, `add`, `merge`, `event`,
`descends`, `strict_descends`, `iter`).

Each update gets two lemmas: what it does to `get?`, and which entries it can
produce (`mem_iter_add`, `mem_iter_merge`). The second form is what the cube
layer needs: a cube's dot tracker is a version vector, and `for_each_dot`
walks its entries. The descent lemmas at the end are what the ring needs:
covering is transitive, an `event` makes a vector that covers the old one and
that the old one does not cover, and two different nodes' events on one vector
are concurrent.
-/
import Sucredb.Lib.VecMap
import Sucredb.Types

namespace Sucredb

/-- `version_vector::VersionVector`. -/
structure VersionVector where
  map : VecMap NodeId Version
deriving DecidableEq

namespace VersionVector

/-- `VersionVector::new`. -/
def new : VersionVector := ⟨VecMap.empty⟩

instance : Inhabited VersionVector := ⟨new⟩

/-- The version recorded for `id`. -/
def get? (vv : VersionVector) (id : NodeId) : Option Version := vv.map.get? id

/-- `VersionVector::iter`: the entries, in map order. -/
def iter (vv : VersionVector) : List (NodeId × Version) := vv.map.entries

/-- `VersionVector::contains`. -/
def contains (vv : VersionVector) (id : NodeId) (version : Version) : Bool :=
  ((vv.get? id).map (fun x => decide (version ≤ x))).getD false

/-- `VersionVector::add`: raise the entry of `id` to `version`. -/
def add (vv : VersionVector) (id : NodeId) (version : Version) : VersionVector :=
  match vv.get? id with
  | none => ⟨vv.map.insert id version⟩
  | some cur => if cur < version then ⟨vv.map.insert id version⟩ else vv

/-- `VersionVector::merge`: `add` every entry of `other`. -/
def merge (vv other : VersionVector) : VersionVector :=
  other.iter.foldl (fun acc e => acc.add e.1 e.2) vv

/-- `VersionVector::descends`: every entry of `other` is covered. -/
def descends (vv other : VersionVector) : Bool :=
  other.iter.all (fun e => ((vv.get? e.1).map (fun v => decide (e.2 ≤ v))).getD false)

/-- `LinearMap`'s `PartialEq`: the same entries, in any order. -/
def mapEq (vv other : VersionVector) : Bool :=
  vv.iter.length == other.iter.length && vv.iter.all (fun e => other.get? e.1 == some e.2)

/-- `VersionVector::strict_descends`. -/
def strictDescends (vv other : VersionVector) : Bool :=
  vv.descends other && !(vv.mapEq other)

/-- `VersionVector::event`: bump the entry of `id`. -/
def event (vv : VersionVector) (id : NodeId) : VersionVector :=
  match vv.get? id with
  | none => ⟨vv.map.insert id 1⟩
  | some v => ⟨vv.map.insert id (v + 1)⟩

/-! ## Lookup lemmas -/

@[simp] theorem get?_new (id : NodeId) : new.get? id = none := rfl

theorem get?_add (vv : VersionVector) (id k : NodeId) (version : Version) :
    (vv.add id version).get? k =
      if k = id then some (((vv.get? id).map (fun c => max c version)).getD version)
      else vv.get? k := by
  unfold add
  cases h : vv.get? id with
  | none => simp [get?]
  | some cur =>
    by_cases hlt : cur < version
    · simp [get?, hlt, max_eq_right hlt.le]
    · by_cases hk : k = id
      · subst hk; simp [hlt, h, max_eq_left (not_lt.mp hlt)]
      · simp [hlt, hk]

@[simp] theorem get?_event (vv : VersionVector) (id k : NodeId) :
    (vv.event id).get? k =
      if k = id then some (((vv.get? id).map (· + 1)).getD 1) else vv.get? k := by
  unfold event
  cases vv.get? id <;> simp [get?]

theorem contains_add (vv : VersionVector) (id k : NodeId) (version w : Version) :
    (vv.add id version).contains k w = (vv.contains k w || (k = id && w ≤ version)) := by
  simp only [contains, get?_add]
  by_cases hk : k = id
  · subst hk
    cases vv.get? k <;> simp
  · simp [hk]

theorem contains_merge (vv other : VersionVector) (k : NodeId) (w : Version) :
    (vv.merge other).contains k w = (vv.contains k w || other.contains k w) := by
  unfold merge
  obtain ⟨⟨l, hl⟩⟩ := other
  have hother : (⟨⟨l, hl⟩⟩ : VersionVector).contains k w =
      l.any (fun e => decide (e.1 = k) && decide (w ≤ e.2)) := by
    simp only [contains, get?, VecMap.get?]
    induction l with
    | nil => simp
    | cons e l ih =>
      obtain ⟨k', v'⟩ := e
      have ih := ih (List.nodup_cons.mp hl).2
      by_cases h : k = k'
      · subst h
        have hnot : ∀ x ∈ l, x.1 ≠ k := fun x hx hxk =>
          (List.nodup_cons.mp hl).1 (List.mem_map.mpr ⟨x, hx, hxk⟩)
        have hfalse : l.any (fun e => decide (e.1 = k) && decide (w ≤ e.2)) = false := by
          simp only [List.any_eq_false, Bool.and_eq_true, decide_eq_true_eq, not_and]
          exact fun x hx hxk => absurd hxk (hnot x hx)
        simp [hfalse]
      · have hne : (k == k') = false := by simpa using h
        simp [List.lookup_cons, hne, ih, Ne.symm h]
  rw [hother]
  simp only [iter]
  clear hl hother
  induction l generalizing vv with
  | nil => simp
  | cons e l ih =>
    simp only [List.foldl_cons, List.any_cons]
    rw [ih, contains_add]
    cases vv.contains k w <;> simp [eq_comm]

/-! ## Entries -/

/-- An entry of `add` is an old entry or the added one. -/
theorem mem_iter_add {vv : VersionVector} {id : NodeId} {version : Version}
    {e : NodeId × Version} (he : e ∈ (vv.add id version).iter) :
    e ∈ vv.iter ∨ e = (id, version) := by
  obtain ⟨k, x⟩ := e
  have hg : (vv.add id version).get? k = some x := (VecMap.get?_eq_some_iff _).mpr he
  rw [get?_add] at hg
  by_cases hk : k = id
  · subst hk
    rw [if_pos rfl] at hg
    cases hc : vv.get? k with
    | none =>
      rw [hc] at hg
      simp only [Option.map_none, Option.getD_none, Option.some.injEq] at hg
      exact Or.inr (by rw [hg])
    | some c =>
      rw [hc] at hg
      simp only [Option.map_some, Option.getD_some, Option.some.injEq] at hg
      rcases max_choice c version with hm | hm
      · rw [hm] at hg
        subst hg
        exact Or.inl ((VecMap.get?_eq_some_iff _).mp hc)
      · rw [hm] at hg
        exact Or.inr (by rw [hg])
  · rw [if_neg hk] at hg
    exact Or.inl ((VecMap.get?_eq_some_iff _).mp hg)

/-- A version the vector does not contain is an entry after `add`. -/
theorem mem_iter_add_self {vv : VersionVector} {id : NodeId} {version : Version}
    (h : vv.contains id version = false) : (id, version) ∈ (vv.add id version).iter := by
  have hg : (vv.add id version).get? id = some version := by
    rw [get?_add, if_pos rfl]
    cases hc : vv.get? id with
    | none => rfl
    | some c =>
      -- the old entry is below `version`, so `add` raises it
      simp only [contains, hc, Option.map_some, Option.getD_some, decide_eq_false_iff_not,
        not_le] at h
      simp [max_eq_right h.le]
  exact (VecMap.get?_eq_some_iff _).mp hg

/-- An entry of `merge` is an entry of one of the two sides. -/
theorem mem_iter_merge {vv other : VersionVector} {e : NodeId × Version}
    (he : e ∈ (vv.merge other).iter) : e ∈ vv.iter ∨ e ∈ other.iter := by
  unfold merge at he
  generalize other.iter = l at he ⊢
  induction l generalizing vv with
  | nil => exact Or.inl he
  | cons a l ih =>
    rcases ih he with h | h
    · rcases mem_iter_add h with h' | rfl
      · exact Or.inl h'
      · exact Or.inr (List.mem_cons_self ..)
    · exact Or.inr (List.mem_cons_of_mem _ h)

/-! ## Descent

`descends` is what the ring's gossip decides by: these lemmas say when one
vector covers another after an `event`. -/

theorem descends_eq_true_iff (vv other : VersionVector) :
    vv.descends other = true ↔ ∀ e ∈ other.iter, vv.contains e.1 e.2 = true := by
  simp [descends, contains]

theorem contains_of_mem_iter {vv : VersionVector} {e : NodeId × Version} (he : e ∈ vv.iter) :
    vv.contains e.1 e.2 = true := by
  have hg : vv.get? e.1 = some e.2 := (VecMap.get?_eq_some_iff _).mpr he
  simp [contains, hg]

@[simp] theorem descends_self (vv : VersionVector) : vv.descends vv = true :=
  (descends_eq_true_iff vv vv).mpr fun _ he => contains_of_mem_iter he

theorem contains_eq_true_iff (vv : VersionVector) (id : NodeId) (version : Version) :
    vv.contains id version = true ↔ ∃ v, vv.get? id = some v ∧ version ≤ v := by
  cases h : vv.get? id <;> simp [contains, h]

/-- Covering is transitive: what a covered vector covers is covered. -/
theorem descends_trans {vv w u : VersionVector} (h₁ : vv.descends w = true)
    (h₂ : w.descends u = true) : vv.descends u = true := by
  refine (descends_eq_true_iff _ _).mpr fun e he => ?_
  obtain ⟨v, hv, hle⟩ := (contains_eq_true_iff _ _ _).mp ((descends_eq_true_iff _ _).mp h₂ e he)
  -- `w` holds `v` for `e.1`, and `vv` covers that entry of `w`
  have hmem : (e.1, v) ∈ w.iter := (VecMap.get?_eq_some_iff _).mp hv
  obtain ⟨v', hv', hle'⟩ :=
    (contains_eq_true_iff _ _ _).mp ((descends_eq_true_iff _ _).mp h₁ _ hmem)
  exact (contains_eq_true_iff _ _ _).mpr ⟨v', hv', le_trans hle hle'⟩

/-- `event` only raises: the bumped vector covers the old one. -/
theorem event_descends (vv : VersionVector) (id : NodeId) : (vv.event id).descends vv = true := by
  refine (descends_eq_true_iff _ _).mpr fun e he => ?_
  have hg : vv.get? e.1 = some e.2 := (VecMap.get?_eq_some_iff _).mpr he
  by_cases h : e.1 = id
  · have hg' : (vv.event id).get? e.1 = some (e.2 + 1) := by
      rw [get?_event, if_pos h, ← h, hg]
      rfl
    simp [contains, hg']
  · have hg' : (vv.event id).get? e.1 = some e.2 := by rw [get?_event, if_neg h, hg]
    simp [contains, hg']

/-- A vector that agrees with `vv` at `id` misses the version `event id` adds. -/
theorem descends_event_eq_false {vv w : VersionVector} {id : NodeId} (h : w.get? id = vv.get? id) :
    w.descends (vv.event id) = false := by
  have hg : (vv.event id).get? id = some (((vv.get? id).map (· + 1)).getD 1) := by simp
  have hmem : (id, ((vv.get? id).map (· + 1)).getD 1) ∈ (vv.event id).iter :=
    (VecMap.get?_eq_some_iff _).mp hg
  rw [Bool.eq_false_iff]
  intro hd
  have hc := (descends_eq_true_iff _ _).mp hd _ hmem
  cases hv : vv.get? id <;> simp [contains, h, hv] at hc

theorem not_descends_event (vv : VersionVector) (id : NodeId) : vv.descends (vv.event id) = false :=
  descends_event_eq_false rfl

/-- Two nodes bumping the same vector make concurrent vectors. -/
theorem event_descends_event_eq_false (vv : VersionVector) {a c : NodeId} (hac : a ≠ c) :
    (vv.event a).descends (vv.event c) = false :=
  descends_event_eq_false (by simp [Ne.symm hac])

end VersionVector

end Sucredb
