/-
Sucredb.VersionVector.DeltaSets — the delta vector as the set of dots it
stands for.

A well-formed vector splits into one `Group` per id: the base, then the
exceptions, increasing and above `base + 1`. A `Group` carries that ordering
as its fields, so that an ill-formed one cannot be built. The set of dots is
read off the vector itself, with no reference to a splitting: `versionsOf`
collects the versions of one id in order, and `(id, v)` is a dot when `v` is
positive and at most the first of them, the base, or one of the others.

The scans of the source walk a group's exceptions and stop at the first entry
of another id; on a well-formed vector that entry begins the next group. Each
scan is therefore stated on `xs.map (id, ·) ++ R` with `R` free of `id`
(`containsScan_map`, `skipCovered_map`, `absorb_map`, `insertScan_map`), and
each operation replaces or appends one group (`Extends`).
-/
import Sucredb.VersionVector.Delta
import Sucredb.VersionVector.BitmappedSets

namespace Sucredb

namespace DeltaVersionVector

/-! ## Groups and the set of dots -/

/-- The entries of one id in a well-formed vector: its base, then the
exceptions, increasing and above `base + 1`. -/
structure Group where
  id : NodeId
  base : Version
  excs : List Version
  sorted : excs.Pairwise (· < ·)
  above : ∀ e ∈ excs, base + 1 < e

namespace Group

/-- The versions of the group, in the order of the vector. -/
def versions (g : Group) : List Version := g.base :: g.excs

/-- The entries of the group. -/
def entries (g : Group) : List (NodeId × Version) := g.versions.map (g.id, ·)

end Group

/-- Well-formed: the entries are one contiguous group per id. -/
def WF (d : DeltaVersionVector) : Prop :=
  ∃ gs : List Group, (gs.map Group.id).Nodup ∧ d.entries = gs.flatMap Group.entries

/-- The versions of `id`, in the order of the vector. -/
def versionsOf (d : DeltaVersionVector) (id : NodeId) : List Version :=
  (d.entries.filter (·.1 == id)).map (·.2)

/-- The base of `id`: the first of its versions. -/
def baseOf (d : DeltaVersionVector) (id : NodeId) : Option Version := (d.versionsOf id).head?

/-- The positive versions that the versions of one id stand for: those up to
the base, and the exceptions. -/
def versionSet : List Version → Set Version
  | [] => ∅
  | b :: excs => {w | 1 ≤ w ∧ (w ≤ b ∨ w ∈ excs)}

/-- `S(d)`: the dots of the vector. -/
def toSet (d : DeltaVersionVector) : Set Dot := {x | x.2 ∈ versionSet (d.versionsOf x.1)}

@[simp] theorem mem_toSet {d : DeltaVersionVector} {id : NodeId} {v : Version} :
    (id, v) ∈ d.toSet ↔ v ∈ versionSet (d.versionsOf id) := Iff.rfl

@[simp] theorem versionSet_nil : versionSet [] = ∅ := rfl

@[simp] theorem mem_versionSet_cons {b w : Version} {excs : List Version} :
    w ∈ versionSet (b :: excs) ↔ 1 ≤ w ∧ (w ≤ b ∨ w ∈ excs) := Iff.rfl

theorem Group.mem_versionSet (g : Group) {w : Version} :
    w ∈ versionSet g.versions ↔ 1 ≤ w ∧ (w ≤ g.base ∨ w ∈ g.excs) := Iff.rfl

/-- Every positive version up to the base of an id is a dot. -/
theorem mem_toSet_of_le_base {d : DeltaVersionVector} {id : NodeId} {b v : Version}
    (hb : d.baseOf id = some b) (hv : 1 ≤ v) (hle : v ≤ b) : (id, v) ∈ d.toSet := by
  obtain ⟨excs, hvs⟩ := List.head?_eq_some_iff.mp hb
  rw [mem_toSet, hvs]
  exact ⟨hv, .inl hle⟩

/-- The entries of a vector of groups, cut around the group `g`. -/
theorem flatMap_split (pre post : List Group) (g : Group) :
    (pre ++ g :: post).flatMap Group.entries = pre.flatMap Group.entries ++
      (g.id, g.base) :: (g.excs.map (g.id, ·) ++ post.flatMap Group.entries) := by
  simp [Group.entries, Group.versions]

/-- No entry of groups without `id` is an entry of `id`. -/
theorem ne_of_mem_flatMap {gs : List Group} {id : NodeId} (h : id ∉ gs.map Group.id) :
    ∀ e ∈ gs.flatMap Group.entries, e.1 ≠ id := by
  intro e he
  obtain ⟨g, hg, he⟩ := List.mem_flatMap.mp he
  obtain ⟨w, -, rfl⟩ := List.mem_map.mp he
  exact fun hid => h (List.mem_map.mpr ⟨g, hg, hid⟩)

/-- In a vector of groups, the versions of `id` are those of its groups. -/
theorem versionsOf_flatMap (gs : List Group) (id : NodeId) :
    versionsOf ⟨gs.flatMap Group.entries⟩ id = (gs.filter (·.id == id)).flatMap Group.versions := by
  induction gs with
  | nil => rfl
  | cons g gs ih =>
    simp only [versionsOf] at ih
    by_cases h : g.id = id
    · simp [versionsOf, List.filter_append, Group.entries, List.filter_map, h, ih, Function.comp_def]
    · simp [versionsOf, List.filter_append, Group.entries, List.filter_map, h, ih, Function.comp_def]

theorem filter_id_eq_nil {gs : List Group} {id : NodeId} (h : id ∉ gs.map Group.id) :
    gs.filter (·.id == id) = [] :=
  List.filter_eq_nil_iff.mpr fun g hg hid => h (List.mem_map.mpr ⟨g, hg, by simpa using hid⟩)

/-- Distinct ids: a group of the vector sits between groups without its id. -/
theorem exists_split {gs : List Group} (hd : (gs.map Group.id).Nodup) {g : Group} (hg : g ∈ gs) :
    ∃ pre post, gs = pre ++ g :: post ∧ g.id ∉ pre.map Group.id ∧ g.id ∉ post.map Group.id := by
  obtain ⟨pre, post, rfl⟩ := List.append_of_mem hg
  simp only [List.map_append, List.map_cons, List.nodup_append, List.nodup_cons] at hd
  exact ⟨pre, post, rfl, fun hm => hd.2.2 _ hm _ List.mem_cons_self rfl, hd.2.1.1⟩

/-- The versions of the id of a group, in a vector of groups with distinct
ids, are the group's. -/
theorem versionsOf_split {d : DeltaVersionVector} {pre post : List Group} {g : Group}
    (h : d.entries = (pre ++ g :: post).flatMap Group.entries) (hpre : g.id ∉ pre.map Group.id)
    (hpost : g.id ∉ post.map Group.id) : d.versionsOf g.id = g.versions := by
  obtain ⟨l⟩ := d
  subst h
  rw [versionsOf_flatMap]
  simp [List.filter_append, filter_id_eq_nil hpre, filter_id_eq_nil hpost]

theorem versionsOf_of_not_mem {d : DeltaVersionVector} {gs : List Group}
    (h : d.entries = gs.flatMap Group.entries) {id : NodeId} (hid : id ∉ gs.map Group.id) :
    d.versionsOf id = [] := by
  obtain ⟨l⟩ := d
  subst h
  simp [versionsOf_flatMap, filter_id_eq_nil hid]

/-- The dots of a vector of groups with distinct ids are those of its groups. -/
theorem mem_toSet_iff {d : DeltaVersionVector} {gs : List Group} (hd : (gs.map Group.id).Nodup)
    (h : d.entries = gs.flatMap Group.entries) {id : NodeId} {v : Version} :
    (id, v) ∈ d.toSet ↔ ∃ g ∈ gs, g.id = id ∧ v ∈ versionSet g.versions := by
  by_cases hid : id ∈ gs.map Group.id
  · obtain ⟨g, hg, rfl⟩ := List.mem_map.mp hid
    obtain ⟨pre, post, rfl, hpre, hpost⟩ := exists_split hd hg
    rw [mem_toSet, versionsOf_split h hpre hpost]
    constructor
    · exact fun hv => ⟨g, hg, rfl, hv⟩
    · rintro ⟨g', hg', hid', hv⟩
      -- the only group of the id is `g`
      obtain rfl : g' = g := by
        rcases List.mem_append.mp hg' with hm | hm
        · exact absurd (List.mem_map.mpr ⟨g', hm, hid'⟩) hpre
        · rcases List.mem_cons.mp hm with rfl | hm
          · rfl
          · exact absurd (List.mem_map.mpr ⟨g', hm, hid'⟩) hpost
      exact hv
  · rw [mem_toSet, versionsOf_of_not_mem h hid]
    simp only [versionSet_nil, Set.mem_empty_iff_false, false_iff, not_exists, not_and]
    exact fun g hg hid' => absurd (List.mem_map.mpr ⟨g, hg, hid'⟩) hid

/-! ## Finding the group of an id -/

section Locate

variable {A M : List (NodeId × Version)} {id : NodeId} {b : Version}

theorem basePos_eq_none {l : List (NodeId × Version)} (h : ∀ e ∈ l, e.1 ≠ id) :
    basePos ⟨l⟩ id = none :=
  List.findIdx?_eq_none_iff.mpr fun e he => by simpa using h e he

/-- The base of `id` sits after the entries before its group. -/
theorem basePos_split (hA : ∀ e ∈ A, e.1 ≠ id) : basePos ⟨A ++ (id, b) :: M⟩ id = some A.length := by
  have hnone : A.findIdx? (·.1 == id) = none := basePos_eq_none hA
  simp [basePos, List.findIdx?_append, hnone, List.findIdx?_cons]

theorem versionAt_split : versionAt ⟨A ++ (id, b) :: M⟩ A.length = b := by
  simp [versionAt, List.getD_eq_getElem?_getD]

theorem take_split : (A ++ (id, b) :: M).take A.length = A := List.take_left' rfl

theorem take_succ_split : (A ++ (id, b) :: M).take (A.length + 1) = A ++ [(id, b)] := by
  simp [List.take_append]

theorem drop_succ_split : (A ++ (id, b) :: M).drop (A.length + 1) = M := by
  simp [List.drop_append]

/-- What the operations read first of the group `g`: the vector cut around it,
the position of its base, and the base there. -/
theorem locate {d : DeltaVersionVector} {pre post : List Group} {g : Group}
    (h : d.entries = (pre ++ g :: post).flatMap Group.entries) (hpre : g.id ∉ pre.map Group.id) :
    d.entries = pre.flatMap Group.entries ++
        (g.id, g.base) :: (g.excs.map (g.id, ·) ++ post.flatMap Group.entries) ∧
      d.basePos g.id = some (pre.flatMap Group.entries).length ∧
      d.versionAt (pre.flatMap Group.entries).length = g.base := by
  rw [flatMap_split] at h
  refine ⟨h, ?_⟩
  obtain ⟨l⟩ := d
  simp only at h
  subst h
  exact ⟨basePos_split (ne_of_mem_flatMap hpre), versionAt_split⟩

theorem basePos_of_not_mem {d : DeltaVersionVector} {gs : List Group}
    (h : d.entries = gs.flatMap Group.entries) (hid : id ∉ gs.map Group.id) : d.basePos id = none := by
  obtain ⟨l⟩ := d
  simp only at h
  subst h
  exact basePos_eq_none (ne_of_mem_flatMap hid)

end Locate

/-! ## The scans over one group's exceptions -/

section Scans

variable {R : List (NodeId × Version)} {id : NodeId}

theorem containsScan_foreign (hR : ∀ e ∈ R, e.1 ≠ id) (v : Version) : containsScan id v R = false := by
  cases R with
  | nil => rfl
  | cons e R => simp [containsScan, hR e List.mem_cons_self]

theorem skipCovered_foreign (hR : ∀ e ∈ R, e.1 ≠ id) (nb : Version) : skipCovered id nb R = R := by
  cases R with
  | nil => rfl
  | cons e R => simp [skipCovered, hR e List.mem_cons_self]

theorem absorb_foreign (hR : ∀ e ∈ R, e.1 ≠ id) (nb : Version) : absorb id nb R = (nb, R) := by
  cases R with
  | nil => rfl
  | cons e R => simp [absorb, hR e List.mem_cons_self]

theorem insertScan_foreign (hR : ∀ e ∈ R, e.1 ≠ id) (v : Version) :
    insertScan id v R = some ((id, v) :: R) := by
  cases R with
  | nil => rfl
  | cons e R => simp [insertScan, hR e List.mem_cons_self]

/-- The scan of `contains` finds exactly the exceptions. -/
theorem containsScan_map (hR : ∀ e ∈ R, e.1 ≠ id) (v : Version) :
    ∀ xs : List Version, containsScan id v (xs.map (id, ·) ++ R) = decide (v ∈ xs)
  | [] => by simpa using containsScan_foreign hR v
  | x :: xs => by
    by_cases hx : x = v
    · simp [containsScan, hx]
    · simp [containsScan, hx, containsScan_map hR v xs, Ne.symm hx]

/-- The first loop of `add_all` drops the exceptions up to the new base. -/
theorem skipCovered_map (hR : ∀ e ∈ R, e.1 ≠ id) (nb : Version) :
    ∀ xs : List Version,
      skipCovered id nb (xs.map (id, ·) ++ R) = (xs.dropWhile (· ≤ nb)).map (id, ·) ++ R
  | [] => by simpa using skipCovered_foreign hR nb
  | x :: xs => by
    by_cases hx : x ≤ nb
    · simp [skipCovered, hx, skipCovered_map hR nb xs]
    · simp [skipCovered, hx, Nat.lt_of_not_le hx]

/-- What the first loop of `add_all` leaves of increasing exceptions lies above
the new base, and with it stands for the same versions. -/
theorem dropWhile_le_spec (nb : Version) :
    ∀ {xs : List Version}, xs.Pairwise (· < ·) →
      (xs.dropWhile (· ≤ nb)).Pairwise (· < ·) ∧ (∀ y ∈ xs.dropWhile (· ≤ nb), nb < y) ∧
        ∀ w, (w ≤ nb ∨ w ∈ xs.dropWhile (· ≤ nb) ↔ w ≤ nb ∨ w ∈ xs)
  | [], _ => by simp
  | x :: xs, hs => by
    obtain ⟨hx, hs⟩ := List.pairwise_cons.mp hs
    by_cases hle : x ≤ nb
    · obtain ⟨ih₁, ih₂, ih₃⟩ := dropWhile_le_spec nb hs
      refine ⟨by simpa [hle] using ih₁, by simpa [hle] using ih₂, fun w => ?_⟩
      simp only [List.dropWhile_cons, hle, decide_true, if_true, ih₃ w, List.mem_cons]
      constructor
      · rintro (h | h)
        · exact .inl h
        · exact .inr (.inr h)
      · rintro (h | rfl | h)
        · exact .inl h
        · exact .inl hle
        · exact .inr h
    · have hlt : nb < x := Nat.lt_of_not_le hle
      simp only [List.dropWhile_cons, hle, decide_false]
      refine ⟨List.pairwise_cons.mpr ⟨hx, hs⟩, fun y hy => ?_, fun w => Iff.rfl⟩
      rcases List.mem_cons.mp hy with rfl | hy
      · exact hlt
      · exact hlt.trans (hx y hy)

/-- The loop that absorbs exceptions into the base leaves a group: the new
base, and what is left of the exceptions, above its successor. -/
theorem absorb_map (hR : ∀ e ∈ R, e.1 ≠ id) :
    ∀ {xs : List Version} {nb : Version}, xs.Pairwise (· < ·) → (∀ x ∈ xs, nb < x) →
      ∃ g : Group, g.id = id ∧ absorb id nb (xs.map (id, ·) ++ R) = (g.base, g.excs.map (id, ·) ++ R) ∧
        ∀ w, (w ≤ g.base ∨ w ∈ g.excs ↔ w ≤ nb ∨ w ∈ xs)
  | [], nb, _, _ => ⟨⟨id, nb, [], .nil, by simp⟩, rfl, by simpa using absorb_foreign hR nb, by simp⟩
  | x :: xs, nb, hs, hgt => by
    obtain ⟨hx, hs'⟩ := List.pairwise_cons.mp hs
    by_cases hsucc : x = nb + 1
    · -- `x` continues the base: absorb it and go on from `nb + 1`
      subst hsucc
      obtain ⟨g, hid, habs, hw⟩ := absorb_map hR hs' hx
      refine ⟨g, hid, by simpa [absorb] using habs, fun w => ?_⟩
      rw [hw w, List.mem_cons, Nat.le_add_one_iff, or_assoc]
    · -- the base stops below `x`, which stays an exception
      have hx' : nb + 1 < x := Nat.lt_of_le_of_ne (hgt x List.mem_cons_self) (Ne.symm hsucc)
      refine ⟨⟨id, nb, x :: xs, hs, fun e he => ?_⟩, rfl, by simp [absorb, hsucc], fun w => Iff.rfl⟩
      rcases List.mem_cons.mp he with rfl | he
      · exact hx'
      · exact hx'.trans (hx e he)

/-- The loop of `add` above `base + 1`: the version is an exception already, or
it goes in its place among them. -/
theorem insertScan_map (hR : ∀ e ∈ R, e.1 ≠ id) (v : Version) :
    ∀ {xs : List Version}, xs.Pairwise (· < ·) →
      (v ∈ xs ∧ insertScan id v (xs.map (id, ·) ++ R) = none) ∨
        ∃ ys : List Version, insertScan id v (xs.map (id, ·) ++ R) = some (ys.map (id, ·) ++ R) ∧
          ys.Pairwise (· < ·) ∧ ∀ w, w ∈ ys ↔ w = v ∨ w ∈ xs
  | [], _ => .inr ⟨[v], by simpa using insertScan_foreign hR v, List.pairwise_singleton _ _, by simp⟩
  | x :: xs, hs => by
    obtain ⟨hx, hs'⟩ := List.pairwise_cons.mp hs
    by_cases hge : v ≤ x
    · by_cases heq : x = v
      · -- already there
        subst heq
        exact .inl ⟨List.mem_cons_self, by simp [insertScan]⟩
      · -- goes in before `x`
        have hlt : v < x := Nat.lt_of_le_of_ne hge (Ne.symm heq)
        refine .inr ⟨v :: x :: xs, by simp [insertScan, hge, heq], ?_, fun w => by simp⟩
        refine List.pairwise_cons.mpr ⟨fun y hy => ?_, hs⟩
        rcases List.mem_cons.mp hy with rfl | hy
        · exact hlt
        · exact hlt.trans (hx y hy)
    · -- passes `x`
      have hlt : x < v := Nat.lt_of_not_le hge
      have hstep : insertScan id v ((x :: xs).map (id, ·) ++ R) =
          (insertScan id v (xs.map (id, ·) ++ R)).map ((id, x) :: ·) := by
        simp [insertScan, hge]
      rcases insertScan_map hR v hs' with ⟨hv, hnone⟩ | ⟨ys, hys, hsorted, hmem⟩
      · exact .inl ⟨List.mem_cons_of_mem _ hv, by rw [hstep, hnone]; rfl⟩
      · refine .inr ⟨x :: ys, by rw [hstep, hys]; rfl, List.pairwise_cons.mpr ⟨fun y hy => ?_, hsorted⟩,
          fun w => by rw [List.mem_cons, hmem w, List.mem_cons]; tauto⟩
        rcases (hmem y).mp hy with rfl | hy
        · exact hlt
        · exact hx y hy

end Scans

/-! ## Each operation changes one group -/

/-- A well-formed vector either has no group of `id`, or splits around it. -/
theorem WF.cases {d : DeltaVersionVector} (hd : d.WF) (id : NodeId) :
    (∃ gs : List Group, (gs.map Group.id).Nodup ∧ d.entries = gs.flatMap Group.entries ∧
        id ∉ gs.map Group.id) ∨
      ∃ pre g post, g.id = id ∧ ((pre ++ g :: post).map Group.id).Nodup ∧
        d.entries = (pre ++ g :: post).flatMap Group.entries ∧ g.id ∉ pre.map Group.id ∧
        g.id ∉ post.map Group.id := by
  obtain ⟨gs, hnd, h⟩ := hd
  by_cases hid : id ∈ gs.map Group.id
  · obtain ⟨g, hg, rfl⟩ := List.mem_map.mp hid
    obtain ⟨pre, post, rfl, hpre, hpost⟩ := exists_split hnd hg
    exact .inr ⟨pre, g, post, rfl, hnd, h, hpre, hpost⟩
  · exact .inl ⟨gs, hnd, h, hid⟩

/-- `d'` is well formed and differs from `d` only at `id`, where it adds the
versions `T`. -/
structure Extends (d d' : DeltaVersionVector) (id : NodeId) (T : Set Version) : Prop where
  wf : d'.WF
  versionsOf_ne : ∀ i, i ≠ id → d'.versionsOf i = d.versionsOf i
  versionSet_eq : versionSet (d'.versionsOf id) = versionSet (d.versionsOf id) ∪ T

section Extends

variable {d d' d'' : DeltaVersionVector} {id : NodeId} {T T' : Set Version}

theorem Extends.toSet_eq (h : Extends d d' id T) : d'.toSet = d.toSet ∪ {id} ×ˢ T := by
  ext ⟨i, w⟩
  by_cases hi : i = id
  · subst hi
    simp [h.versionSet_eq]
  · simp [h.versionsOf_ne i hi, hi]

/-- Nothing changes when the versions are there already. -/
theorem Extends.of_subset (hd : d.WF) (hT : T ⊆ versionSet (d.versionsOf id)) : Extends d d id T :=
  ⟨hd, fun _ _ => rfl, (Set.union_eq_left.mpr hT).symm⟩

theorem Extends.trans (h : Extends d d' id T) (h' : Extends d' d'' id T') :
    Extends d d'' id (T ∪ T') :=
  ⟨h'.wf, fun i hi => (h'.versionsOf_ne i hi).trans (h.versionsOf_ne i hi), by
    rw [h'.versionSet_eq, h.versionSet_eq, Set.union_assoc]⟩

/-- Replacing the group of an id by another of the same id. -/
theorem Extends.of_replace {pre post : List Group} {g g' : Group}
    (hnd : ((pre ++ g :: post).map Group.id).Nodup)
    (h : d.entries = (pre ++ g :: post).flatMap Group.entries) (hpre : g.id ∉ pre.map Group.id)
    (hpost : g.id ∉ post.map Group.id) (hid : g'.id = g.id)
    (h' : d'.entries = pre.flatMap Group.entries ++
      (g.id, g'.base) :: (g'.excs.map (g.id, ·) ++ post.flatMap Group.entries))
    (hT : versionSet g'.versions = versionSet g.versions ∪ T) : Extends d d' g.id T := by
  have h'' : d'.entries = (pre ++ g' :: post).flatMap Group.entries := by
    rw [h', flatMap_split, hid]
  have hmap : (pre ++ g' :: post).map Group.id = (pre ++ g :: post).map Group.id := by
    simp [hid]
  refine ⟨⟨_, hmap ▸ hnd, h''⟩, fun i hi => ?_, ?_⟩
  · obtain ⟨l⟩ := d
    obtain ⟨l'⟩ := d'
    simp only at h h''
    subst h h''
    have hi' : g'.id ≠ i := hid ▸ Ne.symm hi
    rw [versionsOf_flatMap, versionsOf_flatMap]
    simp [List.filter_append, hi', Ne.symm hi]
  · have hv' : d'.versionsOf g.id = g'.versions := by
      rw [← hid]
      exact versionsOf_split h'' (hid ▸ hpre) (hid ▸ hpost)
    rw [hv', versionsOf_split h hpre hpost, hT]

/-- Appending a group of an id the vector lacks. -/
theorem Extends.of_push {gs : List Group} {g : Group} (hnd : (gs.map Group.id).Nodup)
    (h : d.entries = gs.flatMap Group.entries) (hnew : g.id ∉ gs.map Group.id)
    (h' : d'.entries = d.entries ++ g.entries) (hT : versionSet g.versions = T) :
    Extends d d' g.id T := by
  have h'' : d'.entries = (gs ++ g :: []).flatMap Group.entries := by
    simp [h', h]
  have hnd' : ((gs ++ g :: []).map Group.id).Nodup := by
    rw [List.map_append]
    refine List.nodup_append.mpr ⟨hnd, List.nodup_singleton _, fun a ha b hb => ?_⟩
    rw [List.map_cons, List.map_nil, List.mem_singleton] at hb
    subst hb
    rintro rfl
    exact hnew ha
  refine ⟨⟨_, hnd', h''⟩, fun i hi => ?_, ?_⟩
  · obtain ⟨l⟩ := d
    obtain ⟨l'⟩ := d'
    simp only at h h''
    subst h h''
    rw [versionsOf_flatMap, versionsOf_flatMap]
    simp [List.filter_append, Ne.symm hi]
  · rw [versionsOf_split h'' hnew (by simp), versionsOf_of_not_mem h hnew, hT]
    simp

end Extends

/-- The versions of a group, from its base and exceptions. -/
theorem versionSet_versions (g : Group) : versionSet g.versions = Set.Icc 1 g.base ∪ {w | w ∈ g.excs} := by
  ext w
  rw [Group.mem_versionSet]
  constructor
  · rintro ⟨h1, hb | he⟩
    · exact .inl ⟨h1, hb⟩
    · exact .inr he
  · rintro (⟨h1, hb⟩ | he)
    · exact ⟨h1, .inl hb⟩
    · exact ⟨Nat.le_of_lt (Nat.lt_of_le_of_lt (Nat.le_add_left 1 g.base) (g.above w he)), .inr he⟩

/-- A group standing for what `g` does and `T` more, with `T` positive. -/
theorem versionSet_of_iff {g g' : Group} {T : Set Version} (hT : ∀ w ∈ T, 1 ≤ w)
    (h : ∀ w, 1 ≤ w → (w ≤ g'.base ∨ w ∈ g'.excs ↔ (w ≤ g.base ∨ w ∈ g.excs) ∨ w ∈ T)) :
    versionSet g'.versions = versionSet g.versions ∪ T := by
  ext w
  rw [Set.mem_union, Group.mem_versionSet, Group.mem_versionSet]
  by_cases h1 : 1 ≤ w
  · rw [h w h1]
    tauto
  · have hw : w ∉ T := fun hw => h1 (hT w hw)
    tauto

/-! ### `add_all`, `add` and `contains` -/

section Ops

variable {d : DeltaVersionVector} {id : NodeId} {v : Version}

theorem addAll_extends (hd : d.WF) (id : NodeId) (v : Version) :
    Extends d (d.addAll id v) id (Set.Icc 1 v) := by
  rcases hd.cases id with ⟨gs, hnd, h, hid⟩ | ⟨pre, g, post, rfl, hnd, h, hpre, hpost⟩
  · -- a new id: its group is the prefix `{1..v}`
    have hpos := basePos_of_not_mem h hid
    have hadd : (d.addAll id v).entries = d.entries ++ (⟨id, v, [], .nil, by simp⟩ : Group).entries := by
      simp [addAll, hpos, Group.entries, Group.versions]
    exact Extends.of_push hnd h hid hadd (by ext w; simp [Group.versions])
  · have hR := ne_of_mem_flatMap hpost
    obtain ⟨hsplit, hpos, hbase⟩ := locate h hpre
    by_cases hle : v ≤ g.base
    · -- the base covers `v` already
      have hsame : d.addAll g.id v = d := by
        simp only [addAll, hpos, hbase, ge_iff_le, hle, if_true]
      rw [hsame]
      refine Extends.of_subset ⟨_, hnd, h⟩ fun w hw => ?_
      rw [versionsOf_split h hpre hpost, Group.mem_versionSet]
      exact ⟨hw.1, .inl (hw.2.trans hle)⟩
    · -- drop the exceptions up to `v`, then absorb those continuing it
      obtain ⟨hs, hgt, hw⟩ := dropWhile_le_spec v g.sorted
      obtain ⟨g', hid', habs, hw'⟩ := absorb_map hR hs hgt
      refine Extends.of_replace hnd h hpre hpost hid' ?_ (versionSet_of_iff (fun w hw => hw.1) ?_)
      · simp only [addAll, hpos, hbase, ge_iff_le, hle, if_false, hsplit, drop_succ_split,
          skipCovered_map hR, habs, take_split]
      · intro w h1
        rw [hw' w, hw w, Set.mem_Icc]
        have hlt : g.base < v := Nat.lt_of_not_le hle
        constructor
        · rintro (h | h)
          · exact .inr ⟨h1, h⟩
          · exact .inl (.inr h)
        · rintro ((h | h) | h)
          · exact .inl (h.trans hlt.le)
          · exact .inr h
          · exact .inl h.2

theorem add_extends (hd : d.WF) (id : NodeId) (hv : v ≠ 0) :
    ∃ d', d.add id v = some d' ∧ Extends d d' id {v} := by
  have hv1 : ∀ w ∈ ({v} : Set Version), 1 ≤ w := fun w hw => hw ▸ Nat.one_le_iff_ne_zero.mpr hv
  rcases hd.cases id with ⟨gs, hnd, h, hid⟩ | ⟨pre, g, post, rfl, hnd, h, hpre, hpost⟩
  · -- a new id: the base `1`, or the base `0` and the exception `v`
    have hpos := basePos_of_not_mem h hid
    by_cases h1 : v = 1
    · subst h1
      have hadd : d.add id 1 = some ⟨d.entries ++ [(id, 1)]⟩ := by simp [add, hpos]
      refine ⟨_, hadd, Extends.of_push (g := ⟨id, 1, [], .nil, by simp⟩) hnd h hid
        (by simp [Group.entries, Group.versions]) ?_⟩
      ext w
      simp only [Group.versions, mem_versionSet_cons, List.not_mem_nil, or_false, Set.mem_singleton_iff]
      exact ⟨fun hw => Nat.le_antisymm hw.2 hw.1, fun hw => ⟨hw.ge, hw.le⟩⟩
    · have h2 : 0 + 1 < v := Nat.lt_of_le_of_ne (Nat.one_le_iff_ne_zero.mpr hv) (Ne.symm h1)
      have hadd : d.add id v = some ⟨d.entries ++ [(id, 0), (id, v)]⟩ := by simp [add, hv, hpos, h1]
      refine ⟨_, hadd,
        Extends.of_push (g := ⟨id, 0, [v], List.pairwise_singleton _ _, by simpa using h2⟩) hnd h hid
          (by simp [Group.entries, Group.versions]) ?_⟩
      ext w
      simp only [Group.versions, mem_versionSet_cons, List.mem_singleton, Set.mem_singleton_iff]
      constructor
      · rintro ⟨hw, hw0 | rfl⟩
        · exact absurd (Nat.le_zero.mp hw0 ▸ hw) (by decide)
        · rfl
      · rintro rfl
        exact ⟨hv1 _ rfl, .inr rfl⟩
  · have hR := ne_of_mem_flatMap hpost
    obtain ⟨hsplit, hpos, hbase⟩ := locate h hpre
    by_cases hle : v ≤ g.base
    · -- the base covers `v` already
      refine ⟨d, by simp only [add, hv, if_false, hpos, hbase, ge_iff_le, hle, if_true],
        Extends.of_subset ⟨_, hnd, h⟩ ?_⟩
      rw [Set.singleton_subset_iff, versionsOf_split h hpre hpost, Group.mem_versionSet]
      exact ⟨hv1 _ rfl, .inl hle⟩
    · by_cases hsucc : g.base + 1 = v
      · -- `v` continues the base: absorb the exceptions continuing it in turn
        obtain ⟨g', hid', habs, hw⟩ := absorb_map hR g.sorted (fun x hx => hsucc ▸ g.above x hx)
        have hadd : d.add g.id v = some ⟨pre.flatMap Group.entries ++
            (g.id, g'.base) :: (g'.excs.map (g.id, ·) ++ post.flatMap Group.entries)⟩ := by
          simp only [add, hv, if_false, hpos, hbase, ge_iff_le, hle, hsucc, if_true, hsplit,
            drop_succ_split, habs, take_split]
        refine ⟨_, hadd, Extends.of_replace hnd h hpre hpost hid' rfl (versionSet_of_iff hv1 fun w _ => ?_)⟩
        rw [hw w, ← hsucc, Set.mem_singleton_iff, Nat.le_add_one_iff]
        tauto
      · -- `v` goes among the exceptions, unless it is one
        have hlt : g.base + 1 < v := Nat.lt_of_le_of_ne (Nat.lt_of_not_le hle) hsucc
        rcases insertScan_map hR v g.sorted with ⟨hmem, hnone⟩ | ⟨ys, hys, hsorted, hmem⟩
        · refine ⟨d, by simp only [add, hv, if_false, hpos, hbase, ge_iff_le, hle, hsucc, hsplit,
            drop_succ_split, hnone], Extends.of_subset ⟨_, hnd, h⟩ ?_⟩
          rw [Set.singleton_subset_iff, versionsOf_split h hpre hpost, Group.mem_versionSet]
          exact ⟨hv1 _ rfl, .inr hmem⟩
        · have habove : ∀ y ∈ ys, g.base + 1 < y := fun y hy => by
            rcases (hmem y).mp hy with rfl | hy
            · exact hlt
            · exact g.above y hy
          have hadd : d.add g.id v = some ⟨pre.flatMap Group.entries ++
              (g.id, g.base) :: (ys.map (g.id, ·) ++ post.flatMap Group.entries)⟩ := by
            simp only [add, hv, if_false, hpos, hbase, ge_iff_le, hle, hsucc, hsplit, drop_succ_split,
              hys, take_succ_split, List.append_assoc, List.singleton_append]
          have hid' : (⟨g.id, g.base, ys, hsorted, habove⟩ : Group).id = g.id := rfl
          refine ⟨_, hadd, Extends.of_replace hnd h hpre hpost hid' rfl (versionSet_of_iff hv1 fun w _ => ?_)⟩
          show w ≤ g.base ∨ w ∈ ys ↔ (w ≤ g.base ∨ w ∈ g.excs) ∨ w ∈ ({v} : Set Version)
          rw [hmem w, Set.mem_singleton_iff]
          tauto

/-- On a well-formed vector and a positive version, `contains` answers whether
the id has a base at most the version. -/
theorem contains_eq (hd : d.WF) (id : NodeId) (hv : v ≠ 0) :
    d.contains id v = some ((d.baseOf id).any fun b => decide (b ≤ v)) := by
  rcases hd.cases id with ⟨gs, hnd, h, hid⟩ | ⟨pre, g, post, rfl, hnd, h, hpre, hpost⟩
  · simp [contains, hv, basePos_of_not_mem h hid, baseOf, versionsOf_of_not_mem h hid]
  · obtain ⟨hsplit, hpos, hbase⟩ := locate h hpre
    have hb : d.baseOf g.id = some g.base := by
      simp [baseOf, versionsOf_split h hpre hpost, Group.versions]
    by_cases hle : g.base ≤ v
    · simp only [contains, hv, if_false, hpos, hbase, hle, if_true, hb, Option.any_some, decide_true]
    · -- every exception lies above the base, so above `v`
      have hnot : v ∉ g.excs := fun hm => hle (Nat.le_of_lt (Nat.lt_of_succ_lt (g.above v hm)))
      simp only [contains, hv, if_false, hpos, hbase, hle, hb, Option.any_some, hsplit,
        drop_succ_split, containsScan_map (ne_of_mem_flatMap hpost), hnot, decide_false]

/-! ### `merge` -/

/-- Inside a group of the other vector, the loop of `merge` adds its
exceptions one by one. -/
theorem mergeLoop_excs {R : List (NodeId × Version)} (hR : ∀ e ∈ R, e.1 ≠ id) :
    ∀ {xs : List Version}, (∀ x ∈ xs, x ≠ 0) → ∀ {d : DeltaVersionVector}, d.WF →
      ∃ d', mergeLoop d (some id) (xs.map (id, ·) ++ R) = mergeLoop d' (some id) R ∧
        Extends d d' id {w | w ∈ xs}
  | [], _, d, hd => ⟨d, rfl, Extends.of_subset hd fun _ hw => (List.not_mem_nil hw).elim⟩
  | x :: xs, hxs, d, hd => by
    obtain ⟨d₁, hadd, h₁⟩ := add_extends hd id (hxs x List.mem_cons_self)
    obtain ⟨d₂, hloop, h₂⟩ :=
      mergeLoop_excs hR (fun y hy => hxs y (List.mem_cons_of_mem _ hy)) h₁.wf
    have hT : ({x} ∪ {w | w ∈ xs} : Set Version) = {w | w ∈ x :: xs} := by
      ext w
      simp
    refine ⟨d₂, ?_, hT ▸ h₁.trans h₂⟩
    simp [mergeLoop, hadd, hloop]

/-- Over whole groups of distinct ids, the loop of `merge` adds the dots of
each: `add_all` of the base, then `add` of each exception. -/
theorem mergeLoop_groups : ∀ {gs : List Group}, (gs.map Group.id).Nodup →
    ∀ {d : DeltaVersionVector} (cur : Option NodeId), d.WF →
      (∀ i, cur = some i → i ∉ gs.map Group.id) →
      ∃ d', mergeLoop d cur (gs.flatMap Group.entries) = some d' ∧ d'.WF ∧
        ∀ x, x ∈ d'.toSet ↔ x ∈ d.toSet ∨ ∃ g ∈ gs, g.id = x.1 ∧ x.2 ∈ versionSet g.versions
  | [], _, d, _, hd, _ => ⟨d, rfl, hd, by simp⟩
  | g :: gs, hnd, d, cur, hd, hcur => by
    rw [List.map_cons, List.nodup_cons] at hnd
    have hne : cur ≠ some g.id := fun h => hcur g.id h List.mem_cons_self
    -- the group's base, then its exceptions, then the groups after it
    have h₁ := addAll_extends hd g.id g.base
    obtain ⟨d₂, hloop, h₂⟩ := mergeLoop_excs (ne_of_mem_flatMap hnd.1)
      (fun x hx => Nat.ne_zero_of_lt (g.above x hx)) h₁.wf
    obtain ⟨d', hrest, hwf, hmem⟩ := mergeLoop_groups hnd.2 (some g.id) h₂.wf
      fun i hi => Option.some_inj.mp hi ▸ hnd.1
    refine ⟨d', ?_, hwf, fun x => ?_⟩
    · rw [List.flatMap_cons, Group.entries, Group.versions, List.map_cons, List.cons_append, mergeLoop,
        if_neg hne, hloop, hrest]
    · rw [hmem x, (h₁.trans h₂).toSet_eq, ← versionSet_versions]
      obtain ⟨i, w⟩ := x
      simp only [Set.mem_union, Set.mem_prod, Set.mem_singleton_iff, List.exists_mem_cons_iff]
      constructor
      · rintro ((h | ⟨rfl, h⟩) | h)
        · exact .inl h
        · exact .inr (.inl ⟨rfl, h⟩)
        · exact .inr (.inr h)
      · rintro (h | ⟨rfl, h⟩ | h)
        · exact .inl (.inl h)
        · exact .inl (.inr ⟨rfl, h⟩)
        · exact .inr h

/-- On well-formed vectors, `merge` is the union of the dots. -/
theorem merge_extends {d other : DeltaVersionVector} (hd : d.WF) (ho : other.WF) :
    ∃ d', d.merge other = some d' ∧ d'.WF ∧ d'.toSet = d.toSet ∪ other.toSet := by
  obtain ⟨gs, hnd, h⟩ := ho
  obtain ⟨d', hloop, hwf, hmem⟩ :=
    mergeLoop_groups hnd none hd fun _ hi => by cases hi
  refine ⟨d', by rw [merge, h, hloop], hwf, Set.ext fun x => ?_⟩
  obtain ⟨i, w⟩ := x
  rw [hmem, Set.mem_union, mem_toSet_iff hnd h]

/-! ### `contained` -/

/-- Inside a group, the loop of `contained` checks each exception against the
group's clock. -/
theorem containedLoop_excs (bvv : BitmappedVersionVector) {bv : BitmappedVersion}
    (R : List (NodeId × Version)) :
    ∀ xs : List Version, containedLoop bvv (some (id, bv)) (xs.map (id, ·) ++ R) =
      (xs.all bv.contains && containedLoop bvv (some (id, bv)) R)
  | [] => rfl
  | x :: xs => by
    simp [containedLoop, Option.filter, containedLoop_excs bvv R xs, Bool.and_assoc]

/-- Over whole groups of distinct ids, `contained` asks of each group a clock
of its id that holds the base in full and each exception. -/
theorem containedLoop_groups (bvv : BitmappedVersionVector) : ∀ {gs : List Group},
    (gs.map Group.id).Nodup → ∀ (cur : Option (NodeId × BitmappedVersion)),
      (∀ c, cur = some c → c.1 ∉ gs.map Group.id) →
      (containedLoop bvv cur (gs.flatMap Group.entries) = true ↔
        ∀ g ∈ gs, ∃ bv, bvv.get? g.id = some bv ∧ bv.containsAll g.base = true ∧
          ∀ e ∈ g.excs, bv.contains e = true)
  | [], _, cur, _ => by simp [containedLoop]
  | g :: gs, hnd, cur, hcur => by
    rw [List.map_cons, List.nodup_cons] at hnd
    -- the entry of `g.base` opens a group: it is not the id of the current one
    have hfilter : cur.filter (·.1 == g.id) = none := by
      cases cur with
      | none => rfl
      | some c =>
        have hc : c.1 ≠ g.id := fun h => hcur c rfl (h ▸ List.mem_cons_self)
        simp [Option.filter, hc]
    rw [List.flatMap_cons, Group.entries, Group.versions, List.map_cons, List.cons_append]
    simp only [containedLoop, hfilter, List.forall_mem_cons]
    rcases hget : bvv.get? g.id with _ | bv
    · simp
    · have hrest := containedLoop_groups bvv hnd.2 (some (g.id, bv))
        fun c hc => Option.some_inj.mp hc ▸ hnd.1
      dsimp only
      rw [containedLoop_excs]
      simp [hrest, List.all_eq_true, and_assoc]

/-- What `contained` asks of one group: a clock of its id holding the group's
dots. -/
theorem group_contained_iff {bvv : BitmappedVersionVector} (hbvv : bvv.Normalized) (g : Group) :
    (∃ bv, bvv.get? g.id = some bv ∧ bv.containsAll g.base = true ∧ ∀ e ∈ g.excs, bv.contains e = true) ↔
      (∀ w ∈ versionSet g.versions, (g.id, w) ∈ bvv.toSet) ∧ (bvv.get? g.id).isSome := by
  have hpos : ∀ e ∈ g.excs, 0 < e := fun e he => Nat.zero_lt_of_lt (g.above e he)
  constructor
  · rintro ⟨bv, hget, hall, hexc⟩
    have hn : bv.Normalized := by simpa [hget] using hbvv.getD g.id
    refine ⟨fun w hw => ?_, by simp [hget]⟩
    rw [BitmappedVersionVector.mem_toSet, hget, Option.getD_some]
    rw [versionSet_versions] at hw
    rcases hw with hw | hw
    · exact (BitmappedVersion.containsAll_iff hn).mp hall hw
    · exact (BitmappedVersion.mem_toSet_iff_contains (hpos w hw)).mpr (hexc w hw)
  · rintro ⟨hsub, hsome⟩
    obtain ⟨bv, hget⟩ := Option.isSome_iff_exists.mp hsome
    have hn : bv.Normalized := by simpa [hget] using hbvv.getD g.id
    have hsub' : ∀ w ∈ versionSet g.versions, w ∈ bv.toSet := fun w hw => by
      simpa [hget] using hsub w hw
    refine ⟨bv, hget, (BitmappedVersion.containsAll_iff hn).mpr fun w hw => ?_, fun e he => ?_⟩
    · exact hsub' w (by rw [versionSet_versions]; exact .inl hw)
    · exact (BitmappedVersion.mem_toSet_iff_contains (hpos e he)).mp
        (hsub' e (by rw [versionSet_versions]; exact .inr he))

/-- On a well-formed vector and a normalized clock, `contained` holds when the
clock holds every dot and has a clock for every id of the vector. -/
theorem contained_iff {d : DeltaVersionVector} {bvv : BitmappedVersionVector} (hd : d.WF)
    (hbvv : bvv.Normalized) :
    d.contained bvv = true ↔ d.toSet ⊆ bvv.toSet ∧ ∀ e ∈ d.entries, (bvv.get? e.1).isSome := by
  obtain ⟨gs, hnd, h⟩ := hd
  rw [contained, h, containedLoop_groups bvv hnd none fun _ hc => by cases hc]
  simp only [group_contained_iff hbvv]
  have hsub : d.toSet ⊆ bvv.toSet ↔ ∀ g ∈ gs, ∀ w ∈ versionSet g.versions, (g.id, w) ∈ bvv.toSet := by
    constructor
    · exact fun hs g hg w hw => hs ((mem_toSet_iff hnd h).mpr ⟨g, hg, rfl, hw⟩)
    · rintro hs ⟨i, w⟩ hx
      obtain ⟨g, hg, rfl, hw⟩ := (mem_toSet_iff hnd h).mp hx
      exact hs g hg w hw
  have hsome : (∀ e ∈ gs.flatMap Group.entries, (bvv.get? e.1).isSome) ↔
      ∀ g ∈ gs, (bvv.get? g.id).isSome := by
    constructor
    · exact fun hs g hg => hs (g.id, g.base) (List.mem_flatMap.mpr ⟨g, hg, List.mem_cons_self⟩)
    · intro hs e he
      obtain ⟨g, hg, he⟩ := List.mem_flatMap.mp he
      obtain ⟨w, -, rfl⟩ := List.mem_map.mp he
      exact hs g hg
  rw [hsub, hsome]
  exact ⟨fun hs => ⟨fun g hg => (hs g hg).1, fun g hg => (hs g hg).2⟩,
    fun hs g hg => ⟨hs.1 g hg, hs.2 g hg⟩⟩

end Ops

/-! ## The operations against the set of dots -/

/-- On well-formed vectors and a positive version, `add`, `add_all` and
`merge` keep the vector well formed and add the dots they are named after,
and `contained` is the inclusion of the dots in a normalized clock that has a
clock for each id of the vector. `contains` answers instead whether the id has
a base at most the version, the test the source writes as `base <= version`:
every version below the base is a dot that it does not find. -/
theorem delta_contains_tests_base_reversed {d other : DeltaVersionVector}
    {bvv : BitmappedVersionVector} (hd : d.WF) (ho : other.WF) (hbvv : bvv.Normalized) (id : NodeId)
    {v : Version} (hv : 1 ≤ v) :
    (∃ d', d.add id v = some d' ∧ d'.WF ∧ d'.toSet = d.toSet ∪ {(id, v)}) ∧
      ((d.addAll id v).WF ∧ (d.addAll id v).toSet = d.toSet ∪ {id} ×ˢ Set.Icc 1 v) ∧
      (∃ d', d.merge other = some d' ∧ d'.WF ∧ d'.toSet = d.toSet ∪ other.toSet) ∧
      (d.contained bvv = true ↔ d.toSet ⊆ bvv.toSet ∧ ∀ e ∈ d.entries, (bvv.get? e.1).isSome) ∧
      d.contains id v = some ((d.baseOf id).any fun b => decide (b ≤ v)) ∧
      ∀ b, d.baseOf id = some b → v < b → (id, v) ∈ d.toSet ∧ d.contains id v = some false := by
  have hv0 : v ≠ 0 := Nat.one_le_iff_ne_zero.mp hv
  have hadd : ∃ d', d.add id v = some d' ∧ d'.WF ∧ d'.toSet = d.toSet ∪ {(id, v)} := by
    obtain ⟨d', hd', hext⟩ := add_extends hd id hv0
    exact ⟨d', hd', hext.wf, by rw [hext.toSet_eq, Set.singleton_prod_singleton]⟩
  have hall := addAll_extends hd id v
  refine ⟨hadd, ⟨hall.wf, hall.toSet_eq⟩, merge_extends hd ho, contained_iff hd hbvv,
    contains_eq hd id hv0, fun b hb hlt => ⟨mem_toSet_of_le_base hb hv hlt.le, ?_⟩⟩
  rw [contains_eq hd id hv0, hb, Option.any_some, decide_eq_false (Nat.not_le.mpr hlt)]

/-- The vector `[(1, 2)]`: the dot `(1, 1)` is below the base, and `contains`
misses it. -/
theorem delta_contains_misses_below_base :
    (⟨[(1, 2)]⟩ : DeltaVersionVector).WF ∧ (1, 1) ∈ (⟨[(1, 2)]⟩ : DeltaVersionVector).toSet ∧
      (⟨[(1, 2)]⟩ : DeltaVersionVector).contains 1 1 = some false := by
  have hwf : (⟨[(1, 2)]⟩ : DeltaVersionVector).WF :=
    ⟨[⟨1, 2, [], .nil, by simp⟩], by decide, rfl⟩
  have h := delta_contains_tests_base_reversed hwf hwf
    (show BitmappedVersionVector.new.Normalized from VecMap.allValues_empty) 1 (le_refl 1)
  exact ⟨hwf, h.2.2.2.2.2 2 rfl (by decide)⟩

end DeltaVersionVector

end Sucredb
