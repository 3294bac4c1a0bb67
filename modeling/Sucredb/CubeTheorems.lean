/-
Sucredb.CubeTheorems — which dots a cube can report, and what `Cube::merge`
does to observed-remove cubes.

§1 `Cube.dots` is what `for_each_dot` reports (nothing for `Void`). A merge
reports only dots of its two sides (`mem_dots_merge`), and a write reports
only dots of the cube it started from and its own fresh dot
(`mem_dots_mutatorFn`). These two facts are all the replication invariants
need to know about cubes: every dot a cube reports names a write on the key
the cube is stored under.

§2 `CausalMap::merge` keeps a key only `self` has without looking at `other`'s
context. A member one side still holds and the other side removed (its dot
covered by the remover's context) therefore survives `self.merge(other)` and is
dropped by `other.merge(self)` (`mem_keys_merge_of_left_only`,
`not_mem_keys_merge_of_covered`): an SREM's cube and the cube it read merge
differently in the two orders (`merge_remove_not_comm`), and a replica, which
merges in the first order, keeps the member the SREM removed.

§3 `Cube.visible` is what the read commands show of a cube: GET's live
siblings, SMEMBERS's members, HGETALL's fields with their values and CGET's
count, as sets where the source lists a map in its own order, without the
causal contexts. Two cubes with the same `visible` answer every read alike, up
to list order and the encoded context GET appends.
-/
import Sucredb.Command.Mutators

namespace Sucredb

namespace Cube

/-- The dots `for_each_dot` reports; none for `Void`. -/
def dots (c : Cube) : List Dot := c.forEachDot.getD []

@[simp] theorem dots_counter (a : Cubes.Counter) :
    (Cube.counter a).dots = a.values.entries.map (fun e => (e.1, e.2.1)) := rfl

@[simp] theorem dots_value (a : Cubes.Value) : (Cube.value a).dots = a.values.dots := rfl

@[simp] theorem dots_map (a : Cubes.Map) : (Cube.map a).dots = a.dots.iter := rfl

@[simp] theorem dots_set (a : Cubes.Set) : (Cube.set a).dots = a.dots.iter := rfl

@[simp] theorem dots_void (vv : VersionVector) : (Cube.void vv).dots = [] := rfl

@[simp] theorem dots_new (bvv : BitmappedVersionVector) : (Cube.new bvv).dots = [] := rfl

/-- Off `Void`, `for_each_dot` returns its dots. -/
theorem forEachDot_of_ne_void {c : Cube} (h : ∀ vv, c ≠ .void vv) :
    c.forEachDot = some c.dots := by
  cases c with
  | void vv => exact absurd rfl (h vv)
  | _ => rfl

end Cube

/-! ## §1 Dots of merges and writes -/

namespace Cubes

theorem Counter.mem_values_merge {a b : Counter} {e : NodeId × Version × Int}
    (he : e ∈ (a.merge b).values.entries) : e ∈ a.values.entries ∨ e ∈ b.values.entries := by
  unfold Counter.merge at he
  generalize a.values = m at he ⊢
  generalize b.values.entries = l at he ⊢
  induction l generalizing m with
  | nil => exact Or.inl he
  | cons x l ih =>
    rcases ih _ he with h | h
    · dsimp only at h
      split at h
      · split at h
        · rcases VecMap.mem_entries_insert h with h' | rfl
          · exact Or.inl h'
          · exact Or.inr (List.mem_cons_self ..)
        · exact Or.inl h
      · rcases VecMap.mem_entries_insert h with h' | rfl
        · exact Or.inl h'
        · exact Or.inr (List.mem_cons_self ..)
    · exact Or.inr (List.mem_cons_of_mem _ h)

theorem Counter.mem_values_inc {a : Counter} {node : NodeId} {version : Version} {by_ : Int}
    {e : NodeId × Version × Int} (he : e ∈ (a.inc node version by_).values.entries) :
    e ∈ a.values.entries ∨ e.1 = node ∧ e.2.1 = version := by
  rcases VecMap.mem_entries_insert he with h | rfl
  · exact Or.inl h
  · exact Or.inr ⟨rfl, rfl⟩

end Cubes

theorem DotMap.mem_dots_merge {T : Type} {a b : DotMap T} {s o : Context} {d : Dot}
    (hd : d ∈ (a.merge b s o).dots) : d ∈ a.dots ∨ d ∈ b.dots := by
  unfold DotMap.merge DotMap.dots at hd
  rcases VecMap.mem_keys_foldl_insert _ _ hd with h | ⟨e, he, rfl, -⟩
  · exact Or.inl (VecMap.mem_keys_retain h)
  · exact Or.inr (VecMap.mem_keys_retain (List.mem_map.mpr ⟨e, he, rfl⟩))

theorem DotMap.mem_dots_insert {T : Type} {a : DotMap T} {id : NodeId} {version : Version}
    {value : T} {d : Dot} (hd : d ∈ (a.insert id version value).dots) :
    d ∈ a.dots ∨ d = (id, version) :=
  VecMap.mem_keys_insert_of_mem hd

theorem DotMap.mem_dots_discard {T : Type} {a : DotMap T} {vv : VersionVector} {d : Dot}
    (hd : d ∈ (a.discard vv).dots) : d ∈ a.dots :=
  VecMap.mem_keys_retain hd

namespace Cube

open Cubes

theorem mem_dots_mergeVoid {vv : VersionVector} {a : Cube} {d : Dot}
    (hd : d ∈ (mergeVoid vv a).dots) : d ∈ a.dots := by
  cases a with
  | counter a =>
    simp only [mergeVoid, dots_counter, List.mem_map] at hd ⊢
    obtain ⟨e, he, rfl⟩ := hd
    rcases Counter.mem_values_merge he with h | h
    · exact ⟨e, h, rfl⟩
    · simp [Counter.with_, VecMap.empty] at h
  | value a =>
    rcases DotMap.mem_dots_merge hd with h | h
    · exact h
    · simp [Value.with_, DotMap.new, DotMap.dots, VecMap.empty, VecMap.keys] at h
  | map a =>
    rcases VersionVector.mem_iter_merge hd with h | h
    · exact h
    · simp [Map.with_, VersionVector.new, VersionVector.iter, VecMap.empty] at h
  | set a =>
    rcases VersionVector.mem_iter_merge hd with h | h
    · exact h
    · simp [Set.with_, VersionVector.new, VersionVector.iter, VecMap.empty] at h
  | void _ => simp [mergeVoid] at hd

/-- A merged cube reports only dots of its two sides. The cases follow the
arms of `Cube::merge`. -/
theorem mem_dots_merge {d : Dot} : ∀ {a b : Cube}, d ∈ (a.merge b).dots →
    d ∈ a.dots ∨ d ∈ b.dots
  | .counter a, .counter b, hd => by
    simp only [merge, dots_counter, List.mem_map] at hd ⊢
    obtain ⟨e, he, rfl⟩ := hd
    rcases Counter.mem_values_merge he with h | h
    · exact Or.inl ⟨e, h, rfl⟩
    · exact Or.inr ⟨e, h, rfl⟩
  | .value _, .value _, hd => DotMap.mem_dots_merge hd
  | .map _, .map _, hd => VersionVector.mem_iter_merge hd
  | .set _, .set _, hd => VersionVector.mem_iter_merge hd
  | .void _, _, hd => Or.inr (mem_dots_mergeVoid hd)
  | .counter _, .void _, hd => Or.inl (mem_dots_mergeVoid hd)
  | .value _, .void _, hd => Or.inl (mem_dots_mergeVoid hd)
  | .map _, .void _, hd => Or.inl (mem_dots_mergeVoid hd)
  | .set _, .void _, hd => Or.inl (mem_dots_mergeVoid hd)
  | .counter _, .value _, hd => Or.inl hd
  | .counter _, .map _, hd => Or.inl hd
  | .counter _, .set _, hd => Or.inl hd
  | .value _, .counter _, hd => Or.inr hd
  | .map _, .counter _, hd => Or.inr hd
  | .set _, .counter _, hd => Or.inr hd
  | .value _, .map _, hd => Or.inl hd
  | .value _, .set _, hd => Or.inl hd
  | .map _, .value _, hd => Or.inr hd
  | .set _, .value _, hd => Or.inr hd
  | .map _, .set _, hd => Or.inl hd
  | .set _, .map _, hd => Or.inr hd

end Cube

/-! The kind conversions of the mutators keep the dots of the cube they read,
and add none to a `Void`. -/

theorem mem_dots_of_intoValue {c : Cube} {a : Cubes.Value} (h : c.intoValue = some a)
    {d : Dot} (hd : d ∈ a.values.dots) : d ∈ c.dots := by
  cases c <;> simp only [Cube.intoValue, Option.some.injEq, reduceCtorEq] at h
  · subst h; exact hd
  · subst h; simp [Cubes.Value.with_, DotMap.new, DotMap.dots, VecMap.empty, VecMap.keys] at hd

theorem mem_dots_of_intoCounter {c : Cube} {a : Cubes.Counter} (h : c.intoCounter = some a)
    {e : NodeId × Version × Int} (he : e ∈ a.values.entries) : (e.1, e.2.1) ∈ c.dots := by
  cases c <;> simp only [Cube.intoCounter, Option.some.injEq, reduceCtorEq] at h
  · subst h; exact List.mem_map.mpr ⟨e, he, rfl⟩
  · subst h; simp [Cubes.Counter.with_, VecMap.empty] at he

theorem mem_dots_of_intoMap {c : Cube} {a : Cubes.Map} (h : c.intoMap = some a)
    {d : Dot} (hd : d ∈ a.dots.iter) : d ∈ c.dots := by
  cases c <;> simp only [Cube.intoMap, Option.some.injEq, reduceCtorEq] at h
  · subst h; exact hd
  · subst h; simp [Cubes.Map.with_, VersionVector.new, VersionVector.iter, VecMap.empty] at hd

theorem mem_dots_of_intoSet {c : Cube} {a : Cubes.Set} (h : c.intoSet = some a)
    {d : Dot} (hd : d ∈ a.dots.iter) : d ∈ c.dots := by
  cases c <;> simp only [Cube.intoSet, Option.some.injEq, reduceCtorEq] at h
  · subst h; exact hd
  · subst h; simp [Cubes.Set.with_, VersionVector.new, VersionVector.iter, VecMap.empty] at hd

section Mutators

variable {i : NodeId} {v : Version} {old c : Cube} {r : Option RespValue} {d : Dot}

theorem mem_dots_setMutator {value : Bytes} {vv : VersionVector} {rr : Bool}
    (h : setMutator value vv rr i v old = .ok (c, r)) (hd : d ∈ c.dots) :
    d ∈ old.dots ∨ d = (i, v) := by
  unfold setMutator at h
  split at h
  · cases h
  · rename_i a ha
    cases h
    rcases DotMap.mem_dots_insert hd with h' | h'
    · exact Or.inl (mem_dots_of_intoValue ha (DotMap.mem_dots_discard h'))
    · exact Or.inr h'

theorem mem_dots_delMutator {vv : VersionVector} (h : delMutator vv i v old = .ok (c, r))
    (hd : d ∈ c.dots) : d ∈ old.dots ∨ d = (i, v) := by
  unfold delMutator at h
  cases h
  cases old with
  | counter a => simp [Cube.del, Cubes.Counter.clear, VecMap.empty] at hd
  | value a =>
    rcases DotMap.mem_dots_insert hd with h' | h'
    · exact Or.inl (DotMap.mem_dots_discard h')
    · exact Or.inr h'
  | map a => exact VersionVector.mem_iter_add hd
  | set a => exact VersionVector.mem_iter_add hd
  | void _ => simp [Cube.del] at hd

theorem mem_dots_csetMutator {value : Int} (h : csetMutator value i v old = .ok (c, r))
    (hd : d ∈ c.dots) : d = (i, v) := by
  unfold csetMutator at h
  split at h
  · cases h
  · cases h
    simp only [Cube.dots_counter, List.mem_map] at hd
    obtain ⟨e, he, rfl⟩ := hd
    rcases Cubes.Counter.mem_values_inc he with h' | ⟨h1, h2⟩
    · simp [Cubes.Counter.clear, VecMap.empty] at h'
    · rw [h1, h2]

theorem mem_dots_incrbyMutator {inc : Int} (h : incrbyMutator inc i v old = .ok (c, r))
    (hd : d ∈ c.dots) : d ∈ old.dots ∨ d = (i, v) := by
  unfold incrbyMutator at h
  split at h
  · cases h
  · rename_i a ha
    cases h
    simp only [Cube.dots_counter, List.mem_map] at hd
    obtain ⟨e, he, rfl⟩ := hd
    rcases Cubes.Counter.mem_values_inc he with h' | ⟨h1, h2⟩
    · exact Or.inl (mem_dots_of_intoCounter ha h')
    · exact Or.inr (by rw [h1, h2])

theorem mem_dots_hsetMutator {k val : Bytes} {ts : ℕ}
    (h : hsetMutator k val ts i v old = .ok (c, r)) (hd : d ∈ c.dots) :
    d ∈ old.dots ∨ d = (i, v) := by
  unfold hsetMutator at h
  split at h
  · cases h
  · rename_i a ha
    cases h
    rcases VersionVector.mem_iter_add hd with h' | h'
    · exact Or.inl (mem_dots_of_intoMap ha h')
    · exact Or.inr h'

theorem mem_dots_hdelMutator {k : Bytes} (h : hdelMutator k i v old = .ok (c, r))
    (hd : d ∈ c.dots) : d ∈ old.dots ∨ d = (i, v) := by
  unfold hdelMutator at h
  split at h
  · cases h
  · rename_i a ha
    cases h
    rcases VersionVector.mem_iter_add hd with h' | h'
    · exact Or.inl (mem_dots_of_intoMap ha h')
    · exact Or.inr h'

theorem mem_dots_saddMutator {x : Bytes} (h : saddMutator x i v old = .ok (c, r))
    (hd : d ∈ c.dots) : d ∈ old.dots ∨ d = (i, v) := by
  unfold saddMutator at h
  split at h
  · cases h
  · rename_i a ha
    cases h
    rcases VersionVector.mem_iter_add hd with h' | h'
    · exact Or.inl (mem_dots_of_intoSet ha h')
    · exact Or.inr h'

theorem mem_dots_sremMutator {x : Bytes} (h : sremMutator x i v old = .ok (c, r))
    (hd : d ∈ c.dots) : d ∈ old.dots ∨ d = (i, v) := by
  unfold sremMutator at h
  split at h
  · cases h
  · rename_i a ha
    cases h
    rcases VersionVector.mem_iter_add hd with h' | h'
    · exact Or.inl (mem_dots_of_intoSet ha h')
    · exact Or.inr h'

/-- A write reports only the dots of the cube it read and its own dot. -/
theorem mem_dots_mutatorFn {cmd : WriteCmd} (h : cmd.mutatorFn i v old = .ok (c, r))
    (hd : d ∈ c.dots) : d ∈ old.dots ∨ d = (i, v) := by
  cases cmd with
  | set value vv => exact mem_dots_setMutator h hd
  | getset value vv => exact mem_dots_setMutator h hd
  | del vv => exact mem_dots_delMutator h hd
  | cset value => exact Or.inr (mem_dots_csetMutator h hd)
  | incrby inc => exact mem_dots_incrbyMutator h hd
  | hset k val ts => exact mem_dots_hsetMutator h hd
  | hdel k => exact mem_dots_hdelMutator h hd
  | sadd x => exact mem_dots_saddMutator h hd
  | srem x => exact mem_dots_sremMutator h hd

end Mutators

/-! ## §2 One-sided keys of `CausalMap::merge` -/

namespace CausalMap

variable {K V : Type} [DecidableEq K] [CausalValue V] {self other : CausalMap K V}
  {sVV oVV : Context} {k : K}

/-- A key only `self` has keeps its value, whatever `other`'s context covers. -/
theorem get?_merge_of_left_only (hk : other.map.get? k = none) :
    (self.merge other sVV oVV).map.get? k = self.map.get? k := by
  unfold merge
  rw [VecMap.get?_foldl_insert_of_forall]
  · simp only [VecMap.get?_retain, VecMap.get?_mapValues, hk]
    cases self.map.get? k <;> rfl
  · -- the fold only inserts keys of `other`
    rintro e he - rfl
    have hget := (other.map.get?_eq_some_iff).mpr (VecMap.mem_entries_retain he).1
    simp [hk] at hget

/-- A key only `other` has is dropped when its value, filtered by `self`'s
context, is empty. -/
theorem not_mem_keys_merge_of_right_only {ov : V} (hs : k ∉ self.map.keys)
    (ho : other.map.get? k = some ov)
    (he : CausalValue.isEmpty (CausalValue.merge ov (default : V) oVV sVV) = true) :
    k ∉ (self.merge other sVV oVV).map.keys := by
  intro hk
  unfold merge at hk
  rcases VecMap.mem_keys_foldl_insert _ _ hk with h | ⟨e, he', rfl, hc⟩
  · exact hs (by simpa using VecMap.mem_keys_retain h)
  · have hget := (other.map.get?_eq_some_iff).mpr (VecMap.mem_entries_retain he').1
    obtain rfl : ov = e.2 := Option.some.inj (ho.symm.trans hget)
    simp [he] at hc

end CausalMap

/-- Merged with nothing, a dot set keeps only the dots the other context does
not cover. -/
theorem DotSet.isEmpty_merge_new {s : DotSet} {sVV oVV : Context}
    (h : ∀ d ∈ s.dots, oVV d.1 d.2 = true) : (s.merge .new sVV oVV).set.isEmpty = true := by
  -- `new` adds nothing, so the merge is the filter of `s` alone
  have hrest : (DotSet.new.set.retain (fun d _ => !s.set.contains d)).keys = [] := rfl
  simp only [DotSet.merge]
  rw [hrest, List.foldl_nil]
  simp only [VecMap.isEmpty, VecMap.retain, List.isEmpty_iff, List.filter_eq_nil_iff]
  intro e he
  have hcov : oVV e.1.1 e.1.2 = true := h e.1 (List.mem_map_of_mem he)
  simp [hcov, DotSet.new, VecMap.empty, VecMap.contains, VecMap.keys]

namespace Cubes.Set

variable {a b : Set} {i : NodeId} {v : Version} {x : Bytes}

/-- Every dot a member holds is in the set's causal context. -/
def Covered (a : Set) : Prop :=
  ∀ e ∈ a.values.map.entries, ∀ d ∈ e.2.dots, a.vv.contains d.1 d.2 = true

instance (a : Set) : Decidable a.Covered := inferInstanceAs (Decidable (∀ _ ∈ _, _))

/-- A member only `a` holds survives `a.merge(b)`, whatever `b`'s context covers. -/
theorem mem_keys_merge_of_left_only (ha : x ∈ a.values.map.keys)
    (hb : x ∉ b.values.map.keys) : x ∈ (a.merge b).values.map.keys := by
  obtain ⟨D, hD⟩ := (a.values.map.mem_keys_iff).mp ha
  refine (VecMap.mem_keys_iff _).mpr ⟨D, ?_⟩
  rw [← hD]
  exact CausalMap.get?_merge_of_left_only ((VecMap.get?_eq_none_iff _).mpr hb)

/-- A member only `a` holds, all of whose dots `b`'s context covers, is dropped
by `b.merge(a)`. -/
theorem not_mem_keys_merge_of_covered {D : DotSet} (ha : a.values.map.get? x = some D)
    (hb : x ∉ b.values.map.keys) (hcov : ∀ d ∈ D.dots, b.vv.contains d.1 d.2 = true) :
    x ∉ (b.merge a).values.map.keys :=
  CausalMap.not_mem_keys_merge_of_right_only hb ha (DotSet.isEmpty_merge_new hcov)

theorem not_mem_keys_remove : x ∉ (a.remove i v x).2.values.map.keys := by
  rw [← VecMap.get?_eq_none_iff]
  simp [Set.remove, CausalMap.remove]

/-- SREM in the two orders: merging its cube into the cube it read keeps the
removed member, merging the other way drops it. -/
theorem merge_remove_not_comm (hwf : a.Covered) (ha : x ∈ a.values.map.keys) :
    x ∈ (a.merge (a.remove i v x).2).values.map.keys ∧
      x ∉ ((a.remove i v x).2.merge a).values.map.keys := by
  refine ⟨mem_keys_merge_of_left_only ha not_mem_keys_remove, ?_⟩
  obtain ⟨D, hD⟩ := (a.values.map.mem_keys_iff).mp ha
  refine not_mem_keys_merge_of_covered hD not_mem_keys_remove fun d hd => ?_
  -- the remover's context is `a`'s raised by the SREM's dot
  have hcov := hwf (x, D) ((a.values.map.get?_eq_some_iff).mp hD) d hd
  simp [Set.remove, VersionVector.contains_add, hcov]

end Cubes.Set

/-- SADD of `x` at `(1, 1)`, then SREM of `x` at `(1, 2)`: SMEMBERS of the two
merges of the two cubes differ. -/
theorem set_merge_order_matters :
    ((Cubes.Set.with_ .new).insert 1 1 [120]).2.Covered ∧
      (((Cubes.Set.with_ .new).insert 1 1 [120]).2.remove 1 2 [120]).2.Covered ∧
      renderSet (Cube.merge (.set ((Cubes.Set.with_ .new).insert 1 1 [120]).2)
        (.set (((Cubes.Set.with_ .new).insert 1 1 [120]).2.remove 1 2 [120]).2)) =
        .array [.data [120]] ∧
      renderSet (Cube.merge (.set (((Cubes.Set.with_ .new).insert 1 1 [120]).2.remove 1 2 [120]).2)
        (.set ((Cubes.Set.with_ .new).insert 1 1 [120]).2)) = .array [] :=
  ⟨by decide, by decide, rfl, rfl⟩

/-! ## §3 What the reads show -/

/-- The contents the read commands show. -/
structure Visible where
  siblings : Finset Bytes
  members : Finset Bytes
  fields : Finset (Bytes × Bytes)
  count : Int
deriving DecidableEq

/-- The contents the read commands show of a cube; a `Void` shows nothing. -/
def Cube.visible : Cube → Visible
  | .counter c => ⟨∅, ∅, ∅, c.get⟩
  | .value v => ⟨(v.values.map.entries.filterMap (·.2)).toFinset, ∅, ∅, 0⟩
  | .map m => ⟨∅, ∅, (m.values.map.entries.map fun e => (e.1, e.2.value)).toFinset, 0⟩
  | .set s => ⟨∅, s.values.map.keys.toFinset, ∅, 0⟩
  | .void _ => ⟨∅, ∅, ∅, 0⟩

end Sucredb
