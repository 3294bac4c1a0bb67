/-
Sucredb.InFlightMapTheorems — the in-flight map refines `TimedMap`.

`Abstracts m a used` relates a map to the live keys it stands for, given the
keys inserted so far. The map holds the live keys' values. Each live key has
exactly one heap entry, which carries its deadline. Every heap entry, stale or
not, belongs to a key inserted before. Each call keeps the relation and makes
a step of `TimedMap.Step` (`Abstracts.step`).

The loops of `pop_expired` and `touch_expired` are followed entry by entry,
with the relation as their invariant. A stale top entry goes without changing
what the map stands for (`pop_stale`). A due live top entry is the key the
abstract step takes (`isNext_top`): the heap is sorted, and the key has no
other entry whose deadline could be older. What either loop may answer is
`Answers`, one predicate for both.

The run lemma `Abstracts.runs` carries the relation along every list of calls
that inserts no key twice. The freshness matters: a key inserted again after a
`remove` would find its stale entry still in the heap, with the old deadline.
-/
import Sucredb.InFlightMap

namespace Sucredb

open MinHeap (PrioLe)

namespace TimedMap

variable {K V T : Type*} [DecidableEq K] [LinearOrder T]

/-- Of two keys taken one after the other, the second once the first is gone,
the first has the earlier deadline. -/
theorem IsNext.le_of_erase {a : TimedMap K V T} {now now' : T} {k₁ k₂ : K} {v₁ v₂ : V}
    {d₁ d₂ : T} (h₁ : a.IsNext now k₁ v₁ d₁) (h₂ : IsNext (a.erase k₁) now' k₂ v₂ d₂) :
    a.get? k₂ = some (v₂, d₂) ∧ d₁ ≤ d₂ := by
  have hget := h₂.1
  rw [VecMap.get?_erase] at hget
  have hne : k₂ ≠ k₁ := by
    rintro rfl
    simp at hget
  rw [if_neg hne] at hget
  exact ⟨hget, h₁.2.2 k₂ v₂ d₂ hget⟩

end TimedMap

namespace InFlightMap

variable {K V T : Type*} [DecidableEq K] [LinearOrder T]

/-- `m` stands for the live keys `a`, given the keys `used` inserted so far:
the map holds their values, each has exactly one heap entry, carrying its
deadline, and every heap entry is of a key inserted before. -/
structure Abstracts (m : InFlightMap K V T) (a : TimedMap K V T) (used : List K) : Prop where
  map_eq : ∀ k, m.map.get? k = (a.get? k).map Prod.fst
  heap_live : ∀ k v d, a.get? k = some (v, d) → m.heap.entries.filter (·.2 == k) = [(d, k)]
  heap_used : ∀ x ∈ m.heap.entries, x.2 ∈ used

/-- What `pop_expired(now)` and `touch_expired(now, _)` may answer on a map
standing for `a`. Either a live key that `a` takes next, after which the map
stands for `after` of it, or `None` when no live key is due, with the map
standing for `a` still. -/
def Answers (a : TimedMap K V T) (now : T) (used : List K) (after : K → V → TimedMap K V T) :
    Option (K × V) × InFlightMap K V T → Prop
  | (some (k, v), m') => ∃ d, a.IsNext now k v d ∧ Abstracts m' (after k v) used
  | (none, m') => a.NoneDue now ∧ Abstracts m' a used

theorem abstracts_new (used : List K) : Abstracts (new : InFlightMap K V T) .empty used :=
  ⟨fun _ => rfl, fun _ _ _ ha => by simp at ha, fun _ hx => absurd hx List.not_mem_nil⟩

omit [LinearOrder T] in
/-- The map keeps the live keys' values when both sides take a key in with the
same value. -/
theorem map_eq_insert {M : VecMap K V} {A : TimedMap K V T}
    (h : ∀ k, M.get? k = (A.get? k).map Prod.fst) (k : K) (v : V) (d : T) (k' : K) :
    (M.insert k v).get? k' = ((A.insert k (v, d)).get? k').map Prod.fst := by
  by_cases hk' : k' = k
  · simp [hk']
  · simp [hk', h k']

omit [LinearOrder T] in
/-- ... and when both sides let a key go. -/
theorem map_eq_erase {M : VecMap K V} {A : TimedMap K V T}
    (h : ∀ k, M.get? k = (A.get? k).map Prod.fst) (k k' : K) :
    (M.erase k).get? k' = ((A.erase k).get? k').map Prod.fst := by
  by_cases hk' : k' = k
  · simp [hk']
  · simp [hk', h k']

section Abstracts

variable {m : InFlightMap K V T} {a : TimedMap K V T} {used : List K}

theorem Abstracts.mono (h : Abstracts m a used) {used' : List K} (hsub : ∀ k ∈ used, k ∈ used') :
    Abstracts m a used' :=
  ⟨h.map_eq, h.heap_live, fun x hx => hsub _ (h.heap_used x hx)⟩

theorem Abstracts.mem_heap (h : Abstracts m a used) {k : K} {v : V} {d : T}
    (ha : a.get? k = some (v, d)) : (d, k) ∈ m.heap.entries := by
  have hmem : (d, k) ∈ m.heap.entries.filter (·.2 == k) := by
    rw [h.heap_live k v d ha]
    exact List.mem_singleton_self _
  exact List.mem_of_mem_filter hmem

theorem Abstracts.get?_map (h : Abstracts m a used) {k : K} {v : V} {d : T}
    (ha : a.get? k = some (v, d)) : m.map.get? k = some v := by
  rw [h.map_eq, ha]
  rfl

theorem Abstracts.exists_of_map (h : Abstracts m a used) {k : K} {v : V}
    (hm : m.map.get? k = some v) : ∃ d, a.get? k = some (v, d) := by
  rw [h.map_eq] at hm
  obtain ⟨⟨v', d⟩, ha, hv⟩ := Option.map_eq_some_iff.mp hm
  subst hv
  exact ⟨d, ha⟩

/-- A live key's only heap entry carries its deadline. -/
theorem Abstracts.deadline_eq (h : Abstracts m a used) {k : K} {v : V} {d e : T}
    (ha : a.get? k = some (v, d)) (he : (e, k) ∈ m.heap.entries) : e = d := by
  have hmem : (e, k) ∈ m.heap.entries.filter (·.2 == k) := List.mem_filter.mpr ⟨he, by simp⟩
  rw [h.heap_live k v d ha, List.mem_singleton] at hmem
  exact (Prod.mk.inj hmem).1

/-- A key never inserted is not live. -/
theorem Abstracts.get?_eq_none (h : Abstracts m a used) {k : K} (hk : k ∉ used) :
    a.get? k = none := by
  cases ha : a.get? k with
  | none => rfl
  | some vd =>
    obtain ⟨v, d⟩ := vd
    exact absurd (h.heap_used _ (h.mem_heap ha)) hk

/-- A key never inserted has no heap entry. -/
theorem Abstracts.filter_eq_nil (h : Abstracts m a used) {k : K} (hk : k ∉ used) :
    m.heap.entries.filter (·.2 == k) = [] := by
  rw [List.filter_eq_nil_iff]
  intro x hx hxk
  exact hk (beq_iff_eq.mp hxk ▸ h.heap_used x hx)

/-! ### One lemma per call -/

/-- Inserting a fresh key cannot panic, and adds the key with its deadline. -/
theorem Abstracts.insert (h : Abstracts m a used) {k : K} (hk : k ∉ used) (v : V) (e : T) :
    a.get? k = none ∧
      ∃ m', m.insert k v e = some m' ∧ Abstracts m' (a.insert k (v, e)) (k :: used) := by
  have hnone := h.get?_eq_none hk
  have hmap : m.map.get? k = none := by
    rw [h.map_eq, hnone]
    rfl
  refine ⟨hnone, ⟨m.map.insert k v, m.heap.push (e, k)⟩, by simp [InFlightMap.insert, hmap], ?_⟩
  constructor
  · exact map_eq_insert h.map_eq k v e
  · intro k' v' d' ha'
    by_cases hk' : k' = k
    · -- the new key: its entry is the one just pushed
      subst hk'
      simp only [VecMap.get?_insert, if_pos, Option.some.injEq, Prod.mk.injEq] at ha'
      obtain ⟨rfl, rfl⟩ := ha'
      exact MinHeap.filter_push_of_pos (by simp) (h.filter_eq_nil hk)
    · rw [VecMap.get?_insert, if_neg hk'] at ha'
      rw [MinHeap.filter_push_of_neg (by simpa using Ne.symm hk')]
      exact h.heap_live k' v' d' ha'
  · intro x hx
    rcases MinHeap.mem_push.mp hx with rfl | hx
    · exact List.mem_cons_self
    · exact List.mem_cons_of_mem _ (h.heap_used x hx)

/-- Taking a key out of the map takes it out of the live keys; its heap entry
turns stale. -/
theorem Abstracts.erase (h : Abstracts m a used) (k : K) :
    Abstracts { m with map := m.map.erase k } (a.erase k) used := by
  constructor
  · exact map_eq_erase h.map_eq k
  · intro k' v' d' ha'
    rw [VecMap.get?_erase] at ha'
    by_cases hk' : k' = k
    · rw [if_pos hk'] at ha'
      cases ha'
    · rw [if_neg hk'] at ha'
      exact h.heap_live k' v' d' ha'
  · exact h.heap_used

/-- A new value for a live key keeps its deadline and its heap entry. -/
theorem Abstracts.update (h : Abstracts m a used) {k : K} {v : V} {d : T}
    (ha : a.get? k = some (v, d)) (v' : V) :
    Abstracts { m with map := m.map.insert k v' } (a.insert k (v', d)) used := by
  constructor
  · exact map_eq_insert h.map_eq k v' d
  · intro k'' v'' d'' ha''
    rw [VecMap.get?_insert] at ha''
    by_cases hk' : k'' = k
    · rw [if_pos hk'] at ha''
      obtain ⟨-, rfl⟩ := Prod.mk.inj (Option.some.inj ha'')
      subst hk'
      exact h.heap_live _ v _ ha
    · rw [if_neg hk'] at ha''
      exact h.heap_live k'' v'' d'' ha''
  · exact h.heap_used

theorem Abstracts.entry (h : Abstracts m a used) (k : K) (f : V → Option V) :
    Abstracts (m.entry k f) (a.entry k f) used := by
  cases ha : a.get? k with
  | none =>
    -- a vacant entry: nothing changes
    have hm : m.map.get? k = none := by
      rw [h.map_eq, ha]
      rfl
    have e₁ : m.entry k f = m := by simp [InFlightMap.entry, hm]
    have e₂ : a.entry k f = a := by simp [TimedMap.entry, ha]
    rw [e₁, e₂]
    exact h
  | some vd =>
    obtain ⟨v, d⟩ := vd
    have hm : m.map.get? k = some v := h.get?_map ha
    cases hf : f v with
    | none =>
      -- `o.remove()`
      have e₁ : m.entry k f = { m with map := m.map.erase k } := by
        simp [InFlightMap.entry, hm, hf]
      have e₂ : a.entry k f = a.erase k := by simp [TimedMap.entry, ha, hf]
      rw [e₁, e₂]
      exact h.erase k
    | some v' =>
      -- `get_mut`
      have e₁ : m.entry k f = { m with map := m.map.insert k v' } := by
        simp [InFlightMap.entry, hm, hf]
      have e₂ : a.entry k f = a.insert k (v', d) := by simp [TimedMap.entry, ha, hf]
      rw [e₁, e₂]
      exact h.update ha v'

/-! ### The loops, one top entry at a time -/

section Loop

variable {map : VecMap K V} {e : T} {k : K} {rest : List (T × K)}
  {hl : ((e, k) :: rest).Pairwise PrioLe}

/-- A stale top entry can go: without it the map stands for the same keys. -/
theorem Abstracts.pop_stale (h : Abstracts ⟨map, ⟨(e, k) :: rest, hl⟩⟩ a used)
    (hk : map.get? k = none) : Abstracts ⟨map, ⟨rest, hl.of_cons⟩⟩ a used := by
  constructor
  · exact h.map_eq
  · intro k' v' d' ha'
    have hne : k ≠ k' := by
      rintro rfl
      have hmap := h.map_eq k
      rw [hk, ha'] at hmap
      cases hmap
    have hf := h.heap_live k' v' d' ha'
    rwa [List.filter_cons_of_neg (by simpa using hne)] at hf
  · exact fun x hx => h.heap_used x (List.mem_cons_of_mem _ hx)

/-- A live top entry is its key's only entry, and carries its deadline. -/
theorem Abstracts.top_live (h : Abstracts ⟨map, ⟨(e, k) :: rest, hl⟩⟩ a used) {v : V}
    (hk : map.get? k = some v) : a.get? k = some (v, e) ∧ rest.filter (·.2 == k) = [] := by
  obtain ⟨d, ha⟩ := h.exists_of_map hk
  have hf := h.heap_live k v d ha
  rw [List.filter_cons_of_pos (by simp)] at hf
  obtain ⟨hed, hnil⟩ := List.cons_eq_cons.mp hf
  obtain ⟨rfl, -⟩ := Prod.mk.inj hed
  exact ⟨ha, hnil⟩

/-- A due live top entry is the key the abstract step takes next: the heap is
sorted, so no live key's deadline is earlier. -/
theorem Abstracts.isNext_top (h : Abstracts ⟨map, ⟨(e, k) :: rest, hl⟩⟩ a used) {v : V}
    (hk : map.get? k = some v) {now : T} (hdue : e ≤ now) : a.IsNext now k v e :=
  ⟨(h.top_live hk).1, hdue, fun _ _ _ ha' => MinHeap.head_le hl (h.mem_heap ha')⟩

/-- Below a top entry that is not due, no live key is. -/
theorem Abstracts.noneDue_top (h : Abstracts ⟨map, ⟨(e, k) :: rest, hl⟩⟩ a used) {now : T}
    (hlt : now < e) : a.NoneDue now :=
  fun _ _ _ ha' => lt_of_lt_of_le hlt (MinHeap.head_le hl (h.mem_heap ha'))

/-- An empty heap has no live key behind it. -/
theorem Abstracts.noneDue_nil {hl : ([] : List (T × K)).Pairwise PrioLe}
    (h : Abstracts ⟨map, ⟨[], hl⟩⟩ a used) (now : T) : a.NoneDue now :=
  fun _ _ _ ha' => absurd (h.mem_heap ha') List.not_mem_nil

/-- Popping a live top entry and taking its key out of the map leaves the map
standing for the live keys without it. -/
theorem Abstracts.pop_live (h : Abstracts ⟨map, ⟨(e, k) :: rest, hl⟩⟩ a used) :
    Abstracts ⟨map.erase k, ⟨rest, hl.of_cons⟩⟩ (a.erase k) used :=
  -- once the key is out of the map, its entry is a stale one
  (h.erase k).pop_stale (by simp)

/-- Overwriting a live top entry moves its key's deadline to the new one. -/
theorem Abstracts.replace_top (h : Abstracts ⟨map, ⟨(e, k) :: rest, hl⟩⟩ a used) {v : V}
    (hk : map.get? k = some v) (expire : T) :
    Abstracts ⟨map, (MinHeap.mk ((e, k) :: rest) hl).replaceTop (expire, k)⟩
      (a.insert k (v, expire)) used := by
  obtain ⟨-, hnil⟩ := h.top_live hk
  constructor
  · intro k'
    by_cases hk' : k' = k
    · subst hk'
      simp [hk]
    · simp [hk', h.map_eq k']
  · intro k' v' d' ha'
    by_cases hk' : k' = k
    · -- the key's one entry is now the pushed one
      subst hk'
      simp only [VecMap.get?_insert, if_pos, Option.some.injEq, Prod.mk.injEq] at ha'
      obtain ⟨-, rfl⟩ := ha'
      exact MinHeap.filter_push_of_pos (by simp) hnil
    · rw [VecMap.get?_insert, if_neg hk'] at ha'
      have hf := h.heap_live k' v' d' ha'
      rw [List.filter_cons_of_neg (by simpa using Ne.symm hk')] at hf
      exact (MinHeap.filter_push_of_neg (by simpa using Ne.symm hk')).trans hf
  · intro x hx
    rcases MinHeap.mem_push.mp hx with rfl | hx
    · exact h.heap_used (e, k) List.mem_cons_self
    · exact h.heap_used x (List.mem_cons_of_mem _ hx)

end Loop

/-- The loop of `pop_expired` answers as `TimedMap.Step` allows, skipping the
stale entries on top. -/
theorem popLoop_answers (now : T) (map : VecMap K V) :
    ∀ (l : List (T × K)) (hl : l.Pairwise PrioLe), Abstracts ⟨map, ⟨l, hl⟩⟩ a used →
      Answers a now used (fun k _ => a.erase k) (popLoop now map l hl)
  | [], _, h => by
    simp only [popLoop, Answers]
    exact ⟨h.noneDue_nil now, h⟩
  | (e, k) :: rest, hl, h => by
    by_cases hdue : e ≤ now
    · cases hk : map.get? k with
      | none =>
        simp only [popLoop, if_pos hdue, hk]
        exact popLoop_answers now map rest hl.of_cons (h.pop_stale hk)
      | some v =>
        simp only [popLoop, if_pos hdue, hk, Answers]
        exact ⟨e, h.isNext_top hk hdue, h.pop_live⟩
    · simp only [popLoop, if_neg hdue, Answers]
      exact ⟨h.noneDue_top (lt_of_not_ge hdue), h⟩

/-- The loop of `touch_expired` answers as `TimedMap.Step` allows. -/
theorem touchLoop_answers (now expire : T) (map : VecMap K V) :
    ∀ (l : List (T × K)) (hl : l.Pairwise PrioLe), Abstracts ⟨map, ⟨l, hl⟩⟩ a used →
      Answers a now used (fun k v => a.insert k (v, expire))
        ((touchLoop now expire map l hl).1, ⟨map, (touchLoop now expire map l hl).2⟩)
  | [], _, h => by
    simp only [touchLoop, Answers]
    exact ⟨h.noneDue_nil now, h⟩
  | (e, k) :: rest, hl, h => by
    by_cases hdue : e ≤ now
    · cases hk : map.get? k with
      | none =>
        simp only [touchLoop, if_pos hdue, hk]
        exact touchLoop_answers now expire map rest hl.of_cons (h.pop_stale hk)
      | some v =>
        simp only [touchLoop, if_pos hdue, hk, Answers]
        exact ⟨e, h.isNext_top hk hdue, h.replace_top hk expire⟩
    · simp only [touchLoop, if_neg hdue, Answers]
      exact ⟨h.noneDue_top (lt_of_not_ge hdue), h⟩

theorem Abstracts.popExpired_answers (h : Abstracts m a used) (now : T) :
    Answers a now used (fun k _ => a.erase k) (m.popExpired now) :=
  popLoop_answers now m.map m.heap.entries m.heap.sorted h

theorem Abstracts.touchExpired_answers (h : Abstracts m a used) (now expire : T) :
    Answers a now used (fun k v => a.insert k (v, expire)) (m.touchExpired now expire) :=
  touchLoop_answers now expire m.map m.heap.entries m.heap.sorted h

/-! ### Runs -/

omit [DecidableEq K] [LinearOrder T] in
theorem insertedKeys_cons (op : Op K V T) (ops : List (Op K V T)) :
    insertedKeys (op :: ops) = insertedKeys [op] ++ insertedKeys ops := by
  cases op <;> rfl

/-- Every call on a fresh key, or on no key, makes a step of `TimedMap` and
keeps the relation. -/
theorem Abstracts.step (h : Abstracts m a used) (op : Op K V T)
    (hfresh : ∀ k ∈ insertedKeys [op], k ∉ used) :
    ∃ m' a', m.step op = some m' ∧ TimedMap.Step a op a' ∧
      Abstracts m' a' (insertedKeys [op] ++ used) := by
  cases op with
  | insert k v e =>
    obtain ⟨hnone, m', hins, h'⟩ := h.insert (hfresh k (List.mem_singleton_self k)) v e
    exact ⟨m', _, hins, .insert hnone, h'⟩
  | remove k => exact ⟨_, _, rfl, .remove, h.erase k⟩
  | entry k f => exact ⟨_, _, rfl, .entry, h.entry k f⟩
  | popExpired now =>
    have hans := h.popExpired_answers now
    rcases hr : m.popExpired now with ⟨_ | ⟨k, v⟩, m'⟩ <;> rw [hr] at hans
    · exact ⟨m', a, by simp [InFlightMap.step, hr], .popNone hans.1, hans.2⟩
    · obtain ⟨d, hnext, h'⟩ := hans
      exact ⟨m', _, by simp [InFlightMap.step, hr], .popSome hnext, h'⟩
  | touchExpired now expire =>
    have hans := h.touchExpired_answers now expire
    rcases hr : m.touchExpired now expire with ⟨_ | ⟨k, v⟩, m'⟩ <;> rw [hr] at hans
    · exact ⟨m', a, by simp [InFlightMap.step, hr], .touchNone hans.1, hans.2⟩
    · obtain ⟨d, hnext, h'⟩ := hans
      exact ⟨m', _, by simp [InFlightMap.step, hr], .touchSome hnext, h'⟩
  | clear => exact ⟨_, _, rfl, .clear, abstracts_new _⟩

/-- Along every list of calls that inserts no key twice, and none of `used`,
no call panics, and the map follows a run of `TimedMap`. -/
theorem Abstracts.runs : ∀ {ops : List (Op K V T)} {m : InFlightMap K V T} {a : TimedMap K V T}
    {used : List K}, Abstracts m a used → (insertedKeys ops).Nodup →
      (∀ k ∈ insertedKeys ops, k ∉ used) →
      ∃ m' a', Sucredb.run InFlightMap.step m ops = some m' ∧ Steps TimedMap.Step a ops a' ∧
        Abstracts m' a' (insertedKeys ops ++ used)
  | [], m, a, _, h, _, _ => ⟨m, a, rfl, .nil a, h⟩
  | op :: ops, m, a, used, h, hnodup, hfresh => by
    rw [insertedKeys_cons] at hnodup hfresh
    obtain ⟨-, hnd, hdisj⟩ := List.nodup_append.mp hnodup
    obtain ⟨m₁, a₁, hstep, habs, h₁⟩ := h.step op fun k hk => hfresh k (List.mem_append_left _ hk)
    -- the keys inserted later are fresh for the state after this call too
    have hfresh' : ∀ k ∈ insertedKeys ops, k ∉ insertedKeys [op] ++ used := by
      intro k hk hmem
      rcases List.mem_append.mp hmem with hop | hused
      · exact hdisj k hop k hk rfl
      · exact hfresh k (List.mem_append_right _ hk) hused
    obtain ⟨m', a', hrun, hsteps, h'⟩ := h₁.runs hnd hfresh'
    refine ⟨m', a', ?_, .cons habs hsteps, h'.mono ?_⟩
    · rw [run_cons, hstep]
      exact hrun
    · intro k hk
      rw [insertedKeys_cons]
      simp only [List.mem_append] at hk ⊢
      tauto

end Abstracts

/-- Along every list of calls that inserts no key twice, no call panics, and
the map follows a run of `TimedMap` from the empty map, the abstract model of
the live keys with their current deadlines. Every live key has exactly one
heap entry, and it carries the key's current deadline. `pop_expired(now)`
returns a key only when it is due, no live key's deadline is earlier, and it
leaves the map. It answers `None` only when no live key is due. Two
successive calls at the same `now` return keys in the order of their
deadlines. -/
theorem in_flight_map_refines_timed_map (ops : List (Op K V T))
    (hfresh : (insertedKeys ops).Nodup) :
    ∃ m a, Sucredb.run step new ops = some m ∧ Steps TimedMap.Step .empty ops a ∧
      (∀ k, m.map.get? k = (a.get? k).map Prod.fst) ∧
      (∀ k v d, a.get? k = some (v, d) → m.heap.entries.filter (·.2 == k) = [(d, k)]) ∧
      (∀ now k v m', m.popExpired now = (some (k, v), m') →
        ∃ d, a.IsNext now k v d ∧ m'.map.get? k = none) ∧
      (∀ now m', m.popExpired now = (none, m') → a.NoneDue now) ∧
      (∀ now k₁ v₁ m₁ k₂ v₂ m₂, m.popExpired now = (some (k₁, v₁), m₁) →
        m₁.popExpired now = (some (k₂, v₂), m₂) →
        ∃ d₁ d₂, a.get? k₁ = some (v₁, d₁) ∧ a.get? k₂ = some (v₂, d₂) ∧ d₁ ≤ d₂) := by
  obtain ⟨m, a, hrun, hsteps, h⟩ :=
    (abstracts_new (K := K) (V := V) (T := T) []).runs hfresh fun _ _ h => absurd h List.not_mem_nil
  refine ⟨m, a, hrun, hsteps, h.map_eq, h.heap_live, ?_, ?_, ?_⟩
  · intro now k v m' hpop
    have hans := h.popExpired_answers now
    rw [hpop] at hans
    obtain ⟨d, hnext, h'⟩ := hans
    refine ⟨d, hnext, ?_⟩
    rw [h'.map_eq k]
    simp
  · intro now m' hpop
    have hans := h.popExpired_answers now
    rw [hpop] at hans
    exact hans.1
  · intro now k₁ v₁ m₁ k₂ v₂ m₂ hpop₁ hpop₂
    have hans₁ := h.popExpired_answers now
    rw [hpop₁] at hans₁
    obtain ⟨d₁, hnext₁, h₁⟩ := hans₁
    have hans₂ := h₁.popExpired_answers now
    rw [hpop₂] at hans₂
    obtain ⟨d₂, hnext₂, -⟩ := hans₂
    obtain ⟨hget₂, hle⟩ := hnext₁.le_of_erase hnext₂
    exact ⟨d₁, d₂, hnext₁.1, hget₂, hle⟩

/-- Two requests in flight, the one due first answered, then a sweep of the
expired ones. -/
theorem refines_after_answer_and_sweep :
    (insertedKeys ([.insert 1 10 5, .insert 2 20 3, .remove 2, .popExpired 6] :
      List (Op ℕ ℕ ℕ))).Nodup ∧
    ∃ m a, Sucredb.run step new
        ([.insert 1 10 5, .insert 2 20 3, .remove 2, .popExpired 6] : List (Op ℕ ℕ ℕ)) = some m ∧
      Steps TimedMap.Step .empty [.insert 1 10 5, .insert 2 20 3, .remove 2, .popExpired 6] a ∧
      (∀ k, m.map.get? k = (a.get? k).map Prod.fst) ∧
      (∀ k v d, a.get? k = some (v, d) → m.heap.entries.filter (·.2 == k) = [(d, k)]) ∧
      (∀ now k v m', m.popExpired now = (some (k, v), m') →
        ∃ d, a.IsNext now k v d ∧ m'.map.get? k = none) ∧
      (∀ now m', m.popExpired now = (none, m') → a.NoneDue now) ∧
      (∀ now k₁ v₁ m₁ k₂ v₂ m₂, m.popExpired now = (some (k₁, v₁), m₁) →
        m₁.popExpired now = (some (k₂, v₂), m₂) →
        ∃ d₁ d₂, a.get? k₁ = some (v₁, d₁) ∧ a.get? k₂ = some (v₂, d₂) ∧ d₁ ≤ d₂) :=
  ⟨by decide, in_flight_map_refines_timed_map _ (by decide)⟩

end InFlightMap

end Sucredb
