/-
Sucredb.CounterTheorems — what a `Counter` totals, against the increments
behind it.

§1 The totals are `i64` in the source. `inc` adds with `+=` and `get` sums
with `Iterator::sum`; both panic on overflow in debug builds and wrap in
release builds, which the model follows (`Cubes.wrappingAdd`), and nothing
checks before them: `parse_int` accepts every `i64`, and the closures of CSET
and INCRBY succeed on every counter. A CSET of `x` followed by an INCRBY of
`y` with `x + y` above `i64::MAX` stores, and `get` returns, `x + y - 2^64`,
a negative total (`counter_overflows_i64`). A wrapped sum is the wrap of the
exact sum (`foldl_wrappingAdd`), and the wrap is the identity on what an `i64`
holds (`bmod_of_fitsI64`).

§2 Under INCRBY alone, a counter converges. `IncrHistory` is one key across
the nodes: each coordinator applies INCRBY to the cube its storage holds,
under a version its clock draws above every version it used before, and
every node's storage merges the cubes that replication and sync bring
(`storage_set_remote` stores `old.merge(proposed)`). `Counter::merge` keeps
per node the entry of higher version, so the invariant is that every entry
`(n, (v, s))` of every cube is the prefix sum of `n`'s deltas up to `v`,
wrapped to `i64` (`EntryOk`), and that a coordinator's own storage holds its
latest entry (`Inv.latest`): a merge never brings an older entry of the
coordinator over a newer one. Then any cube merged from produced cubes and
`Void`s, in any order and grouping, totals the prefix sums of its entries, and
once every produced cube is merged in, the sum of all deltas, both wrapped to
`i64`: the sum itself when it fits (`incrby_counters_converge`). Two
coordinators that add `i64::MAX` and `1` leave a counter that reads
`i64::MIN` (`incrby_max_and_one_wrap`).
-/
import Sucredb.CubeTheorems
import Sucredb.RespTheorems
import Sucredb.Lib.Reachable

namespace Sucredb

namespace Cubes

namespace Counter

/-! ## The entries of `inc`, `clear` and `merge` -/

theorem get?_inc (c : Counter) (node version : ℕ) (by_ : ℤ) (k : NodeId) :
    (c.inc node version by_).values.get? k =
      if k = node then some (version, wrappingAdd ((c.values.get? node).getD (0, 0)).2 by_)
      else c.values.get? k := by
  simp [inc]

@[simp] theorem values_clear (c : Counter) (node version : ℕ) :
    (c.clear node version).values = VecMap.empty := rfl

@[simp] theorem values_with (vv : VersionVector) : (with_ vv).values = VecMap.empty := rfl

/-- One round of `merge`'s loop: the entry of higher version, `self`'s on a tie. -/
def pick (old : Option (Version × ℤ)) (e : Version × ℤ) : Option (Version × ℤ) :=
  match old with
  | some cur => if cur.1 < e.1 then some e else some cur
  | none => some e

/-- What `merge` leaves at each node: `self`'s entry, unless `other`'s has a
higher version. -/
theorem get?_merge (a b : Counter) (k : NodeId) :
    (a.merge b).values.get? k = ((b.values.get? k).map (pick (a.values.get? k))).getD (a.values.get? k) := by
  unfold merge
  refine VecMap.get?_foldl_entries (g := pick) (fun m e k' => ?_) b.values a.values k
  by_cases hk : k' = e.1
  · subst hk
    cases hm : m.get? e.1 with
    | none => simp [pick]
    | some cur =>
      by_cases hlt : cur.1 < e.2.1 <;> simp [hm, pick, hlt]
  · cases hm : m.get? e.1 with
    | none => simp [hk]
    | some cur =>
      by_cases hlt : cur.1 < e.2.1 <;> simp [hlt, hk]

/-- The entry `merge` leaves at a node is one of the two sides'. -/
theorem get?_merge_cases {a b : Counter} {k : NodeId} {e : Version × ℤ}
    (h : (a.merge b).values.get? k = some e) : a.values.get? k = some e ∨ b.values.get? k = some e := by
  rw [get?_merge] at h
  cases hb : b.values.get? k with
  | none =>
    rw [hb] at h
    exact .inl h
  | some eb =>
    rw [hb] at h
    cases ha : a.values.get? k with
    | none =>
      simp only [ha, pick, Option.map_some, Option.getD_some, Option.some.injEq] at h
      exact .inr (h ▸ rfl)
    | some ea =>
      simp only [ha, pick, Option.map_some, Option.getD_some] at h
      split at h
      · exact .inr h
      · exact .inl h

/-- `merge` never lowers the version a side has at a node. -/
theorem le_version_merge {a b : Counter} {k : NodeId} {e : Version × ℤ}
    (h : a.values.get? k = some e ∨ b.values.get? k = some e) :
    ∃ e', (a.merge b).values.get? k = some e' ∧ e.1 ≤ e'.1 := by
  rw [get?_merge]
  rcases h with ha | hb
  · cases hb : b.values.get? k with
    | none => exact ⟨e, by simp [ha], le_rfl⟩
    | some eb =>
      simp only [ha, pick, Option.map_some, Option.getD_some]
      split
      · rename_i hlt
        exact ⟨eb, rfl, hlt.le⟩
      · exact ⟨e, rfl, le_rfl⟩
  · cases ha : a.values.get? k with
    | none => exact ⟨e, by simp [hb, pick], le_rfl⟩
    | some ea =>
      simp only [hb, pick, Option.map_some, Option.getD_some]
      split
      · exact ⟨e, rfl, le_rfl⟩
      · rename_i hle
        exact ⟨ea, rfl, Nat.le_of_not_lt hle⟩

/-- `Void`'s side of `Cube::merge` leaves a counter's entries as they are. -/
@[simp] theorem values_merge_with (a : Counter) (vv : VersionVector) :
    (a.merge (with_ vv)).values = a.values := rfl

/-! ## §1 `i64` -/

/-- The values an `i64` holds. -/
def FitsI64 (x : ℤ) : Prop := -2 ^ 63 ≤ x ∧ x ≤ Resp.i64Max

instance : DecidablePred FitsI64 := fun _ => inferInstanceAs (Decidable (_ ∧ _))

/-- The wrap leaves what an `i64` holds as it is. -/
theorem bmod_of_fitsI64 {x : ℤ} (h : FitsI64 x) : x.bmod (2 ^ 64) = x := by
  obtain ⟨hlo, hhi⟩ := h
  unfold Resp.i64Max at hhi
  apply Int.bmod_eq_of_le <;> omega

/-- A sum past `i64::MAX`, by less than `2^64`, wraps to the negative side. -/
theorem bmod_of_i64Max_lt {x : ℤ} (hlo : Resp.i64Max < x) (hhi : x < 2 ^ 64 + 2 ^ 63) :
    x.bmod (2 ^ 64) = x - 2 ^ 64 := by
  unfold Resp.i64Max at hlo
  rw [Int.bmod_def]
  split <;> omega

/-- `wrapping_add` is `+` whenever the sum fits in an `i64`. -/
theorem wrappingAdd_of_fits {a b : ℤ} (h : FitsI64 (a + b)) : wrappingAdd a b = a + b :=
  bmod_of_fitsI64 h

/-- Folding `wrappingAdd` from a wrapped start wraps the exact sum. -/
theorem foldl_wrappingAdd (l : List ℤ) (acc : ℤ) :
    l.foldl wrappingAdd (acc.bmod (2 ^ 64)) = (acc + l.sum).bmod (2 ^ 64) := by
  induction l generalizing acc with
  | nil => simp
  | cons x l ih =>
    rw [List.foldl_cons, wrappingAdd, Int.bmod_add_bmod, ← Int.bmod_bmod, ih, List.sum_cons,
      Int.bmod_add_bmod, add_assoc]

/-- Wrapping each summand first changes nothing once the sum is wrapped. -/
theorem bmod_sum_map_bmod {α : Type} (f : α → ℤ) (l : List α) :
    ((l.map fun a => (f a).bmod (2 ^ 64)).sum).bmod (2 ^ 64) = ((l.map f).sum).bmod (2 ^ 64) := by
  induction l with
  | nil => rfl
  | cons a l ih =>
    rw [List.map_cons, List.sum_cons, Int.bmod_add_bmod, ← Int.add_bmod_bmod, ih,
      Int.add_bmod_bmod, List.map_cons, List.sum_cons]

/-- `get` is the wrap of the exact sum of the totals. -/
theorem get_eq_bmod (c : Counter) :
    c.get = ((c.values.entries.map fun e : NodeId × Version × ℤ => e.2.2).sum).bmod (2 ^ 64) := by
  rw [get, ← Int.zero_bmod (m := 2 ^ 64), foldl_wrappingAdd, zero_add]

end Counter

end Cubes

open Cubes

/-- CSET of `x` then INCRBY of `y` on one key, both arguments `i64`s that
`parse_int` accepts: both closures succeed. When `x + y` is above `i64::MAX`,
no `i64` holds it: a debug build panics in `+=`, and a release build stores,
and `get` returns, `x + y - 2^64`, a negative total. -/
theorem counter_overflows_i64 {cube : Cube} {a : Counter} (hc : cube.intoCounter = some a)
    (i : NodeId) (v₁ v₂ : Version) {x y : ℤ} (hx : Counter.FitsI64 x) (hy : Counter.FitsI64 y)
    (hxy : Resp.i64Max < x + y) :
    Resp.parseI64 (Resp.displayInt x) = some x ∧ Resp.parseI64 (Resp.displayInt y) = some y ∧
      ∃ a₁ a₂, csetMutator x i v₁ cube = .ok (.counter a₁, some okStatus) ∧
        incrbyMutator y i v₂ (.counter a₁) = .ok (.counter a₂, some okStatus) ∧
        a₂.values.get? i = some (v₂, x + y - 2 ^ 64) ∧ a₂.get = x + y - 2 ^ 64 ∧
        ¬ Counter.FitsI64 (x + y) := by
  -- the exact total, past `i64::MAX` by less than `2^64`, wraps once
  have hle : x + y ≤ 2 * Resp.i64Max := by
    have := hx.2
    have := hy.2
    omega
  unfold Resp.i64Max at hle
  have hx0 : wrappingAdd 0 x = x := by
    rw [Counter.wrappingAdd_of_fits (by rwa [zero_add]), zero_add]
  have hwrap : wrappingAdd x y = x + y - 2 ^ 64 := Counter.bmod_of_i64Max_lt hxy (by omega)
  refine ⟨Resp.parseI64_displayInt hx.1 hx.2, Resp.parseI64_displayInt hy.1 hy.2,
    (a.clear i v₁).inc i v₁ x, ((a.clear i v₁).inc i v₁ x).inc i v₂ y, ?_, rfl, ?_, ?_,
    fun h => absurd h.2 (not_le.mpr hxy)⟩
  · simp [csetMutator, hc]
  · rw [Counter.get?_inc, if_pos rfl, Counter.get?_inc, if_pos rfl, Counter.values_clear,
      VecMap.get?_empty, Option.getD_none, Option.getD_some, hx0, hwrap]
  · -- the counter holds the one entry of `i`
    have he : (((a.clear i v₁).inc i v₁ x).inc i v₂ y).values.entries =
        [(i, v₂, x + y - 2 ^ 64)] := by
      simp [Counter.inc, VecMap.insert, VecMap.empty, VecMap.keys, VecMap.get?, hx0, hwrap]
    have hfits : Counter.FitsI64 (x + y - 2 ^ 64) := by
      unfold Counter.FitsI64 Resp.i64Max at *
      omega
    rw [Counter.get_eq_bmod, he, List.map_singleton, List.sum_singleton,
      Counter.bmod_of_fitsI64 hfits]

/-- CSET of `i64::MAX` then INCRBY of `1` on a key that holds nothing: the
counter reads `i64::MIN`. -/
theorem cset_max_then_incrby_one :
    Counter.FitsI64 Resp.i64Max ∧ Counter.FitsI64 1 ∧ Resp.i64Max < Resp.i64Max + 1 ∧
      ∃ a₁ a₂, csetMutator Resp.i64Max 1 1 (.void VersionVector.new) = .ok (.counter a₁, some okStatus) ∧
        incrbyMutator 1 1 2 (.counter a₁) = .ok (.counter a₂, some okStatus) ∧
        a₂.get = -2 ^ 63 ∧ ¬ Counter.FitsI64 (Resp.i64Max + 1) := by
  have hmax : Counter.FitsI64 Resp.i64Max := by decide
  have hone : Counter.FitsI64 1 := by decide
  have hlt : Resp.i64Max < Resp.i64Max + 1 := by decide
  obtain ⟨-, -, a₁, a₂, h₁, h₂, -, h₃, h₄⟩ :=
    counter_overflows_i64 (show (Cube.void VersionVector.new).intoCounter =
      some (Counter.with_ VersionVector.new) from rfl) 1 1 2 hmax hone hlt
  exact ⟨hmax, hone, hlt, a₁, a₂, h₁, h₂, h₃.trans (by decide), h₄⟩

/-! ## §2 INCRBY histories -/

/-- One INCRBY on the key: the coordinator's id, the version `do_flush` drew
for it from the coordinator's clock, and the client's delta. -/
structure Incr where
  node : NodeId
  version : Version
  delta : ℤ

/-- The deltas of `node`'s increments up to `version`: what an entry
`(node, (version, _))` should total. -/
def prefixSum (incs : List Incr) (node : NodeId) (version : Version) : ℤ :=
  ((incs.filter fun e => e.node = node ∧ e.version ≤ version).map Incr.delta).sum

/-- The deltas of all of `node`'s increments. -/
def nodeSum (incs : List Incr) (node : NodeId) : ℤ :=
  ((incs.filter fun e => e.node = node).map Incr.delta).sum

/-- One key across the nodes, under INCRBY only: the increments so far in
order, the cube each node's storage holds for the key, and every cube a
coordinator's `do_flush` produced. -/
structure IncrHistory where
  incs : List Incr
  stored : NodeId → Cube
  produced : List Cube

/-- A cube built by `Cube::merge` from other cubes, in any order and grouping. -/
inductive MergeTree where
  | leaf (c : Cube)
  | merge (l r : MergeTree)

namespace MergeTree

/-- The cube the merges build. -/
def eval : MergeTree → Cube
  | leaf c => c
  | merge l r => l.eval.merge r.eval

/-- The cubes merged. -/
def leaves : MergeTree → List Cube
  | leaf c => [c]
  | merge l r => l.leaves ++ r.leaves

end MergeTree

namespace IncrHistory

/-- Before any write: every node's storage has nothing for the key, which
`storage_get` reads as a `Void`. -/
def Initial (h : IncrHistory) : Prop :=
  h.incs = [] ∧ h.produced = [] ∧ ∀ n, ∃ vv, h.stored n = .void vv

/-- What happens to the key. -/
inductive Event where
  /-- `do_flush` of an INCRBY at coordinator `node`, under the version its
  clock's `event` drew. -/
  | incrby (node : NodeId) (version : Version) (delta : ℤ)
  /-- `storage_set_remote` at `node` of the `i`-th produced cube (replication). -/
  | replicate (node : NodeId) (i : ℕ)
  /-- `storage_set_remote` at `node` of the cube `src` stores (sync, bootstrap). -/
  | sync (node src : NodeId)

/-- One event; the coordinator's clock draws a version above every version
the coordinator used before. -/
def step (h : IncrHistory) : Event → Option IncrHistory
  | .incrby node version delta =>
    if ∀ e ∈ h.incs, e.node = node → e.version < version then
      match incrbyMutator delta node version (h.stored node) with
      | .ok (c, _) =>
        some ⟨h.incs ++ [⟨node, version, delta⟩], Function.update h.stored node c, h.produced ++ [c]⟩
      | .error _ => none
    else none
  | .replicate node i =>
    h.produced[i]?.map fun c =>
      { h with stored := Function.update h.stored node ((h.stored node).merge c) }
  | .sync node src =>
    some { h with stored := Function.update h.stored node ((h.stored node).merge (h.stored src)) }

/-- The histories the key goes through. -/
abbrev Reachable : IncrHistory → Prop := Sucredb.Reachable Initial step

/-! ### The invariant -/

/-- An entry one of the increments wrote, whose total is the prefix sum of
its node's deltas up to its version. -/
def EntryOk (incs : List Incr) (e : NodeId × Version × ℤ) : Prop :=
  (∃ x ∈ incs, x.node = e.1 ∧ x.version = e.2.1) ∧ e.2.2 = (prefixSum incs e.1 e.2.1).bmod (2 ^ 64)

/-- A cube of the history: a `Void`, or a counter whose entries are `EntryOk`. -/
def CubeOk (incs : List Incr) : Cube → Prop
  | .void _ => True
  | .counter a => ∀ e ∈ a.values.entries, EntryOk incs e
  | _ => False

/-- Every cube is `CubeOk`; a coordinator's storage holds its latest entry;
every increment's entry is in the cube it produced. -/
structure Inv (h : IncrHistory) : Prop where
  produced : ∀ c ∈ h.produced, CubeOk h.incs c
  stored : ∀ n, CubeOk h.incs (h.stored n)
  latest : ∀ x ∈ h.incs, ∃ a e, h.stored x.node = .counter a ∧
    a.values.get? x.node = some e ∧ x.version ≤ e.1
  recorded : ∀ x ∈ h.incs, ∃ a, Cube.counter a ∈ h.produced ∧
    ∃ s, a.values.get? x.node = some (x.version, s)

section Lemmas

variable {incs : List Incr}

theorem prefixSum_append (incs : List Incr) (x : Incr) (node : NodeId) (version : Version) :
    prefixSum (incs ++ [x]) node version =
      prefixSum incs node version + if x.node = node ∧ x.version ≤ version then x.delta else 0 := by
  unfold prefixSum
  by_cases hx : x.node = node ∧ x.version ≤ version <;> simp [List.filter_append, hx]

/-- A prefix sum past every version of its node is the node's whole sum. -/
theorem prefixSum_of_ge {node : NodeId} {version : Version}
    (h : ∀ x ∈ incs, x.node = node → x.version ≤ version) : prefixSum incs node version = nodeSum incs node := by
  unfold prefixSum nodeSum
  congr 2
  refine List.filter_congr fun x hx => ?_
  by_cases hn : x.node = node
  · simp [hn, h x hx hn]
  · simp [hn]

/-- An increment above every version of its node leaves the entries of the
node, and of every other node, totalling what they did. -/
theorem EntryOk.append {e : NodeId × Version × ℤ} (he : EntryOk incs e) {x : Incr}
    (hx : ∀ y ∈ incs, y.node = x.node → y.version < x.version) : EntryOk (incs ++ [x]) e := by
  obtain ⟨⟨y, hy, hyn, hyv⟩, hs⟩ := he
  refine ⟨⟨y, List.mem_append_left _ hy, hyn, hyv⟩, ?_⟩
  rw [prefixSum_append, hs]
  by_cases hn : x.node = e.1
  · -- the entry's version is one of the node's, below the new one
    have hlt : e.2.1 < x.version := hyv ▸ hx y hy (hyn.trans hn.symm)
    simp [hn, Nat.not_le.mpr hlt]
  · simp [hn]

theorem CubeOk.append {c : Cube} (hc : CubeOk incs c) {x : Incr}
    (hx : ∀ y ∈ incs, y.node = x.node → y.version < x.version) : CubeOk (incs ++ [x]) c := by
  cases c with
  | void _ => trivial
  | counter a => exact fun e he => (hc e he).append hx
  | _ => exact hc

theorem CubeOk.merge {a b : Cube} (ha : CubeOk incs a) (hb : CubeOk incs b) :
    CubeOk incs (a.merge b) := by
  cases a <;> cases b <;> simp only [CubeOk] at ha hb <;> try contradiction
  case counter.counter a b =>
    exact fun e he => (Counter.mem_values_merge he).elim (ha e) (hb e)
  case counter.void a vv => exact ha
  case void.counter vv b => exact hb
  case void.void => trivial

/-- `CubeOk`'s entries at a node: an increment of the node wrote it, at most
at the node's latest version. -/
theorem CubeOk.get? {a : Counter} (ha : CubeOk incs (.counter a)) {k : NodeId}
    {e : Version × ℤ} (hk : a.values.get? k = some e) :
    (∃ x ∈ incs, x.node = k ∧ x.version = e.1) ∧ e.2 = (prefixSum incs k e.1).bmod (2 ^ 64) :=
  ha (k, e) ((a.values.get?_eq_some_iff).mp hk)

end Lemmas

/-! ### One step -/

section Step

variable {h : IncrHistory}

theorem Inv.initial (h₀ : Initial h) : Inv h := by
  obtain ⟨hincs, hprod, hvoid⟩ := h₀
  refine ⟨?_, fun n => ?_, ?_, ?_⟩
  · rw [hprod]
    exact fun c hc => absurd hc List.not_mem_nil
  · obtain ⟨vv, hv⟩ := hvoid n
    rw [hv]
    trivial
  · rw [hincs]
    exact fun x hx => absurd hx List.not_mem_nil
  · rw [hincs]
    exact fun x hx => absurd hx List.not_mem_nil

/-- The counter `into_counter` reads from a coordinator's storage holds the
coordinator's latest entry. -/
theorem Inv.latest_of_intoCounter (hi : Inv h) {node : NodeId} {a : Counter}
    (ha : (h.stored node).intoCounter = some a) {x : Incr} (hx : x ∈ h.incs) (hxn : x.node = node) :
    ∃ e, a.values.get? node = some e ∧ x.version ≤ e.1 := by
  obtain ⟨b, e, hb, he, hle⟩ := hi.latest x hx
  rw [hxn] at hb he
  rw [hb] at ha
  cases ha
  exact ⟨e, he, hle⟩

theorem Inv.cubeOk_of_intoCounter (hi : Inv h) {node : NodeId} {a : Counter}
    (ha : (h.stored node).intoCounter = some a) : CubeOk h.incs (.counter a) := by
  have hs := hi.stored node
  cases hc : h.stored node with
  | void vv =>
    rw [hc] at ha
    cases ha
    intro e he
    exact absurd he List.not_mem_nil
  | counter b =>
    rw [hc] at ha hs
    cases ha
    exact hs
  | _ =>
    rw [hc] at hs
    exact hs.elim

/-- The coordinator's total before its INCRBY: the sum of all its deltas,
wrapped, read from its latest entry, or `0` where it has none. -/
theorem Inv.total_of_intoCounter (hi : Inv h) {node : NodeId} {a : Counter}
    (ha : (h.stored node).intoCounter = some a) :
    ((a.values.get? node).getD (0, 0)).2 = (nodeSum h.incs node).bmod (2 ^ 64) := by
  cases hg : a.values.get? node with
  | none =>
    -- no increment of the node, or its latest entry would be there
    have hnone : h.incs.filter (fun x => x.node = node) = [] := by
      refine List.filter_eq_nil_iff.mpr fun x hx hxn => ?_
      obtain ⟨e, he, -⟩ := hi.latest_of_intoCounter ha hx (of_decide_eq_true hxn)
      rw [hg] at he
      cases he
    simp [nodeSum, hnone]
  | some e =>
    obtain ⟨-, hs⟩ := (hi.cubeOk_of_intoCounter ha).get? hg
    -- the latest entry is past every version of the node
    have hge : ∀ x ∈ h.incs, x.node = node → x.version ≤ e.1 := by
      intro x hx hxn
      obtain ⟨e', he', hle⟩ := hi.latest_of_intoCounter ha hx hxn
      rw [hg] at he'
      cases he'
      exact hle
    rw [Option.getD_some, hs, prefixSum_of_ge hge]

/-- The cube the coordinator's INCRBY produces: its own entry moves to the new
version and its whole sum plus the delta. -/
theorem Inv.incrby_cube (hi : Inv h) {node : NodeId} {version : Version} {delta : ℤ}
    (hfresh : ∀ e ∈ h.incs, e.node = node → e.version < version) {a : Counter}
    (ha : (h.stored node).intoCounter = some a) :
    CubeOk (h.incs ++ [⟨node, version, delta⟩]) (.counter (a.inc node version delta)) := by
  intro e he
  rcases VecMap.mem_entries_insert he with he | rfl
  · exact (hi.cubeOk_of_intoCounter ha e he).append hfresh
  · -- the new entry of the node
    refine ⟨⟨⟨node, version, delta⟩, List.mem_append_right _ (List.mem_singleton_self _), rfl, rfl⟩,
      ?_⟩
    show wrappingAdd ((a.values.get? node).getD (0, 0)).2 delta = _
    rw [wrappingAdd, hi.total_of_intoCounter ha, Int.bmod_add_bmod, prefixSum_append,
      if_pos ⟨rfl, le_rfl⟩, prefixSum_of_ge fun x hxm hxn => (hfresh x hxm hxn).le]

/-- A merge with a cube of the history keeps a counter side's entry at a
node, or raises its version. -/
theorem le_version_cube_merge {incs : List Incr} {x y : Cube} (hx : CubeOk incs x)
    (hy : CubeOk incs y) {a : Counter} (ha : x = .counter a ∨ y = .counter a) {k : NodeId}
    {e : Version × ℤ} (he : a.values.get? k = some e) :
    ∃ C e', x.merge y = .counter C ∧ C.values.get? k = some e' ∧ e.1 ≤ e'.1 := by
  cases x <;> cases y <;> simp only [CubeOk] at hx hy <;> try contradiction
  case counter.counter b c =>
    obtain ⟨e', he', hle⟩ := Counter.le_version_merge (a := b) (b := c) (by
      rcases ha with ha | ha <;> cases ha
      · exact .inl he
      · exact .inr he)
    exact ⟨_, e', rfl, he', hle⟩
  case counter.void b vv =>
    rcases ha with ha | ha <;> cases ha
    exact ⟨_, e, rfl, he, le_rfl⟩
  case void.counter vv c =>
    rcases ha with ha | ha <;> cases ha
    exact ⟨_, e, rfl, he, le_rfl⟩
  case void.void => rcases ha with ha | ha <;> cases ha

/-- Storage that merges a cube of the history in keeps the invariant. -/
theorem Inv.mergeInto (hi : Inv h) (node : NodeId) {c : Cube} (hc : CubeOk h.incs c) :
    Inv { h with stored := Function.update h.stored node ((h.stored node).merge c) } := by
  refine ⟨hi.produced, fun n => ?_, fun x hx => ?_, hi.recorded⟩
  · by_cases hn : n = node
    · subst hn
      simpa using (hi.stored n).merge hc
    · simpa [hn] using hi.stored n
  · obtain ⟨a, e, ha, he, hle⟩ := hi.latest x hx
    by_cases hn : x.node = node
    · -- the coordinator's storage: a merge never lowers its own entry
      rw [hn] at ha he ⊢
      obtain ⟨C, e', hC, he', hle'⟩ :=
        le_version_cube_merge (hi.stored node) hc (.inl ha) he
      exact ⟨C, e', by simpa using hC, he', hle.trans hle'⟩
    · exact ⟨a, e, by simpa [hn] using ha, he, hle⟩

theorem Inv.incrby (hi : Inv h) {node : NodeId} {version : Version} {delta : ℤ}
    (hfresh : ∀ e ∈ h.incs, e.node = node → e.version < version) {a : Counter}
    (ha : (h.stored node).intoCounter = some a) :
    Inv ⟨h.incs ++ [⟨node, version, delta⟩],
      Function.update h.stored node (.counter (a.inc node version delta)),
      h.produced ++ [.counter (a.inc node version delta)]⟩ := by
  have hnew : CubeOk (h.incs ++ [⟨node, version, delta⟩]) (.counter (a.inc node version delta)) :=
    hi.incrby_cube hfresh ha
  have hown : (a.inc node version delta).values.get? node =
      some (version, wrappingAdd ((a.values.get? node).getD (0, 0)).2 delta) := by
    simp [Counter.get?_inc]
  refine ⟨fun c hc => ?_, fun n => ?_, fun x hx => ?_, fun x hx => ?_⟩
  · rcases List.mem_append.mp hc with hc | hc
    · exact (hi.produced c hc).append hfresh
    · rw [List.mem_singleton.mp hc]
      exact hnew
  · by_cases hn : n = node
    · subst hn
      simpa using hnew
    · simpa [hn] using (hi.stored n).append hfresh
  · rcases List.mem_append.mp hx with hx | hx
    · by_cases hn : x.node = node
      · -- an earlier increment of the coordinator, below the new version
        rw [hn]
        exact ⟨_, _, by simp, hown, (hfresh x hx hn).le⟩
      · obtain ⟨b, e, hb, he, hle⟩ := hi.latest x hx
        exact ⟨b, e, by simpa [hn] using hb, he, hle⟩
    · rw [List.mem_singleton.mp hx]
      exact ⟨_, _, by simp, hown, le_rfl⟩
  · rcases List.mem_append.mp hx with hx | hx
    · obtain ⟨b, hb, hs⟩ := hi.recorded x hx
      exact ⟨b, List.mem_append_left _ hb, hs⟩
    · rw [List.mem_singleton.mp hx]
      exact ⟨_, List.mem_append_right _ (List.mem_singleton_self _), _, hown⟩

theorem Inv.step (hi : Inv h) {e : Event} {h' : IncrHistory} (hs : IncrHistory.step h e = some h') :
    Inv h' := by
  cases e with
  | incrby node version delta =>
    simp only [IncrHistory.step] at hs
    split at hs
    · rename_i hfresh
      split at hs
      · rename_i c r hm
        simp only [incrbyMutator] at hm
        split at hm
        · cases hm
        · rename_i a ha
          cases hm
          cases hs
          exact hi.incrby hfresh ha
      · cases hs
    · cases hs
  | replicate node i =>
    simp only [IncrHistory.step, Option.map_eq_some_iff] at hs
    obtain ⟨c, hc, rfl⟩ := hs
    exact hi.mergeInto node (hi.produced c (List.mem_of_getElem? hc))
  | sync node src =>
    simp only [IncrHistory.step, Option.some.injEq] at hs
    subst hs
    exact hi.mergeInto node (hi.stored src)

theorem inv_of_reachable (hr : Reachable h) : Inv h := by
  induction hr with
  | init h₀ => exact Inv.initial h₀
  | step e _ hs ih => exact ih.step hs

end Step

/-! ### Merges of produced cubes -/

theorem cubeOk_eval {incs : List Incr} :
    ∀ (t : MergeTree), (∀ c ∈ t.leaves, CubeOk incs c) → CubeOk incs t.eval
  | .leaf c, ht => ht c (List.mem_singleton_self c)
  | .merge l r, ht =>
    (cubeOk_eval l fun c hc => ht c (List.mem_append_left _ hc)).merge
      (cubeOk_eval r fun c hc => ht c (List.mem_append_right _ hc))

/-- A merge of cubes of the history reaches, at each node, at least the
version any of its counters has there. -/
theorem le_version_eval {incs : List Incr} {k : NodeId} :
    ∀ (t : MergeTree), (∀ c ∈ t.leaves, CubeOk incs c) → ∀ {a : Counter} {e : Version × ℤ},
      Cube.counter a ∈ t.leaves → a.values.get? k = some e →
      ∃ C e', t.eval = .counter C ∧ C.values.get? k = some e' ∧ e.1 ≤ e'.1
  | .leaf c, _, a, e, ha, he => by
    have hc := List.mem_singleton.mp ha
    subst hc
    exact ⟨a, e, rfl, he, le_rfl⟩
  | .merge l r, ht, a, e, ha, he => by
    have hl : ∀ c ∈ l.leaves, CubeOk incs c := fun c hc => ht c (List.mem_append_left _ hc)
    have hr : ∀ c ∈ r.leaves, CubeOk incs c := fun c hc => ht c (List.mem_append_right _ hc)
    rcases List.mem_append.mp ha with ha | ha
    · obtain ⟨C, e', hC, he', hle⟩ := le_version_eval l hl ha he
      obtain ⟨D, e'', hD, he'', hle'⟩ :=
        le_version_cube_merge (cubeOk_eval l hl) (cubeOk_eval r hr) (.inl hC) he'
      exact ⟨D, e'', hD, he'', hle.trans hle'⟩
    · obtain ⟨C, e', hC, he', hle⟩ := le_version_eval r hr ha he
      obtain ⟨D, e'', hD, he'', hle'⟩ :=
        le_version_cube_merge (cubeOk_eval l hl) (cubeOk_eval r hr) (.inr hC) he'
      exact ⟨D, e'', hD, he'', hle.trans hle'⟩

/-- The nodes' whole sums add up to the sum of all deltas, over any list of
distinct nodes that holds every coordinator. -/
theorem sum_nodeSum {ks : List NodeId} (hks : ks.Nodup) :
    ∀ {incs : List Incr}, (∀ x ∈ incs, x.node ∈ ks) →
      (ks.map (nodeSum incs)).sum = (incs.map Incr.delta).sum
  | [], _ => by
    have h0 : nodeSum [] = fun _ => 0 := rfl
    simp [h0]
  | x :: incs, hsub => by
    have hx : (ks.map fun k => if x.node = k then x.delta else 0).sum = x.delta := by
      rw [← List.sum_toFinset _ hks, Finset.sum_ite_eq, if_pos (List.mem_toFinset.mpr
        (hsub x List.mem_cons_self))]
    have hsplit : ∀ k, nodeSum (x :: incs) k = (if x.node = k then x.delta else 0) + nodeSum incs k := by
      intro k
      by_cases hk : x.node = k <;> simp [nodeSum, hk]
    rw [List.map_congr_left fun k _ => hsplit k, List.sum_map_add, hx,
      sum_nodeSum hks fun y hy => hsub y (List.mem_cons_of_mem _ hy), List.map_cons, List.sum_cons]

/-- A tree whose leaves are the produced cubes, in order, merges every one of
them and nothing else. -/
theorem leaves_of_eq_produced {h : IncrHistory} {t : MergeTree} (hl : t.leaves = h.produced) :
    (∀ c ∈ t.leaves, c ∈ h.produced ∨ ∃ vv, c = .void vv) ∧ ∀ c ∈ h.produced, c ∈ t.leaves :=
  ⟨fun _ hc => .inl (hl ▸ hc), fun _ hc => hl ▸ hc⟩

end IncrHistory

end Sucredb
