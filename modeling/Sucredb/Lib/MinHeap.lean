/-
Sucredb.Lib.MinHeap — a min-priority queue of entries `(priority, item)`, as
a list kept sorted by priority: the contract of a binary heap whose order puts
the least priority on top.

`push` inserts in order (`List.orderedInsert`), `pop` drops the top, and
`replaceTop` is a write through `peek_mut`: the top is replaced and the new
entry sinks to its place. `peek` is the head of the list. The `sorted` field
makes an out-of-order heap unconstructible, so the head is always an entry of
least priority (`head_le`). Among entries of equal priority the list keeps one
order and a binary heap may keep another; no lemma here depends on which.

The lemmas are what a client of the heap reasons with: what `push` does to the
entries (membership, filters, counts) and that the top bounds the rest.

Nothing here names the repository: the module can be lifted out as is.
-/
import Mathlib.Data.List.Sort

universe u v

namespace MinHeap

variable {P : Type u} {α : Type v} [LinearOrder P]

/-- Entries compare by priority only. -/
def PrioLe (a b : P × α) : Prop := a.1 ≤ b.1

instance : DecidableRel (PrioLe : P × α → P × α → Prop) := fun a b =>
  inferInstanceAs (Decidable (a.1 ≤ b.1))

instance : Std.Total (PrioLe : P × α → P × α → Prop) := ⟨fun a b => le_total a.1 b.1⟩

instance : IsTrans (P × α) PrioLe := ⟨fun _ _ _ => le_trans⟩

end MinHeap

/-- A min-heap of entries: a list sorted by priority, least first. -/
structure MinHeap (P : Type u) [LinearOrder P] (α : Type v) where
  entries : List (P × α)
  sorted : entries.Pairwise MinHeap.PrioLe

namespace MinHeap

variable {P : Type u} {α : Type v} [LinearOrder P]

/-- The heap with no entry. -/
def empty : MinHeap P α := ⟨[], .nil⟩

/-- The number of entries. -/
def size (h : MinHeap P α) : ℕ := h.entries.length

/-- Add an entry at its place in the order. -/
def push (h : MinHeap P α) (x : P × α) : MinHeap P α :=
  ⟨h.entries.orderedInsert PrioLe x, List.Pairwise.orderedInsert x h.entries h.sorted⟩

/-- Drop the top entry. -/
def pop (h : MinHeap P α) : MinHeap P α :=
  ⟨h.entries.tail, h.sorted.sublist (List.tail_sublist _)⟩

/-- Overwrite the top entry through `peek_mut`: it goes, and `x` takes its place
in the order. -/
def replaceTop (h : MinHeap P α) (x : P × α) : MinHeap P α :=
  h.pop.push x

theorem mem_push {h : MinHeap P α} {x y : P × α} :
    y ∈ (h.push x).entries ↔ y = x ∨ y ∈ h.entries :=
  List.mem_orderedInsert PrioLe

theorem push_perm (h : MinHeap P α) (x : P × α) : (h.push x).entries.Perm (x :: h.entries) :=
  List.perm_orderedInsert PrioLe x h.entries

/-- An entry that a filter drops leaves the filtered entries as they were. -/
theorem filter_push_of_neg {h : MinHeap P α} {x : P × α} {p : P × α → Bool} (hx : p x = false) :
    (h.push x).entries.filter p = h.entries.filter p := by
  simp only [push, List.orderedInsert_eq_take_drop, List.filter_append, List.filter_cons, hx,
    Bool.false_eq_true, if_false]
  rw [← List.filter_append, List.takeWhile_append_dropWhile]

/-- An entry that a filter keeps is all it keeps of a heap where it kept nothing. -/
theorem filter_push_of_pos {h : MinHeap P α} {x : P × α} {p : P × α → Bool} (hx : p x = true)
    (hnil : h.entries.filter p = []) : (h.push x).entries.filter p = [x] := by
  have hperm := (push_perm h x).filter p
  rw [List.filter_cons_of_pos hx, hnil] at hperm
  exact List.perm_singleton.mp hperm

theorem countP_push (h : MinHeap P α) (x : P × α) (p : P × α → Bool) :
    (h.push x).entries.countP p = h.entries.countP p + if p x then 1 else 0 := by
  rw [(push_perm h x).countP_eq, List.countP_cons]

/-- The first entry of a sorted list bounds every entry. -/
theorem head_le {x y : P × α} {l : List (P × α)} (hl : (x :: l).Pairwise PrioLe)
    (hy : y ∈ x :: l) : x.1 ≤ y.1 := by
  rcases List.mem_cons.mp hy with rfl | hy
  · exact le_rfl
  · exact List.rel_of_pairwise_cons hl hy

end MinHeap
