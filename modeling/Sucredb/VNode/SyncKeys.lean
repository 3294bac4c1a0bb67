/-
Sucredb.VNode.SyncKeys — the keys a `SyncKeysIterator` hands a sync sender.

`next` refills an empty batch from the dots not looked up yet (`fill`). The
refill skips the dots the log lacks and stops once the batch holds `limit`
keys. `next` answers `None` only when a refill finds no key, and a refill
comes back empty only after it has looked up every dot left. The limit is
computed again at each refill, from the `size_hint` of the delta and the
capacity of the new `HashSet`; the run takes it as any limit per call of
`next`. So on a fixed storage, whatever the limits, the keys `next` yields
before its first `None` are those the log holds for the dots of the delta. Each comes at least once:
a key that two dots share can come once per batch. No other key comes.

A refill is described once by `Refilled`: it looked up a prefix of the dots,
its batch holds the log's keys of that prefix, at most one new key per dot,
and it stopped early only with keys in hand (`fill_refilled`). A run of
`next` then ends within one call more than the dots left plus the keys of
the batch. A refill looks up at least one dot per key it adds, and each call
that yields a key takes one from the batch (`keysUntilNone_spec`).
-/
import Sucredb.VNode.Sync

namespace Sucredb

namespace SyncKeysIterator

/-- Call `next` until it answers `None`, at most `fuel` times, the `i`-th call
with the batch limit `limits i`: the keys it yielded, or `none` when the fuel
runs out first. -/
def keysUntilNone (storage : Storage) : (ℕ → ℕ) → ℕ → SyncKeysIterator → Option (List Bytes)
  | _, 0, _ => none
  | limits, fuel + 1, it =>
    match it.next storage (limits 0) with
    | (none, _) => some []
    | (some k, it') => (keysUntilNone storage (fun i => limits (i + 1)) fuel it').map (k :: ·)

/-- What a refill `r` of the batch `keys` from the dots `ds` did: it looked up
a prefix `pre` of the dots, its batch holds the keys it had and the log's keys
of `pre`, one new key at most per dot, and it stopped before the end of the
dots only with keys in hand. -/
def Refilled (storage : Storage) (ds : List Dot) (keys : List Bytes) (r : List Bytes × List Dot) :
    Prop :=
  (∃ pre, ds = pre ++ r.2 ∧ (∀ k, k ∈ r.1 ↔ k ∈ keys ∨ ∃ d ∈ pre, storage.logGet d = some k) ∧
    r.1.length ≤ keys.length + pre.length) ∧ (r.2 ≠ [] → r.1 ≠ [])

variable {storage : Storage} {limit : ℕ}

/-- The key of a dot joins the batch unless it is there. -/
theorem mem_insertKey {keys : List Bytes} {key k : Bytes} :
    k ∈ (if key ∈ keys then keys else keys ++ [key]) ↔ k ∈ keys ∨ k = key := by
  split
  · rename_i h
    exact ⟨.inl, fun hk => hk.elim id fun e => e ▸ h⟩
  · simp

theorem length_insertKey (keys : List Bytes) (key : Bytes) :
    (if key ∈ keys then keys else keys ++ [key]).length ≤ keys.length + 1 := by
  split <;> simp

/-- Every refill is described by `Refilled`; the proof follows the loop of
`fill` dot by dot. -/
theorem fill_refilled : ∀ (ds : List Dot) (keys : List Bytes),
    Refilled storage ds keys (fill storage limit ds keys)
  | [], keys => ⟨⟨[], rfl, fun k => by simp [fill], by simp [fill]⟩, fun h => absurd rfl h⟩
  | d :: ds, keys => by
    unfold fill
    cases hd : storage.logGet d with
    | none =>
      -- a dot the log lacks adds nothing
      obtain ⟨⟨pre, hsplit, hmem, hlen⟩, hstop⟩ := fill_refilled ds keys
      dsimp only
      refine ⟨⟨d :: pre, by rw [List.cons_append, ← hsplit], fun k => ?_, ?_⟩, hstop⟩
      · rw [hmem k]
        simp only [List.mem_cons, exists_eq_or_imp, hd, reduceCtorEq, false_or]
      · simp only [List.length_cons]
        omega
    | some key =>
      -- the dot's key joins the batch
      obtain ⟨keys', hkeys'⟩ : ∃ keys', (if key ∈ keys then keys else keys ++ [key]) = keys' :=
        ⟨_, rfl⟩
      have hins : ∀ k, k ∈ keys' ↔ k ∈ keys ∨ ∃ d' ∈ [d], storage.logGet d' = some k := by
        intro k
        rw [← hkeys', mem_insertKey]
        simp [hd, eq_comm]
      have hlen₁ : keys'.length ≤ keys.length + 1 := hkeys' ▸ length_insertKey keys key
      dsimp only
      rw [hkeys']
      by_cases hfull : limit ≤ keys'.length
      · -- the batch is full: stop after this dot
        rw [if_pos hfull]
        refine ⟨⟨[d], rfl, hins, by simpa using hlen₁⟩, fun _ => ?_⟩
        exact List.ne_nil_of_mem ((hins key).mpr (.inr ⟨d, List.mem_singleton_self d, hd⟩))
      · -- go on with the grown batch
        rw [if_neg hfull]
        obtain ⟨⟨pre, hsplit, hmem, hlen⟩, hstop⟩ := fill_refilled ds keys'
        refine ⟨⟨d :: pre, by rw [List.cons_append, ← hsplit], fun k => ?_, ?_⟩, hstop⟩
        · rw [hmem k, hins k]
          simp only [List.mem_cons, List.not_mem_nil, or_false, exists_eq_left, exists_eq_or_imp]
          tauto
        · simp only [List.length_cons]
          omega

/-- A run of `next` from any iterator, under any limits, ends within one call
more than the dots left plus the keys of its batch, and yields the batch's
keys and the log's keys of the dots left. -/
theorem keysUntilNone_spec :
    ∀ (limits : ℕ → ℕ) (fuel : ℕ) (it : SyncKeysIterator),
      it.dotsDelta.length + it.keys.length < fuel →
      ∃ ks, keysUntilNone storage limits fuel it = some ks ∧
        ∀ k, k ∈ ks ↔ k ∈ it.keys ∨ ∃ d ∈ it.dotsDelta, storage.logGet d = some k
  | _, 0, _, h => absurd h (Nat.not_lt_zero _)
  | limits, fuel + 1, ⟨ds, k :: ks⟩, h => by
    -- a key of the batch
    have h' : ds.length + ks.length < fuel := by
      simp only [List.length_cons] at h
      omega
    obtain ⟨ks', hrun, hmem⟩ := keysUntilNone_spec (fun i => limits (i + 1)) fuel ⟨ds, ks⟩ h'
    refine ⟨k :: ks', by simp [keysUntilNone, next, hrun], fun k' => ?_⟩
    rw [List.mem_cons, hmem k', List.mem_cons]
    tauto
  | limits, fuel + 1, ⟨ds, []⟩, h => by
    -- an empty batch: refill it under this call's limit
    have hr : Refilled storage ds [] (fill storage (limits 0) ds []) := fill_refilled ds []
    rcases hfill : fill storage (limits 0) ds [] with ⟨_ | ⟨k, ks⟩, rest⟩ <;> rw [hfill] at hr <;>
      obtain ⟨⟨pre, hsplit, hmem, hlen⟩, hstop⟩ := hr
    · -- nothing found: every dot has been looked up, and none has a key
      have hrest : rest = [] := by
        by_contra hne
        exact hstop hne rfl
      subst hrest
      rw [List.append_nil] at hsplit
      subst hsplit
      refine ⟨[], by simp [keysUntilNone, next, hfill], fun k => ?_⟩
      simpa using hmem k
    · have h' : rest.length + ks.length < fuel := by
        have := congrArg List.length hsplit
        simp only [List.length_append, List.length_cons, List.length_nil] at this h hlen
        omega
      obtain ⟨ks', hrun, hmem'⟩ := keysUntilNone_spec (fun i => limits (i + 1)) fuel ⟨rest, ks⟩ h'
      refine ⟨k :: ks', by simp [keysUntilNone, next, hfill, hrun], fun k' => ?_⟩
      -- the batch holds the keys of the dots looked up, the run those of the rest
      have hpre : ∀ x, x ∈ k :: ks ↔ ∃ d ∈ pre, storage.logGet d = some x := by
        simpa using hmem
      rw [List.mem_cons, hmem' k', hsplit]
      simp only [List.not_mem_nil, false_or, List.mem_append]
      constructor
      · rintro (rfl | hk | ⟨d, hd, hdk⟩)
        · obtain ⟨d, hd, hdk⟩ := (hpre _).mp List.mem_cons_self
          exact ⟨d, .inl hd, hdk⟩
        · obtain ⟨d, hd, hdk⟩ := (hpre k').mp (List.mem_cons_of_mem _ hk)
          exact ⟨d, .inl hd, hdk⟩
        · exact ⟨d, .inr hd, hdk⟩
      · rintro ⟨d, hd | hd, hdk⟩
        · rcases List.mem_cons.mp ((hpre k').mpr ⟨d, hd, hdk⟩) with h | h
          · exact .inl h
          · exact .inr (.inl h)
        · exact .inr (.inr ⟨d, hd, hdk⟩)

/-- On a fixed storage, and whatever batch limit each call of `next` computes,
the iterator made from the dots of a delta (`SyncKeysIterator::new`) answers
`None` within one call more than the delta has dots. The keys it yields before
that are exactly the keys the log holds for the delta's dots. -/
theorem sync_keys_iterator_finds_every_key (storage : Storage) (limits : ℕ → ℕ)
    (delta : List Dot) :
    ∃ ks, keysUntilNone storage limits (delta.length + 1) ⟨delta, []⟩ = some ks ∧
      ∀ k, k ∈ ks ↔ ∃ d ∈ delta, storage.logGet d = some k := by
  have h : ∃ ks, keysUntilNone storage limits (delta.length + 1) ⟨delta, []⟩ = some ks ∧
      ∀ k, k ∈ ks ↔ k ∈ ([] : List Bytes) ∨ ∃ d ∈ delta, storage.logGet d = some k :=
    keysUntilNone_spec limits (delta.length + 1) ⟨delta, []⟩ (by simp)
  obtain ⟨ks, hrun, hmem⟩ := h
  exact ⟨ks, hrun, fun k => by simpa using hmem k⟩

end SyncKeysIterator

end Sucredb
