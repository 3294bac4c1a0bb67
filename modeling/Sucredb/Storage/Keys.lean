/-
Sucredb.Storage.Keys — the RocksDB keys of `storage.rs`, which `Storage` reads
as maps.

Every key of a vnode starts with its number, a big-endian `u16`. A data key
(`build_key`) has the client's key after it. A log key (`build_log_key`) has a
dot after it, the node id and the version each a big-endian `u64`, and
`build_log_prefix` is the number and node id alone. RocksDB orders keys
bytewise, and a string of fixed-width big-endian words sorts as the tuple of
its numbers (`Binary.append_lt_append_iff`, `Binary.bigEndian_lt_bigEndian_iff`):
log keys sort by vnode, then node id, then version (`buildLogKey_lt_iff`).
So the keys from `(prefix, start)` up to the prefix of `prefix + 1` are the
dots of `prefix` from `start` on (`buildLogKey_mem_range_iff`), the range
`log_iterator` scans, and the keys from the number of a vnode up to the next
number are the keys of that vnode and no other (`vnode_range_iff`), the range
`clear` deletes. `LogStorageIteratorIter` reads a log key back as its dot
(`logKeyDot_buildLogKey`).

The words are exact where the numbers fit: a vnode number below `2 ^ 16`, a
node id or version below `2 ^ 64`. The bounds `prefix + 1` and `num + 1` fit
for node ids below `2 ^ 63`, as `generate_id` and `Database::new` give them, and
for vnode numbers below `u16::MAX`.
-/
import Sucredb.Storage
import Sucredb.Lib.Binary

namespace Sucredb

namespace Storage

open Binary

/-- `build_log_key`: the vnode number as a big-endian `u16`, then the dot's node
id and version as big-endian `u64`s. -/
def buildLogKey (num : ℕ) (logKey : Dot) : Bytes :=
  bigEndian 2 num ++ bigEndian 8 logKey.1 ++ bigEndian 8 logKey.2

/-- `build_log_prefix`: the vnode number as a big-endian `u16`, then the node id
as a big-endian `u64`. -/
def buildLogPrefix (num : ℕ) (pfx : NodeId) : Bytes :=
  bigEndian 2 num ++ bigEndian 8 pfx

/-- `LogStorageIteratorIter::next` on one key: `GenericIteratorIter` reads the
vnode number off the first two bytes and hands on the rest, from which the
dot's two `u64`s are read. `none` is the panic of a slice out of range. -/
def logKeyDot (key : Bytes) : Option Dot := do
  let (_, key) ← readBigEndian 2 key
  let (first, rest) ← readBigEndian 8 key
  let (second, _) ← readBigEndian 8 rest
  pure (first, second)

/-! ## The layout -/

/-- A node id below `2 ^ 63` is a `u64`, and so is the one after it. -/
theorem lt_two_pow_64 {n : ℕ} (h : n < 2 ^ 63) : n + 1 < 2 ^ 64 := by omega

theorem nodeId_lt_two_pow_64 {n : ℕ} (h : n < 2 ^ 63) : n < 2 ^ 64 :=
  Nat.lt_of_succ_lt (lt_two_pow_64 h)

theorem buildLogKey_eq (num : ℕ) (n v : ℕ) :
    buildLogKey num (n, v) = buildLogPrefix num n ++ bigEndian 8 v := rfl

@[simp] theorem length_buildLogPrefix (num n : ℕ) : (buildLogPrefix num n).length = 10 := by
  simp [buildLogPrefix]

/-- `build_key` writes `write_u16::<BigEndian>` of the number before the key. -/
theorem buildKey_eq_some {bufferLen num : ℕ} {key k : Bytes}
    (h : buildKey bufferLen num key = some k) : k = bigEndian 2 num ++ key := by
  unfold buildKey at h
  split at h
  · exact (Option.some.inj h).symm
  · exact absurd h (by simp)

/-- Within one vnode's number, a key is ordered by the words after it. -/
theorem buildLogPrefix_lt_iff {num₁ num₂ n₁ n₂ : ℕ} (hnum₁ : num₁ < 2 ^ 16) (hnum₂ : num₂ < 2 ^ 16)
    (hn₁ : n₁ < 2 ^ 64) (hn₂ : n₂ < 2 ^ 64) :
    buildLogPrefix num₁ n₁ < buildLogPrefix num₂ n₂ ↔ num₁ < num₂ ∨ num₁ = num₂ ∧ n₁ < n₂ := by
  rw [buildLogPrefix, buildLogPrefix, append_lt_append_iff (by simp),
    bigEndian_lt_bigEndian_iff hnum₁ hnum₂, bigEndian_inj hnum₁ hnum₂,
    bigEndian_lt_bigEndian_iff hn₁ hn₂]

theorem buildLogPrefix_inj {num₁ num₂ n₁ n₂ : ℕ} (hnum₁ : num₁ < 2 ^ 16) (hnum₂ : num₂ < 2 ^ 16)
    (hn₁ : n₁ < 2 ^ 64) (hn₂ : n₂ < 2 ^ 64) :
    buildLogPrefix num₁ n₁ = buildLogPrefix num₂ n₂ ↔ num₁ = num₂ ∧ n₁ = n₂ := by
  constructor
  · intro h
    obtain ⟨hnum, hn⟩ := List.append_inj h (by simp)
    exact ⟨(bigEndian_inj hnum₁ hnum₂).mp hnum, (bigEndian_inj hn₁ hn₂).mp hn⟩
  · rintro ⟨rfl, rfl⟩
    rfl

/-- A data key gives back its vnode number and the client's key. -/
theorem vnodeKey_inj {num₁ num₂ : ℕ} {k₁ k₂ : Bytes} (hnum₁ : num₁ < 2 ^ 16)
    (hnum₂ : num₂ < 2 ^ 16) :
    bigEndian 2 num₁ ++ k₁ = bigEndian 2 num₂ ++ k₂ ↔ num₁ = num₂ ∧ k₁ = k₂ := by
  constructor
  · intro h
    obtain ⟨hnum, hk⟩ := List.append_inj h (by simp)
    exact ⟨(bigEndian_inj hnum₁ hnum₂).mp hnum, hk⟩
  · rintro ⟨rfl, rfl⟩
    rfl

/-- A log key gives back its vnode number and its dot. -/
theorem buildLogKey_inj {num₁ num₂ : ℕ} {d₁ d₂ : Dot} (hnum₁ : num₁ < 2 ^ 16)
    (hnum₂ : num₂ < 2 ^ 16) (hn₁ : d₁.1 < 2 ^ 64) (hn₂ : d₂.1 < 2 ^ 64) (hv₁ : d₁.2 < 2 ^ 64)
    (hv₂ : d₂.2 < 2 ^ 64) :
    buildLogKey num₁ d₁ = buildLogKey num₂ d₂ ↔ num₁ = num₂ ∧ d₁ = d₂ := by
  obtain ⟨n₁, v₁⟩ := d₁
  obtain ⟨n₂, v₂⟩ := d₂
  constructor
  · intro h
    rw [buildLogKey_eq, buildLogKey_eq] at h
    obtain ⟨hpre, hv⟩ := List.append_inj h (by simp)
    obtain ⟨rfl, rfl⟩ := (buildLogPrefix_inj hnum₁ hnum₂ hn₁ hn₂).mp hpre
    exact ⟨rfl, by rw [(bigEndian_inj hv₁ hv₂).mp hv]⟩
  · rintro ⟨rfl, hd⟩
    rw [hd]

/-- A log key is a key of its vnode: its number, then the rest. -/
theorem buildLogKey_eq_vnode (num : ℕ) (dot : Dot) :
    buildLogKey num dot = bigEndian 2 num ++ (bigEndian 8 dot.1 ++ bigEndian 8 dot.2) := by
  rw [buildLogKey, List.append_assoc]

/-- Log keys sort by vnode number, then node id, then version. -/
theorem buildLogKey_lt_iff {num₁ num₂ n₁ n₂ v₁ v₂ : ℕ} (hnum₁ : num₁ < 2 ^ 16)
    (hnum₂ : num₂ < 2 ^ 16) (hn₁ : n₁ < 2 ^ 64) (hn₂ : n₂ < 2 ^ 64) (hv₁ : v₁ < 2 ^ 64)
    (hv₂ : v₂ < 2 ^ 64) :
    buildLogKey num₁ (n₁, v₁) < buildLogKey num₂ (n₂, v₂) ↔
      num₁ < num₂ ∨ num₁ = num₂ ∧ (n₁ < n₂ ∨ n₁ = n₂ ∧ v₁ < v₂) := by
  rw [buildLogKey_eq, buildLogKey_eq, append_lt_append_iff (by simp),
    buildLogPrefix_lt_iff hnum₁ hnum₂ hn₁ hn₂, buildLogPrefix_inj hnum₁ hnum₂ hn₁ hn₂,
    bigEndian_lt_bigEndian_iff hv₁ hv₂]
  tauto

/-- A log key lies between the prefix of its node id and that of the next. -/
theorem buildLogKey_mem_prefix {num n : ℕ} (v : ℕ) (hnum : num < 2 ^ 16) (hn : n + 1 < 2 ^ 64) :
    buildLogPrefix num n ≤ buildLogKey num (n, v) ∧
      buildLogKey num (n, v) < buildLogPrefix num (n + 1) := by
  refine ⟨List.le_append_left, ?_⟩
  rw [buildLogKey_eq, append_lt_iff (by simp), buildLogPrefix_lt_iff hnum hnum (by omega) hn]
  exact .inr ⟨rfl, Nat.lt_succ_self n⟩

/-- `LogStorageIteratorIter` reads a log key back as its dot. -/
theorem logKeyDot_buildLogKey {num n v : ℕ} (hnum : num < 2 ^ 16) (hn : n < 2 ^ 64)
    (hv : v < 2 ^ 64) : logKeyDot (buildLogKey num (n, v)) = some (n, v) := by
  have hkey : buildLogKey num (n, v) = bigEndian 2 num ++ (bigEndian 8 n ++ bigEndian 8 v) := by
    simp [buildLogKey]
  have hlast : readBigEndian 8 (bigEndian 8 v) = some (v, []) := by
    simpa using readBigEndian_bigEndian (w := 8) hv []
  simp [logKeyDot, hkey, readBigEndian_bigEndian (w := 2) hnum, readBigEndian_bigEndian (w := 8) hn,
    hlast]

/-- The keys `log_iterator(prefix, start)` scans, from the key of
`(prefix, start)` up to the prefix of `prefix + 1`, are the dots of node
`prefix` in the same vnode, from version `start` on. -/
theorem buildLogKey_mem_range_iff {num num' pfx start n v : ℕ} (hnum : num < 2 ^ 16)
    (hnum' : num' < 2 ^ 16) (hpfx : pfx + 1 < 2 ^ 64) (hstart : start < 2 ^ 64)
    (hn : n < 2 ^ 64) (hv : v < 2 ^ 64) :
    (buildLogKey num (pfx, start) ≤ buildLogKey num' (n, v) ∧
        buildLogKey num' (n, v) < buildLogPrefix num (pfx + 1)) ↔
      num' = num ∧ n = pfx ∧ start ≤ v := by
  rw [← List.not_lt, buildLogKey_lt_iff hnum' hnum hn (by omega) hv hstart, buildLogKey_eq,
    append_lt_iff (by simp), buildLogPrefix_lt_iff hnum' hnum hn hpfx]
  omega

/-- The range `clear` deletes, from a vnode's number up to the next, holds the
keys that start with that number and with no other. -/
theorem vnode_range_iff {num num' : ℕ} (hnum : num + 1 < 2 ^ 16) (hnum' : num' < 2 ^ 16)
    (rest : Bytes) :
    (bigEndian 2 num ≤ bigEndian 2 num' ++ rest ∧ bigEndian 2 num' ++ rest < bigEndian 2 (num + 1)) ↔
      num' = num := by
  rw [le_append_iff (by simp), append_lt_iff (by simp), ← List.not_lt,
    bigEndian_lt_bigEndian_iff hnum' (by omega), bigEndian_lt_bigEndian_iff hnum' hnum]
  omega

/-- For a vnode number below `u16::MAX`: log keys of dots with node ids below
`2 ^ 63` sort as the dots do, and each lies between the prefix of its node id
and that of the next; a log key reads back as its dot; and a data key lies
between the vnode's number and the next. -/
theorem storage_keys_order_preserving (num : ℕ) (hnum : num < 65535) :
    (∀ n₁ v₁ n₂ v₂ : ℕ, n₁ < 2 ^ 63 → n₂ < 2 ^ 63 → v₁ < 2 ^ 64 → v₂ < 2 ^ 64 →
      (buildLogKey num (n₁, v₁) < buildLogKey num (n₂, v₂) ↔ n₁ < n₂ ∨ n₁ = n₂ ∧ v₁ < v₂)) ∧
    (∀ n v : ℕ, n < 2 ^ 63 → v < 2 ^ 64 →
      buildLogPrefix num n ≤ buildLogKey num (n, v) ∧
        buildLogKey num (n, v) < buildLogPrefix num (n + 1)) ∧
    (∀ n v : ℕ, n < 2 ^ 64 → v < 2 ^ 64 → logKeyDot (buildLogKey num (n, v)) = some (n, v)) ∧
    (∀ (bufferLen : ℕ) (key k : Bytes), buildKey bufferLen num key = some k →
      bigEndian 2 num ≤ k ∧ k < bigEndian 2 (num + 1)) := by
  refine ⟨fun n₁ v₁ n₂ v₂ hn₁ hn₂ hv₁ hv₂ => ?_, fun n v hn _ => ?_,
    fun n v hn hv => logKeyDot_buildLogKey (by omega) hn hv, fun bufferLen key k hk => ?_⟩
  · rw [buildLogKey_lt_iff (by omega) (by omega) (by omega) (by omega) hv₁ hv₂]
    simp
  · exact buildLogKey_mem_prefix v (by omega) (by omega)
  · rw [buildKey_eq_some hk]
    exact (vnode_range_iff (by omega) (by omega) key).mpr rfl

/-- The log keys of `test_iter_log` in vnode 1: the versions of node 1 in
order, node 2 after them, and below the prefix of node 3. -/
theorem log_keys_of_vnode_one :
    buildLogKey 1 (1, 2) < buildLogKey 1 (1, 3) ∧ buildLogKey 1 (1, 3) < buildLogKey 1 (2, 1) ∧
      buildLogKey 1 (2, 1) < buildLogPrefix 1 3 ∧
      logKeyDot (buildLogKey 1 (2, 1)) = some (2, 1) := by
  obtain ⟨hord, hpre, hdec, -⟩ := storage_keys_order_preserving 1 (by decide)
  exact ⟨(hord 1 2 1 3 (by decide) (by decide) (by decide) (by decide)).mpr (.inr ⟨rfl, by decide⟩),
    (hord 1 3 2 1 (by decide) (by decide) (by decide) (by decide)).mpr (.inl (by decide)),
    (hpre 2 1 (by decide) (by decide)).2, hdec 2 1 (by decide) (by decide)⟩

end Storage

end Sucredb
