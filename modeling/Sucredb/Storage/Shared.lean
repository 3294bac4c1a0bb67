/-
Sucredb.Storage.Shared — the RocksDB that the vnodes of a node share, and the
per-vnode maps of `Sucredb.Storage` the rest of the model reads it as.

`StorageManager` opens two column families, `default` and `log`, and the
`Storage` of every vnode writes into both under keys that start with its
number (`Sucredb.Storage.Keys`). `Db` holds the two families as maps from byte
keys. Its operations are those of `storage.rs` on vnode `num`: `get`,
`log_get`, the writes of a `StorageBatch`, `clear`, and `log_iterator` read
through `LogStorageIteratorIter`. An iterator that seeks a key under
`set_iterate_upper_bound` yields the entries between the two keys in bytewise
order (`scan`).

`Db.Holds db vnodes` says that `db` stores exactly the per-vnode storages
`vnodes`, each entry under the key its vnode builds. The empty database holds
the empty storages (`holds_empty`). Each write and each `clear` keeps the
relation, with the vnode's own storage changed as `Storage` changes it and
every other vnode's left alone (`Holds.apply`, `Holds.clear`); so does a whole
run of them (`Holds.run`). Under it, `get` answers as the map does
(`Holds.get`), `log_get` as the log does (the relation's `get_log`), and so
does the scan of `log_iterator`, in the same order (`Holds.logIterator`);
every run that fits, from the empty database, ends in one whose reads are the
vnodes' own (`shared_db_reads_own_storage`).

The scan needs the order of the keys. The range it reads is exactly the dots
of one node from a version on (`buildLogKey_mem_range_iff`). Within that range
the keys sort as the versions do, so the scan is `Storage.logIterator` with
each dot encoded (`scan_log_eq`).

Vnode numbers are below `u16::MAX`, node ids below `2 ^ 63` and versions
`u64`s; a key longer than 510 bytes panics in `build_key` (`none`).
-/
import Sucredb.Storage.Keys
import Sucredb.Lib.Reachable

namespace Sucredb

/-- A write whose key fits `build_key`'s buffer, or whose dot has a node id
below `2 ^ 63` and a `u64` version. -/
def BatchOp.Fits : BatchOp → Prop
  | .set key _ | .del key => key.length ≤ 510
  | .logSet dot _ => dot.1 < 2 ^ 63 ∧ dot.2 < 2 ^ 64

namespace Storage

open Binary

/-- The entries of a column family from `start` up to `upper`, in bytewise order
of their keys: what an iterator that seeks `start` under
`set_iterate_upper_bound(upper)` yields. -/
def scan {β : Type} (cf : VecMap Bytes β) (start upper : Bytes) : List (Bytes × β) :=
  (cf.entries.filter fun e => decide (start ≤ e.1) && decide (e.1 < upper)).mergeSort
    fun a b => decide (a.1 ≤ b.1)

theorem mem_scan {β : Type} {cf : VecMap Bytes β} {start upper : Bytes} {e : Bytes × β} :
    e ∈ scan cf start upper ↔ e ∈ cf.entries ∧ start ≤ e.1 ∧ e.1 < upper := by
  simp [scan]

/-- A scan yields each key once, in strictly increasing order. -/
theorem scan_pairwise {β : Type} (cf : VecMap Bytes β) (start upper : Bytes) :
    (scan cf start upper).Pairwise fun a b => a.1 < b.1 := by
  have hle : (scan cf start upper).Pairwise fun a b => decide (a.1 ≤ b.1) = true :=
    List.pairwise_mergeSort
      (fun (a b c : Bytes × β) (hab : decide (a.1 ≤ b.1) = true)
          (hbc : decide (b.1 ≤ c.1) = true) =>
        decide_eq_true (List.le_trans (of_decide_eq_true hab) (of_decide_eq_true hbc)))
      (fun (a b : Bytes × β) => by simpa using List.le_total a.1 b.1) _
  -- the keys come from the entries of a map, so none is there twice
  have hkeys : ((scan cf start upper).map Prod.fst).Nodup :=
    ((List.mergeSort_perm _ _).map Prod.fst).nodup_iff.mpr
      ((List.filter_sublist.map Prod.fst).nodup cf.nodup)
  refine (hle.and (List.pairwise_map.mp hkeys)).imp fun ⟨hab, hne⟩ => ?_
  exact (List.le_iff_lt_or_eq.mp (of_decide_eq_true hab)).resolve_right hne

/-- A list strictly ascending in its keys holds each entry once. -/
theorem nodup_of_pairwise_lt {β : Type} {l : List (Bytes × β)}
    (h : l.Pairwise fun a b => a.1 < b.1) : l.Nodup :=
  h.imp fun hab => by
    rintro rfl
    exact List.lt_irrefl _ hab

theorem mem_logIterator {s : Storage} {pfx start : ℕ} {e : Dot × Bytes} :
    e ∈ s.logIterator pfx start ↔ s.logGet e.1 = some e.2 ∧ e.1.1 = pfx ∧ start ≤ e.1.2 := by
  simp [logIterator, logGet, VecMap.get?_eq_some_iff]

/-- `logIterator` yields the versions of its node in strictly increasing order. -/
theorem logIterator_pairwise (s : Storage) (pfx start : ℕ) :
    (s.logIterator pfx start).Pairwise fun a b => a.1.2 < b.1.2 := by
  have hle : (s.logIterator pfx start).Pairwise fun a b => decide (a.1.2 ≤ b.1.2) = true :=
    List.pairwise_mergeSort
      (fun (a b c : Dot × Bytes) (hab : decide (a.1.2 ≤ b.1.2) = true)
          (hbc : decide (b.1.2 ≤ c.1.2) = true) =>
        decide_eq_true (Nat.le_trans (of_decide_eq_true hab) (of_decide_eq_true hbc)))
      (fun (a b : Dot × Bytes) => by simpa using Nat.le_total a.1.2 b.1.2) _
  have hdots : ((s.logIterator pfx start).map Prod.fst).Nodup :=
    ((List.mergeSort_perm _ _).map Prod.fst).nodup_iff.mpr
      ((List.filter_sublist.map Prod.fst).nodup s.log.nodup)
  refine (hle.and (List.pairwise_map.mp hdots)).imp_of_mem fun ha hb ⟨hab, hne⟩ => ?_
  -- both dots are of node `pfx`, so two dots have two versions
  have hnode : _ = _ := (mem_logIterator.mp ha).2.1.trans (mem_logIterator.mp hb).2.1.symm
  have hv : _ ≠ _ := fun hv => hne (Prod.ext hnode hv)
  exact Nat.lt_of_le_of_ne (of_decide_eq_true hab) hv

/-- `build_key` into the storage's buffer on a key that fits. -/
theorem buildKey_of_le {key : Bytes} (num : ℕ) (hk : key.length ≤ 510) :
    buildKey keyBufferLen num key = some (bigEndian 2 num ++ key) := by
  simp [buildKey, keyBufferLen, hk]
  rfl

/-- The `default` and `log` column families of a node's database. -/
structure Db where
  data : VecMap Bytes Cube
  log : VecMap Bytes Bytes

namespace Db

/-- A database with nothing in it. -/
def empty : Db := ⟨.empty, .empty⟩

/-- `Storage::get` of vnode `num`; `none` is the panic of `build_key`. -/
def get (db : Db) (num : ℕ) (key : Bytes) : Option (Option Cube) :=
  (buildKey keyBufferLen num key).map db.data.get?

/-- `Storage::log_get` of vnode `num`. -/
def logGet (db : Db) (num : ℕ) (dot : Dot) : Option Bytes :=
  db.log.get? (buildLogKey num dot)

/-- One write of a `StorageBatch` of vnode `num`: `put_cf` or `delete_cf` under
the key it builds; `none` is the panic of `build_key`. -/
def apply (db : Db) (num : ℕ) : BatchOp → Option Db
  | .set key cube =>
    (buildKey keyBufferLen num key).map fun k => { db with data := db.data.insert k cube }
  | .del key => (buildKey keyBufferLen num key).map fun k => { db with data := db.data.erase k }
  | .logSet dot key => some { db with log := db.log.insert (buildLogKey num dot) key }

/-- `Storage::batch_write` of a batch vnode `num` built: its writes in order. -/
def batchWrite (db : Db) (num : ℕ) (batch : List BatchOp) : Option Db :=
  run (fun db op => db.apply num op) db batch

/-- Whether a key lies in the range `clear` deletes for vnode `num`: from its
number up to the next. -/
def inVnode (num : ℕ) (key : Bytes) : Bool :=
  decide (bigEndian 2 num ≤ key) && decide (key < bigEndian 2 (num + 1))

/-- `Storage::clear`: both families lose the range of vnode `num`.
`delete_files_in_range_cf` drops the files inside the range and the loop after
it deletes the keys left; together every key of the range goes. -/
def clear (db : Db) (num : ℕ) : Db :=
  ⟨db.data.retain fun k _ => !inVnode num k, db.log.retain fun k _ => !inVnode num k⟩

/-- `Storage::log_iterator(prefix, start)` read through `LogStorageIteratorIter`:
the log entries from the key of `(prefix, start)` up to the prefix of
`prefix + 1`, each key read back as its dot. -/
def logIterator (db : Db) (num pfx start : ℕ) : Option (List (Dot × Bytes)) :=
  (scan db.log (buildLogKey num (pfx, start)) (buildLogPrefix num (pfx + 1))).mapM
    fun e => (logKeyDot e.1).map fun d => (d, e.2)

/-- `db` stores exactly the storages `vnodes`: each entry of a vnode's data or
log is in the family under the key the vnode builds for it, and the families
hold no other key. -/
structure Holds (db : Db) (vnodes : ℕ → Storage) : Prop where
  get_data : ∀ num < 65535, ∀ key : Bytes, key.length ≤ 510 →
    db.data.get? (bigEndian 2 num ++ key) = (vnodes num).get key
  get_log : ∀ num < 65535, ∀ dot : Dot, dot.1 < 2 ^ 63 → dot.2 < 2 ^ 64 →
    db.log.get? (buildLogKey num dot) = (vnodes num).logGet dot
  data_key : ∀ k ∈ db.data.keys, ∃ num < 65535, ∃ key : Bytes,
    key.length ≤ 510 ∧ k = bigEndian 2 num ++ key
  log_key : ∀ k ∈ db.log.keys, ∃ num < 65535, ∃ dot : Dot,
    dot.1 < 2 ^ 63 ∧ dot.2 < 2 ^ 64 ∧ k = buildLogKey num dot
  log_dot : ∀ num dot key, (vnodes num).logGet dot = some key → dot.1 < 2 ^ 63 ∧ dot.2 < 2 ^ 64

/-! ## `log_iterator` -/

section LogIterator

variable {db : Db} {vnodes : ℕ → Storage} {num pfx start : ℕ}

/-- The scan of `log_iterator` is the vnode's `logIterator` with each dot
encoded as its key: both hold the same entries, and both are in strictly
increasing order of the keys. -/
theorem Holds.scan_log_eq (h : db.Holds vnodes) (hnum : num < 65535) (hpfx : pfx < 2 ^ 63)
    (hstart : start < 2 ^ 64) :
    scan db.log (buildLogKey num (pfx, start)) (buildLogPrefix num (pfx + 1)) =
      ((vnodes num).logIterator pfx start).map fun e => (buildLogKey num e.1, e.2) := by
  have hfits : ∀ {e : Dot × Bytes}, e ∈ (vnodes num).logIterator pfx start →
      e.1.1 < 2 ^ 63 ∧ e.1.2 < 2 ^ 64 := fun he => h.log_dot num _ _ (mem_logIterator.mp he).1
  -- the encoded list is in key order, since the versions of one node are
  have hsorted :
      (((vnodes num).logIterator pfx start).map fun e => (buildLogKey num e.1, e.2)).Pairwise
        fun a b => a.1 < b.1 := by
    rw [List.pairwise_map]
    refine (logIterator_pairwise _ pfx start).imp_of_mem fun {a b} ha hb hlt => ?_
    have hnode : a.1.1 = b.1.1 :=
      (mem_logIterator.mp ha).2.1.trans (mem_logIterator.mp hb).2.1.symm
    obtain ⟨hna, hva⟩ := hfits ha
    obtain ⟨hnb, hvb⟩ := hfits hb
    exact (buildLogKey_lt_iff (by omega) (by omega) (nodeId_lt_two_pow_64 hna)
      (nodeId_lt_two_pow_64 hnb) hva hvb).mpr
      (.inr ⟨rfl, .inr ⟨hnode, hlt⟩⟩)
  refine List.Perm.eq_of_pairwise (fun _ _ _ _ hab hba => absurd hba (List.lt_asymm hab))
    (scan_pairwise _ _ _) hsorted ?_
  rw [List.perm_ext_iff_of_nodup (nodup_of_pairwise_lt (scan_pairwise _ _ _))
    (nodup_of_pairwise_lt hsorted)]
  rintro ⟨k, val⟩
  rw [mem_scan, List.mem_map]
  constructor
  · -- a key of the range is the key of a dot of node `pfx` from `start` on
    rintro ⟨hmem, hrange⟩
    obtain ⟨num', hnum', ⟨n, v⟩, hn, hv, rfl⟩ :=
      h.log_key k (List.mem_map.mpr ⟨(k, val), hmem, rfl⟩)
    obtain ⟨hnum_eq, hnp, hsv⟩ := (buildLogKey_mem_range_iff (by omega) (by omega)
      (lt_two_pow_64 hpfx) hstart (nodeId_lt_two_pow_64 hn) hv).mp hrange
    subst num'
    refine ⟨((n, v), val), mem_logIterator.mpr ⟨?_, hnp, hsv⟩, rfl⟩
    rw [← h.get_log num hnum (n, v) hn hv]
    exact (VecMap.get?_eq_some_iff _).mpr hmem
  · rintro ⟨⟨⟨n, v⟩, val'⟩, hmem, heq⟩
    obtain ⟨hget, rfl, hsv⟩ := mem_logIterator.mp hmem
    obtain ⟨hn, hv⟩ := hfits hmem
    cases heq
    exact ⟨(VecMap.get?_eq_some_iff _).mp ((h.get_log num hnum (n, v) hn hv).trans hget),
      (buildLogKey_mem_range_iff (by omega) (by omega) (lt_two_pow_64 hpfx) hstart
        (nodeId_lt_two_pow_64 hn) hv).mpr ⟨rfl, rfl, hsv⟩⟩

theorem mapM_eq_some_of_forall {α : Type} {l : List α} {f : α → Option α}
    (h : ∀ x ∈ l, f x = some x) : l.mapM f = some l := by
  induction l with
  | nil => rfl
  | cons x xs ih =>
    rw [List.mapM_cons, h x List.mem_cons_self, ih fun y hy => h y (List.mem_cons_of_mem _ hy)]
    rfl

/-- `log_iterator` through `LogStorageIteratorIter` yields the vnode's
`logIterator`: the log entries of node `prefix` from version `start` on, in
order of version. -/
theorem Holds.logIterator (h : db.Holds vnodes) (hnum : num < 65535) (hpfx : pfx < 2 ^ 63)
    (hstart : start < 2 ^ 64) :
    db.logIterator num pfx start = some ((vnodes num).logIterator pfx start) := by
  rw [Db.logIterator, h.scan_log_eq hnum hpfx hstart, List.mapM_map]
  refine mapM_eq_some_of_forall fun e he => ?_
  obtain ⟨hn, hv⟩ := h.log_dot num _ _ (mem_logIterator.mp he).1
  have hdot : logKeyDot (buildLogKey num e.1) = some e.1 :=
    logKeyDot_buildLogKey (by omega) (nodeId_lt_two_pow_64 hn) hv
  simp only [Function.comp, hdot]
  rfl

end LogIterator

/-! ## Reads and writes -/

section Writes

variable {db : Db} {vnodes : ℕ → Storage} {num : ℕ}

theorem holds_empty : empty.Holds fun _ => Storage.empty where
  get_data _ _ _ _ := rfl
  get_log _ _ _ _ _ := rfl
  data_key _ hk := absurd hk List.not_mem_nil
  log_key _ hk := absurd hk List.not_mem_nil
  log_dot _ _ _ h := absurd h (by simp [Storage.empty, Storage.logGet])

/-- `Storage::get` answers as the vnode's map, and panics exactly on a key too
long for its buffer. -/
theorem Holds.get (h : db.Holds vnodes) (hnum : num < 65535) (key : Bytes) :
    db.get num key = if key.length ≤ 510 then some ((vnodes num).get key) else none := by
  by_cases hk : key.length ≤ 510
  · rw [Db.get, buildKey_of_le num hk, if_pos hk, Option.map_some, h.get_data num hnum key hk]
  · rw [Db.get, (buildKey_eq_none_iff num key).mpr (by omega), if_neg hk, Option.map_none]

/-- A key of vnode `num'` lies in the range of vnode `num` exactly when the
numbers are one. -/
theorem inVnode_eq {num' : ℕ} (hnum : num < 65535) (hnum' : num' < 65535) (rest : Bytes) :
    inVnode num (bigEndian 2 num' ++ rest) = decide (num' = num) := by
  rw [inVnode, ← Bool.decide_and]
  exact decide_eq_decide.mpr (vnode_range_iff (by omega) (by omega) rest)

/-- What `clear` of vnode `num` leaves of an entry under a key of vnode `num'`. -/
theorem filter_not_inVnode {α : Type} {num' : ℕ} (hnum : num < 65535) (hnum' : num' < 65535)
    (rest : Bytes) (o : Option α) :
    o.filter (fun _ => !inVnode num (bigEndian 2 num' ++ rest)) =
      if num' = num then none else o := by
  rw [inVnode_eq hnum hnum']
  by_cases he : num' = num <;> cases o <;> simp [he]

/-- The dots that vnode `num`'s new storage logs fit, and the other vnodes
keep theirs. -/
theorem Holds.log_dot_update (h : db.Holds vnodes) {s' : Storage}
    (hs : ∀ dot key, s'.logGet dot = some key → dot.1 < 2 ^ 63 ∧ dot.2 < 2 ^ 64) (num' : ℕ)
    (dot : Dot) (key : Bytes) (hget : (Function.update vnodes num s' num').logGet dot = some key) :
    dot.1 < 2 ^ 63 ∧ dot.2 < 2 ^ 64 := by
  rw [Function.update_apply] at hget
  split_ifs at hget
  · exact hs dot key hget
  · exact h.log_dot num' dot key hget

/-- A write of one data key of vnode `num` keeps the relation when the vnode's
storage changes at that key alone, in the same way. -/
theorem Holds.writeData (h : db.Holds vnodes) (hnum : num < 65535) {key : Bytes}
    (hk : key.length ≤ 510) {data' : VecMap Bytes Cube} {s' : Storage} (o : Option Cube)
    (hdata : ∀ k, data'.get? k = if k = bigEndian 2 num ++ key then o else db.data.get? k)
    (hkeys : ∀ k ∈ data'.keys, k = bigEndian 2 num ++ key ∨ k ∈ db.data.keys)
    (hget : ∀ key', s'.get key' = if key' = key then o else (vnodes num).get key')
    (hlog : ∀ dot, s'.logGet dot = (vnodes num).logGet dot) :
    (⟨data', db.log⟩ : Db).Holds (Function.update vnodes num s') where
  get_data num' hnum' key' hk' := by
    rw [hdata, Function.update_apply]
    by_cases hn : num' = num
    · subst hn
      rw [if_pos rfl, hget, h.get_data num' hnum' key' hk']
      simp
    · -- another vnode's key is another key
      have hne : bigEndian 2 num' ++ key' ≠ bigEndian 2 num ++ key := fun he =>
        hn ((vnodeKey_inj (by omega) (by omega)).mp he).1
      rw [if_neg hne, if_neg hn, h.get_data num' hnum' key' hk']
  get_log num' hnum' dot hn hv := by
    rw [h.get_log num' hnum' dot hn hv, Function.update_apply]
    split_ifs with he
    · subst he
      exact (hlog dot).symm
    · rfl
  data_key k hk' := by
    rcases hkeys k hk' with rfl | hold
    · exact ⟨num, hnum, key, hk, rfl⟩
    · exact h.data_key k hold
  log_key := h.log_key
  log_dot := h.log_dot_update fun dot key' hget' =>
    h.log_dot num dot key' ((hlog dot).symm.trans hget')

/-- `log_set` of a dot that fits keeps the relation, with the dot logged in the
vnode's storage. -/
theorem Holds.logSet (h : db.Holds vnodes) (hnum : num < 65535) {dot : Dot} (hn : dot.1 < 2 ^ 63)
    (hv : dot.2 < 2 ^ 64) (key : Bytes) :
    (⟨db.data, db.log.insert (buildLogKey num dot) key⟩ : Db).Holds
      (Function.update vnodes num ((vnodes num).apply (.logSet dot key))) where
  get_data num' hnum' key' hk' := by
    rw [h.get_data num' hnum' key' hk', Function.update_apply]
    split_ifs with he
    · subst he
      rfl
    · rfl
  get_log num' hnum' dot' hn' hv' := by
    simp only [VecMap.get?_insert, h.get_log num' hnum' dot' hn' hv', Function.update_apply,
      @buildLogKey_inj num' num dot' dot (by omega) (by omega)
        (nodeId_lt_two_pow_64 hn') (nodeId_lt_two_pow_64 hn) hv' hv]
    by_cases he : num' = num
    · subst he
      simp
    · simp [he]
  data_key := h.data_key
  log_key k hk := by
    rcases (VecMap.mem_keys_insert _ _ _ _).mp hk with rfl | hold
    · exact ⟨num, hnum, dot, hn, hv, rfl⟩
    · exact h.log_key k hold
  log_dot := h.log_dot_update fun dot' key' hget' => by
    -- the logged dot is the new one, or one the vnode had logged before
    rw [Storage.logGet_apply_logSet] at hget'
    split_ifs at hget' with hd
    · subst hd
      exact ⟨hn, hv⟩
    · exact h.log_dot num dot' key' hget'

/-- A write that fits succeeds, and keeps the relation with the vnode's storage
written as `Storage` writes it. -/
theorem Holds.apply (h : db.Holds vnodes) (hnum : num < 65535) {op : BatchOp} (hop : op.Fits) :
    ∃ db', db.apply num op = some db' ∧
      db'.Holds (Function.update vnodes num ((vnodes num).apply op)) := by
  cases op with
  | set key cube =>
    refine ⟨_, by rw [Db.apply, buildKey_of_le num hop]; rfl, h.writeData hnum hop (some cube)
      (fun k => VecMap.get?_insert _ _ _ _) (fun k hk => (VecMap.mem_keys_insert _ _ _ _).mp hk)
      (fun key' => Storage.get_apply_set _ _ _ _) (fun dot => rfl)⟩
  | del key =>
    refine ⟨_, by rw [Db.apply, buildKey_of_le num hop]; rfl, h.writeData hnum hop none
      (fun k => VecMap.get?_erase _ _ _) (fun k hk => .inr (VecMap.mem_keys_erase hk))
      (fun key' => Storage.get_apply_del _ _ _) (fun dot => rfl)⟩
  | logSet dot key => exact ⟨_, rfl, h.logSet hnum hop.1 hop.2 key⟩

/-- `batch_write` of a batch that fits succeeds, and keeps the relation with
the vnode's storage written by `Storage.batchWrite`. -/
theorem Holds.batchWrite (h : db.Holds vnodes) (hnum : num < 65535) :
    ∀ {batch : List BatchOp}, (∀ op ∈ batch, op.Fits) →
      ∃ db', db.batchWrite num batch = some db' ∧
        db'.Holds (Function.update vnodes num ((vnodes num).batchWrite batch)) := by
  intro batch
  induction batch generalizing db vnodes with
  | nil =>
    intro _
    refine ⟨db, rfl, ?_⟩
    rw [Storage.batchWrite_nil, Function.update_eq_self]
    exact h
  | cons op ops ih =>
    intro hfits
    obtain ⟨db₁, happ, h₁⟩ := h.apply hnum (hfits op List.mem_cons_self)
    obtain ⟨db', hw, h'⟩ := ih h₁ fun op' hop' => hfits op' (List.mem_cons_of_mem _ hop')
    refine ⟨db', by rw [Db.batchWrite, run_cons, happ]; exact hw, ?_⟩
    rw [Function.update_self, Function.update_idem] at h'
    rwa [Storage.batchWrite_cons]

/-- `clear` keeps the relation, with the vnode's storage cleared and every other
vnode's left alone. -/
theorem Holds.clear (h : db.Holds vnodes) (hnum : num < 65535) :
    (db.clear num).Holds (Function.update vnodes num (vnodes num).clear) where
  get_data num' hnum' key hk := by
    rw [Db.clear, VecMap.get?_retain, h.get_data num' hnum' key hk, filter_not_inVnode hnum hnum',
      Function.update_apply]
    split_ifs <;> rfl
  get_log num' hnum' dot hn hv := by
    rw [Db.clear, VecMap.get?_retain, h.get_log num' hnum' dot hn hv, buildLogKey_eq_vnode,
      filter_not_inVnode hnum hnum', Function.update_apply]
    split_ifs <;> rfl
  data_key k hk := h.data_key k (VecMap.mem_keys_retain hk)
  log_key k hk := h.log_key k (VecMap.mem_keys_retain hk)
  log_dot := h.log_dot_update fun dot key hget => by
    rw [Storage.logGet_clear] at hget
    cases hget

end Writes

end Db

/-! ## Runs -/

/-- What the vnodes of a node do to the database they share: one vnode writes
a `StorageBatch`, or one vnode's storage is cleared. -/
inductive Op where
  | batchWrite (num : ℕ) (batch : List BatchOp)
  | clear (num : ℕ)

/-- One operation on the database; `none` is a panic. -/
def Db.step (db : Db) : Op → Option Db
  | .batchWrite num batch => db.batchWrite num batch
  | .clear num => some (db.clear num)

/-- The same operation on the vnodes' own storages: the vnode it names
changes as `Storage` changes, every other stays. -/
def Op.apply (vnodes : ℕ → Storage) : Op → ℕ → Storage
  | .batchWrite num batch => Function.update vnodes num ((vnodes num).batchWrite batch)
  | .clear num => Function.update vnodes num (vnodes num).clear

/-- An operation on a vnode below `u16::MAX` whose writes all fit. -/
def Op.Fits : Op → Prop
  | .batchWrite num batch => num < 65535 ∧ ∀ op ∈ batch, op.Fits
  | .clear num => num < 65535

section Runs

variable {db : Db} {vnodes : ℕ → Storage}

/-- An operation that fits succeeds and keeps the relation. -/
theorem Db.Holds.step (h : db.Holds vnodes) {op : Op} (hop : op.Fits) :
    ∃ db', db.step op = some db' ∧ db'.Holds (Op.apply vnodes op) := by
  cases op with
  | batchWrite num batch => exact h.batchWrite hop.1 hop.2
  | clear num => exact ⟨_, rfl, h.clear hop⟩

/-- A run of operations that fit succeeds, and the database it ends in stores
the storages the same operations give each vnode. -/
theorem Db.Holds.run (h : db.Holds vnodes) :
    ∀ {ops : List Op}, (∀ op ∈ ops, op.Fits) →
      ∃ db', run Db.step db ops = some db' ∧ db'.Holds (ops.foldl Op.apply vnodes) := by
  intro ops
  induction ops generalizing db vnodes with
  | nil =>
    intro _
    exact ⟨db, rfl, h⟩
  | cons op ops ih =>
    intro hfits
    obtain ⟨db₁, hstep, h₁⟩ := h.step (hfits op List.mem_cons_self)
    obtain ⟨db', hrun, h'⟩ := ih h₁ fun op' hop' => hfits op' (List.mem_cons_of_mem _ hop')
    exact ⟨db', by rw [run_cons, hstep]; exact hrun, h'⟩

/-- The vnodes of a node share one database and read it as their own maps:
from the empty database, every run of operations that fit succeeds, and after
it each vnode's `get`, `log_get` and `log_iterator` answer as its storage
does, the storage that the run's operations on that vnode alone give. -/
theorem shared_db_reads_own_storage {ops : List Op} (hops : ∀ op ∈ ops, op.Fits) :
    ∃ db, run Db.step Db.empty ops = some db ∧
      ∀ num < 65535,
        (∀ key, db.get num key = if key.length ≤ 510 then
          some (((ops.foldl Op.apply fun _ => Storage.empty) num).get key) else none) ∧
        (∀ dot : Dot, dot.1 < 2 ^ 63 → dot.2 < 2 ^ 64 →
          db.logGet num dot = ((ops.foldl Op.apply fun _ => Storage.empty) num).logGet dot) ∧
        ∀ pfx < 2 ^ 63, ∀ start < 2 ^ 64,
          db.logIterator num pfx start =
            some (((ops.foldl Op.apply fun _ => Storage.empty) num).logIterator pfx start) := by
  obtain ⟨db, hrun, h⟩ := Db.holds_empty.run hops
  exact ⟨db, hrun, fun num hnum => ⟨h.get hnum, h.get_log num hnum,
    fun pfx hpfx start hstart => h.logIterator hnum hpfx hstart⟩⟩

end Runs

end Storage

end Sucredb
