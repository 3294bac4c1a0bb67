/-
Sucredb.Storage — a vnode's slice of RocksDB (`storage.rs`), read as two maps:
the data column family from keys to cubes and the log column family from dots
to keys.

The model takes RocksDB to behave as a map and bincode's `deserialize` to
invert `serialize` on cubes, so a stored value is the cube itself and reads
and batch writes do not fail. Writes go through a `StorageBatch`, a list of
operations applied in order by `batch_write`; reads inside a batch see the
storage before it, as in the source.

`log_iterator(prefix, start)` yields the log entries of node `prefix` from
version `start` on, in key order. Keys are big-endian (node, version) pairs, so
key order is version order within one node.

The maps are indexed by the client's key. The RocksDB key that `get`,
`StorageBatch::set` and `StorageBatch::del` build from it is `buildKey`,
written into a stack buffer of `keyBufferLen` bytes: the one step of these
functions that can fail on a key, by a panic.
-/
import Sucredb.Cubes

namespace Sucredb

/-- One operation of a `StorageBatch`. -/
inductive BatchOp where
  /-- `StorageBatch::set`: store a cube under a key. -/
  | set (key : Bytes) (cube : Cube)
  /-- `StorageBatch::del`: delete a key. -/
  | del (key : Bytes)
  /-- `StorageBatch::log_set`: record which key a dot wrote. -/
  | logSet (dot : Dot) (key : Bytes)

/-- `storage::Storage`: the data and dot-log column families of one vnode. -/
structure Storage where
  data : VecMap Bytes Cube
  log : VecMap Dot Bytes

namespace Storage

/-- The storage of a vnode with nothing in it. -/
def empty : Storage := ⟨VecMap.empty, VecMap.empty⟩

/-- The stack buffer `Storage::get`, `StorageBatch::set` and
`StorageBatch::del` build their keys in. -/
def keyBufferLen : ℕ := 512

/-- `build_key`: the vnode number as a big-endian `u16`, then the key, in a
buffer of `bufferLen` bytes. `none` where the key does not fit after the
number: the `write_all` fails and its `unwrap` panics. -/
def buildKey (bufferLen num : ℕ) (key : Bytes) : Option Bytes :=
  if key.length ≤ bufferLen - 2 then some ([(num / 256).toUInt8, num.toUInt8] ++ key) else none

/-- `Storage::get`. -/
def get (s : Storage) (key : Bytes) : Option Cube := s.data.get? key

/-- `Storage::log_get`. -/
def logGet (s : Storage) (dot : Dot) : Option Bytes := s.log.get? dot

/-- One batch operation. -/
def apply (s : Storage) : BatchOp → Storage
  | .set key cube => { s with data := s.data.insert key cube }
  | .del key => { s with data := s.data.erase key }
  | .logSet dot key => { s with log := s.log.insert dot key }

/-- `Storage::batch_write`. -/
def batchWrite (s : Storage) (batch : List BatchOp) : Storage := batch.foldl apply s

/-- `Storage::clear`: delete both column families of the vnode. -/
def clear (_ : Storage) : Storage := empty

/-- `Storage::log_iterator(prefix, start)`: the log entries of node `prefix`
from version `start` on, in version order. -/
def logIterator (s : Storage) (pfx : NodeId) (start : Version) : List (Dot × Bytes) :=
  (s.log.entries.filter (fun e => e.1.1 = pfx ∧ start ≤ e.1.2)).mergeSort
    (fun a b => decide (a.1.2 ≤ b.1.2))

@[simp] theorem batchWrite_nil (s : Storage) : s.batchWrite [] = s := rfl

theorem batchWrite_append (s : Storage) (b₁ b₂ : List BatchOp) :
    s.batchWrite (b₁ ++ b₂) = (s.batchWrite b₁).batchWrite b₂ := by
  simp [batchWrite, List.foldl_append]

@[simp] theorem batchWrite_cons (s : Storage) (op : BatchOp) (b : List BatchOp) :
    s.batchWrite (op :: b) = (s.apply op).batchWrite b := rfl

@[simp] theorem get_apply_set (s : Storage) (key key' : Bytes) (cube : Cube) :
    (s.apply (.set key cube)).get key' = if key' = key then some cube else s.get key' := by
  simp [apply, get]

@[simp] theorem get_apply_del (s : Storage) (key key' : Bytes) :
    (s.apply (.del key)).get key' = if key' = key then none else s.get key' := by
  simp [apply, get]

@[simp] theorem get_apply_logSet (s : Storage) (dot : Dot) (key key' : Bytes) :
    (s.apply (.logSet dot key)).get key' = s.get key' := rfl

@[simp] theorem logGet_apply_set (s : Storage) (key : Bytes) (cube : Cube) (dot : Dot) :
    (s.apply (.set key cube)).logGet dot = s.logGet dot := rfl

@[simp] theorem logGet_apply_del (s : Storage) (key : Bytes) (dot : Dot) :
    (s.apply (.del key)).logGet dot = s.logGet dot := rfl

@[simp] theorem logGet_apply_logSet (s : Storage) (dot dot' : Dot) (key : Bytes) :
    (s.apply (.logSet dot key)).logGet dot' = if dot' = dot then some key else s.logGet dot' := by
  simp [apply, logGet]

@[simp] theorem get_clear (s : Storage) (key : Bytes) : s.clear.get key = none := rfl

@[simp] theorem logGet_clear (s : Storage) (dot : Dot) : s.clear.logGet dot = none := rfl

/-- The last write of a key in a batch is what the storage holds after it. -/
theorem get_batchWrite_append_set (s : Storage) (b : List BatchOp) (key : Bytes) (cube : Cube) :
    (s.batchWrite (b ++ [.set key cube])).get key = some cube := by
  simp [batchWrite_append]

/-- `build_key` into the storage's buffer panics exactly on keys over 510 bytes. -/
theorem buildKey_eq_none_iff (num : ℕ) (key : Bytes) :
    buildKey keyBufferLen num key = none ↔ 510 < key.length := by
  unfold buildKey keyBufferLen
  split
  · rename_i h
    simp only [reduceCtorEq, false_iff, Nat.not_lt]
    exact h
  · rename_i h
    simp only [true_iff]
    omega

end Storage

end Sucredb
