/-
Sucredb.VersionVector.Causal — the causal containers of `version_vector.rs`:
`DotSet`, `DotMap<T>` and `CausalMap<K, V>`, with the `CausalValue` trait they
implement, and the `MapValue` of `cubes.rs` that a `Map` cube stores per key.

`CausalValue::merge(&mut self, other, s_vv, o_vv)` takes two causal contexts
through the `AbsVersionVector` trait, whose one method is `contains`; the
model passes the two `contains` functions. The source mutates `other` as well
as `self`, but every caller drops `other` afterwards, so `merge` returns the
new `self` only; the removals from `other` that the merge itself relies on
are modelled inside it.

The merges keep, from `self`, the dots `other` also has or whose context does
not cover them, and add the dots of `other` that `self`'s context does not
cover. `CausalMap::merge` does this per key, with one asymmetry read straight
off the source: a key that only `self` has is kept as it is, while a key that
only `other` has is filtered by `self`'s context.
-/
import Sucredb.VersionVector.Bitmapped

namespace Sucredb

/-- A causal context seen through `AbsVersionVector::contains`. -/
abbrev Context := NodeId → Version → Bool

/-- `version_vector::CausalValue`. -/
class CausalValue (V : Type) extends Inhabited V where
  merge : V → V → Context → Context → V
  isEmpty : V → Bool

/-- `version_vector::DotSet`, a `LinearSet<(Id, Version)>`. -/
structure DotSet where
  set : VecMap Dot Unit
deriving DecidableEq

namespace DotSet

/-- `DotSet::new`. -/
def new : DotSet := ⟨VecMap.empty⟩

/-- `DotSet::from_dot`. -/
def fromDot (dot : Dot) : DotSet := ⟨VecMap.empty.insert dot ()⟩

/-- The dots, in set order. -/
def dots (s : DotSet) : List Dot := s.set.keys

/-- `CausalValue::merge for DotSet`. -/
def merge (self other : DotSet) (sVV oVV : Context) : DotSet :=
  let kept := self.set.retain (fun d _ => other.set.contains d || !oVV d.1 d.2)
  let rest := other.set.retain (fun d _ => !self.set.contains d)
  ⟨rest.keys.foldl (fun acc d => if !sVV d.1 d.2 then acc.insert d () else acc) kept⟩

instance : CausalValue DotSet where
  default := new
  merge := merge
  isEmpty s := s.set.isEmpty

end DotSet

/-- `version_vector::DotMap<T>`, a `LinearMap<(Id, Version), T>`. -/
structure DotMap (T : Type) where
  map : VecMap Dot T

namespace DotMap

variable {T : Type}

/-- `DotMap::new`. -/
def new : DotMap T := ⟨VecMap.empty⟩

/-- The dots, in map order. -/
def dots (m : DotMap T) : List Dot := m.map.keys

/-- `DotMap::discard`: drop the dots `vv` covers. -/
def discard (m : DotMap T) (vv : VersionVector) : DotMap T :=
  ⟨m.map.retain (fun d _ => !vv.contains d.1 d.2)⟩

/-- `DotMap::insert`. -/
def insert (m : DotMap T) (id : NodeId) (version : Version) (value : T) : DotMap T :=
  ⟨m.map.insert (id, version) value⟩

/-- `CausalValue::merge for DotMap<T>`. -/
def merge (self other : DotMap T) (sVV oVV : Context) : DotMap T :=
  let kept := self.map.retain (fun d _ => other.map.contains d || !oVV d.1 d.2)
  let rest := other.map.retain (fun d _ => !self.map.contains d)
  ⟨rest.entries.foldl (fun acc e => if !sVV e.1.1 e.1.2 then acc.insert e.1 e.2 else acc) kept⟩

instance : CausalValue (DotMap T) where
  default := new
  merge := merge
  isEmpty m := m.map.isEmpty

end DotMap

/-- `version_vector::CausalMap<K, V>`, a `LinearMap<K, V>` of causal values. -/
structure CausalMap (K V : Type) [DecidableEq K] where
  map : VecMap K V

namespace CausalMap

variable {K V : Type} [DecidableEq K] [CausalValue V]

/-- `CausalMap::new`. -/
def new : CausalMap K V := ⟨VecMap.empty⟩

/-- `CausalMap::insert`; the flag says whether the key was absent. -/
def insert (m : CausalMap K V) (key : K) (value : V) : Bool × CausalMap K V :=
  ((m.map.get? key).isNone, ⟨m.map.insert key value⟩)

/-- `CausalMap::remove`; the flag says whether the key was present. -/
def remove (m : CausalMap K V) (key : K) : Bool × CausalMap K V :=
  ((m.map.get? key).isSome, ⟨m.map.erase key⟩)

/-- `CausalMap::clear`. -/
def clear (_ : CausalMap K V) : CausalMap K V := new

/-- `CausalValue::merge for CausalMap<K, V>`: merge the values of the keys both
sides have and drop those that become empty; keep the keys only `self` has;
add the keys only `other` has after filtering them by `self`'s context. -/
def merge (self other : CausalMap K V) (sVV oVV : Context) : CausalMap K V :=
  let merged := self.map.mapValues fun k v =>
    match other.map.get? k with
    | some ov => CausalValue.merge v ov sVV oVV
    | none => v
  let kept := merged.retain fun k v =>
    match other.map.get? k with
    | some _ => !CausalValue.isEmpty v
    | none => true
  let rest := other.map.retain (fun k _ => !self.map.contains k)
  ⟨rest.entries.foldl (fun acc e =>
    let m := CausalValue.merge e.2 (default : V) oVV sVV
    if !CausalValue.isEmpty m then acc.insert e.1 m else acc) kept⟩

instance : CausalValue (CausalMap K V) where
  default := new
  merge := merge
  isEmpty m := m.map.isEmpty

end CausalMap

/-- `cubes::MapValue`: a hash field's value, its dots and its write time in
milliseconds since the epoch. -/
structure MapValue where
  dots : DotSet
  value : Bytes
  timestamp : ℕ
deriving DecidableEq

namespace MapValue

/-- `MapValue::new`; `timestamp` is the clock reading the source takes from
`UNIX_EPOCH.elapsed()`. -/
def new (dot : Dot) (value : Bytes) (timestamp : ℕ) : MapValue :=
  ⟨DotSet.fromDot dot, value, timestamp⟩

/-- `CausalValue::merge for MapValue`: merge the dots, then keep the later
write, the larger value on a tie. -/
def merge (self other : MapValue) (sVV oVV : Context) : MapValue :=
  let dots := self.dots.merge other.dots sVV oVV
  if other.timestamp < self.timestamp then { self with dots }
  else if self.timestamp < other.timestamp || self.value < other.value then
    ⟨dots, other.value, other.timestamp⟩
  else { self with dots }

instance : CausalValue MapValue where
  default := ⟨DotSet.new, [], 0⟩
  merge := merge
  isEmpty v := v.dots.set.isEmpty

end MapValue

end Sucredb
