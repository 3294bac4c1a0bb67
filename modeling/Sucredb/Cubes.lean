/-
Sucredb.Cubes — the values the database stores per key (`cubes.rs`).

A `Cube` is one of four CRDTs or `Void`:

* `Counter` (the source calls it `RWCounter`): per coordinator, the version of
  its last increment and its running total;
* `Value`, the multi-register behind GET/SET: one sibling per live dot;
* `Set` and `Map`, observed-remove containers keyed by member or field, with a
  dot tracker `dots` kept apart from the causal context `vv`;
* `Void(vv)`: no data, only the context `storage_get` builds from the clock.

The totals of a `Counter` are `i64`s, added with `+=` and `Iterator::sum`:
the model runs them as a release build does, wrapping (`wrappingAdd`); a debug
build panics where the model wraps.

Every data cube has its own context `vv`. `for_each_dot` walks the dot
trackers, which are the values map for `Counter` and `Value` and the `dots`
vector for `Set` and `Map` (the design note at the end of `cubes.rs` says why
the context must not be used for this). On `Void` it is `unreachable!()`, as
is `is_subsumed`: the model returns `none` there.

The four structures live in `Sucredb.Cubes`, so that `Set` and `Map` do not
shadow Mathlib's.
-/
import Sucredb.VersionVector.Causal

namespace Sucredb

namespace Cubes

/-- `cubes::Counter`: per node, (version of its last increment, its total). -/
structure Counter where
  values : VecMap NodeId (Version × Int)
  vv : VersionVector

/-- `cubes::Value`: siblings keyed by dot; `none` is a deletion marker. -/
structure Value where
  values : DotMap (Option Bytes)
  vv : VersionVector

/-- `cubes::Set`: members, each with the dots of its adds. -/
structure Set where
  values : CausalMap Bytes DotSet
  dots : VersionVector
  vv : VersionVector

/-- `cubes::Map`: fields, each with its value and the dots of its writes. -/
structure Map where
  values : CausalMap Bytes MapValue
  dots : VersionVector
  vv : VersionVector

/-- `i64`'s `+` with overflow checks off, as a release build runs it: the sum
wrapped to two's complement, `[-2^63, 2^63)`. -/
def wrappingAdd (a b : Int) : Int := (a + b).bmod (2 ^ 64)

namespace Counter

/-- `Counter::with`: an empty counter under the context `vv`. -/
def with_ (vv : VersionVector) : Counter := ⟨VecMap.empty, vv⟩

/-- `Counter::get`: `Iterator::sum` of the per-node totals, which folds `+`
from `0`. -/
def get (c : Counter) : Int := (c.values.entries.map (fun e => e.2.2)).foldl wrappingAdd 0

/-- `Counter::inc`: record `version` for `node` and add `by` to its total with
`+=`. -/
def inc (c : Counter) (node : NodeId) (version : Version) (by_ : Int) : Counter :=
  let vv := c.vv.add node version
  let old := ((c.values.get? node).getD (0, 0)).2
  ⟨c.values.insert node (version, wrappingAdd old by_), vv⟩

/-- `Counter::clear`. -/
def clear (c : Counter) (node : NodeId) (version : Version) : Counter :=
  ⟨VecMap.empty, c.vv.add node version⟩

/-- `Counter::merge`: per node, the entry with the higher version. The context of
`other` is not merged in. -/
def merge (c other : Counter) : Counter :=
  ⟨other.values.entries.foldl (fun acc e =>
      match acc.get? e.1 with
      | some cur => if cur.1 < e.2.1 then acc.insert e.1 e.2 else acc
      | none => acc.insert e.1 e.2) c.values, c.vv⟩

end Counter

namespace Value

/-- `Value::with`. -/
def with_ (vv : VersionVector) : Value := ⟨DotMap.new, vv⟩

/-- `Value::set`: drop the siblings the client's context `vv` covers, add the
write's own sibling and raise the cube's context. -/
def set (a : Value) (node : NodeId) (version : Version) (value : Option Bytes)
    (vv : VersionVector) : Value :=
  ⟨(a.values.discard vv).insert node version value, a.vv.add node version⟩

/-- `Value::merge`. -/
def merge (a other : Value) : Value :=
  ⟨a.values.merge other.values a.vv.contains other.vv.contains, a.vv.merge other.vv⟩

end Value

namespace Set

/-- `Set::with`. -/
def with_ (vv : VersionVector) : Set := ⟨CausalMap.new, VersionVector.new, vv⟩

/-- `Set::insert`; the flag says whether the member is new. -/
def insert (a : Set) (node : NodeId) (version : Version) (item : Bytes) : Bool × Set :=
  let r := a.values.insert item (DotSet.fromDot (node, version))
  (r.1, ⟨r.2, a.dots.add node version, a.vv.add node version⟩)

/-- `Set::remove`; the flag says whether the member was present. -/
def remove (a : Set) (node : NodeId) (version : Version) (item : Bytes) : Bool × Set :=
  let r := a.values.remove item
  (r.1, ⟨r.2, a.dots.add node version, a.vv.add node version⟩)

/-- `Set::clear`. -/
def clear (a : Set) (node : NodeId) (version : Version) : Set :=
  ⟨a.values.clear, a.dots.add node version, a.vv.add node version⟩

/-- `Set::merge`. -/
def merge (a other : Set) : Set :=
  ⟨a.values.merge other.values a.vv.contains other.vv.contains, a.dots.merge other.dots,
    a.vv.merge other.vv⟩

end Set

namespace Map

/-- `Map::with`. -/
def with_ (vv : VersionVector) : Map := ⟨CausalMap.new, VersionVector.new, vv⟩

/-- `Map::insert`; `timestamp` is the clock reading `MapValue::new` takes. -/
def insert (a : Map) (node : NodeId) (version : Version) (key value : Bytes)
    (timestamp : ℕ) : Bool × Map :=
  let r := a.values.insert key (MapValue.new (node, version) value timestamp)
  (r.1, ⟨r.2, a.dots.add node version, a.vv.add node version⟩)

/-- `Map::remove`. -/
def remove (a : Map) (node : NodeId) (version : Version) (key : Bytes) : Bool × Map :=
  let r := a.values.remove key
  (r.1, ⟨r.2, a.dots.add node version, a.vv.add node version⟩)

/-- `Map::clear`. -/
def clear (a : Map) (node : NodeId) (version : Version) : Map :=
  ⟨a.values.clear, a.dots.add node version, a.vv.add node version⟩

/-- `Map::merge`. -/
def merge (a other : Map) : Map :=
  ⟨a.values.merge other.values a.vv.contains other.vv.contains, a.dots.merge other.dots,
    a.vv.merge other.vv⟩

end Map

end Cubes

open Cubes in
/-- `cubes::Cube`; the constructor order is the source's. -/
inductive Cube where
  | counter (a : Cubes.Counter)
  | value (a : Cubes.Value)
  | map (a : Cubes.Map)
  | set (a : Cubes.Set)
  | void (vv : VersionVector)

instance : Inhabited Cube := ⟨.void VersionVector.new⟩

namespace Cube

/-- `Cube::is_subsumed`: no data left and a context the clock covers;
`none` is the `unreachable!()` on `Void`. -/
def isSubsumed (c : Cube) (bvv : BitmappedVersionVector) : Option Bool :=
  match c with
  | .counter a => some (a.values.isEmpty && a.vv.contained bvv)
  | .value a => some (a.values.map.isEmpty && a.vv.contained bvv)
  | .map a => some (a.values.map.isEmpty && a.vv.contained bvv)
  | .set a => some (a.values.map.isEmpty && a.vv.contained bvv)
  | .void _ => none

/-- `Cube::for_each_dot`: the dots it reports, in order; `none` is the
`unreachable!()` on `Void`. -/
def forEachDot (c : Cube) : Option (List Dot) :=
  match c with
  | .counter a => some (a.values.entries.map (fun e => (e.1, e.2.1)))
  | .value a => some a.values.dots
  | .map a => some a.dots.iter
  | .set a => some a.dots.iter
  | .void _ => none

/-- `Cube::new`: the `Void` whose context is the base of every clock entry. -/
def new (bvv : BitmappedVersionVector) : Cube :=
  .void (bvv.iter.foldl (fun vv e => vv.add e.1 e.2.base) VersionVector.new)

/-- `Cube::del`; the flag is `false` exactly on `Void`, which is returned unchanged. -/
def del (c : Cube) (id : NodeId) (version : Version) (vv : VersionVector) : Bool × Cube :=
  match c with
  | .counter a => (true, .counter (a.clear id version))
  | .value a => (true, .value (a.set id version none vv))
  | .map a => (true, .map (a.clear id version))
  | .set a => (true, .set (a.clear id version))
  | .void vv' => (false, .void vv')

/-- The `Void(vv), a` arm of `Cube::merge`: `a` merged with an empty cube of its
kind under `vv`. -/
def mergeVoid (vv : VersionVector) : Cube → Cube
  | .counter a => .counter (a.merge (Cubes.Counter.with_ vv))
  | .value a => .value (a.merge (Cubes.Value.with_ vv))
  | .map a => .map (a.merge (Cubes.Map.with_ vv))
  | .set a => .set (a.merge (Cubes.Set.with_ vv))
  | .void oVV => .void (oVV.merge vv)

/-- `Cube::merge`. Cubes of one kind merge; `Void` merges into the other side;
of two different kinds the first in constructor order wins. -/
def merge : Cube → Cube → Cube
  | .counter a, .counter b => .counter (a.merge b)
  | .value a, .value b => .value (a.merge b)
  | .map a, .map b => .map (a.merge b)
  | .set a, .set b => .set (a.merge b)
  | .void vv, a => mergeVoid vv a
  | a, .void vv => mergeVoid vv a
  | .counter a, _ => .counter a
  | _, .counter b => .counter b
  | .value a, _ => .value a
  | _, .value b => .value b
  | .map a, _ => .map a
  | _, .map b => .map b

/-- `Cube::into_value`: a `Value`, or an empty one under a `Void`'s context. -/
def intoValue : Cube → Option Cubes.Value
  | .value a => some a
  | .void vv => some (Cubes.Value.with_ vv)
  | _ => none

/-- `Cube::into_counter`. -/
def intoCounter : Cube → Option Cubes.Counter
  | .counter a => some a
  | .void vv => some (Cubes.Counter.with_ vv)
  | _ => none

/-- `Cube::into_map`. -/
def intoMap : Cube → Option Cubes.Map
  | .map a => some a
  | .void vv => some (Cubes.Map.with_ vv)
  | _ => none

/-- `Cube::into_set`. -/
def intoSet : Cube → Option Cubes.Set
  | .set a => some a
  | .void vv => some (Cubes.Set.with_ vv)
  | _ => none

end Cube

end Sucredb
