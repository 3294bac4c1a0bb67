/-
Sucredb.VersionVector.Bitmapped — `BitmappedVersion` and
`BitmappedVersionVector` of `version_vector.rs`: the node clocks.

A `BitmappedVersion` stands for the versions `{1..base} ∪ bitmap`. The
`RoaringTreemap` bitmap is a `Finset Version`: the operations the source uses
(`|=`, `insert`, `contains`, `remove_range`, `max`, `clear`) are union,
insertion, membership, filtering and `sup`.

`norm`'s loop `while bitmap.contains(base + 1) { base += 1 }` is `normBase`,
run with `bitmap.card` as fuel: every round consumes one element of the bitmap
above the base, so the fuel never runs out before the loop condition fails
(`normBase_succ_not_mem`).

The delta iterators are modelled by the lists of versions and dots they
yield: `BitmappedVersionDelta` holds clones of both sides, so what it yields
is fixed when it is built.
-/
import Sucredb.VersionVector.Basic

namespace Sucredb

/-- `version_vector::BitmappedVersion`: the versions `{1..base} ∪ bitmap`. -/
structure BitmappedVersion where
  base : Version
  bitmap : Finset Version
deriving DecidableEq

namespace BitmappedVersion

/-- `Default`: no version at all. -/
def empty : BitmappedVersion := ⟨0, ∅⟩

instance : Inhabited BitmappedVersion := ⟨empty⟩

/-- `BitmappedVersion::int_to_bitmap`: bit `i` of `bitmap` stands for `base + 1 + i`. -/
def intToBitmap (base : Version) (bitmap : ℕ) : Finset Version :=
  if bitmap ≠ 0 then
    ((Finset.range 32).filter (fun i => bitmap.testBit i)).image (fun i => base + 1 + i)
  else ∅

/-- `BitmappedVersion::new`. -/
def new (base : Version) (bitmap : ℕ) : BitmappedVersion :=
  ⟨base, intToBitmap base bitmap⟩

/-- The loop of `norm`: raise the base while its successor is in the bitmap. -/
def normBase (bitmap : Finset Version) : ℕ → Version → Version
  | 0, base => base
  | fuel + 1, base => if base + 1 ∈ bitmap then normBase bitmap fuel (base + 1) else base

/-- `BitmappedVersion::norm`: absorb the run above the base, then drop every
bitmap entry the base covers (`remove_range(0..base + 1)`). -/
def norm (bv : BitmappedVersion) : BitmappedVersion :=
  let base := normBase bv.bitmap bv.bitmap.card bv.base
  ⟨base, bv.bitmap.filter (fun v => base < v)⟩

/-- `BitmappedVersion::merge`. -/
def merge (bv other : BitmappedVersion) : BitmappedVersion :=
  norm ⟨max bv.base other.base, bv.bitmap ∪ other.bitmap⟩

/-- `BitmappedVersion::add`: the flag says whether `version` was new. -/
def add (bv : BitmappedVersion) (version : Version) : Bool × BitmappedVersion :=
  if version = bv.base + 1 then (true, norm ⟨bv.base + 1, bv.bitmap⟩)
  else if bv.base < version then
    if version ∈ bv.bitmap then (false, bv)
    else (true, norm ⟨bv.base, insert version bv.bitmap⟩)
  else (false, bv)

/-- `BitmappedVersion::add_all`. -/
def addAll (bv : BitmappedVersion) (version : Version) : Bool × BitmappedVersion :=
  if bv.base < version then (true, norm ⟨version, bv.bitmap⟩) else (false, bv)

/-- `BitmappedVersion::contains`. -/
def contains (bv : BitmappedVersion) (version : Version) : Bool :=
  decide (version ≤ bv.base) || decide (version ∈ bv.bitmap)

/-- `BitmappedVersion::contains_all`. -/
def containsAll (bv : BitmappedVersion) (version : Version) : Bool :=
  decide (version ≤ bv.base)

/-- `BitmappedVersion::delta` (`self - other`): the versions the iterator
yields, walking `other.base + 1 ..= max(self.bitmap.max, self.base)`. -/
def delta (bv other : BitmappedVersion) : List Version :=
  if bv.base < other.base then []
  else
    let lastVersion := max (bv.bitmap.sup id) bv.base
    (List.range (lastVersion - other.base)).filterMap fun i =>
      let version := other.base + (i + 1)
      if version ∉ other.bitmap ∧ bv.contains version = true then some version else none

end BitmappedVersion

/-- `version_vector::BitmappedVersionVector`: a node clock. -/
structure BitmappedVersionVector where
  map : VecMap NodeId BitmappedVersion
deriving DecidableEq

namespace BitmappedVersionVector

/-- `BitmappedVersionVector::new`. -/
def new : BitmappedVersionVector := ⟨VecMap.empty⟩

instance : Inhabited BitmappedVersionVector := ⟨new⟩

/-- `BitmappedVersionVector::clear`. -/
def clear (_ : BitmappedVersionVector) : BitmappedVersionVector := new

/-- `BitmappedVersionVector::get`. -/
def get? (bvv : BitmappedVersionVector) (id : NodeId) : Option BitmappedVersion :=
  bvv.map.get? id

/-- `BitmappedVersionVector::iter`. -/
def iter (bvv : BitmappedVersionVector) : List (NodeId × BitmappedVersion) := bvv.map.entries

/-- `BitmappedVersionVector::add`: `entry(id).or_insert_with(Default)` then `add`. -/
def add (bvv : BitmappedVersionVector) (id : NodeId) (version : Version) :
    Bool × BitmappedVersionVector :=
  let r := ((bvv.get? id).getD BitmappedVersion.empty).add version
  (r.1, ⟨bvv.map.insert id r.2⟩)

/-- `BitmappedVersionVector::add_all`. -/
def addAll (bvv : BitmappedVersionVector) (id : NodeId) (version : Version) :
    Bool × BitmappedVersionVector :=
  let r := ((bvv.get? id).getD BitmappedVersion.empty).addAll version
  (r.1, ⟨bvv.map.insert id r.2⟩)

/-- `BitmappedVersionVector::add_bv`. -/
def addBv (bvv : BitmappedVersionVector) (id : NodeId) (bv : BitmappedVersion) :
    BitmappedVersionVector :=
  ⟨bvv.map.insert id (((bvv.get? id).getD BitmappedVersion.empty).merge bv)⟩

/-- `BitmappedVersionVector::merge`: copy the ids `bvv` lacks, merge the others. -/
def merge (bvv other : BitmappedVersionVector) : BitmappedVersionVector :=
  other.iter.foldl (fun acc e =>
    match acc.get? e.1 with
    | none => ⟨acc.map.insert e.1 e.2⟩
    | some bv => ⟨acc.map.insert e.1 (bv.merge e.2)⟩) bvv

/-- `BitmappedVersionVector::event`: the next version of `id`, and the clock
that records it. The source's `debug_assert` on an empty bitmap is compiled
out of release builds and not modelled. -/
def event (bvv : BitmappedVersionVector) (id : NodeId) : Version × BitmappedVersionVector :=
  match bvv.get? id with
  | none => (1, ⟨bvv.map.insert id (BitmappedVersion.new 1 0)⟩)
  | some bv => (bv.base + 1, ⟨bvv.map.insert id ⟨bv.base + 1, bv.bitmap⟩⟩)

/-- `BitmappedVersionVector::contains`. -/
def contains (bvv : BitmappedVersionVector) (id : NodeId) (v : Version) : Bool :=
  ((bvv.get? id).map (fun bv => bv.contains v)).getD false

/-- `BitmappedVersionVector::contains_all`. -/
def containsAll (bvv : BitmappedVersionVector) (id : NodeId) (v : Version) : Bool :=
  ((bvv.get? id).map (fun bv => bv.containsAll v)).getD false

/-- `BitmappedVersionVector::delta` (`self - other`): the dots its iterator
yields, id by id in the order of `self`. An id missing from `other` is
compared against `BitmappedVersion::new(0, 0)`. -/
def delta (bvv other : BitmappedVersionVector) : List Dot :=
  bvv.iter.flatMap fun e =>
    (e.2.delta ((other.get? e.1).getD (BitmappedVersion.new 0 0))).map (fun v => (e.1, v))

end BitmappedVersionVector

/-- `VersionVector::contained`: every entry is below the base of the clock. -/
def VersionVector.contained (vv : VersionVector) (bvv : BitmappedVersionVector) : Bool :=
  vv.iter.all (fun e => bvv.containsAll e.1 e.2)

end Sucredb
