/-
Sucredb.VersionVector.Delta — `DeltaVersionVector` of `version_vector.rs`: a
version vector with exceptions, as one flat vector of `(id, version)` pairs.

Each id is meant to have one group of consecutive entries: its base first,
then the versions above `base + 1` it also holds, in increasing order. The
methods walk positions of the vector. Here each `while` loop is a function on
the rest of the vector from where the loop starts, returning what the loop
leaves behind: the entries after the ones `drain` removes, the new base, or
the answer. A failed `assert!` is `none`.

`merge` and `contained` walk the other vector group by group: an entry opens
a group unless the entry before it has the same id. That is what the source's
inner `while` over `other.0[p].0 == id` decides.
-/
import Sucredb.VersionVector.Bitmapped

namespace Sucredb

/-- `version_vector::DeltaVersionVector`. -/
structure DeltaVersionVector where
  entries : List (NodeId × Version)
deriving DecidableEq, Repr

namespace DeltaVersionVector

/-- `DeltaVersionVector::new`. -/
def new : DeltaVersionVector := ⟨[]⟩

/-- `DeltaVersionVector::from_vv`: the entries of the version vector, each the
base of its id. -/
def fromVv (vv : VersionVector) : DeltaVersionVector := ⟨vv.map.entries⟩

/-- `self.0.iter().position(|x| x.0 == id)`: the position of the first entry
of `id`, its base. -/
def basePos (d : DeltaVersionVector) (id : NodeId) : Option ℕ :=
  d.entries.findIdx? (·.1 == id)

/-- `self.0[p].1`, read where `p` is a position of the vector. -/
def versionAt (d : DeltaVersionVector) (p : ℕ) : Version := (d.entries.getD p (0, 0)).2

/-! ## `contains` -/

/-- The loop of `contains` after the base: an entry of `id` equal to
`version` before the group ends. -/
def containsScan (id : NodeId) (version : Version) : List (NodeId × Version) → Bool
  | [] => false
  | e :: es => if e.1 ≠ id then false else if e.2 = version then true else containsScan id version es

/-- `DeltaVersionVector::contains`. Its first test is `base <= version`. -/
def contains (d : DeltaVersionVector) (id : NodeId) (version : Version) : Option Bool :=
  if version = 0 then none
  else
    match d.basePos id with
    | none => some false
    | some p =>
      if d.versionAt p ≤ version then some true
      else some (containsScan id version (d.entries.drop (p + 1)))

/-! ## `add_all` and `add` -/

/-- The first loop of `add_all`: pass over the entries of `id` that the new
base covers. -/
def skipCovered (id : NodeId) (newBase : Version) : List (NodeId × Version) → List (NodeId × Version)
  | [] => []
  | e :: es => if e.1 ≠ id then e :: es else if e.2 > newBase then e :: es else skipCovered id newBase es

/-- The loop that absorbs the entries of `id` continuing the base: the new
base, and the entries after those absorbed. -/
def absorb (id : NodeId) : Version → List (NodeId × Version) → Version × List (NodeId × Version)
  | newBase, [] => (newBase, [])
  | newBase, e :: es =>
    if e.1 ≠ id then (newBase, e :: es)
    else if e.2 ≠ newBase + 1 then (newBase, e :: es)
    else absorb id (newBase + 1) es

/-- `DeltaVersionVector::add_all`: raise the base of `id` to `version`, drop
the entries it covers and absorb the ones that continue it. -/
def addAll (d : DeltaVersionVector) (id : NodeId) (version : Version) : DeltaVersionVector :=
  match d.basePos id with
  | none => ⟨d.entries ++ [(id, version)]⟩
  | some p =>
    if d.versionAt p ≥ version then d
    else
      let r := absorb id version (skipCovered id version (d.entries.drop (p + 1)))
      ⟨d.entries.take p ++ (id, r.1) :: r.2⟩

/-- The loop of `add` above `base + 1`: pass over the entries of `id` below
`version` and insert it there; `none` when `version` is there already. -/
def insertScan (id : NodeId) (version : Version) :
    List (NodeId × Version) → Option (List (NodeId × Version))
  | [] => some [(id, version)]
  | e :: es =>
    if e.1 ≠ id then some ((id, version) :: e :: es)
    else if e.2 ≥ version then (if e.2 = version then none else some ((id, version) :: e :: es))
    else (insertScan id version es).map (e :: ·)

/-- `DeltaVersionVector::add`. An id it has not seen gets the base `0` and
the version as an exception, or the base `1`. -/
def add (d : DeltaVersionVector) (id : NodeId) (version : Version) : Option DeltaVersionVector :=
  if version = 0 then none
  else
    match d.basePos id with
    | none =>
      some ⟨d.entries ++ if version ≠ 1 then [(id, 0), (id, version)] else [(id, version)]⟩
    | some p =>
      if d.versionAt p ≥ version then some d
      else if d.versionAt p + 1 = version then
        let r := absorb id version (d.entries.drop (p + 1))
        some ⟨d.entries.take p ++ (id, r.1) :: r.2⟩
      else
        match insertScan id version (d.entries.drop (p + 1)) with
        | none => some d
        | some rest => some ⟨d.entries.take (p + 1) ++ rest⟩

/-! ## `merge` and `contained` -/

/-- The loop of `merge` over the entries of `other`: `add_all` of the entry
that opens a group, `add` of the ones after it. `cur` is the id of the group
the loop is in. -/
def mergeLoop : DeltaVersionVector → Option NodeId → List (NodeId × Version) →
    Option DeltaVersionVector
  | d, _, [] => some d
  | d, cur, (id, v) :: rest =>
    if cur = some id then (d.add id v).bind fun d => mergeLoop d cur rest
    else mergeLoop (d.addAll id v) (some id) rest

/-- `DeltaVersionVector::merge`. -/
def merge (d other : DeltaVersionVector) : Option DeltaVersionVector :=
  mergeLoop d none other.entries

/-- The loop of `contained`: the group's base must be in the clock of its id
in full (`contains_all`), and each later entry of the group in it
(`contains`). `cur` is the id of the group the loop is in and its clock. -/
def containedLoop (bvv : BitmappedVersionVector) :
    Option (NodeId × BitmappedVersion) → List (NodeId × Version) → Bool
  | _, [] => true
  | cur, (id, v) :: rest =>
    match cur.filter (·.1 == id) with
    | some (_, bv) => bv.contains v && containedLoop bvv cur rest
    | none =>
      match bvv.get? id with
      | none => false
      | some bv => bv.containsAll v && containedLoop bvv (some (id, bv)) rest

/-- `DeltaVersionVector::contained`. -/
def contained (d : DeltaVersionVector) (bvv : BitmappedVersionVector) : Bool :=
  containedLoop bvv none d.entries

/-- `test_add` and `test_add_all` of the source. -/
example : (new.add 1 1 >>= (·.add 1 3) >>= (·.add 1 4) >>= (·.add 2 2) >>= (·.add 1 2)) =
      some ⟨[(1, 4), (2, 0), (2, 2)]⟩ ∧
    (⟨[(1, 0), (1, 3)]⟩ : DeltaVersionVector).addAll 1 2 = ⟨[(1, 3)]⟩ := by
  decide

/-- `test_merge` of the source. -/
example : (⟨[(1, 1), (1, 3), (1, 4), (2, 0), (2, 2)]⟩ : DeltaVersionVector).merge
      ⟨[(1, 0), (1, 2), (2, 1), (3, 0), (3, 3)]⟩ = some ⟨[(1, 4), (2, 2), (3, 0), (3, 3)]⟩ ∧
    (⟨[(1, 4), (2, 2), (3, 5), (3, 7)]⟩ : DeltaVersionVector).merge ⟨[(3, 6)]⟩ =
      some ⟨[(1, 4), (2, 2), (3, 7)]⟩ := by
  decide

end DeltaVersionVector

end Sucredb
