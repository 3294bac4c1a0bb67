/-
Sucredb.VersionVector.Serde — the bytes of a node clock's bitmap:
`serialize_bitmap` and `deserialize_bitmap` of `version_vector.rs`, which the
derived serde of `BitmappedVersion` calls for its `bitmap` field, so that a
vnode's saved clocks and the clocks sync messages carry hold these bytes.

A `RoaringTreemap` of versions keeps each version's high 32 bits as a key of
a `BTreeMap`, and its low 32 bits in the `RoaringBitmap` under that key;
`bitmaps()` walks the keys in increasing order. The model keeps the treemap as
the `Finset Version` of `BitmappedVersion` and reads the bitmaps off it
(`RoaringTreemap.bitmaps`). `serialize_bitmap` writes their number as a
little-endian `u32`, then each key as a `u32` followed by its bitmap in the
roaring crate's format. `deserialize_bitmap` reads them back in a loop of that
many rounds, and `from_bitmaps` collects them, a later bitmap for a key
replacing an earlier one.

The roaring crate's format for one bitmap is not part of this repository. It
is a `RoaringCodec`, a parameter, and what is assumed of it is
`RoaringCodec.Inverts`: `serialized_size` is the length written, and reading
back a bitmap of `u32`s gives it and stops where the writing stopped.
`plainRoaring` meets that contract, so it can be met.

## Results

* `bitmap_serde_round_trip`: for a set of `u64` versions under fewer than
  `2 ^ 32` keys, the buffer is exactly as long as the capacity reserved for
  it, and reads back as the same set, whatever bytes follow it.

The rest of the bytes of a clock are the derived serde of the structs and of
`LinearMap`, with bincode: none of it is code of this repository, and the
model leaves it out.

The count of bitmaps is a `u32` that the source increments once per key: a
set under all `2 ^ 32` keys would write a count of `0`, hence the hypothesis.
-/
import Sucredb.VNode.State
import Sucredb.Lib.Binary

namespace Sucredb

/-- The roaring crate's format for one `RoaringBitmap` of `u32`s:
`serialized_size`, `serialize_into`, and `deserialize_from`, which reads one
bitmap off the front of the bytes and gives the bytes after it. -/
structure RoaringCodec where
  serializedSize : Finset ℕ → ℕ
  serializeInto : Finset ℕ → Bytes
  deserializeFrom : Bytes → Option (Finset ℕ × Bytes)

/-- What is assumed of the roaring format: `serialized_size` is the length
`serialize_into` writes, and reading a bitmap of `u32`s back gives it and
stops where the writing stopped. -/
structure RoaringCodec.Inverts (c : RoaringCodec) : Prop where
  length_serializeInto : ∀ b, (c.serializeInto b).length = c.serializedSize b
  deserializeFrom_serializeInto : ∀ b rest, (∀ x ∈ b, x < 2 ^ 32) →
    c.deserializeFrom (c.serializeInto b ++ rest) = some (b, rest)

/-! ## 1. A format for one bitmap

A stand-in with the roaring format's contract: the number of members as a
`u64`, then the members in increasing order, each a little-endian `u32`. -/

/-- Each member of a bitmap as a `u32`, ascending, behind their count. -/
def plainRoaring : RoaringCodec where
  serializedSize b := 8 + 4 * b.card
  serializeInto b := Binary.littleEndian 8 b.card ++ b.sort.flatMap (Binary.littleEndian 4)
  deserializeFrom buffer := do
    let (n, buffer) ← Binary.readLittleEndian 8 buffer
    let (members, buffer) ← Binary.readSeq (Binary.readLittleEndian 4) n buffer
    pure (members.toFinset, buffer)

theorem plainRoaring_inverts : plainRoaring.Inverts where
  length_serializeInto b := by
    simp only [plainRoaring, List.length_append, Binary.length_littleEndian, List.length_flatMap,
      List.map_const', List.sum_replicate, Finset.length_sort, smul_eq_mul]
    omega
  deserializeFrom_serializeInto b rest hb := by
    have hcard : b.card < 256 ^ 8 :=
      calc b.card ≤ (Finset.range (2 ^ 32)).card :=
            Finset.card_le_card fun x hx => Finset.mem_range.mpr (hb x hx)
        _ < 256 ^ 8 := by simp
    have hmembers := Binary.readSeq_flatMap (Binary.readLittleEndian 4) (Binary.littleEndian 4)
      b.sort (fun x hx rest => Binary.readLittleEndian_littleEndian
        (lt_of_lt_of_eq (hb x (by simpa using hx)) (by norm_num)) rest) rest
    rw [Finset.length_sort] at hmembers
    simp only [plainRoaring, List.append_assoc, Binary.readLittleEndian_littleEndian hcard,
      hmembers, Option.bind_eq_bind, Option.bind_some, Finset.sort_toFinset]
    rfl


/-! ## 2. The bitmaps of a treemap -/

namespace RoaringTreemap

/-- The keys of the `BTreeMap` behind a `RoaringTreemap`: the high halves of
its versions, in increasing order. -/
def highs (value : Finset Version) : List ℕ := (value.image fun v => v / 2 ^ 32).sort

/-- `RoaringTreemap::bitmaps`: each key, in increasing order, with the bitmap
of the low halves of the versions under it. -/
def bitmaps (value : Finset Version) : List (ℕ × Finset ℕ) :=
  (highs value).map fun p => (p, (value.filter fun v => v / 2 ^ 32 = p).image fun v => v % 2 ^ 32)

/-- `RoaringTreemap::from_bitmaps`: the pairs collected into the map of keys,
a later bitmap for a key replacing an earlier one; the treemap holds
`p * 2 ^ 32 + x` for each `x` of the bitmap under `p`. -/
def fromBitmaps (bitmaps : List (ℕ × Finset ℕ)) : Finset Version :=
  let map := bitmaps.foldl (fun m pb => m.insert pb.1 pb.2) (VecMap.empty : VecMap ℕ (Finset ℕ))
  map.entries.toFinset.biUnion fun pb => pb.2.image fun x => pb.1 * 2 ^ 32 + x

theorem map_fst_bitmaps (value : Finset Version) : (bitmaps value).map Prod.fst = highs value := by
  simp [bitmaps, Function.comp_def]

theorem length_bitmaps (value : Finset Version) :
    (bitmaps value).length = (value.image fun v => v / 2 ^ 32).card := by
  simp [bitmaps, highs]

theorem mem_bitmaps {value : Finset Version} {pb : ℕ × Finset ℕ} :
    pb ∈ bitmaps value ↔ (∃ v ∈ value, v / 2 ^ 32 = pb.1) ∧
      pb.2 = (value.filter fun v => v / 2 ^ 32 = pb.1).image fun v => v % 2 ^ 32 := by
  obtain ⟨p, b⟩ := pb
  simp only [bitmaps, highs, List.mem_map, Finset.mem_sort, Finset.mem_image, Prod.mk.injEq]
  constructor
  · rintro ⟨q, hq, rfl, rfl⟩
    exact ⟨hq, rfl⟩
  · rintro ⟨hp, rfl⟩
    exact ⟨p, hp, rfl, rfl⟩

/-- The bitmaps of `u64` versions hold `u32` keys and `u32` low halves. -/
theorem bitmaps_lt {value : Finset Version} (hu64 : ∀ v ∈ value, v < 2 ^ 64) {pb : ℕ × Finset ℕ}
    (hpb : pb ∈ bitmaps value) : pb.1 < 2 ^ 32 ∧ ∀ x ∈ pb.2, x < 2 ^ 32 := by
  obtain ⟨⟨v, hv, hp⟩, hb⟩ := mem_bitmaps.mp hpb
  refine ⟨?_, fun x hx => ?_⟩
  · have := hu64 v hv
    rw [← hp, Nat.div_lt_iff_lt_mul (by positivity)]
    omega
  · rw [hb, Finset.mem_image] at hx
    obtain ⟨w, -, rfl⟩ := hx
    exact Nat.mod_lt _ (by positivity)

/-- Collecting the bitmaps of a set gives the set back: each key comes once,
so the map holds the bitmaps as they are, and a version is its key and its
low half put together again. -/
theorem fromBitmaps_bitmaps (value : Finset Version) : fromBitmaps (bitmaps value) = value := by
  have hnd : ((bitmaps value).map Prod.fst).Nodup := by
    rw [map_fst_bitmaps]
    exact Finset.sort_nodup _ _
  have hentries : ((bitmaps value).foldl (fun m pb => m.insert pb.1 pb.2)
      (VecMap.empty : VecMap ℕ (Finset ℕ))).entries = bitmaps value := by
    rw [VecMap.entries_foldl_insert _ hnd (fun _ _ h => by simp [VecMap.keys, VecMap.empty] at h)]
    rfl
  ext v
  simp only [fromBitmaps, hentries, Finset.mem_biUnion, List.mem_toFinset, Finset.mem_image]
  constructor
  · rintro ⟨pb, hpb, x, hx, rfl⟩
    obtain ⟨-, hb⟩ := mem_bitmaps.mp hpb
    rw [hb, Finset.mem_image] at hx
    obtain ⟨w, hw, rfl⟩ := hx
    rw [Finset.mem_filter] at hw
    rw [← hw.2, Nat.mul_comm, Nat.div_add_mod]
    exact hw.1
  · intro hv
    refine ⟨(v / 2 ^ 32, (value.filter fun w => w / 2 ^ 32 = v / 2 ^ 32).image fun w => w % 2 ^ 32),
      mem_bitmaps.mpr ⟨⟨v, hv, rfl⟩, rfl⟩, v % 2 ^ 32, ?_, ?_⟩
    · exact Finset.mem_image.mpr ⟨v, Finset.mem_filter.mpr ⟨hv, rfl⟩, rfl⟩
    · rw [Nat.mul_comm, Nat.div_add_mod]

end RoaringTreemap

/-! ## 3. `serialize_bitmap` and `deserialize_bitmap` -/

open RoaringTreemap

/-- The capacity `serialize_bitmap` reserves: its first loop adds `4` for the
count, and `4 + serialized_size` for each bitmap. -/
def bufferLen (c : RoaringCodec) (value : Finset Version) : ℕ :=
  (bitmaps value).foldl (fun bufferLen pb => bufferLen + (4 + c.serializedSize pb.2)) 4

/-- `serialize_bitmap`: the buffer it hands to `serialize_bytes`, the count of
bitmaps as a `u32`, then each key as a `u32` and its bitmap. -/
def serializeBitmap (c : RoaringCodec) (value : Finset Version) : Bytes :=
  Binary.u32le (bitmaps value).length ++
    (bitmaps value).flatMap fun pb => Binary.u32le pb.1 ++ c.serializeInto pb.2

/-- One round of the loop of `deserialize_bitmap`: a key, then its bitmap. -/
def readBitmap (c : RoaringCodec) (buffer : Bytes) : Option ((ℕ × Finset ℕ) × Bytes) := do
  let (p, buffer) ← Binary.readU32le buffer
  let (b, buffer) ← c.deserializeFrom buffer
  pure ((p, b), buffer)

/-- `deserialize_bitmap` on the bytes bincode hands it: the count, that many
keys and bitmaps, and `from_bitmaps`. What follows the last bitmap is left
unread. -/
def deserializeBitmap (c : RoaringCodec) (buffer : Bytes) : Option (Finset Version) := do
  let (bitmapCount, buffer) ← Binary.readU32le buffer
  let (bitmaps, _) ← Binary.readSeq (readBitmap c) bitmapCount buffer
  pure (fromBitmaps bitmaps)

section Bitmap

variable {c : RoaringCodec}

theorem readBitmap_write (hc : c.Inverts) {p : ℕ} {b : Finset ℕ} (hp : p < 2 ^ 32)
    (hb : ∀ x ∈ b, x < 2 ^ 32) (rest : Bytes) :
    readBitmap c (Binary.u32le p ++ c.serializeInto b ++ rest) = some ((p, b), rest) := by
  simp only [readBitmap, List.append_assoc, Binary.readU32le_u32le, Nat.mod_eq_of_lt hp,
    hc.deserializeFrom_serializeInto b rest hb, Option.bind_eq_bind, Option.bind_some]
  rfl

/-- The first loop of `serialize_bitmap` counts the bytes the second writes. -/
theorem foldl_bufferLen (hc : c.Inverts) :
    ∀ (l : List (ℕ × Finset ℕ)) (acc : ℕ),
      l.foldl (fun bufferLen pb => bufferLen + (4 + c.serializedSize pb.2)) acc =
        acc + (l.flatMap fun pb => Binary.u32le pb.1 ++ c.serializeInto pb.2).length
  | [], acc => rfl
  | pb :: l, acc => by
    rw [List.foldl_cons, foldl_bufferLen hc l, List.flatMap_cons, List.length_append,
      List.length_append, Binary.length_u32le, hc.length_serializeInto]
    omega

theorem length_serializeBitmap (hc : c.Inverts) (value : Finset Version) :
    (serializeBitmap c value).length = bufferLen c value := by
  rw [bufferLen, foldl_bufferLen hc, serializeBitmap, List.length_append, Binary.length_u32le]

/-- Reading a treemap's bytes gives back its bitmaps, and `from_bitmaps` the
treemap itself. -/
theorem deserializeBitmap_serializeBitmap (hc : c.Inverts) {value : Finset Version}
    (hu64 : ∀ v ∈ value, v < 2 ^ 64) (hcount : (value.image fun v => v / 2 ^ 32).card < 2 ^ 32)
    (rest : Bytes) : deserializeBitmap c (serializeBitmap c value ++ rest) = some value := by
  have hlen : (bitmaps value).length % 2 ^ 32 = (bitmaps value).length := by
    rw [length_bitmaps]
    exact Nat.mod_eq_of_lt hcount
  have hloop := Binary.readSeq_flatMap (readBitmap c)
    (fun pb => Binary.u32le pb.1 ++ c.serializeInto pb.2) (bitmaps value) (fun pb hpb rest => by
      obtain ⟨hp, hb⟩ := bitmaps_lt hu64 hpb
      exact readBitmap_write hc hp hb rest) rest
  simp only [deserializeBitmap, serializeBitmap, List.append_assoc, Binary.readU32le_u32le, hlen,
    hloop, Option.bind_eq_bind, Option.bind_some, fromBitmaps_bitmaps]
  rfl

/-- `serialize_bitmap` fills exactly the capacity it reserves, and
`deserialize_bitmap` reads its buffer back as the same treemap, whatever
bytes follow it: for every set of `u64` versions under fewer than `2 ^ 32`
keys, as long as the roaring format reads back one bitmap. -/
theorem bitmap_serde_round_trip (c : RoaringCodec) (hc : c.Inverts) {value : Finset Version}
    (hu64 : ∀ v ∈ value, v < 2 ^ 64) (hcount : (value.image fun v => v / 2 ^ 32).card < 2 ^ 32)
    (rest : Bytes) :
    (serializeBitmap c value).length = bufferLen c value ∧
      deserializeBitmap c (serializeBitmap c value ++ rest) = some value :=
  ⟨length_serializeBitmap hc value, deserializeBitmap_serializeBitmap hc hu64 hcount rest⟩

/-- The versions `1` and `2 ^ 32 + 5`, under two keys. -/
theorem bitmap_serde_two_keys :
    (serializeBitmap plainRoaring {1, 2 ^ 32 + 5}).length = bufferLen plainRoaring {1, 2 ^ 32 + 5} ∧
      deserializeBitmap plainRoaring (serializeBitmap plainRoaring {1, 2 ^ 32 + 5} ++ [7]) =
        some {1, 2 ^ 32 + 5} :=
  bitmap_serde_round_trip plainRoaring plainRoaring_inverts (by decide) (by decide) [7]

end Bitmap

end Sucredb
