/-
Sucredb.RespSize — `RespValue::serialized_size` against what `serialize_into`
writes, and whether `RespCodec::encode` stays inside the room it reserves.

`serialized_size` counts each length prefix at the ten digits of `4294967296`
and each integer at the twenty characters of `i64::MIN`; statuses, errors and
`Nil` it counts exactly. A value is written longer than it is counted only
where a length takes eleven digits or more. `RespValue.LengthsBelow` bounds
the lengths of a value: under `10 ^ 10` for payloads and arrays alike the
count is an upper bound (`length_serializeInto_le`, by induction on the
predicate, the array case by induction on its list), and `encode` writes the
whole value into any buffer (`encode_appends`). A bound on the payloads alone
is not enough: an array of `10 ^ 10` values or more has no room to spare when
its values have none, as `Nil`s do (`serializedSize_lt_of_many_nils`).
-/
import Sucredb.RespTheorems

namespace Sucredb

open Resp

/-- Every `Data` payload of a value is shorter than `dataBound` bytes, every
array shorter than `arrayBound` values, and every `Int` is an `i64`. -/
inductive RespValue.LengthsBelow (dataBound arrayBound : ℕ) : RespValue → Prop
  | nil : LengthsBelow dataBound arrayBound .nil
  | int {i : ℤ} : -2 ^ 63 ≤ i → i ≤ i64Max → LengthsBelow dataBound arrayBound (.int i)
  | data {b : Bytes} : b.length < dataBound → LengthsBelow dataBound arrayBound (.data b)
  | array {a : List RespValue} : a.length < arrayBound →
      (∀ w ∈ a, LengthsBelow dataBound arrayBound w) → LengthsBelow dataBound arrayBound (.array a)
  | status {s : Bytes} : LengthsBelow dataBound arrayBound (.status s)
  | error {s : Bytes} : LengthsBelow dataBound arrayBound (.error s)

namespace RespValue

/-! ## The count -/

@[simp] theorem serializedSize_nil : nil.serializedSize = 5 := rfl

@[simp] theorem serializedSize_int (i : ℤ) : (int i).serializedSize = 23 := rfl

@[simp] theorem serializedSize_data (b : Bytes) : (data b).serializedSize = 13 + b.length + 2 :=
  rfl

@[simp] theorem serializedSize_array (a : List RespValue) :
    (array a).serializedSize = 13 + serializedSizeList a := rfl

@[simp] theorem serializedSize_status (s : Bytes) : (status s).serializedSize = 1 + s.length + 2 :=
  rfl

@[simp] theorem serializedSize_error (s : Bytes) : (error s).serializedSize = 1 + s.length + 2 :=
  rfl

@[simp] theorem serializedSizeList_nil : serializedSizeList [] = 0 := rfl

@[simp] theorem serializedSizeList_cons (v : RespValue) (vs : List RespValue) :
    serializedSizeList (v :: vs) = v.serializedSize + serializedSizeList vs := rfl

theorem serializedSizeList_replicate (n : ℕ) (v : RespValue) :
    serializedSizeList (List.replicate n v) = n * v.serializedSize := by
  induction n with
  | zero => simp
  | succ n ih =>
    rw [List.replicate_succ, serializedSizeList_cons, ih, Nat.succ_mul, Nat.add_comm]

theorem length_serializeList_replicate (n : ℕ) (v : RespValue) :
    (serializeList (List.replicate n v)).length = n * v.serializeInto.length := by
  induction n with
  | zero => simp
  | succ n ih =>
    rw [List.replicate_succ, serializeList_cons, List.length_append, ih, Nat.succ_mul,
      Nat.add_comm]

/-! ## The count bounds the bytes -/

/-- The values of an array, each within its count, are within theirs. -/
theorem length_serializeList_le {a : List RespValue}
    (h : ∀ w ∈ a, w.serializeInto.length ≤ w.serializedSize) :
    (serializeList a).length ≤ serializedSizeList a := by
  induction a with
  | nil => simp
  | cons v vs ih =>
    have hv := h v List.mem_cons_self
    have hvs := ih fun w hw => h w (List.mem_cons_of_mem _ hw)
    simp only [serializeList_cons, List.length_append, serializedSizeList_cons]
    omega

/-- With every length below `10 ^ 10`, each prefix fits the ten digits it is
counted at, and each integer the twenty characters. -/
theorem length_serializeInto_le {v : RespValue} (h : v.LengthsBelow (10 ^ 10) (10 ^ 10)) :
    v.serializeInto.length ≤ v.serializedSize := by
  induction h with
  | nil => decide
  | int h₁ h₂ =>
    have hw := length_displayInt_le h₁ h₂
    simp [serializeInto, crlf]
    omega
  | data hb =>
    have hw := length_displayNat_le (by decide) hb
    simp [serializeInto, crlf]
    omega
  | array ha _ ih =>
    have hw := length_displayNat_le (by decide) ha
    have hl := length_serializeList_le ih
    simp [serializeInto, crlf]
    omega
  | status => simp [serializeInto, crlf]
  | error => simp [serializeInto, crlf]

/-- An array of `10 ^ 10` `Nil`s or more is written longer than it is
counted: its length takes eleven digits or more, and a `Nil` is counted at
exactly its five bytes. -/
theorem serializedSize_lt_of_many_nils {n : ℕ} (h : 10 ^ 10 ≤ n) :
    (array (List.replicate n nil)).serializedSize <
      (array (List.replicate n nil)).serializeInto.length := by
  have hw := lt_length_displayNat h
  simp only [serializedSize_array, serializedSizeList_replicate, serializedSize_nil,
    serializeInto, List.length_replicate, List.cons_append, List.length_cons, List.length_append,
    length_serializeList_replicate, crlf, List.length_nil]
  omega

end RespValue

/-! ## The codec -/

namespace RespCodec

/-- Within the bound, `encode` never fails its `expect`: whatever the buffer
held, it ends with the value's bytes after it. -/
theorem encode_appends {v : RespValue} (h : v.LengthsBelow (10 ^ 10) (10 ^ 10)) (dst : BytesMut) :
    (encode v dst).map Binary.Buffer.bytes = some (dst.bytes ++ v.serializeInto) := by
  have hroom := dst.le_remaining_reserve v.serializedSize
  rw [encode, Binary.Buffer.writeAll_of_le (le_trans (RespValue.length_serializeInto_le h) hroom),
    Binary.Buffer.bytes_reserve]

/-- Into a buffer with nothing allocated, `reserve` allocates exactly the count,
so `encode` fails exactly on a value written longer than it is counted. -/
theorem encode_empty_eq_none_iff (v : RespValue) :
    encode v Binary.Buffer.empty = none ↔ v.serializedSize < v.serializeInto.length := by
  rw [encode, Binary.Buffer.writeAll_eq_none_iff, Binary.Buffer.remaining_reserve,
    Binary.Buffer.remaining_empty, Nat.zero_max]

end RespCodec

/-- `serialized_size` bounds what `serialize_into` writes, so `encode` never
fails its `expect`, for every value whose integers are `i64`s and whose
payloads and arrays are all shorter than `10 ^ 10`. -/
theorem serialized_size_bounds_encoding (v : RespValue)
    (hv : v.LengthsBelow (10 ^ 10) (10 ^ 10)) (dst : BytesMut) :
    v.serializeInto.length ≤ v.serializedSize ∧
      (RespCodec.encode v dst).map Binary.Buffer.bytes = some (dst.bytes ++ v.serializeInto) :=
  ⟨RespValue.length_serializeInto_le hv, RespCodec.encode_appends hv dst⟩

/-- The least `i64`, a payload and a `Nil` in one array, into an empty buffer. -/
theorem encode_min_int_within_reserve :
    (RespValue.array [.int (-2 ^ 63), .data [97, 98, 99], .nil]).serializeInto.length ≤
        (RespValue.array [.int (-2 ^ 63), .data [97, 98, 99], .nil]).serializedSize ∧
      (RespCodec.encode (.array [.int (-2 ^ 63), .data [97, 98, 99], .nil])
          Binary.Buffer.empty).map Binary.Buffer.bytes =
        some ([] ++ (RespValue.array [.int (-2 ^ 63), .data [97, 98, 99], .nil]).serializeInto) := by
  have hv : (RespValue.array [.int (-2 ^ 63), .data [97, 98, 99], .nil]).LengthsBelow
      (10 ^ 10) (10 ^ 10) := by
    refine .array (by decide) fun w hw => ?_
    simp only [List.mem_cons, List.not_mem_nil, or_false] at hw
    rcases hw with rfl | rfl | rfl
    · exact .int (by decide) (by decide)
    · exact .data (by decide)
    · exact .nil
  exact serialized_size_bounds_encoding _ hv Binary.Buffer.empty

/-- Ten billion `Nil`s: a value the source's types hold, with no payload at
all, that is written one byte past `serialized_size`, so that `encode` into a
fresh buffer fails its `expect`. -/
theorem ten_billion_nils_overrun_reserve :
    (RespValue.array (List.replicate (10 ^ 10) .nil)).WF ∧
      (RespValue.array (List.replicate (10 ^ 10) .nil)).LengthsBelow (10 ^ 10) (10 ^ 10 + 1) ∧
      (RespValue.array (List.replicate (10 ^ 10) .nil)).serializedSize <
        (RespValue.array (List.replicate (10 ^ 10) .nil)).serializeInto.length ∧
      RespCodec.encode (.array (List.replicate (10 ^ 10) .nil)) Binary.Buffer.empty = none := by
  have hlong := RespValue.serializedSize_lt_of_many_nils (le_refl (10 ^ 10))
  refine ⟨.array ?_ fun w hw => ?_, .array ?_ fun w hw => ?_, hlong,
    (RespCodec.encode_empty_eq_none_iff _).mpr hlong⟩
  · rw [List.length_replicate]
    unfold respValueSize i64Max
    norm_num
  · rw [List.eq_of_mem_replicate hw]
    exact .nil
  · rw [List.length_replicate]
    exact Nat.lt_succ_self _
  · rw [List.eq_of_mem_replicate hw]
    exact .nil

end Sucredb
