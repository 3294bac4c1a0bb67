/-
Sucredb.Fabric.Codec — the framing of `fabric.rs`: `FramedBincodeCodec`, and
the messages of `fabric_msg.rs` it carries.

A frame is the bincode size of a `FabricMsgRef` as a little-endian `u32`, then
its bincode. bincode writes an enum as the index of the variant, then the
payload. Each variant's payload is left to a `PayloadCodec`, a parameter, and
what is assumed of bincode is `PayloadCodec.Inverts`. `FabricMsg` and
`FabricMsgRef` list the same variants in the same order. The model keeps their
two tables apart: the writer's `FabricMsgRef.variantIndex` and the reader's
`FabricMsg.variantOfIndex`, which inverts it (`variantOfIndex_variantIndex`).

`decode` reads the prefix and waits while fewer bytes than it says have
arrived. Then it deserializes from the whole rest of the buffer, not from the
framed slice, and consumes `4 + msg_len` bytes whatever bincode read. The two
agree because bincode reads exactly what it wrote and the size fits the
prefix (`decode_serialize`). A strict prefix of a frame is left in the buffer
(`decode_incomplete`). With the reader loop of `Binary.readChunks`, the frames
of a list of messages, cut into chunks anyhow, come back as the messages
(`framed_bincode_round_trip`).
-/
import Sucredb.Lib.Binary
import Sucredb.Types

namespace Sucredb

/-- The variants of `fabric_msg::FabricMsg`, which `FabricMsgRef` repeats. -/
inductive FabricMsgVariant where
  | remoteGet
  | remoteGetAck
  | remoteSet
  | remoteSetAck
  | syncStart
  | syncSend
  | syncAck
  | syncFin
  | dhtAe
  | dhtSync
  | unknown
deriving DecidableEq, Repr

/-- `fabric_msg::FabricMsg`: a variant and its payload, of type `P v` for the
variant `v`. -/
abbrev FabricMsg (P : FabricMsgVariant → Type) : Type := Σ v, P v

/-- `fabric_msg::FabricMsgRef`: the same variants over borrowed payloads;
bincode writes a borrow as what it points to. -/
abbrev FabricMsgRef (P : FabricMsgVariant → Type) : Type := Σ v, P v

/-- The errors of `bincode::deserialize_from` the model tells apart;
`into_io_error` wraps them. -/
inductive BincodeError where
  | unexpectedEof
  | invalidTagEncoding (tag : ℕ)
deriving DecidableEq, Repr

variable {P : FabricMsgVariant → Type}

/-- The `From` impls behind `send_msg`'s `Into<FabricMsgRef>`: each variant
borrows its payload. -/
def FabricMsg.asRef (m : FabricMsg P) : FabricMsgRef P := ⟨m.1, m.2⟩

/-- The index bincode writes for a variant of `FabricMsgRef`: its place in the
declaration. -/
def FabricMsgRef.variantIndex : FabricMsgVariant → ℕ
  | .remoteGet => 0
  | .remoteGetAck => 1
  | .remoteSet => 2
  | .remoteSetAck => 3
  | .syncStart => 4
  | .syncSend => 5
  | .syncAck => 6
  | .syncFin => 7
  | .dhtAe => 8
  | .dhtSync => 9
  | .unknown => 10

/-- The variant of `FabricMsg` bincode reads for an index: its place in the
declaration. -/
def FabricMsg.variantOfIndex : ℕ → Option FabricMsgVariant
  | 0 => some .remoteGet
  | 1 => some .remoteGetAck
  | 2 => some .remoteSet
  | 3 => some .remoteSetAck
  | 4 => some .syncStart
  | 5 => some .syncSend
  | 6 => some .syncAck
  | 7 => some .syncFin
  | 8 => some .dhtAe
  | 9 => some .dhtSync
  | 10 => some .unknown
  | _ => none

/-- bincode on the payload of each variant: how it writes one, and how it
reads one off the front of the bytes, with the bytes after it. -/
structure PayloadCodec (P : FabricMsgVariant → Type) where
  write : (v : FabricMsgVariant) → P v → Bytes
  read : (v : FabricMsgVariant) → Bytes → Except BincodeError (P v × Bytes)

/-- What is assumed of bincode on the payloads: reading gives back what was
written and stops where the writing stopped. -/
def PayloadCodec.Inverts (c : PayloadCodec P) : Prop :=
  ∀ v p rest, c.read v (c.write v p ++ rest) = .ok (p, rest)

/-- `bincode::serialize` of a `FabricMsgRef`. -/
def bincodeRef (c : PayloadCodec P) (item : FabricMsgRef P) : Bytes :=
  Binary.writeTagged FabricMsgRef.variantIndex c.write item

/-- `bincode::deserialize_from` into a `FabricMsg`: the message and the bytes
after it. -/
def bincodeMsg (c : PayloadCodec P) (bytes : Bytes) : Except BincodeError (FabricMsg P × Bytes) :=
  Binary.readTagged FabricMsg.variantOfIndex c.read .unexpectedEof .invalidTagEncoding bytes

namespace FramedBincodeCodec

/-- `FramedBincodeCodec::serialize`: `put_u32_le(item_size as u32)`, then the
bincode of the item. -/
def serialize (c : PayloadCodec P) (item : FabricMsgRef P) : Bytes :=
  let payload := bincodeRef c item
  Binary.u32le payload.length ++ payload

/-- `Encoder::encode`: the frame goes at the end of the write buffer. -/
def encode (item dst : Bytes) : Bytes := dst ++ item

/-- `Decoder::decode`: the buffer that `split_to(consumed)` leaves, and the
result. -/
def decode (c : PayloadCodec P) (src : Bytes) : Bytes × Except BincodeError (Option (FabricMsg P)) :=
  match Binary.readU32le src with
  | none => (src, .ok none)
  | some (msgLen, bytes) =>
    if bytes.length ≥ msgLen then
      match bincodeMsg c bytes with
      | .ok (v, _) => (src.drop (4 + msgLen), .ok (some v))
      | .error e => (src, .error e)
    else (src, .ok none)

/-! ## One frame -/

variable {c : PayloadCodec P}

/-- The writer's and the reader's tables agree: `FabricMsg` and `FabricMsgRef`
list their variants in one order. -/
theorem variantOfIndex_variantIndex (v : FabricMsgVariant) :
    FabricMsgRef.variantIndex v < 2 ^ 32 ∧ FabricMsg.variantOfIndex (FabricMsgRef.variantIndex v) = some v := by
  cases v <;> decide

theorem bincodeMsg_bincodeRef (hc : c.Inverts) (m : FabricMsg P) (rest : Bytes) :
    bincodeMsg c (bincodeRef c m.asRef ++ rest) = .ok (m, rest) :=
  Binary.readTagged_writeTagged variantOfIndex_variantIndex hc _ _ m rest

theorem length_serialize (item : FabricMsgRef P) :
    (serialize c item).length = 4 + (bincodeRef c item).length := by
  simp [serialize]

theorem decode_nil : decode c [] = ([], .ok none) := rfl

/-- A whole frame at the front of the buffer: its message, and the buffer
after it. -/
theorem decode_serialize (hc : c.Inverts) (m : FabricMsg P)
    (hsize : (bincodeRef c m.asRef).length < 2 ^ 32) (rest : Bytes) :
    decode c (serialize c m.asRef ++ rest) = (rest, .ok (some m)) := by
  have hlen : (bincodeRef c m.asRef ++ rest).length ≥ (bincodeRef c m.asRef).length := by simp
  have hdrop : (Binary.u32le (bincodeRef c m.asRef).length ++ (bincodeRef c m.asRef ++ rest)).drop
      (4 + (bincodeRef c m.asRef).length) = rest := by
    rw [← List.append_assoc]
    exact List.drop_left' (by simp)
  simp only [decode, serialize, List.append_assoc, Binary.readU32le_u32le, Nat.mod_eq_of_lt hsize,
    hlen, if_true, bincodeMsg_bincodeRef hc, hdrop]

/-- What has arrived of a frame, short of all of it, stays in the buffer. -/
theorem decode_incomplete {item : FabricMsgRef P} (hsize : (bincodeRef c item).length < 2 ^ 32)
    {buf : Bytes} (hpre : buf <+: serialize c item) (hlen : buf.length < (serialize c item).length) :
    decode c buf = (buf, .ok none) := by
  by_cases h4 : buf.length < 4
  · -- not even the length prefix
    simp [decode, Binary.readU32le_eq_none h4]
  · -- the length prefix, then part of the payload
    have hu : Binary.u32le (bincodeRef c item).length <+: buf :=
      List.prefix_of_prefix_length_le (List.prefix_append _ _) hpre (by simpa using Nat.le_of_not_lt h4)
    obtain ⟨t, rfl⟩ := hu
    have ht : t.length < (bincodeRef c item).length := by
      rw [length_serialize, List.length_append, Binary.length_u32le] at hlen
      omega
    simp only [decode, Binary.readU32le_u32le, Nat.mod_eq_of_lt hsize, ge_iff_le, Nat.not_le.mpr ht,
      if_false]

/-- `decode` decodes the frames of messages whose bincode fits the prefix. -/
theorem decodesFrames (hc : c.Inverts) (msgs : List (FabricMsg P))
    (hsize : ∀ m ∈ msgs, (bincodeRef c m.asRef).length < 2 ^ 32) :
    Binary.DecodesFrames (decode c) (msgs.map fun m => (serialize c m.asRef, m)) := by
  have hmem : ∀ f m', (f, m') ∈ msgs.map (fun m => (serialize c m.asRef, m)) →
      f = serialize c m'.asRef ∧ m' ∈ msgs := by
    intro f m' h
    obtain ⟨m, hm, he⟩ := List.mem_map.mp h
    cases he
    exact ⟨rfl, hm⟩
  refine ⟨decode_nil, fun f m' h rest => ?_, fun f m' h buf hpre hlen => ?_, fun f m' h => ?_⟩
  · obtain ⟨rfl, hm⟩ := hmem f m' h
    exact decode_serialize hc m' (hsize m' hm) rest
  · obtain ⟨rfl, hm⟩ := hmem f m' h
    exact decode_incomplete (hsize m' hm) hpre hlen
  · obtain ⟨rfl, -⟩ := hmem f m' h
    exact List.ne_nil_of_length_pos (by rw [length_serialize]; omega)

/-- The bytes the encoder writes: the frames, one after the other. -/
theorem foldl_encode (frames : List Bytes) (dst : Bytes) :
    frames.foldl (fun dst item => encode item dst) dst = dst ++ frames.flatten := by
  induction frames generalizing dst with
  | nil => simp
  | cons f fs ih => rw [List.foldl_cons, ih, encode, List.flatten_cons, List.append_assoc]

/-! ## A stream of frames -/

/-- Messages whose bincode fits the `u32` prefix, framed by `serialize` and
written by the encoder one after the other, come back from the reader in
order and leave nothing in its buffer, however the bytes are cut into chunks:
`decode` takes each frame off the front, `4 + msg_len` bytes of it, and
answers `Ok(None)` on what has arrived of a frame short of all of it. -/
theorem framed_bincode_round_trip (c : PayloadCodec P) (hc : c.Inverts) (msgs : List (FabricMsg P))
    (hsize : ∀ m ∈ msgs, (bincodeRef c m.asRef).length < 2 ^ 32) (chunks : List Bytes)
    (hwire : chunks.flatten =
      (msgs.map fun m => serialize c m.asRef).foldl (fun dst item => encode item dst) []) :
    Binary.readChunks (decode c) [] chunks = .ok (msgs, []) ∧
      ∀ m ∈ msgs, (serialize c m.asRef).length = 4 + (bincodeRef c m.asRef).length ∧
        (∀ rest, decode c (serialize c m.asRef ++ rest) = (rest, .ok (some m))) ∧
        ∀ buf, buf <+: serialize c m.asRef → buf.length < (serialize c m.asRef).length →
          decode c buf = (buf, .ok none) := by
  have hframes := decodesFrames hc msgs hsize
  -- the chunks carry the frames of the messages, in order
  have hflat : [] ++ chunks.flatten =
      ((msgs.map fun m => (serialize c m.asRef, m)).map Prod.fst).flatten := by
    rw [hwire, foldl_encode, List.map_map]
    rfl
  have hread := Binary.readChunks_frames hframes chunks (List.suffix_refl _) hframes.pending_nil hflat
  rw [List.map_map, show (Prod.snd ∘ fun m : FabricMsg P => (serialize c m.asRef, m)) = id from rfl,
    List.map_id] at hread
  refine ⟨hread, fun m hm => ⟨length_serialize _, decode_serialize hc m (hsize m hm),
    fun buf hpre hlen => decode_incomplete (hsize m hm) hpre hlen⟩⟩

/-- With payloads that take no byte, `SyncAck` then `Unknown`, cut into three
chunks that split both frames. -/
theorem two_frames_in_three_chunks :
    (⟨fun _ _ => [], fun _ b => .ok ((), b)⟩ : PayloadCodec fun _ => Unit).Inverts ∧
      Binary.readChunks (decode ⟨fun _ _ => [], fun _ b => .ok ((), b)⟩)
        [] [[4, 0, 0], [0, 6, 0, 0, 0, 4], [0, 0, 0, 10, 0, 0, 0]] =
        .ok ([⟨.syncAck, ()⟩, ⟨.unknown, ()⟩], []) := by
  have hc : (⟨fun _ _ => [], fun _ b => .ok ((), b)⟩ : PayloadCodec fun _ => Unit).Inverts :=
    fun _ _ _ => rfl
  refine ⟨hc, (framed_bincode_round_trip _ hc [⟨.syncAck, ()⟩, ⟨.unknown, ()⟩] ?_ _ ?_).1⟩
  · intro m hm
    simp only [List.mem_cons, List.not_mem_nil, or_false] at hm
    rcases hm with rfl | rfl <;> decide
  · decide

end FramedBincodeCodec

end Sucredb
