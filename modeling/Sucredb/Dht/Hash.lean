/-
Sucredb.Dht.Hash — `hash.rs`: the Redis Cluster hash slot of a key, and the
vnode `DHT::key_vnode` maps the slot to.

`hash_slot` hashes the key's tag when it has one: the bytes between the first
`{` and the first `}` after it, when there are any (`hashTag`); otherwise the
whole key. The crc is CRC-16/XMODEM, which is what the `crc16` crate's
`XMODEM` state computes (polynomial `0x1021`, initial value `0`, no
reflection); it is written here bit by bit, where the crate uses a table.

Stated on the shape of the key rather than on the positions the source
computes (`hashTag_of_split`, `hashTag_eq_self`), the tag rule is the one
Redis Cluster specifies, and keys with one tag share their slot and their
vnode (`hash_slot_follows_hashtag_rule`).
-/
import Sucredb.Types

namespace Sucredb

namespace Hash

/-! ## The model -/

/-- `hash::HASH_SLOTS`. -/
def hashSlots : UInt16 := 16384

/-- One byte of CRC-16/XMODEM: the byte enters the high half, then eight
shifts, each reduced by the polynomial `0x1021` when a bit falls out. -/
def crcByte (crc : UInt16) (b : UInt8) : UInt16 :=
  (List.range 8).foldl (fun c _ => if c &&& 0x8000 = 0 then c <<< 1 else (c <<< 1) ^^^ 0x1021)
    (crc ^^^ (b.toUInt16 <<< 8))

/-- `crc16::State::<crc16::XMODEM>::calculate`. -/
def crc16Xmodem (data : Bytes) : UInt16 := data.foldl crcByte 0

/-- The check value of CRC-16/XMODEM. -/
example : crc16Xmodem (bytesOf "123456789") = 0x31C3 := by decide +kernel

/-- The byte `{`. -/
def openBrace : UInt8 := 123

/-- The byte `}`. -/
def closeBrace : UInt8 := 125

/-- The bytes `hash_slot` hashes: those between the first `{` and the first
`}` after it when there are any, the whole key otherwise. `close` counts from
the byte after `open`, as the source's comment says. -/
def hashTag (key : Bytes) : Bytes :=
  match key.findIdx? (· == openBrace) with
  | none => key
  | some openAt =>
    let rest := key.drop (openAt + 1)
    match rest.findIdx? (· == closeBrace) with
    | none => key
    | some close => if close > 0 then rest.take close else key

/-- `hash::hash_slot`. -/
def hashSlot (key : Bytes) : UInt16 := crc16Xmodem (hashTag key) % hashSlots

/-- `DHT::key_vnode` on a ring of `partitions` vnodes (`partitions() as
VNodeNo`, a `u16`): runs of `HASH_SLOTS / partitions` consecutive slots per
vnode; `none` for the division by zero of a ring with no vnode, or with more
vnodes than slots. -/
def keyVnode (partitions : ℕ) (key : Bytes) : Option ℕ :=
  let width := hashSlots / partitions.toUInt16
  if width = 0 then none else some (hashSlot key / width).toNat

/-- `test_hash_slot`: nested and repeated braces. -/
example : hashTag (bytesOf "\x7babc\x7d\x7bdef\x7d") = bytesOf "abc" ∧
    hashTag (bytesOf "\x7b\x7d\x7babc\x7d") = bytesOf "\x7b\x7d\x7babc\x7d" ∧
    hashTag (bytesOf "\x7b\x7babc\x7d\x7d") = bytesOf "\x7babc" := by decide +kernel

/-! ## The first position of a byte, as a split -/

/-- The first position `p` holds at, read as a split of the list around it. -/
theorem findIdx?_eq_some_iff_split {α : Type*} {p : α → Bool} :
    ∀ {l : List α} {i : ℕ}, l.findIdx? p = some i ↔
      ∃ a x r, l = a ++ x :: r ∧ a.length = i ∧ p x = true ∧ ∀ y ∈ a, p y = false
  | [], i => by simp
  | y :: l, i => by
    rw [List.findIdx?_cons]
    by_cases hy : p y = true
    · -- the head is the first match
      rw [if_pos hy]
      constructor
      · intro h
        cases h
        exact ⟨[], y, l, rfl, rfl, hy, fun _ h => absurd h List.not_mem_nil⟩
      · rintro ⟨a, x, r, hl, rfl, hx, ha⟩
        cases a with
        | nil => rfl
        | cons z a =>
          obtain ⟨rfl, -⟩ := List.cons.inj hl
          exact absurd hy (by simp [ha y List.mem_cons_self])
    · rw [if_neg hy]
      constructor
      · intro h
        obtain ⟨j, hj, rfl⟩ := Option.map_eq_some_iff.mp h
        obtain ⟨a, x, r, rfl, rfl, hx, ha⟩ := findIdx?_eq_some_iff_split.mp hj
        refine ⟨y :: a, x, r, rfl, rfl, hx, fun z hz => ?_⟩
        rcases List.mem_cons.mp hz with rfl | hz
        · exact Bool.eq_false_iff.mpr hy
        · exact ha z hz
      · rintro ⟨a, x, r, hl, rfl, hx, ha⟩
        cases a with
        | nil =>
          obtain ⟨rfl, -⟩ := List.cons.inj hl
          exact absurd hx hy
        | cons z a =>
          obtain ⟨rfl, rfl⟩ := List.cons.inj hl
          have hj := findIdx?_eq_some_iff_split.mpr
            ⟨a, x, r, rfl, rfl, hx, fun w hw => ha w (List.mem_cons_of_mem _ hw)⟩
          simp [hj]

/-- The byte `b` first stands right after `a`. -/
theorem findIdx?_beq_split {a r : Bytes} {b : UInt8} (ha : b ∉ a) :
    (a ++ b :: r).findIdx? (· == b) = some a.length :=
  findIdx?_eq_some_iff_split.mpr ⟨a, b, r, rfl, rfl, by simp, fun y hy => by
    have hne : y ≠ b := fun h => ha (h ▸ hy)
    simpa using hne⟩

/-! ## The tag rule -/

/-- A key with a non-empty tag: its bytes between the first `{` and the first
`}` after it. -/
def HasTag (key tag : Bytes) : Prop :=
  ∃ a b, key = a ++ openBrace :: (tag ++ closeBrace :: b) ∧ openBrace ∉ a ∧ closeBrace ∉ tag ∧
    tag ≠ []

theorem hashTag_of_split {a t b : Bytes} (ha : openBrace ∉ a) (ht : closeBrace ∉ t)
    (hne : t ≠ []) : hashTag (a ++ openBrace :: (t ++ closeBrace :: b)) = t := by
  have hdrop : (a ++ openBrace :: (t ++ closeBrace :: b)).drop (a.length + 1) =
      t ++ closeBrace :: b := by
    simp
  have hpos : t.length > 0 := List.length_pos_iff.mpr hne
  simp only [hashTag, findIdx?_beq_split ha, hdrop, findIdx?_beq_split ht, if_pos hpos,
    List.take_left']

/-- A key without a non-empty tag is hashed whole. -/
theorem hashTag_eq_self {key : Bytes} (h : ∀ t, ¬ HasTag key t) : hashTag key = key := by
  unfold hashTag
  split
  · rfl
  · rename_i i hi
    obtain ⟨a, x, r, rfl, rfl, hx, ha⟩ := findIdx?_eq_some_iff_split.mp hi
    have hxo : x = openBrace := by simpa using hx
    subst hxo
    have hdrop : (a ++ openBrace :: r).drop (a.length + 1) = r := by simp
    simp only [hdrop]
    split
    · rfl
    · rename_i j hj
      obtain ⟨t, y, b, rfl, rfl, hy, ht⟩ := findIdx?_eq_some_iff_split.mp hj
      have hyc : y = closeBrace := by simpa using hy
      subst hyc
      split
      · -- a tag between the braces would contradict `h`
        rename_i hpos
        refine absurd ⟨a, b, rfl, fun hm => ?_, fun hm => ?_, ?_⟩ (h t)
        · simpa using ha _ hm
        · simpa using ht _ hm
        · exact List.length_pos_iff.mp hpos
      · rfl

/-- The tag a key has is the only one. -/
theorem HasTag.hashTag {key t : Bytes} (h : HasTag key t) : hashTag key = t := by
  obtain ⟨a, b, rfl, ha, ht, hne⟩ := h
  exact hashTag_of_split ha ht hne

/-- `hash_slot` is CRC-16/XMODEM modulo `HASH_SLOTS` of a key's non-empty tag,
or of the whole key when it has none; so keys with one tag share their slot
and, on every ring, their vnode. -/
theorem hash_slot_follows_hashtag_rule :
    (∀ key t : Bytes, HasTag key t → hashSlot key = crc16Xmodem t % hashSlots) ∧
      (∀ key : Bytes, (∀ t, ¬ HasTag key t) → hashSlot key = crc16Xmodem key % hashSlots) ∧
      (∀ key₁ key₂ t : Bytes, HasTag key₁ t → HasTag key₂ t →
        hashSlot key₁ = hashSlot key₂ ∧ ∀ partitions, keyVnode partitions key₁ = keyVnode partitions key₂) := by
  refine ⟨fun key t h => ?_, fun key h => ?_, fun key₁ key₂ t h₁ h₂ => ?_⟩
  · rw [hashSlot, h.hashTag]
  · rw [hashSlot, hashTag_eq_self h]
  · have hs : hashSlot key₁ = hashSlot key₂ := by rw [hashSlot, hashSlot, h₁.hashTag, h₂.hashTag]
    exact ⟨hs, fun partitions => by simp only [keyVnode, hs]⟩

/-- `_{abc}_` and `{abc}` share their slot, and `{}` is hashed whole. -/
theorem hashtag_abc_shared :
    HasTag [95, 123, 97, 98, 99, 125, 95] [97, 98, 99] ∧ HasTag [123, 97, 98, 99, 125] [97, 98, 99] ∧
      (∀ t, ¬ HasTag [123, 125] t) ∧
      hashSlot [95, 123, 97, 98, 99, 125, 95] = hashSlot [123, 97, 98, 99, 125] ∧
      hashSlot [123, 125] = crc16Xmodem [123, 125] % hashSlots := by
  have h₁ : HasTag [95, 123, 97, 98, 99, 125, 95] [97, 98, 99] :=
    ⟨[95], [95], rfl, by decide, by decide, by decide⟩
  have h₂ : HasTag [123, 97, 98, 99, 125] [97, 98, 99] := ⟨[], [], rfl, by decide, by decide, by decide⟩
  -- `{}`: the only split around the braces has an empty tag
  have h₃ : ∀ t, ¬ HasTag [123, 125] t := by
    rintro t ⟨a, b, hk, -, -, hne⟩
    rcases a with _ | ⟨x, a⟩
    · rcases t with _ | ⟨y, t⟩
      · exact hne rfl
      · simp [closeBrace] at hk
    · rcases a with _ | ⟨z, a⟩ <;> simp [openBrace] at hk
  have hr := hash_slot_follows_hashtag_rule
  exact ⟨h₁, h₂, h₃, (hr.2.2 _ _ _ h₁ h₂).1, hr.2.1 _ h₃⟩

end Hash

end Sucredb
