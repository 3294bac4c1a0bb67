/-
Sucredb.Lib.Binary — byte strings as a wire format: little-endian `u32`s and
words, big-endian words, tagged unions in the layout bincode gives an enum,
counted sequences, the loop of a framed reader that feeds a decoder one chunk
at a time, and a buffer that writes only into the capacity it has reserved.

Big-endian words of one width compare bytewise as their numbers do
(`bigEndian_lt_bigEndian_iff`), and a string of such blocks compares block by
block (`append_lt_append_iff`): a key built of fixed-width words sorts as the
tuple of its numbers.

A tagged union is written as the index of the value's variant, a `u32`, then
the payload. Read with a table of indices that agrees with the writer's, it
gives the value back and stops where the writing stopped, as soon as each
payload does (`readTagged_writeTagged`). The writer and the reader keep their
tables apart, as two enums with the same variants do.

A sequence read by a loop with a count reads back the items written one after
the other, as many as there are, as soon as each item does (`readSeq_flatMap`).

`readChunks` is what a framed reader does with a decoder: append each chunk
that arrives to its buffer, then decode until the decoder answers that no
frame is complete. Its run lemma (`readChunks_frames`) asks of the decoder only
what makes it a decoder of the frames at hand: a buffer that starts with a
whole frame loses exactly that frame and yields its value, and a buffer that
is a strict prefix of a frame is left alone. The proof goes chunk by chunk
with the invariant `Pending`: the buffer is what has arrived of the next frame
and no more.

A `Buffer` takes a write whole when it fits in the capacity left and fails it
otherwise (`writeAll_of_le`, `writeAll_eq_none_iff`); a write in two calls ends as
the write of the whole does (`writeAll_append`).
-/
import Mathlib

namespace Binary

/-! ## Little-endian `u32` -/

/-- The four little-endian bytes of `n % 2 ^ 32`, as `put_u32_le` writes them. -/
def u32le (n : ℕ) : List UInt8 :=
  [n.toUInt8, (n / 2 ^ 8).toUInt8, (n / 2 ^ 16).toUInt8, (n / 2 ^ 24).toUInt8]

/-- `read_u32::<LittleEndian>`: a `u32` off the front of the bytes, with the
bytes after it; `none` when there are fewer than four. -/
def readU32le : List UInt8 → Option (ℕ × List UInt8)
  | b₀ :: b₁ :: b₂ :: b₃ :: rest =>
    some (b₀.toNat + 2 ^ 8 * b₁.toNat + 2 ^ 16 * b₂.toNat + 2 ^ 24 * b₃.toNat, rest)
  | _ => none

@[simp] theorem length_u32le (n : ℕ) : (u32le n).length = 4 := rfl

theorem readU32le_u32le (n : ℕ) (rest : List UInt8) :
    readU32le (u32le n ++ rest) = some (n % 2 ^ 32, rest) := by
  simp only [u32le, readU32le, List.cons_append, List.nil_append, Nat.toUInt8, UInt8.toNat_ofNat']
  congr 2
  omega

theorem readU32le_eq_none {l : List UInt8} (h : l.length < 4) : readU32le l = none := by
  match l, h with
  | [], _ => rfl
  | [_], _ => rfl
  | [_, _], _ => rfl
  | [_, _, _], _ => rfl

/-! ## Little-endian words -/

/-- The `w` bytes of `n % 256 ^ w`, least significant first, as
`write_u64::<LittleEndian>` writes them for `w = 8`. -/
def littleEndian : ℕ → ℕ → List UInt8
  | 0, _ => []
  | w + 1, n => n.toUInt8 :: littleEndian w (n / 256)

/-- The number little-endian bytes stand for. -/
def ofLittleEndian (l : List UInt8) : ℕ := l.foldr (fun b n => b.toNat + 256 * n) 0

/-- `read_u64::<LittleEndian>` for `w = 8`: the first `w` bytes read as a
number, with the bytes after them; `none` when there are fewer. -/
def readLittleEndian (w : ℕ) (l : List UInt8) : Option (ℕ × List UInt8) :=
  if w ≤ l.length then some (ofLittleEndian (l.take w), l.drop w) else none

@[simp] theorem length_littleEndian (w n : ℕ) : (littleEndian w n).length = w := by
  induction w generalizing n with
  | zero => rfl
  | succ w ih => simp [littleEndian, ih]

theorem ofLittleEndian_littleEndian (w n : ℕ) : ofLittleEndian (littleEndian w n) = n % 256 ^ w := by
  induction w generalizing n with
  | zero => simp [littleEndian, ofLittleEndian, Nat.mod_one]
  | succ w ih =>
    have hlow : n.toUInt8.toNat = n % 256 := by simp
    show n.toUInt8.toNat + 256 * ofLittleEndian (littleEndian w (n / 256)) = n % 256 ^ (w + 1)
    rw [ih, hlow, Nat.pow_succ', Nat.mod_mul]

/-- Reading back a word that fits gives it, and stops where it ends. -/
theorem readLittleEndian_littleEndian {w n : ℕ} (h : n < 256 ^ w) (rest : List UInt8) :
    readLittleEndian w (littleEndian w n ++ rest) = some (n, rest) := by
  have hlen : (littleEndian w n).length = w := length_littleEndian w n
  simp only [readLittleEndian, List.length_append, hlen, Nat.le_add_right, if_true,
    List.take_left' hlen, List.drop_left' hlen, ofLittleEndian_littleEndian, Nat.mod_eq_of_lt h]

/-! ## Big-endian words and the order of byte strings

Byte strings are compared as lists, bytewise and with a proper prefix first
(core's `List.lt`), which is the order of `memcmp` on keys. -/

/-- The `w` bytes of `n % 256 ^ w`, most significant first, as
`write_u16::<BigEndian>` and `write_u64::<BigEndian>` write them. -/
def bigEndian : ℕ → ℕ → List UInt8
  | 0, _ => []
  | w + 1, n => bigEndian w (n / 256) ++ [n.toUInt8]

/-- The number big-endian bytes stand for. -/
def ofBigEndian (l : List UInt8) : ℕ := l.foldl (fun n b => n * 256 + b.toNat) 0

/-- `read_u16::<BigEndian>` and `read_u64::<BigEndian>`: the first `w` bytes read
as a number, with the bytes after them; `none` when there are fewer. -/
def readBigEndian (w : ℕ) (l : List UInt8) : Option (ℕ × List UInt8) :=
  if w ≤ l.length then some (ofBigEndian (l.take w), l.drop w) else none

@[simp] theorem length_bigEndian (w n : ℕ) : (bigEndian w n).length = w := by
  induction w generalizing n with
  | zero => rfl
  | succ w ih => simp [bigEndian, ih]

theorem ofBigEndian_append_singleton (l : List UInt8) (b : UInt8) :
    ofBigEndian (l ++ [b]) = ofBigEndian l * 256 + b.toNat := by
  simp [ofBigEndian, List.foldl_append]

theorem ofBigEndian_bigEndian (w n : ℕ) : ofBigEndian (bigEndian w n) = n % 256 ^ w := by
  induction w generalizing n with
  | zero => simp [bigEndian, ofBigEndian, Nat.mod_one]
  | succ w ih =>
    have hlow : n.toUInt8.toNat = n % 256 := by simp
    rw [bigEndian, ofBigEndian_append_singleton, ih, hlow, Nat.pow_succ', Nat.mod_mul,
      Nat.mul_comm, Nat.add_comm]

/-- Reading back a word that fits gives it, and stops where it ends. -/
theorem readBigEndian_bigEndian {w n : ℕ} (h : n < 256 ^ w) (rest : List UInt8) :
    readBigEndian w (bigEndian w n ++ rest) = some (n, rest) := by
  have hlen : (bigEndian w n).length = w := length_bigEndian w n
  simp only [readBigEndian, List.length_append, hlen, Nat.le_add_right, if_true,
    List.take_left' hlen, List.drop_left' hlen, ofBigEndian_bigEndian, Nat.mod_eq_of_lt h]

theorem bigEndian_inj {w n m : ℕ} (hn : n < 256 ^ w) (hm : m < 256 ^ w) :
    bigEndian w n = bigEndian w m ↔ n = m := by
  constructor
  · intro h
    have := congrArg ofBigEndian h
    rwa [ofBigEndian_bigEndian, ofBigEndian_bigEndian, Nat.mod_eq_of_lt hn,
      Nat.mod_eq_of_lt hm] at this
  · rintro rfl
    rfl

/-- Two strings that start with blocks of one length compare by the blocks
first, then by what follows. -/
theorem append_lt_append_iff {α : Type*} [LT α] {a b c d : List α}
    (h : a.length = c.length) : a ++ b < c ++ d ↔ a < c ∨ a = c ∧ b < d := by
  induction a generalizing c with
  | nil =>
    obtain rfl : c = [] := List.eq_nil_of_length_eq_zero h.symm
    simp [List.not_lt_nil]
  | cons x a ih =>
    obtain ⟨y, c, rfl⟩ := List.exists_cons_of_length_eq_add_one h.symm
    simp only [List.cons_append, List.cons_lt_cons_iff, List.cons.injEq,
      ih (Nat.succ_inj.mp h)]
    tauto

/-- A string that starts with a block compares with a string of the block's
length as the block does. -/
theorem append_lt_iff {α : Type*} [LT α] {a b c : List α} (h : a.length = c.length) :
    a ++ b < c ↔ a < c := by
  have hblock := append_lt_append_iff (b := b) (d := []) h
  rw [List.append_nil] at hblock
  simpa [List.not_lt_nil] using hblock

theorem le_append_iff {α : Type*} [LT α] {a b c : List α} (h : a.length = c.length) :
    c ≤ a ++ b ↔ c ≤ a := by
  rw [← List.not_lt, ← List.not_lt, append_lt_iff h]

theorem bigEndian_lt_bigEndian_iff {w n m : ℕ} (hn : n < 256 ^ w) (hm : m < 256 ^ w) :
    bigEndian w n < bigEndian w m ↔ n < m := by
  induction w generalizing n m with
  | zero =>
    have hn0 : n = 0 := by simpa using hn
    have hm0 : m = 0 := by simpa using hm
    subst hn0 hm0
    simp [bigEndian, List.not_lt_nil]
  | succ w ih =>
    -- the high bytes decide, and the low byte breaks a tie
    have hn' : n / 256 < 256 ^ w := by rw [Nat.pow_succ] at hn; omega
    have hm' : m / 256 < 256 ^ w := by rw [Nat.pow_succ] at hm; omega
    have hlow : [n.toUInt8] < [m.toUInt8] ↔ n % 256 < m % 256 := by
      simp [List.cons_lt_cons_iff, UInt8.lt_iff_toNat_lt]
    rw [bigEndian, bigEndian, append_lt_append_iff (by simp), ih hn' hm', bigEndian_inj hn' hm',
      hlow]
    omega

/-! ## Tagged unions -/

section Tagged

variable {κ : Type*} {P : κ → Type*} {ε : Type*}

/-- A value of a tagged union, as bincode writes an enum: the index of its
variant as a `u32`, then the payload. -/
def writeTagged (index : κ → ℕ) (write : (k : κ) → P k → List UInt8) (x : Σ k, P k) :
    List UInt8 :=
  u32le (index x.1) ++ write x.1 x.2

/-- A value of a tagged union read off the front of the bytes: the index, the
variant `variantOf` gives it, then that variant's payload. -/
def readTagged (variantOf : ℕ → Option κ) (read : (k : κ) → List UInt8 → Except ε (P k × List UInt8))
    (eof : ε) (badTag : ℕ → ε) (l : List UInt8) : Except ε ((Σ k, P k) × List UInt8) :=
  match readU32le l with
  | none => .error eof
  | some (i, rest) =>
    match variantOf i with
    | none => .error (badTag i)
    | some k => (read k rest).map fun r => (⟨k, r.1⟩, r.2)

/-- Reading with a table that inverts the writer's, and payloads that read
back what was written, gives the value back and the bytes after it. -/
theorem readTagged_writeTagged {index : κ → ℕ} {variantOf : ℕ → Option κ}
    {write : (k : κ) → P k → List UInt8} {read : (k : κ) → List UInt8 → Except ε (P k × List UInt8)}
    (hindex : ∀ k, index k < 2 ^ 32 ∧ variantOf (index k) = some k)
    (hread : ∀ k p rest, read k (write k p ++ rest) = .ok (p, rest)) (eof : ε) (badTag : ℕ → ε)
    (x : Σ k, P k) (rest : List UInt8) :
    readTagged variantOf read eof badTag (writeTagged index write x ++ rest) = .ok (x, rest) := by
  obtain ⟨k, p⟩ := x
  obtain ⟨hlt, hk⟩ := hindex k
  simp only [readTagged, writeTagged, List.append_assoc, readU32le_u32le, Nat.mod_eq_of_lt hlt, hk,
    hread]
  rfl

end Tagged

/-! ## Counted sequences -/

section Seq

variable {α : Type*}

/-- Read `n` items off the front of the bytes, one after the other, as a loop
`for _ in 0..n` does that gives up at the first failure. -/
def readSeq (read : List UInt8 → Option (α × List UInt8)) : ℕ → List UInt8 → Option (List α × List UInt8)
  | 0, l => some ([], l)
  | n + 1, l => do
    let (a, l) ← read l
    let (as, l) ← readSeq read n l
    pure (a :: as, l)

/-- Items written one after the other read back, as many as were written,
as soon as each one does. -/
theorem readSeq_flatMap (read : List UInt8 → Option (α × List UInt8)) (write : α → List UInt8) :
    ∀ (items : List α), (∀ a ∈ items, ∀ rest, read (write a ++ rest) = some (a, rest)) →
      ∀ rest, readSeq read items.length (items.flatMap write ++ rest) = some (items, rest)
  | [], _, rest => rfl
  | a :: items, h, rest => by
    have ha := h a List.mem_cons_self (items.flatMap write ++ rest)
    have hs := readSeq_flatMap read write items (fun b hb => h b (List.mem_cons_of_mem a hb)) rest
    simp only [readSeq, List.flatMap_cons, List.append_assoc, List.length_cons, ha, hs,
      Option.bind_eq_bind, Option.bind_some]
    rfl

end Seq

/-! ## A framed reader -/

section Reader

variable {β ε : Type*} (decode : List UInt8 → List UInt8 × Except ε (Option β))

/-- Call `decode` until it answers that no frame is complete, at most `fuel`
times: the values of the frames, in order, and the buffer left. -/
def decodeAvailable : ℕ → List UInt8 → Except ε (List β × List UInt8)
  | 0, buf => .ok ([], buf)
  | fuel + 1, buf =>
    match decode buf with
    | (buf', .ok (some m)) => (decodeAvailable fuel buf').map fun r => (m :: r.1, r.2)
    | (buf', .ok none) => .ok ([], buf')
    | (_, .error e) => .error e

/-- A framed reader: append each chunk to the buffer as it arrives, then
decode what it completes. A frame takes at least one byte, so the buffer's
length bounds the calls that find one. -/
def readChunks : List UInt8 → List (List UInt8) → Except ε (List β × List UInt8)
  | buf, [] => .ok ([], buf)
  | buf, c :: cs =>
    match decodeAvailable decode ((buf ++ c).length + 1) (buf ++ c) with
    | .error e => .error e
    | .ok (ms, buf') => (readChunks buf' cs).map fun r => (ms ++ r.1, r.2)

/-- The buffer holds what has arrived of the next frame, and no more: a
strict prefix of it, or nothing once every frame is through. -/
def Pending : List (List UInt8 × β) → List UInt8 → Prop
  | [], buf => buf = []
  | (f, _) :: _, buf => buf <+: f ∧ buf.length < f.length

/-- What a decoder of the frames `items` (each a frame and its value) does:
nothing on an empty buffer, one whole frame off the front, nothing on a strict
prefix of a frame. -/
structure DecodesFrames (items : List (List UInt8 × β)) : Prop where
  empty : decode [] = ([], .ok none)
  frame : ∀ f m, (f, m) ∈ items → ∀ rest, decode (f ++ rest) = (rest, .ok (some m))
  incomplete : ∀ f m, (f, m) ∈ items → ∀ buf, buf <+: f → buf.length < f.length →
    decode buf = (buf, .ok none)
  nonempty : ∀ f m, (f, m) ∈ items → f ≠ []

variable {decode}

/-- Before anything arrives, nothing of the first frame has. -/
theorem DecodesFrames.pending_nil (h : DecodesFrames decode items) : Pending items [] := by
  cases items with
  | nil => rfl
  | cons it items =>
    obtain ⟨f, m⟩ := it
    exact ⟨List.nil_prefix, List.length_pos_iff.mpr (h.nonempty f m List.mem_cons_self)⟩

/-- On a buffer that is a prefix of the frames, decoding what is there takes
off the whole frames it starts with and stops on what has arrived of the
next; the fuel need only exceed the buffer's length. -/
theorem decodeAvailable_frames (h : DecodesFrames decode items) :
    ∀ {items' : List (List UInt8 × β)}, items' <:+ items → ∀ {buf : List UInt8} {fuel : ℕ},
      buf <+: (items'.map Prod.fst).flatten → buf.length < fuel →
      ∃ done rest, items' = done ++ rest ∧ ∃ left, (done.map Prod.fst).flatten ++ left = buf ∧
        Pending rest left ∧ decodeAvailable decode fuel buf = .ok (done.map Prod.snd, left)
  | [], _, buf, fuel + 1, hbuf, _ => by
    have hnil : buf = [] := List.prefix_nil.mp hbuf
    subst hnil
    exact ⟨[], [], rfl, [], rfl, rfl, by simp [decodeAvailable, h.empty]⟩
  | (f, m) :: items', hsuf, buf, fuel + 1, hbuf, hfuel => by
    have hmem : (f, m) ∈ items := hsuf.subset List.mem_cons_self
    have hf : f <+: (((f, m) :: items').map Prod.fst).flatten := List.prefix_append _ _
    by_cases hlen : buf.length < f.length
    · -- what has arrived of the frame `f`: wait for more
      have hpre : buf <+: f := List.prefix_of_prefix_length_le hbuf hf (Nat.le_of_lt hlen)
      refine ⟨[], (f, m) :: items', rfl, buf, rfl, ⟨hpre, hlen⟩, ?_⟩
      simp [decodeAvailable, h.incomplete f m hmem buf hpre hlen]
    · -- the whole frame `f` has arrived: decode it and go on
      obtain ⟨buf', rfl⟩ := List.prefix_of_prefix_length_le hf hbuf (Nat.le_of_not_lt hlen)
      have hbuf' : buf' <+: (items'.map Prod.fst).flatten := by
        simpa using hbuf
      have hfuel' : buf'.length < fuel := by
        have hpos := List.length_pos_iff.mpr (h.nonempty f m hmem)
        simp only [List.length_append] at hfuel
        omega
      obtain ⟨done, rest, rfl, left, hleft, hpend, hdec⟩ :=
        decodeAvailable_frames h (List.IsSuffix.trans (List.suffix_cons _ _) hsuf) hbuf' hfuel'
      refine ⟨(f, m) :: done, rest, rfl, left, ?_, hpend, ?_⟩
      · simp [hleft]
      · simp only [decodeAvailable, h.frame f m hmem, hdec]
        rfl

/-- The framed reader yields the value of every frame, in order, and ends
with an empty buffer, however the bytes of the frames are cut into chunks. -/
theorem readChunks_frames (h : DecodesFrames decode items) :
    ∀ (chunks : List (List UInt8)) {items' : List (List UInt8 × β)} {buf : List UInt8},
      items' <:+ items → Pending items' buf →
      buf ++ chunks.flatten = (items'.map Prod.fst).flatten →
      readChunks decode buf chunks = .ok (items'.map Prod.snd, [])
  | [], items', buf, _, hpend, hflat => by
    -- nothing more arrives: the pending buffer is the whole rest of the frames
    cases items' with
    | nil => simpa [readChunks, Pending] using hpend
    | cons it items' =>
      obtain ⟨f, m⟩ := it
      have hlen := hpend.2
      have hge : f.length ≤ buf.length := by
        have := congrArg List.length hflat
        simp only [List.flatten_nil, List.append_nil, List.map_cons, List.flatten_cons,
          List.length_append] at this
        omega
      omega
  | c :: cs, items', buf, hsuf, hpend, hflat => by
    have hbuf : buf ++ c <+: (items'.map Prod.fst).flatten :=
      ⟨cs.flatten, by rw [← hflat, List.flatten_cons, List.append_assoc]⟩
    obtain ⟨done, rest, rfl, left, hleft, hpend', hdec⟩ :=
      decodeAvailable_frames h hsuf hbuf (Nat.lt_succ_self _)
    have hrest : left ++ cs.flatten = (rest.map Prod.fst).flatten := by
      have hflat' := hflat
      rw [List.flatten_cons, ← List.append_assoc, ← hleft, List.map_append, List.flatten_append,
        List.append_assoc] at hflat'
      exact List.append_cancel_left hflat'
    have hsuf' : rest <:+ items := List.IsSuffix.trans (List.suffix_append _ _) hsuf
    rw [readChunks, hdec]
    dsimp only
    rw [readChunks_frames h cs hsuf' hpend' hrest, List.map_append]
    rfl

end Reader

/-! ## A buffer with reserved capacity -/

/-- A growable byte buffer, as `BytesMut`: the bytes written, and the capacity
allocated, which they never exceed. -/
structure Buffer where
  bytes : List UInt8
  capacity : ℕ
  length_le : bytes.length ≤ capacity

namespace Buffer

/-- An empty buffer with nothing allocated. -/
def empty : Buffer := ⟨[], 0, Nat.le_refl 0⟩

/-- `remaining_mut`: the bytes that still fit without a reallocation. -/
def remaining (b : Buffer) : ℕ := b.capacity - b.bytes.length

/-- `reserve(additional)`: a buffer with room for `additional` more bytes is
kept, and any other grows to exactly that room, as a fresh allocation
(`Vec::with_capacity`) does. A reallocation may take more, which only leaves
more room. -/
def reserve (b : Buffer) (additional : ℕ) : Buffer :=
  if additional ≤ b.remaining then b
  else ⟨b.bytes, b.bytes.length + additional, Nat.le_add_right _ _⟩

/-- `write_all` through `writer()`. Each `write` puts as much of the slice as
the capacity left takes, and `write_all` fails (`none`, a `WriteZero`) once a
`write` puts nothing: the slice goes in whole exactly when it fits. -/
def writeAll (b : Buffer) (src : List UInt8) : Option Buffer :=
  if h : src.length ≤ b.remaining then
    some ⟨b.bytes ++ src, b.capacity, by have := b.length_le; simp only [remaining] at h; simp; omega⟩
  else none

@[simp] theorem bytes_reserve (b : Buffer) (additional : ℕ) :
    (b.reserve additional).bytes = b.bytes := by
  unfold reserve
  split <;> rfl

@[simp] theorem remaining_empty : empty.remaining = 0 := rfl

theorem remaining_reserve (b : Buffer) (additional : ℕ) :
    (b.reserve additional).remaining = max b.remaining additional := by
  unfold reserve
  split
  · next h => exact (Nat.max_eq_left h).symm
  · next h =>
    simp only [remaining, Nat.add_sub_cancel_left]
    exact (Nat.max_eq_right (Nat.le_of_lt (Nat.lt_of_not_le h))).symm

theorem le_remaining_reserve (b : Buffer) (additional : ℕ) :
    additional ≤ (b.reserve additional).remaining := by
  rw [remaining_reserve]
  exact Nat.le_max_right _ _

theorem writeAll_of_le {b : Buffer} {src : List UInt8} (h : src.length ≤ b.remaining) :
    (b.writeAll src).map bytes = some (b.bytes ++ src) := by
  simp [writeAll, h]

theorem writeAll_eq_none_iff {b : Buffer} {src : List UInt8} :
    b.writeAll src = none ↔ b.remaining < src.length := by
  simp [writeAll]

/-- Writing in two calls fails or succeeds as writing the whole does, so a
writer that makes several calls is modelled by one. -/
theorem writeAll_append (b : Buffer) (s t : List UInt8) :
    b.writeAll (s ++ t) = (b.writeAll s).bind (·.writeAll t) := by
  unfold writeAll remaining
  by_cases hs : s.length ≤ b.capacity - b.bytes.length
  · by_cases ht : t.length ≤ b.capacity - (b.bytes.length + s.length)
    · simp [hs, ht, List.append_assoc]
      omega
    · simp [hs, ht]
      omega
  · simp [hs]
    omega

end Buffer

end Binary
