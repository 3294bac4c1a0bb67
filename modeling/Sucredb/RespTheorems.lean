/-
Sucredb.RespTheorems — the RESP decoder reads back what `serialize_into`
writes, and a length field can make it panic or abort.

The parser and the scanner are taken in turn, each on a whole serialized value
(`parseValue_serializeInto`, `scanLoop_serializeInto`) and on a strict prefix of
one (`parseValue_cut`, `scanLoop_cut`), by induction on `RespValue.WF`,
the values whose bytes the source can hold and whose statuses and errors have
no `\r`. The parser asks the allocator for each array's vector before it reads
the array's values, so it also needs the values to be `RespValue.FitsIn` the
allocator: no array asks for more bytes than it grants. An array header past
that aborts the decoder, even as a strict prefix of a value the source's types
hold (`decode_huge_array_header_aborts`). The array cases run through the values of the array by induction on
the list, with the elements' cases as hypotheses (`parseElems_serializeList`,
`scanLoop_serializeList`).

The scanner's fuel is the length of the buffer: `scanLoop_fuel` shows that any
fuel that reaches the end of the buffer gives the same answer, so the lemmas
are stated at that fuel. `values_pending` after a whole value is
`RespValue.pendingAfter`: an array overwrites the count of the arrays around
it, and its own elements bring it to zero.
-/
import Sucredb.Resp

namespace Sucredb

open Resp

/-! ## Numbers -/

namespace Resp

theorem digitVal_digitByte {d : ℕ} (h : d < 10) : digitVal (digitByte d) = d := by
  simp [digitVal, digitByte]
  omega

theorem isDigit_digitByte {d : ℕ} (h : d < 10) : isDigit (digitByte d) = true := by
  simp [isDigit, digitByte, UInt8.le_iff_toNat_le]
  omega

theorem mem_displayNat {n : ℕ} {c : UInt8} (h : c ∈ displayNat n) : ∃ d < 10, c = digitByte d := by
  unfold displayNat at h
  split at h
  · exact ⟨0, by omega, by simpa using h⟩
  · obtain ⟨d, hd, rfl⟩ := List.mem_map.mp h
    exact ⟨d, Nat.digits_lt_base (by omega) (List.mem_reverse.mp hd), rfl⟩

theorem foldl_digitByte {L : List ℕ} (hL : ∀ d ∈ L, d < 10) (acc : ℕ) :
    (L.map digitByte).foldl (fun n c => n * 10 + digitVal c) acc =
      acc * 10 ^ L.length + Nat.ofDigits 10 L.reverse := by
  induction L generalizing acc with
  | nil => simp
  | cons d L ih =>
    rw [List.map_cons, List.foldl_cons, digitVal_digitByte (hL d (by simp)),
      ih (fun d' hd' => hL d' (by simp [hd'])), Nat.ofDigits_reverse_cons, List.length_cons]
    ring

theorem digitsValue_displayNat (n : ℕ) : digitsValue (displayNat n) = n := by
  unfold digitsValue displayNat
  split
  · subst n; decide
  · rw [foldl_digitByte (fun d hd => Nat.digits_lt_base (by omega) (List.mem_reverse.mp hd)),
      List.reverse_reverse, Nat.ofDigits_digits]
    simp

/-- A digit is none of the bytes the scanner and the parser branch on. -/
theorem ne_of_isDigit {c : UInt8} (h : isDigit c = true) :
    c ≠ cr ∧ c ≠ minus ∧ c ≠ plus ∧ c ≠ dollar ∧ c ≠ asterisk := by
  refine ⟨?_, ?_, ?_, ?_, ?_⟩ <;> rintro rfl <;> revert h <;> decide

theorem isDigit_of_mem_displayNat {n : ℕ} {c : UInt8} (h : c ∈ displayNat n) : isDigit c = true := by
  obtain ⟨d, hd, rfl⟩ := mem_displayNat h
  exact isDigit_digitByte hd

theorem displayNat_ne_nil (n : ℕ) : displayNat n ≠ [] := by
  unfold displayNat
  split
  · simp
  · simpa [Nat.digits_ne_nil_iff_ne_zero]

theorem cr_not_mem_displayNat (n : ℕ) : cr ∉ displayNat n := fun h =>
  (ne_of_isDigit (isDigit_of_mem_displayNat h)).1 rfl

theorem cr_not_mem_displayInt (i : ℤ) : cr ∉ displayInt i := by
  unfold displayInt
  split
  · simp only [List.mem_cons, not_or]
    exact ⟨by decide, cr_not_mem_displayNat _⟩
  · exact cr_not_mem_displayNat _

theorem parseDigits_displayNat (n : ℕ) : parseDigits (displayNat n) = some n := by
  have hd : (displayNat n).all isDigit = true :=
    List.all_eq_true.mpr fun _ => isDigit_of_mem_displayNat
  simp [parseDigits, displayNat_ne_nil, digitsValue_displayNat, hd]

theorem parseI64_displayNat {n : ℕ} (h : (n : ℤ) ≤ i64Max) : parseI64 (displayNat n) = some (n : ℤ) := by
  obtain ⟨c, ds, hcd⟩ := List.exists_cons_of_ne_nil (displayNat_ne_nil n)
  have hc := ne_of_isDigit (isDigit_of_mem_displayNat (hcd ▸ List.mem_cons_self ..))
  have hp := parseDigits_displayNat n
  rw [hcd] at hp ⊢
  rw [parseI64, if_neg hc.2.1, if_neg hc.2.2.1, hp, Option.bind_some, if_pos h]

theorem parseI64_displayInt {i : ℤ} (h₁ : -2 ^ 63 ≤ i) (h₂ : i ≤ i64Max) :
    parseI64 (displayInt i) = some i := by
  unfold displayInt
  split
  · next hi =>
    have habs : (i.natAbs : ℤ) = -i := Int.ofNat_natAbs_of_nonpos hi.le
    have hle : (i.natAbs : ℤ) ≤ i64Max + 1 := by unfold i64Max; omega
    rw [parseI64, if_pos rfl, parseDigits_displayNat, Option.bind_some, if_pos hle, habs, neg_neg]
  · next hi =>
    rw [parseI64_displayNat (by omega), Int.toNat_of_nonneg (by omega)]

/-- A number below `10 ^ k` takes at most `k` digits, for `k` at least one. -/
theorem length_displayNat_le {n k : ℕ} (hk : 0 < k) (h : n < 10 ^ k) :
    (displayNat n).length ≤ k := by
  unfold displayNat
  split
  · exact hk
  · simpa using (Nat.digits_length_le_iff (by decide) n).mpr h

/-- A number of at least `10 ^ k` takes more than `k` digits. -/
theorem lt_length_displayNat {n k : ℕ} (h : 10 ^ k ≤ n) : k < (displayNat n).length := by
  have hn : n ≠ 0 := Nat.pos_iff_ne_zero.mp (lt_of_lt_of_le (Nat.pow_pos (by decide)) h)
  unfold displayNat
  rw [if_neg hn, List.length_map, List.length_reverse]
  exact (Nat.lt_digits_length_iff (by decide) n).mpr h

/-- An `i64` takes at most twenty characters, those of `i64::MIN`: a sign and
nineteen digits. -/
theorem length_displayInt_le {i : ℤ} (h₁ : -2 ^ 63 ≤ i) (h₂ : i ≤ i64Max) :
    (displayInt i).length ≤ 20 := by
  unfold displayInt
  split
  · next hi =>
    have habs : i.natAbs < 10 ^ 19 := by omega
    have := length_displayNat_le (by decide) habs
    simp only [List.length_cons]
    omega
  · next hi =>
    have hnat : i.toNat < 10 ^ 19 := by unfold i64Max at h₂; omega
    have := length_displayNat_le (by decide) hnat
    omega

end Resp

/-- The values the decoder reads back exactly: those the source's types hold
(an `Int` is an `i64`, a `Bytes` or a `Vec` takes at most `isize::MAX`
bytes) whose statuses and errors have no `\r`. -/
inductive RespValue.WF : RespValue → Prop
  | nil : WF .nil
  | int {i : ℤ} : -2 ^ 63 ≤ i → i ≤ i64Max → WF (.int i)
  | data {b : Bytes} : (b.length : ℤ) ≤ i64Max → WF (.data b)
  | array {a : List RespValue} : ((a.length * respValueSize : ℕ) : ℤ) ≤ i64Max →
      (∀ w ∈ a, WF w) → WF (.array a)
  | status {s : Bytes} : cr ∉ s → WF (.status s)
  | error {s : Bytes} : cr ∉ s → WF (.error s)

/-- The values whose arrays each ask `Vec::with_capacity` for at most `heap`
bytes: those the parser can allocate where the allocator grants `heap`. -/
inductive RespValue.FitsIn (heap : ℕ) : RespValue → Prop
  | nil : FitsIn heap .nil
  | int {i : ℤ} : FitsIn heap (.int i)
  | data {b : Bytes} : FitsIn heap (.data b)
  | array {a : List RespValue} : a.length * respValueSize ≤ heap → (∀ w ∈ a, FitsIn heap w) →
      FitsIn heap (.array a)
  | status {s : Bytes} : FitsIn heap (.status s)
  | error {s : Bytes} : FitsIn heap (.error s)

namespace RespValue

theorem FitsIn.of_array {heap : ℕ} {a : List RespValue} (h : (RespValue.array a).FitsIn heap) :
    a.length * respValueSize ≤ heap ∧ ∀ w ∈ a, w.FitsIn heap := by
  cases h with
  | array hlen hws => exact ⟨hlen, hws⟩

theorem serializeInto_nil : nil.serializeInto = dollar :: displayInt (-1) ++ crlf := by decide

@[simp] theorem serializeList_nil : serializeList [] = [] := by simp [serializeList]

/-- An array whose values fit in memory leaves room in an `i64` for its length
and one more. -/
theorem length_lt_i64Max {a : List RespValue}
    (h : ((a.length * respValueSize : ℕ) : ℤ) ≤ i64Max) : (a.length : ℤ) < i64Max := by
  push_cast at h
  unfold respValueSize at h
  unfold i64Max at h ⊢
  omega

@[simp] theorem serializeList_cons (v : RespValue) (vs : List RespValue) :
    serializeList (v :: vs) = v.serializeInto ++ serializeList vs := by simp [serializeList]

end RespValue

namespace Parser

/-! ## Lists and lines -/

theorem prefix_append_cases {α : Type} {q a b : List α} (h : q <+: a ++ b) :
    q <+: a ∨ ∃ r, q = a ++ r ∧ r <+: b := by
  rcases List.prefix_or_prefix_of_prefix h (List.prefix_append a b) with h' | ⟨r, rfl⟩
  · exact .inl h'
  · exact .inr ⟨r, rfl, (List.prefix_append_right_inj a).mp h⟩

/-- A prefix of a line and what follows it ends inside the line, or holds the
whole line. -/
theorem prefix_line_cases {q line rest : Bytes} (hq : q <+: line ++ crlf ++ rest) :
    (q <+: line ++ crlf ∧ q ≠ line ++ crlf) ∨ ∃ r, q = line ++ crlf ++ r ∧ r <+: rest := by
  rcases prefix_append_cases hq with hq | h
  · by_cases he : q = line ++ crlf
    · exact .inr ⟨[], by simp [he], List.nil_prefix⟩
    · exact .inl ⟨hq, he⟩
  · exact .inr h

/-- A strict prefix of a tagged value is empty, or the tag and a strict prefix
of what follows it. -/
theorem strictPrefix_cons_cases {c : UInt8} {q rest : Bytes} (hq : q <+: c :: rest)
    (hne : q ≠ c :: rest) : q = [] ∨ ∃ t, q = c :: t ∧ t <+: rest ∧ t ≠ rest := by
  rcases List.prefix_cons_iff.mp hq with rfl | ⟨t, rfl, ht⟩
  · exact .inl rfl
  · exact .inr ⟨t, rfl, ht, fun e => hne (by rw [e])⟩

theorem findIdx?_append_cr {line : Bytes} (h : cr ∉ line) (rest : Bytes) :
    (line ++ cr :: rest).findIdx? (· == cr) = some line.length := by
  induction line with
  | nil => simp [List.findIdx?_cons]
  | cons a line ih =>
    have ha : a ≠ cr := fun e => h (e ▸ List.mem_cons_self ..)
    rw [List.cons_append, List.findIdx?_cons, ih (fun hm => h (List.mem_cons_of_mem _ hm))]
    simp only [beq_iff_eq, ha, if_false, Option.map_some, List.length_cons]

theorem findIdx?_cr_eq_none {q : Bytes} (h : cr ∉ q) : q.findIdx? (· == cr) = none :=
  List.findIdx?_eq_none_iff.mpr fun c hc => by
    rw [beq_eq_false_iff_ne]
    rintro rfl
    exact h hc

theorem readWithSeparator_append (line rest : Bytes) :
    readWithSeparator (line ++ crlf ++ rest) line.length = .ok (line, rest) := by
  simp [readWithSeparator, crlf]

theorem readWithSeparator_short {body : Bytes} {len : ℕ} (h : body.length < len + 2) :
    readWithSeparator body len = .error .incomplete := by
  simp [readWithSeparator, h]

theorem readLine_append {line : Bytes} (h : cr ∉ line) (rest : Bytes) :
    readLine (line ++ crlf ++ rest) = .ok (line, rest) := by
  have hcr : line ++ crlf ++ rest = line ++ cr :: lf :: rest := by simp [crlf]
  rw [readLine, hcr, findIdx?_append_cr h]
  dsimp only
  rw [← hcr, readWithSeparator_append]

theorem readIntLine_append {line : Bytes} {v : ℤ} (h : cr ∉ line) (hv : parseI64 line = some v)
    (rest : Bytes) : readIntLine (line ++ crlf ++ rest) = .ok (v, rest) := by
  rw [readIntLine, readLine_append h]
  simp only [bind, Except.bind, hv]
  rfl

theorem readLine_short {line q : Bytes} (h : cr ∉ line) (hq : q <+: line ++ crlf)
    (hne : q ≠ line ++ crlf) : readLine q = .error .incomplete := by
  rcases prefix_append_cases hq with hq | ⟨r, rfl, hr⟩
  · rw [readLine, findIdx?_cr_eq_none fun hm => h (hq.subset hm)]
  · rcases List.prefix_cons_iff.mp hr with rfl | ⟨t, rfl, ht⟩
    · rw [readLine, List.append_nil, findIdx?_cr_eq_none h]
    · rcases List.prefix_cons_iff.mp ht with rfl | ⟨u, rfl, hu⟩
      · rw [readLine, findIdx?_append_cr h]
        exact readWithSeparator_short (by simp)
      · simp [List.prefix_nil.mp hu, crlf] at hne

theorem readIntLine_of_readLine {q : Bytes} {e : RespError} (h : readLine q = .error e) :
    readIntLine q = .error e := by
  rw [readIntLine, h]
  rfl

theorem parseData_of_readIntLine {q : Bytes} {e : RespError} (h : readIntLine q = .error e) :
    parseData q = .error e := by
  rw [parseData, h]
  rfl

theorem parseArray_of_readIntLine {heap : ℕ} {parse : Bytes → Except RespError (RespValue × Bytes)}
    {q : Bytes} {e : RespError} (h : readIntLine q = .error e) :
    parseArray heap parse q = .error e := by
  rw [parseArray, h]
  rfl

theorem withCapacity_of_le {heap size n : ℕ} (h₁ : ((n * size : ℕ) : ℤ) ≤ i64Max)
    (h₂ : n * size ≤ heap) : withCapacity heap size n = .ok () := by
  push_cast at h₁
  rw [withCapacity, if_neg (not_lt.mpr h₁), if_neg (not_lt.mpr h₂)]

/-- Past the header of an array of `n` values, the parser allocates the
vector, then reads the `n` values. -/
theorem parseArray_append {heap : ℕ} {parse : Bytes → Except RespError (RespValue × Bytes)}
    {n : ℕ} (hn : (n : ℤ) ≤ i64Max) (rest : Bytes) :
    parseArray heap parse (displayNat n ++ crlf ++ rest) =
      withCapacity heap respValueSize n >>= fun _ =>
        (parseElems parse n rest).map fun r => (.array r.1, r.2) := by
  rw [parseArray, readIntLine_append (cr_not_mem_displayNat _) (parseI64_displayNat hn)]
  simp only [bind, Except.bind, Int.natCast_nonneg, not_lt.mpr, if_false, Int.toNat_natCast]
  cases withCapacity heap respValueSize n with
  | error e => rfl
  | ok u =>
    cases parseElems parse n rest <;> rfl

/-! ## The parser -/

section Heap

variable {heap : ℕ}

theorem parseValue_dollar (f : ℕ) (body : Bytes) :
    parseValue heap (f + 1) (dollar :: body) = parseData body := rfl

theorem parseValue_star (f : ℕ) (body : Bytes) :
    parseValue heap (f + 1) (asterisk :: body) = parseArray heap (parseValue heap f) body := rfl

theorem parseValue_colon (f : ℕ) (body : Bytes) :
    parseValue heap (f + 1) (colon :: body) = (readIntLine body).map fun r => (.int r.1, r.2) := rfl

theorem parseValue_plus (f : ℕ) (body : Bytes) :
    parseValue heap (f + 1) (plus :: body) = (readLine body).map fun r => (.status r.1, r.2) := rfl

theorem parseValue_minus (f : ℕ) (body : Bytes) :
    parseValue heap (f + 1) (minus :: body) = (readLine body).map fun r => (.error r.1, r.2) := rfl

theorem cons_line_append (c : UInt8) (line rest : Bytes) :
    c :: line ++ crlf ++ rest = c :: (line ++ crlf ++ rest) := by
  simp

theorem parseElems_serializeList {fuel : ℕ} {ws : List RespValue}
    (hws : ∀ w ∈ ws, ∀ {rest : Bytes}, (w.serializeInto ++ rest).length < fuel →
      parseValue heap fuel (w.serializeInto ++ rest) = .ok (w, rest)) (m : ℕ) {rest : Bytes}
    (hf : (RespValue.serializeList ws ++ rest).length < fuel) :
    parseElems (parseValue heap fuel) (ws.length + m) (RespValue.serializeList ws ++ rest) =
      (parseElems (parseValue heap fuel) m rest).map fun r => (ws ++ r.1, r.2) := by
  induction ws generalizing rest with
  | nil =>
    rw [RespValue.serializeList_nil, List.nil_append, List.length_nil, Nat.zero_add]
    cases parseElems (parseValue heap fuel) m rest <;> rfl
  | cons w ws ih =>
    have hw : (w.serializeInto ++ (RespValue.serializeList ws ++ rest)).length < fuel := by
      simpa using hf
    have hws' : (RespValue.serializeList ws ++ rest).length < fuel := by
      simp at hf ⊢
      omega
    rw [RespValue.serializeList_cons, List.length_cons, Nat.add_right_comm, List.append_assoc,
      parseElems, hws w List.mem_cons_self hw]
    simp only [bind, Except.bind]
    rw [ih (fun w' hw' => hws w' (List.mem_cons_of_mem _ hw')) hws']
    cases parseElems (parseValue heap fuel) m rest <;> rfl

/-- The parser reads a whole value back, whatever follows it, given more fuel
than there are bytes and an allocator that grants each of its arrays. -/
theorem parseValue_serializeInto {v : RespValue} (hv : v.WF) (hfit : v.FitsIn heap) :
    ∀ {rest : Bytes} {fuel : ℕ}, (v.serializeInto ++ rest).length < fuel →
      parseValue heap fuel (v.serializeInto ++ rest) = .ok (v, rest) := by
  induction hv with
  | nil =>
    intro rest fuel hf
    obtain ⟨f, rfl⟩ : ∃ f, fuel = f + 1 := ⟨fuel - 1, by omega⟩
    rw [RespValue.serializeInto_nil, cons_line_append, parseValue_dollar, parseData,
      readIntLine_append (cr_not_mem_displayInt _) (parseI64_displayInt (by decide) (by decide))]
    rfl
  | int h₁ h₂ =>
    intro rest fuel hf
    obtain ⟨f, rfl⟩ : ∃ f, fuel = f + 1 := ⟨fuel - 1, by omega⟩
    rw [RespValue.serializeInto, cons_line_append, parseValue_colon,
      readIntLine_append (cr_not_mem_displayInt _) (parseI64_displayInt h₁ h₂)]
    rfl
  | data hb =>
    rename_i b
    intro rest fuel hf
    obtain ⟨f, rfl⟩ : ∃ f, fuel = f + 1 := ⟨fuel - 1, by omega⟩
    have hser : (RespValue.data b).serializeInto ++ rest =
        dollar :: (displayNat b.length ++ crlf ++ (b ++ crlf ++ rest)) := by
      simp [RespValue.serializeInto]
    rw [hser, parseValue_dollar, parseData,
      readIntLine_append (cr_not_mem_displayNat _) (parseI64_displayNat hb)]
    simp only [bind, Except.bind, Int.natCast_nonneg, not_lt.mpr, if_false, Int.toNat_natCast,
      readWithSeparator_append]
    rfl
  | array hlen hws ih =>
    rename_i a
    intro rest fuel hf
    obtain ⟨f, rfl⟩ : ∃ f, fuel = f + 1 := ⟨fuel - 1, by omega⟩
    have hser : (RespValue.array a).serializeInto ++ rest =
        asterisk :: (displayNat a.length ++ crlf ++ (RespValue.serializeList a ++ rest)) := by
      simp [RespValue.serializeInto]
    have hlen' := (RespValue.length_lt_i64Max hlen).le
    have hf' : (RespValue.serializeList a ++ rest).length < f := by
      rw [hser] at hf
      simp at hf ⊢
      omega
    obtain ⟨hheap, hfits⟩ := hfit.of_array
    have hel : parseElems (parseValue heap f) a.length (RespValue.serializeList a ++ rest) =
        .ok (a, rest) := by
      rw [← Nat.add_zero a.length,
        parseElems_serializeList (fun w hw _ h => ih w hw (hfits w hw) h) 0 hf', parseElems]
      simp [Except.map]
    rw [hser, parseValue_star, parseArray_append hlen', withCapacity_of_le hlen hheap, hel]
    rfl
  | status h =>
    intro rest fuel hf
    obtain ⟨f, rfl⟩ : ∃ f, fuel = f + 1 := ⟨fuel - 1, by omega⟩
    rw [RespValue.serializeInto, cons_line_append, parseValue_plus, readLine_append h]
    rfl
  | error h =>
    intro rest fuel hf
    obtain ⟨f, rfl⟩ : ∃ f, fuel = f + 1 := ⟨fuel - 1, by omega⟩
    rw [RespValue.serializeInto, cons_line_append, parseValue_minus, readLine_append h]
    rfl

/-- A strict prefix of the values of an array ends inside one of them. -/
theorem prefix_serializeList {r : Bytes} : ∀ {ws : List RespValue},
    r <+: RespValue.serializeList ws → r ≠ RespValue.serializeList ws →
      ∃ ws₁ w ws₂ r', ws = ws₁ ++ w :: ws₂ ∧ r = RespValue.serializeList ws₁ ++ r' ∧
        r' <+: w.serializeInto ∧ r' ≠ w.serializeInto := by
  intro ws
  induction ws generalizing r with
  | nil =>
    intro hr hne
    exact absurd (List.prefix_nil.mp hr) hne
  | cons w ws ih =>
    intro hr hne
    rw [RespValue.serializeList_cons] at hr hne
    by_cases hw : w.serializeInto <+: r
    · obtain ⟨t, rfl⟩ := hw
      have ht : t <+: RespValue.serializeList ws := (List.prefix_append_right_inj _).mp hr
      obtain ⟨ws₁, w', ws₂, r', rfl, rfl, h₁, h₂⟩ := ih ht fun e => hne (by rw [e])
      exact ⟨w :: ws₁, w', ws₂, r', rfl, by simp, h₁, h₂⟩
    · rcases List.prefix_or_prefix_of_prefix hr (List.prefix_append _ _) with h | h
      · exact ⟨[], w, ws, r, rfl, by simp, h, fun e => hw (e ▸ List.prefix_refl _)⟩
      · exact absurd h hw

/-- On a strict prefix of a value the parser asks for more bytes, given an
allocator that grants each of the value's arrays. -/
theorem parseValue_cut {v : RespValue} (hv : v.WF) (hfit : v.FitsIn heap) :
    ∀ {q : Bytes} {fuel : ℕ}, q <+: v.serializeInto → q ≠ v.serializeInto → q.length < fuel →
      parseValue heap fuel q = .error .incomplete := by
  induction hv with
  | nil =>
    intro q fuel hq hne hf
    obtain ⟨f, rfl⟩ : ∃ f, fuel = f + 1 := ⟨fuel - 1, by omega⟩
    rw [RespValue.serializeInto_nil, List.cons_append] at hq hne
    rcases strictPrefix_cons_cases hq hne with rfl | ⟨t, rfl, ht, htne⟩
    · rfl
    · rw [parseValue_dollar, parseData_of_readIntLine (readIntLine_of_readLine
        (readLine_short (cr_not_mem_displayInt _) ht htne))]
  | int h₁ h₂ =>
    intro q fuel hq hne hf
    obtain ⟨f, rfl⟩ : ∃ f, fuel = f + 1 := ⟨fuel - 1, by omega⟩
    rw [RespValue.serializeInto, List.cons_append] at hq hne
    rcases strictPrefix_cons_cases hq hne with rfl | ⟨t, rfl, ht, htne⟩
    · rfl
    · rw [parseValue_colon, readIntLine_of_readLine
        (readLine_short (cr_not_mem_displayInt _) ht htne)]
      rfl
  | data hb =>
    rename_i b
    intro q fuel hq hne hf
    obtain ⟨f, rfl⟩ : ∃ f, fuel = f + 1 := ⟨fuel - 1, by omega⟩
    have hser : (RespValue.data b).serializeInto =
        dollar :: (displayNat b.length ++ crlf ++ (b ++ crlf)) := by
      simp [RespValue.serializeInto]
    rw [hser] at hq hne
    rcases strictPrefix_cons_cases hq hne with rfl | ⟨t, rfl, ht, htne⟩
    · rfl
    rcases prefix_line_cases ht with ⟨ht, hne'⟩ | ⟨r, rfl, hr⟩
    · rw [parseValue_dollar, parseData_of_readIntLine (readIntLine_of_readLine
        (readLine_short (cr_not_mem_displayNat _) ht hne'))]
    · have hrlen : r.length < b.length + 2 := by
        have hle := hr.length_le
        have hne'' : r ≠ b ++ crlf := fun e => htne (by rw [e])
        have hlt : r.length ≠ (b ++ crlf).length := fun e => hne'' (hr.eq_of_length e)
        simp [crlf] at hle hlt
        omega
      rw [parseValue_dollar, parseData, readIntLine_append (cr_not_mem_displayNat _)
        (parseI64_displayNat hb)]
      simp only [bind, Except.bind, Int.natCast_nonneg, not_lt.mpr, if_false, Int.toNat_natCast,
        readWithSeparator_short hrlen]
  | array hlen hws ih =>
    rename_i a
    intro q fuel hq hne hf
    obtain ⟨f, rfl⟩ : ∃ f, fuel = f + 1 := ⟨fuel - 1, by omega⟩
    have hser : (RespValue.array a).serializeInto =
        asterisk :: (displayNat a.length ++ crlf ++ RespValue.serializeList a) := by
      simp [RespValue.serializeInto]
    rw [hser] at hq hne
    rcases strictPrefix_cons_cases hq hne with rfl | ⟨t, rfl, ht, htne⟩
    · rfl
    rcases prefix_line_cases ht with ⟨ht, hne'⟩ | ⟨r, rfl, hr⟩
    · rw [parseValue_star, parseArray_of_readIntLine (readIntLine_of_readLine
        (readLine_short (cr_not_mem_displayNat _) ht hne'))]
    · obtain ⟨ws₁, w, ws₂, r', rfl, rfl, hr', hne''⟩ :=
        prefix_serializeList hr fun e => htne (by rw [e])
      obtain ⟨hheap, hfits⟩ := hfit.of_array
      have hmem : ∀ w' ∈ ws₁, w'.WF ∧ w'.FitsIn heap := fun w' hw' =>
        ⟨hws w' (by simp [hw']), hfits w' (by simp [hw'])⟩
      have hf' : (RespValue.serializeList ws₁ ++ r').length < f := by
        simp at hf ⊢
        omega
      -- the values before the one cut short are read whole, and that one asks for more
      have hel : parseElems (parseValue heap f) (ws₁ ++ w :: ws₂).length
          (RespValue.serializeList ws₁ ++ r') = .error .incomplete := by
        have hw : parseValue heap f r' = .error .incomplete :=
          ih w (by simp) (hfits w (by simp)) hr' hne'' (by simp at hf'; omega)
        rw [List.length_append, parseElems_serializeList
          (fun w' hw' _ h => parseValue_serializeInto (hmem w' hw').1 (hmem w' hw').2 h) _ hf',
          List.length_cons, parseElems, hw]
        rfl
      rw [parseValue_star, parseArray_append (RespValue.length_lt_i64Max hlen).le,
        withCapacity_of_le hlen hheap, hel]
      rfl
  | status h =>
    intro q fuel hq hne hf
    obtain ⟨f, rfl⟩ : ∃ f, fuel = f + 1 := ⟨fuel - 1, by omega⟩
    rw [RespValue.serializeInto, List.cons_append] at hq hne
    rcases strictPrefix_cons_cases hq hne with rfl | ⟨t, rfl, ht, htne⟩
    · rfl
    · rw [parseValue_plus, readLine_short h ht htne]
      rfl
  | error h =>
    intro q fuel hq hne hf
    obtain ⟨f, rfl⟩ : ∃ f, fuel = f + 1 := ⟨fuel - 1, by omega⟩
    rw [RespValue.serializeInto, List.cons_append] at hq hne
    rcases strictPrefix_cons_cases hq hne with rfl | ⟨t, rfl, ht, htne⟩
    · rfl
    · rw [parseValue_minus, readLine_short h ht htne]
      rfl

end Heap

end Parser

/-! ## The scanner: digits, rounds and fuel -/

namespace Resp

theorem le_foldl_digits (ds : Bytes) (acc : ℕ) :
    acc ≤ ds.foldl (fun n c => n * 10 + digitVal c) acc := by
  induction ds generalizing acc with
  | nil => exact le_rfl
  | cons c ds ih => exact le_trans (by omega) (ih (acc * 10 + digitVal c))

/-- A run of digits is worth at least its prefixes. -/
theorem digitsValue_le_of_prefix {t ds : Bytes} (h : t <+: ds) : digitsValue t ≤ digitsValue ds := by
  obtain ⟨u, rfl⟩ := h
  rw [digitsValue, digitsValue, List.foldl_append]
  exact le_foldl_digits u _

end Resp

namespace Parser

theorem scanLen_cast_step (acc : ℕ) (c : UInt8) :
    (acc : ℤ) * 10 + (digitVal c : ℤ) = ((acc * 10 + digitVal c : ℕ) : ℤ) := by
  push_cast
  ring

/-- Digits that fit an `i64`, then a `\r` or the end of the buffer: the scan
reads them all. -/
theorem scanLen_digits {rest : Bytes} (hrest : rest = [] ∨ ∃ r, rest = cr :: r) :
    ∀ {ds : Bytes} (acc : ℕ), ds.all isDigit = true →
      ((ds.foldl (fun n c => n * 10 + digitVal c) acc : ℕ) : ℤ) ≤ i64Max →
      scanLen (ds ++ rest) acc =
        .ok (ds.length, ((ds.foldl (fun n c => n * 10 + digitVal c) acc : ℕ) : ℤ)) := by
  intro ds
  induction ds with
  | nil =>
    intro acc _ _
    rcases hrest with rfl | ⟨r, rfl⟩
    · rfl
    · simp [scanLen, isDigit]
  | cons c ds ih =>
    intro acc hall hfit
    simp only [List.all_cons, Bool.and_eq_true] at hall
    have hstep : ((acc * 10 + digitVal c : ℕ) : ℤ) ≤ i64Max :=
      le_trans (by exact_mod_cast le_foldl_digits ds _) hfit
    rw [List.cons_append, scanLen, if_pos hall.1, scanLen_cast_step, if_neg (not_lt.mpr hstep),
      ih _ hall.2 hfit]
    rfl

/-- Digits that overflow an `i64`: the scan panics. -/
theorem scanLen_overflow (rest : Bytes) :
    ∀ {ds : Bytes} (acc : ℕ), ds.all isDigit = true → (acc : ℤ) ≤ i64Max →
      i64Max < ((ds.foldl (fun n c => n * 10 + digitVal c) acc : ℕ) : ℤ) →
      scanLen (ds ++ rest) acc = .error .panic := by
  intro ds
  induction ds with
  | nil =>
    intro acc _ hacc hover
    exact absurd hover (not_lt.mpr hacc)
  | cons c ds ih =>
    intro acc hall hacc hover
    simp only [List.all_cons, Bool.and_eq_true] at hall
    rw [List.cons_append, scanLen, if_pos hall.1, scanLen_cast_step]
    by_cases hstep : i64Max < ((acc * 10 + digitVal c : ℕ) : ℤ)
    · rw [if_pos hstep]
    · rw [if_neg hstep, ih _ hall.2 (not_lt.mp hstep) hover]
      rfl

theorem scanLen_displayNat {n : ℕ} (rest : Bytes) (hn : (n : ℤ) ≤ i64Max)
    (hrest : rest = [] ∨ ∃ r, rest = cr :: r) :
    scanLen (displayNat n ++ rest) 0 = .ok ((displayNat n).length, n) := by
  have hv := digitsValue_displayNat n
  have hall : (displayNat n).all isDigit = true :=
    List.all_eq_true.mpr fun _ => isDigit_of_mem_displayNat
  unfold digitsValue at hv
  have h := scanLen_digits hrest 0 hall (by rw [hv]; exact hn)
  rwa [hv, Nat.cast_zero] at h

/-- A prefix of the digits of a length that fits an `i64`: the scan reads it
all, and the length it has so far is no more than the whole. -/
theorem scanLen_prefix_displayNat {n : ℕ} {t : Bytes} (hn : (n : ℤ) ≤ i64Max)
    (ht : t <+: displayNat n) : ∃ m ≤ n, scanLen t 0 = .ok (t.length, m) := by
  have hle : digitsValue t ≤ n := digitsValue_displayNat n ▸ digitsValue_le_of_prefix ht
  have hall : t.all isDigit = true :=
    List.all_eq_true.mpr fun _ hc => isDigit_of_mem_displayNat (ht.subset hc)
  refine ⟨digitsValue t, hle, ?_⟩
  have h := scanLen_digits (Or.inl rfl) 0 hall (by unfold digitsValue at hle; omega)
  rwa [List.append_nil, Nat.cast_zero] at h

end Parser

namespace Parser

/-- Where the buffer at `i` starts with `c`, the byte at `i` is `c` and the
buffer after it is the rest. -/
theorem drop_eq_cons {buf t : Bytes} {i : ℕ} {c : UInt8} (h : buf.drop i = c :: t) :
    buf[i]? = some c ∧ buf.drop (i + 1) = t := by
  constructor
  · rw [← Nat.add_zero i, ← List.getElem?_drop, h]
    rfl
  · rw [← List.drop_drop, h]
    rfl

theorem drop_add_length {buf xs rest : Bytes} {i : ℕ} (h : buf.drop i = xs ++ rest) :
    buf.drop (i + xs.length) = rest := by
  rw [← List.drop_drop, h, List.drop_left]

theorem length_eq_of_drop {buf xs : Bytes} {i : ℕ} (h : buf.drop i = xs) (hne : xs ≠ []) :
    buf.length = i + xs.length := by
  have hlen := congrArg List.length h
  rw [List.length_drop] at hlen
  have : xs.length ≠ 0 := by simpa using hne
  omega

theorem le_length_of_drop {buf xs rest : Bytes} {i : ℕ} (h : buf.drop i = xs ++ rest)
    (hne : xs ≠ []) : i + xs.length ≤ buf.length := by
  have := length_eq_of_drop h (by simp [hne])
  simp at this
  omega

theorem scanLoop_of_le {buf : Bytes} {f i valid p : ℕ} (h : buf.length ≤ i) :
    scanLoop buf f i valid p = finishScan valid := by
  cases f with
  | zero => rfl
  | succ f => simp [scanLoop, List.getElem?_eq_none h]

/-- A round moves past the prefix byte. -/
theorem scanValue_lt {buf : Bytes} {i p j q : ℕ} {c : UInt8}
    (h : scanValue buf i c p = .ok (some (j, q))) : i < j := by
  unfold scanValue at h
  -- the `$` and `*` rounds move past the length's digits, the others past a line
  split_ifs at h
  iterate 2
    cases hs : scanLen (buf.drop (i + 1)) 0 with
    | error e =>
      rw [hs] at h
      cases h
    | ok r =>
      rw [hs] at h
      dsimp only at h
      split_ifs at h <;> (cases h; omega)
  · cases h
    unfold skipLine
    omega
  · cases h

/-- Any fuel that reaches the end of the buffer gives the same answer. -/
theorem scanLoop_fuel {buf : Bytes} : ∀ {f f' i valid p : ℕ}, buf.length ≤ i + f →
    buf.length ≤ i + f' → scanLoop buf f i valid p = scanLoop buf f' i valid p := by
  intro f
  induction f with
  | zero =>
    intro f' i valid p hf _
    rw [scanLoop_of_le (by omega), scanLoop_of_le (by omega)]
  | succ f ih =>
    intro f' i valid p hf hf'
    by_cases hi : buf.length ≤ i
    · rw [scanLoop_of_le hi, scanLoop_of_le hi]
    obtain ⟨f', rfl⟩ : ∃ g, f' = g + 1 := ⟨f' - 1, by omega⟩
    obtain ⟨c, hc⟩ : ∃ c, buf[i]? = some c := ⟨buf[i], List.getElem?_eq_getElem (by omega)⟩
    simp only [scanLoop, hc]
    split
    · rfl
    · exact ih (by omega) (by omega)
    · next j q h => exact ih (by have := scanValue_lt h; omega) (by have := scanValue_lt h; omega)

/-- One round of the loop, at the fuel of the buffer's length. -/
theorem scanLoop_some {buf : Bytes} {i valid p j q : ℕ} {c : UInt8} (hc : buf[i]? = some c)
    (h : scanValue buf i c p = .ok (some (j, q))) :
    scanLoop buf buf.length i valid p =
      scanLoop buf buf.length (j + 2) (if q - 1 = 0 ∧ j + 2 ≤ buf.length then j + 2 else valid)
        (q - 1) := by
  have hi : i < buf.length := (List.getElem?_eq_some_iff.mp hc).1
  obtain ⟨f, hf⟩ : ∃ f, buf.length = f + 1 := ⟨buf.length - 1, by omega⟩
  conv_lhs => rw [hf]
  simp only [scanLoop, hc, h]
  exact scanLoop_fuel (by omega) (by omega)

/-- A round that runs past the end of the buffer ends the loop. -/
theorem scanLoop_last {buf : Bytes} {i valid p j q : ℕ} {c : UInt8} (hc : buf[i]? = some c)
    (h : scanValue buf i c p = .ok (some (j, q))) (hj : buf.length < j + 2) :
    scanLoop buf buf.length i valid p = finishScan valid := by
  rw [scanLoop_some hc h, if_neg (by omega), scanLoop_of_le hj.le]

/-! ## One round on each kind of value -/

theorem scanValue_line {buf line post : Bytes} {i p : ℕ} {c : UInt8}
    (hc : c = colon ∨ c = plus ∨ c = minus) (hline : cr ∉ line)
    (h : buf.drop (i + 1) = line ++ crlf ++ post) :
    scanValue buf i c p = .ok (some (i + 1 + line.length, p)) := by
  have hc' : ¬(c = dollar ∨ c = asterisk) := by rcases hc with rfl | rfl | rfl <;> decide
  have hall : ∀ a ∈ line, (a != cr) = true := fun a ha => by
    rw [bne_iff_ne]
    rintro rfl
    exact hline ha
  have htake : (line ++ crlf ++ post).takeWhile (· != cr) = line := by
    rw [List.append_assoc, List.takeWhile_append_of_pos hall]
    simp [crlf]
  rw [scanValue, if_neg hc', if_pos hc, skipLine, h, htake]

/-- The scan of a `$` value, from what the length scan gives. -/
theorem scanValue_dollar {buf : Bytes} {i p k : ℕ} {len : ℤ}
    (h : scanLen (buf.drop (i + 1)) 0 = .ok (k, len)) :
    scanValue buf i dollar p =
      .ok (some (if len < 0 then i + 1 + k else i + 1 + k + 2 + len.toNat, p)) := by
  rw [scanValue, if_pos (.inl rfl), h]
  by_cases hl : len < 0 <;> simp [hl]

/-- The scan of a `*` value whose length fits: the count becomes the length
and one. -/
theorem scanValue_asterisk {buf : Bytes} {i p k : ℕ} {len : ℤ}
    (h : scanLen (buf.drop (i + 1)) 0 = .ok (k, len)) (h₀ : 0 ≤ len) (hlt : len < i64Max) :
    scanValue buf i asterisk p = .ok (some (i + 1 + k, len.toNat + 1)) := by
  rw [scanValue, if_pos (.inr rfl), h]
  simp [not_lt.mpr h₀, not_lt.mpr (show len + 1 ≤ i64Max by omega)]

end Parser

/-! ## The scanner on whole values -/

/-- `values_pending` once the scanner has read the whole value `v` from the
count `p`: an array sets the count to its length, and its values bring it back
to zero; any other value counts one. -/
def RespValue.pendingAfter : RespValue → ℕ → ℕ
  | .array _, _ => 0
  | _, p => p - 1

theorem RespValue.pendingAfter_le (v : RespValue) (p : ℕ) : v.pendingAfter p ≤ p - 1 := by
  cases v <;> simp [pendingAfter]

theorem RespValue.foldl_pendingAfter_le (ws : List RespValue) (p : ℕ) :
    ws.foldl (fun p w => w.pendingAfter p) p ≤ p - ws.length := by
  induction ws generalizing p with
  | nil => simp
  | cons w ws ih =>
    have h₁ := ih (w.pendingAfter p)
    have h₂ := w.pendingAfter_le p
    simp only [List.foldl_cons, List.length_cons]
    omega

namespace Parser

/-- What the scanner does on the whole value `v` at `i`: it moves past the
value, its count becomes `pendingAfter`, and it notes the end of the value
when no array is left open. -/
def ScansWhole (v : RespValue) : Prop :=
  ∀ ⦃buf post : Bytes⦄ ⦃i : ℕ⦄ (valid p : ℕ), buf.drop i = v.serializeInto ++ post →
    scanLoop buf buf.length i valid p =
      scanLoop buf buf.length (i + v.serializeInto.length)
        (if v.pendingAfter p = 0 then i + v.serializeInto.length else valid) (v.pendingAfter p)

/-- A round that ends inside the buffer, `n` bytes on. -/
theorem scanLoop_round {buf : Bytes} {i valid p j q n : ℕ} {c : UInt8} (hc : buf[i]? = some c)
    (h : scanValue buf i c p = .ok (some (j, q))) (hj : j + 2 = i + n)
    (hn : i + n ≤ buf.length) :
    scanLoop buf buf.length i valid p =
      scanLoop buf buf.length (i + n) (if q - 1 = 0 then i + n else valid) (q - 1) := by
  rw [scanLoop_some hc h, hj]
  simp only [hn, and_true]

/-- The round on a `:`, `+` or `-` line. -/
theorem scanLoop_line {buf line post : Bytes} {i valid p : ℕ} {c : UInt8}
    (hc : c = colon ∨ c = plus ∨ c = minus) (hline : cr ∉ line)
    (h : buf.drop i = c :: line ++ crlf ++ post) :
    scanLoop buf buf.length i valid p =
      scanLoop buf buf.length (i + (c :: line ++ crlf).length)
        (if p - 1 = 0 then i + (c :: line ++ crlf).length else valid) (p - 1) := by
  have hn := le_length_of_drop h (by simp)
  rw [cons_line_append] at h
  obtain ⟨hc', hd⟩ := drop_eq_cons h
  exact scanLoop_round hc' (scanValue_line hc hline hd) (by simp [crlf]; omega) hn

theorem displayInt_neg_one : displayInt (-1) = [minus, digitByte 1] := by decide

theorem scanLoop_nil {buf post : Bytes} {i valid p : ℕ}
    (h : buf.drop i = RespValue.nil.serializeInto ++ post) :
    scanLoop buf buf.length i valid p =
      scanLoop buf buf.length (i + RespValue.nil.serializeInto.length)
        (if p - 1 = 0 then i + RespValue.nil.serializeInto.length else valid) (p - 1) := by
  have hn := le_length_of_drop h (by simp [RespValue.serializeInto])
  rw [RespValue.serializeInto_nil, cons_line_append] at h
  obtain ⟨hc, hd⟩ := drop_eq_cons h
  have hs : scanLen (buf.drop (i + 1)) 0 = .ok (2, -1) := by
    rw [hd, displayInt_neg_one]
    rfl
  exact scanLoop_round hc (scanValue_dollar hs) (by simp [RespValue.serializeInto, crlf]) hn

theorem scanLoop_data {buf b post : Bytes} {i valid p : ℕ} (hb : (b.length : ℤ) ≤ i64Max)
    (h : buf.drop i = (RespValue.data b).serializeInto ++ post) :
    scanLoop buf buf.length i valid p =
      scanLoop buf buf.length (i + (RespValue.data b).serializeInto.length)
        (if p - 1 = 0 then i + (RespValue.data b).serializeInto.length else valid) (p - 1) := by
  have hn := le_length_of_drop h (by simp [RespValue.serializeInto])
  have h' : buf.drop i = dollar :: (displayNat b.length ++ crlf ++ (b ++ crlf ++ post)) := by
    rw [h]
    simp [RespValue.serializeInto]
  obtain ⟨hc, hd⟩ := drop_eq_cons h'
  have hs := scanLen_displayNat (crlf ++ (b ++ crlf ++ post)) hb
    (.inr ⟨lf :: (b ++ crlf ++ post), rfl⟩)
  rw [← List.append_assoc, ← hd] at hs
  have hv := scanValue_dollar (p := p) hs
  rw [if_neg (not_lt.mpr (Int.natCast_nonneg _)), Int.toNat_natCast] at hv
  refine scanLoop_round hc hv ?_ hn
  simp [RespValue.serializeInto, crlf]
  omega

/-- The round on the header of an array of `n` values, which sets the count to
`n`. -/
theorem scanLoop_header {buf post : Bytes} {i valid p n : ℕ} (hn : (n : ℤ) < i64Max)
    (h : buf.drop i = asterisk :: displayNat n ++ crlf ++ post) :
    scanLoop buf buf.length i valid p =
      scanLoop buf buf.length (i + (asterisk :: displayNat n ++ crlf).length)
        (if n = 0 then i + (asterisk :: displayNat n ++ crlf).length else valid) n := by
  have hle := le_length_of_drop h (by simp)
  rw [cons_line_append] at h
  obtain ⟨hc, hd⟩ := drop_eq_cons h
  have hs := scanLen_displayNat (crlf ++ post) hn.le (.inr ⟨lf :: post, rfl⟩)
  rw [← List.append_assoc, ← hd] at hs
  rw [scanLoop_round hc (scanValue_asterisk (p := p) hs (by omega) hn) (by simp [crlf]; omega) hle]
  simp

end Parser

namespace Parser

/-- The scanner on the values of an array, one after another: where the count
ends at zero, the end of the last value is noted. -/
theorem scanLoop_serializeList {ws : List RespValue} (hws : ∀ w ∈ ws, ScansWhole w) :
    ∀ {buf post : Bytes} {i valid p : ℕ}, buf.drop i = RespValue.serializeList ws ++ post →
      scanLoop buf buf.length i valid p =
        scanLoop buf buf.length (i + (RespValue.serializeList ws).length)
          (if ws ≠ [] ∧ ws.foldl (fun p w => w.pendingAfter p) p = 0 then
            i + (RespValue.serializeList ws).length else valid)
          (ws.foldl (fun p w => w.pendingAfter p) p) := by
  induction ws with
  | nil =>
    intro buf post i valid p _
    simp
  | cons w ws ih =>
    intro buf post i valid p h
    rw [RespValue.serializeList_cons, List.append_assoc] at h
    rw [hws w List.mem_cons_self valid p h,
      ih (fun w' hw' => hws w' (List.mem_cons_of_mem _ hw')) (drop_add_length h)]
    have hzero : ∀ q, ws.foldl (fun p w => w.pendingAfter p) q ≤ q :=
      fun q => le_trans (RespValue.foldl_pendingAfter_le ws q) (Nat.sub_le _ _)
    simp only [RespValue.serializeList_cons, List.length_append, List.foldl_cons, ne_eq,
      reduceCtorEq, not_false_eq_true, true_and, ← Nat.add_assoc]
    -- the count after `w` is zero only if the count after the list is
    rcases ws with _ | ⟨w', ws'⟩
    · simp
    · by_cases hq : (w' :: ws').foldl (fun p w => w.pendingAfter p) (w.pendingAfter p) = 0
      · simp [hq]
      · have hw : w.pendingAfter p ≠ 0 := fun e => hq (by have := hzero 0; rw [e]; omega)
        simp [hw]

/-- The scanner reads a whole value in as many rounds as it has parts. -/
theorem scansWhole {v : RespValue} (hv : v.WF) : ScansWhole v := by
  induction hv with
  | nil =>
    intro buf post i valid p h
    exact scanLoop_nil h
  | int _ _ =>
    intro buf post i valid p h
    exact scanLoop_line (.inl rfl) (cr_not_mem_displayInt _) h
  | data hb =>
    intro buf post i valid p h
    exact scanLoop_data hb h
  | @array a hlen _ ih =>
    intro buf post i valid p h
    have hfit := RespValue.length_lt_i64Max hlen
    have h' : buf.drop i = asterisk :: displayNat a.length ++ crlf ++
        (RespValue.serializeList a ++ post) := by
      rw [h]
      simp [RespValue.serializeInto]
    have hser : (RespValue.array a).serializeInto.length =
        (asterisk :: displayNat a.length ++ crlf).length + (RespValue.serializeList a).length := by
      simp [RespValue.serializeInto]
      omega
    have hq : a.foldl (fun p w => w.pendingAfter p) a.length = 0 := by
      have := RespValue.foldl_pendingAfter_le a a.length
      omega
    rw [scanLoop_header hfit h', scanLoop_serializeList ih (drop_add_length h'), hq, hser,
      ← Nat.add_assoc]
    -- an empty array is closed by its header, any other by its last value
    rcases a with _ | ⟨w, ws⟩
    · simp [RespValue.pendingAfter]
    · simp [RespValue.pendingAfter]
  | status h =>
    intro buf post i valid p h'
    exact scanLoop_line (.inr (.inl rfl)) h h'
  | error h =>
    intro buf post i valid p h'
    exact scanLoop_line (.inr (.inr rfl)) h h'

end Parser

/-! ## The scanner on a value cut short -/

namespace Parser

theorem scanLoop_of_drop_nil {buf : Bytes} {i valid p : ℕ} (h : buf.drop i = []) :
    scanLoop buf buf.length i valid p = finishScan valid :=
  scanLoop_of_le (List.drop_eq_nil_iff.mp h)

/-- A line cut before its `\n` is at most one byte longer than its part before
the first `\r`. -/
theorem length_lt_takeWhile_add_two {line t : Bytes} (hline : cr ∉ line)
    (ht : t <+: line ++ crlf) (hne : t ≠ line ++ crlf) :
    t.length < (t.takeWhile (· != cr)).length + 2 := by
  have hall : ∀ a ∈ line, (a != cr) = true := fun a ha => by
    rw [bne_iff_ne]
    rintro rfl
    exact hline ha
  rcases prefix_append_cases ht with ht | ⟨r, rfl, hr⟩
  · have htake : t.takeWhile (· != cr) = t := by
      have h : (t ++ []).takeWhile (· != cr) = t ++ ([] : Bytes).takeWhile (· != cr) :=
        List.takeWhile_append_of_pos fun a ha => hall a (ht.subset ha)
      simpa using h
    rw [htake]
    omega
  · have hr₁ : r.length < 2 := by
      have hle := hr.length_le
      have hlt : r.length ≠ crlf.length := fun e => hne (by rw [hr.eq_of_length e])
      simp [crlf] at hle hlt
      omega
    rw [List.takeWhile_append_of_pos hall, List.length_append, List.length_append]
    omega

/-- A `:`, `+` or `-` line cut short ends the scan. -/
theorem scanLoop_line_cut {buf line t : Bytes} {i valid p : ℕ} {c : UInt8}
    (hc : c = colon ∨ c = plus ∨ c = minus) (hline : cr ∉ line) (h : buf.drop i = c :: t)
    (ht : t <+: line ++ crlf) (hne : t ≠ line ++ crlf) :
    scanLoop buf buf.length i valid p = finishScan valid := by
  obtain ⟨hc', hd⟩ := drop_eq_cons h
  have hlen := length_eq_of_drop h (by simp)
  have hs : scanValue buf i c p = .ok (some (skipLine buf (i + 1), p)) := by
    have hc'' : ¬(c = dollar ∨ c = asterisk) := by rcases hc with rfl | rfl | rfl <;> decide
    rw [scanValue, if_neg hc'', if_pos hc]
  refine scanLoop_last hc' hs ?_
  have := length_lt_takeWhile_add_two hline ht hne
  rw [skipLine, hd]
  simp only [List.length_cons] at hlen
  omega

theorem scanLen_minus (rest : Bytes) (len : ℤ) : scanLen (minus :: rest) len = .ok (2, -1) := rfl

/-- `$-1\r\n` cut short ends the scan. -/
theorem scanLoop_nil_cut {buf t : Bytes} {i valid p : ℕ} (h : buf.drop i = dollar :: t)
    (ht : t <+: displayInt (-1) ++ crlf) (hne : t ≠ displayInt (-1) ++ crlf) :
    scanLoop buf buf.length i valid p = finishScan valid := by
  obtain ⟨hc, hd⟩ := drop_eq_cons h
  have hlen := length_eq_of_drop h (by simp)
  have htlen : t.length < 4 := by
    have hle := ht.length_le
    have hlt : t.length ≠ (displayInt (-1) ++ crlf).length := fun e => hne (ht.eq_of_length e)
    rw [displayInt_neg_one] at hle hlt
    simp [crlf] at hle hlt hlen
    omega
  -- whether the `-` came or not, the round ends three bytes on
  have hs : scanValue buf i dollar p = .ok (some (i + 3, p)) := by
    rw [displayInt_neg_one] at ht
    rcases List.prefix_cons_iff.mp ht with rfl | ⟨u, rfl, _⟩
    · exact scanValue_dollar (show scanLen (buf.drop (i + 1)) 0 = .ok (0, 0) by rw [hd]; rfl)
    · exact scanValue_dollar (by rw [hd]; exact scanLen_minus u 0)
  refine scanLoop_last hc hs ?_
  simp only [List.length_cons] at hlen
  omega

/-- Data cut short ends the scan: its length, as far as it goes, takes the
scan past the end. -/
theorem scanLoop_data_cut {buf b t : Bytes} {i valid p : ℕ} (hb : (b.length : ℤ) ≤ i64Max)
    (h : buf.drop i = dollar :: t) (ht : t <+: displayNat b.length ++ (crlf ++ b ++ crlf))
    (hne : t ≠ displayNat b.length ++ (crlf ++ b ++ crlf)) :
    scanLoop buf buf.length i valid p = finishScan valid := by
  obtain ⟨hc, hd⟩ := drop_eq_cons h
  have hlen := length_eq_of_drop h (by simp)
  simp only [List.length_cons] at hlen
  rcases prefix_append_cases ht with ht' | ⟨r, rfl, hr⟩
  · obtain ⟨m, -, hm⟩ := scanLen_prefix_displayNat hb ht'
    have hm' : scanLen (buf.drop (i + 1)) 0 = .ok (t.length, (m : ℤ)) := by
      rw [hd]
      exact hm
    have hs := scanValue_dollar (p := p) hm'
    rw [if_neg (not_lt.mpr (Int.natCast_nonneg _))] at hs
    exact scanLoop_last hc hs (by omega)
  · have hrest : r = [] ∨ ∃ r', r = cr :: r' := by
      rcases List.prefix_cons_iff.mp hr with rfl | ⟨r', rfl, _⟩
      · exact .inl rfl
      · exact .inr ⟨r', rfl⟩
    have hrlen : r.length < b.length + 4 := by
      have hle := hr.length_le
      have hlt : r.length ≠ (crlf ++ b ++ crlf).length := fun e => hne (by rw [hr.eq_of_length e])
      simp [crlf] at hle hlt
      omega
    have hm := scanLen_displayNat r hb hrest
    rw [← hd] at hm
    have hs := scanValue_dollar (p := p) hm
    rw [if_neg (not_lt.mpr (Int.natCast_nonneg _)), Int.toNat_natCast] at hs
    refine scanLoop_last hc hs ?_
    simp only [List.length_append] at hlen
    omega

/-- The header of an array cut short ends the scan. -/
theorem scanLoop_header_cut {buf t : Bytes} {i valid p n : ℕ} (hn : (n : ℤ) < i64Max)
    (h : buf.drop i = asterisk :: t) (ht : t <+: displayNat n ++ crlf)
    (hne : t ≠ displayNat n ++ crlf) :
    scanLoop buf buf.length i valid p = finishScan valid := by
  obtain ⟨hc, hd⟩ := drop_eq_cons h
  have hlen := length_eq_of_drop h (by simp)
  simp only [List.length_cons] at hlen
  rcases prefix_append_cases ht with ht' | ⟨r, rfl, hr⟩
  · obtain ⟨m, hmn, hm⟩ := scanLen_prefix_displayNat hn.le ht'
    have hm' : scanLen (buf.drop (i + 1)) 0 = .ok (t.length, (m : ℤ)) := by
      rw [hd]
      exact hm
    exact scanLoop_last hc (scanValue_asterisk (p := p) hm' (by omega) (by omega)) (by omega)
  · have hrest : r = [] ∨ ∃ r', r = cr :: r' := by
      rcases List.prefix_cons_iff.mp hr with rfl | ⟨r', rfl, _⟩
      · exact .inl rfl
      · exact .inr ⟨r', rfl⟩
    have hrlen : r.length < 2 := by
      have hle := hr.length_le
      have hlt : r.length ≠ crlf.length := fun e => hne (by rw [hr.eq_of_length e])
      simp [crlf] at hle hlt
      omega
    have hm := scanLen_displayNat r hn.le hrest
    rw [← hd] at hm
    refine scanLoop_last hc (scanValue_asterisk (p := p) hm (by omega) hn) ?_
    simp only [List.length_append] at hlen
    omega

end Parser

namespace Parser

/-- On a strict prefix of a value that ends the buffer, the scanner stops
without an error or a panic, and the position it answers with is at least the
one it had. -/
theorem scanLoop_cut {v : RespValue} (hv : v.WF) :
    ∀ {buf q : Bytes} {i valid p : ℕ}, buf.drop i = q → q <+: v.serializeInto →
      q ≠ v.serializeInto → valid ≤ i →
      ∃ valid', valid ≤ valid' ∧ scanLoop buf buf.length i valid p = finishScan valid' := by
  induction hv with
  | nil =>
    intro buf q i valid p h hq hne _
    rw [RespValue.serializeInto_nil, List.cons_append] at hq hne
    rcases strictPrefix_cons_cases hq hne with rfl | ⟨t, rfl, ht, htne⟩
    · exact ⟨valid, le_rfl, scanLoop_of_drop_nil h⟩
    · exact ⟨valid, le_rfl, scanLoop_nil_cut h ht htne⟩
  | int _ _ =>
    intro buf q i valid p h hq hne _
    rw [RespValue.serializeInto, List.cons_append] at hq hne
    rcases strictPrefix_cons_cases hq hne with rfl | ⟨t, rfl, ht, htne⟩
    · exact ⟨valid, le_rfl, scanLoop_of_drop_nil h⟩
    · exact ⟨valid, le_rfl, scanLoop_line_cut (.inl rfl) (cr_not_mem_displayInt _) h ht htne⟩
  | @data b hb =>
    intro buf q i valid p h hq hne _
    have hser : (RespValue.data b).serializeInto =
        dollar :: (displayNat b.length ++ (crlf ++ b ++ crlf)) := by
      simp [RespValue.serializeInto]
    rw [hser] at hq hne
    rcases strictPrefix_cons_cases hq hne with rfl | ⟨t, rfl, ht, htne⟩
    · exact ⟨valid, le_rfl, scanLoop_of_drop_nil h⟩
    · exact ⟨valid, le_rfl, scanLoop_data_cut hb h ht htne⟩
  | @array a hlen hws ih =>
    intro buf q i valid p h hq hne hvi
    have hfit := RespValue.length_lt_i64Max hlen
    have hser : (RespValue.array a).serializeInto =
        asterisk :: (displayNat a.length ++ crlf ++ RespValue.serializeList a) := by
      simp [RespValue.serializeInto]
    rw [hser] at hq hne
    rcases strictPrefix_cons_cases hq hne with rfl | ⟨t, rfl, ht, htne⟩
    · exact ⟨valid, le_rfl, scanLoop_of_drop_nil h⟩
    rcases prefix_line_cases ht with ⟨ht, hne'⟩ | ⟨r, rfl, hr⟩
    · exact ⟨valid, le_rfl, scanLoop_header_cut hfit h ht hne'⟩
    -- a whole header, whole values of the array, and one value cut short
    obtain ⟨ws₁, w, ws₂, r', rfl, rfl, hr', hne''⟩ :=
      prefix_serializeList hr fun e => htne (by rw [e])
    have h₁ : buf.drop i = asterisk :: displayNat (ws₁ ++ w :: ws₂).length ++ crlf ++
        (RespValue.serializeList ws₁ ++ r') := by
      rw [h]
      simp
    have h₂ := drop_add_length h₁
    have h₃ := drop_add_length h₂
    have hwhole : ∀ w' ∈ ws₁, ScansWhole w' := fun w' hw' => scansWhole (hws w' (by simp [hw']))
    rw [scanLoop_header hfit h₁, scanLoop_serializeList hwhole h₂]
    refine (ih w (by simp) h₃ hr' hne'' ?_).imp fun valid' ⟨hle, hfin⟩ => ⟨le_trans ?_ hle, hfin⟩
    · split_ifs <;> omega
    · split_ifs <;> omega
  | status hs =>
    intro buf q i valid p h hq hne _
    rw [RespValue.serializeInto, List.cons_append] at hq hne
    rcases strictPrefix_cons_cases hq hne with rfl | ⟨t, rfl, ht, htne⟩
    · exact ⟨valid, le_rfl, scanLoop_of_drop_nil h⟩
    · exact ⟨valid, le_rfl, scanLoop_line_cut (.inr (.inl rfl)) hs h ht htne⟩
  | error hs =>
    intro buf q i valid p h hq hne _
    rw [RespValue.serializeInto, List.cons_append] at hq hne
    rcases strictPrefix_cons_cases hq hne with rfl | ⟨t, rfl, ht, htne⟩
    · exact ⟨valid, le_rfl, scanLoop_of_drop_nil h⟩
    · exact ⟨valid, le_rfl, scanLoop_line_cut (.inr (.inr rfl)) hs h ht htne⟩

end Parser

/-! ## The decoder -/

theorem RespValue.three_le_length_serializeInto (v : RespValue) : 3 ≤ v.serializeInto.length := by
  cases v <;> simp [RespValue.serializeInto, crlf] <;> omega

namespace Parser

theorem finishScan_of_pos {valid : ℕ} (h : 0 < valid) : finishScan valid = .ok valid := by
  simp [finishScan, Nat.pos_iff_ne_zero.mp h]

theorem finishScan_cases (valid : ℕ) :
    finishScan valid = .error .incomplete ∨ finishScan valid = .ok valid := by
  unfold finishScan
  split_ifs
  · exact .inr rfl
  · exact .inl rfl

section Stream

variable {vs : List RespValue} {v : RespValue} {p : Bytes}

/-- The scanner on whole values and then a strict prefix of one: it never
fails, and it notes at least the end of the whole values. -/
theorem scanLoop_stream (hvs : ∀ w ∈ vs, w.WF) (hv : v.WF) (hp : p <+: v.serializeInto)
    (hne : p ≠ v.serializeInto) :
    ∃ valid', (vs ≠ [] → (RespValue.serializeList vs).length ≤ valid') ∧
      scanLoop (RespValue.serializeList vs ++ p) (RespValue.serializeList vs ++ p).length 0 0 0 =
        finishScan valid' := by
  have h₀ : (RespValue.serializeList vs ++ p).drop 0 = RespValue.serializeList vs ++ p := rfl
  have hq : vs.foldl (fun p w => w.pendingAfter p) 0 = 0 := by
    have := RespValue.foldl_pendingAfter_le vs 0
    omega
  rw [scanLoop_serializeList (fun w hw => scansWhole (hvs w hw)) h₀, hq]
  refine (scanLoop_cut hv (drop_add_length h₀) hp hne ?_).imp
    fun valid' ⟨hle, hfin⟩ => ⟨fun hvs' => le_trans ?_ hle, hfin⟩
  · split_ifs <;> omega
  · simp [hvs']

/-- The scanner's answer on whole values and then a strict prefix of one: with
no whole value it may ask for more, and otherwise it takes at least the first
value. -/
theorem speculateBuffer_stream (hvs : ∀ w ∈ vs, w.WF) (hv : v.WF) (hp : p <+: v.serializeInto)
    (hne : p ≠ v.serializeInto) :
    (vs = [] ∧ speculateBuffer (RespValue.serializeList vs ++ p) = .error .incomplete) ∨
      ∃ n, (∀ v₁ rest, vs = v₁ :: rest → v₁.serializeInto.length ≤ n) ∧
        speculateBuffer (RespValue.serializeList vs ++ p) = .ok n := by
  obtain ⟨valid', hle, hscan⟩ := scanLoop_stream hvs hv hp hne
  have hfirst : ∀ v₁ rest, vs = v₁ :: rest →
      v₁.serializeInto.length ≤ (RespValue.serializeList vs).length := by
    rintro v₁ rest rfl
    simp
  unfold speculateBuffer
  split_ifs with hshort hfast
  · rcases vs with _ | ⟨v₁, rest⟩
    · exact .inl ⟨rfl, rfl⟩
    · have h₁ := hfirst v₁ rest rfl
      have h₂ := v₁.three_le_length_serializeInto
      simp only [List.length_append] at hshort
      omega
  · refine .inr ⟨_, fun v₁ rest h => le_trans (hfirst v₁ rest h) ?_, rfl⟩
    simp
  · rw [hscan]
    rcases vs with _ | ⟨v₁, rest⟩
    · rcases finishScan_cases valid' with h | h
      · exact .inl ⟨rfl, h⟩
      · exact .inr ⟨valid', fun _ _ hnil => by simp at hnil, h⟩
    · have h₁ := hle (by simp)
      have h₂ := hfirst v₁ rest rfl
      have h₃ := v₁.three_le_length_serializeInto
      exact .inr ⟨valid', fun _ _ h => by cases h; omega, finishScan_of_pos (by omega)⟩

end Stream

end Parser

namespace RespCodec

section Heap

variable {heap : ℕ}

theorem decode_of_incomplete {src : Bytes} (h : Parser.speculateBuffer src = .error .incomplete) :
    decode heap src = some (.ok none, src) := by
  rw [decode, Parser.new, h]
  rfl

theorem decode_of_parseValue {src rest : Bytes} {n : ℕ} {v : RespValue}
    (hs : Parser.speculateBuffer src = .ok n)
    (h : Parser.parseValue heap ((src.take n).length + 1) (src.take n) = .ok (v, rest)) :
    decode heap src = some (.ok (some v), src.drop ((src.take n).length - rest.length)) := by
  rw [decode, Parser.new, hs]
  simp only [Except.map, bind, Except.bind, Parser.parse, h]

theorem decode_of_parseValue_incomplete {src : Bytes} {n : ℕ}
    (hs : Parser.speculateBuffer src = .ok n)
    (h : Parser.parseValue heap ((src.take n).length + 1) (src.take n) = .error .incomplete) :
    decode heap src = some (.ok none, src) := by
  rw [decode, Parser.new, hs]
  simp only [Except.map, bind, Except.bind, Parser.parse, h]

theorem decode_of_speculate_panic {src : Bytes} (h : Parser.speculateBuffer src = .error .panic) :
    decode heap src = none := by
  rw [decode, Parser.new, h]
  rfl

/-- A parse that panics or aborts takes the decoder down. -/
theorem decode_of_parseValue_fatal {src : Bytes} {n : ℕ} {e : RespError}
    (he : e = .panic ∨ e = .abort) (hs : Parser.speculateBuffer src = .ok n)
    (h : Parser.parseValue heap ((src.take n).length + 1) (src.take n) = .error e) :
    decode heap src = none := by
  rw [decode, Parser.new, hs]
  simp only [Except.map, bind, Except.bind, Parser.parse, h]
  rcases he with rfl | rfl <;> rfl

/-- An array header alone, at the end of the buffer: the scanner takes it
whole, and the parser allocates the vector before it reads any value. A
capacity past `isize::MAX` bytes panics, one past what the allocator grants
aborts: either way the decoder does not return. -/
theorem decode_header_of_withCapacity {n : ℕ} (hn : (n : ℤ) ≤ i64Max) {e : RespError}
    (hcap : Parser.withCapacity heap respValueSize n = .error e) (he : e = .panic ∨ e = .abort) :
    decode heap (asterisk :: displayNat n ++ crlf) = none := by
  -- the buffer ends in `\r\n`, so the scanner takes all of it
  have hs : Parser.speculateBuffer (asterisk :: displayNat n ++ crlf) =
      .ok (asterisk :: displayNat n ++ crlf).length := by
    have hdrop : (asterisk :: displayNat n ++ crlf).drop
        ((asterisk :: displayNat n ++ crlf).length - 2) = crlf := by
      have h : (asterisk :: displayNat n ++ crlf).drop (asterisk :: displayNat n).length = crlf :=
        List.drop_left
      simp [crlf] at h ⊢
    rw [Parser.speculateBuffer, if_neg (by simp [crlf]), if_pos hdrop]
  refine decode_of_parseValue_fatal he hs ?_
  have hbuf : asterisk :: displayNat n ++ crlf = asterisk :: (displayNat n ++ crlf ++ []) := by
    simp
  rw [List.take_length, hbuf, Parser.parseValue_star, Parser.parseArray_append hn, hcap]
  rfl

end Heap

/-- The header of an array of `n > 0` Nils is a strict prefix of its bytes. -/
theorem header_strictPrefix_replicate {n : ℕ} (hn : 0 < n) :
    asterisk :: displayNat n ++ crlf <+: (RespValue.array (List.replicate n .nil)).serializeInto ∧
      asterisk :: displayNat n ++ crlf ≠ (RespValue.array (List.replicate n .nil)).serializeInto := by
  obtain ⟨m, rfl⟩ : ∃ m, n = m + 1 := ⟨n - 1, by omega⟩
  have hser : (RespValue.array (List.replicate (m + 1) .nil)).serializeInto =
      asterisk :: displayNat (m + 1) ++ crlf ++
        (RespValue.nil.serializeInto ++ RespValue.serializeList (List.replicate m .nil)) := by
    show asterisk :: displayNat (List.replicate (m + 1) RespValue.nil).length ++ crlf ++
      RespValue.serializeList (List.replicate (m + 1) .nil) = _
    rw [List.length_replicate, List.replicate_succ, RespValue.serializeList_cons]
  have hnil : RespValue.nil.serializeInto ++ RespValue.serializeList (List.replicate m .nil) ≠ [] :=
    List.append_ne_nil_of_left_ne_nil (by rw [RespValue.serializeInto_nil]; simp) _
  rw [hser]
  exact ⟨List.prefix_append _ _, fun h => hnil (List.self_eq_append_right.mp h)⟩

/-- A client can crash the decoder with a length field. An array header whose
length fits an `i64` but whose values could not fit in memory makes
`Vec::with_capacity` panic; the digits of a data length past `i64::MAX`, with
no `\r\n` at the end of the buffer, overflow the scanner's `len * 10 + digit`. -/
theorem decode_length_panics {heap n m : ℕ} (hn : (n : ℤ) ≤ i64Max)
    (hcap : i64Max < n * respValueSize) (hm : i64Max < m) :
    decode heap (asterisk :: displayNat n ++ crlf) = none ∧
      decode heap (dollar :: displayNat m) = none := by
  constructor
  · exact decode_header_of_withCapacity hn (by rw [Parser.withCapacity, if_pos hcap]) (.inl rfl)
  · have hlen : 1 < (displayNat m).length := lt_length_displayNat (by unfold i64Max at hm; omega)
    have hnofast : (dollar :: displayNat m).drop ((dollar :: displayNat m).length - 2) ≠ crlf := by
      intro h
      have hmem : cr ∈ (dollar :: displayNat m).drop ((dollar :: displayNat m).length - 2) := by
        rw [h]
        simp [crlf]
      have hidx : (dollar :: displayNat m).length - 2 = (displayNat m).length - 2 + 1 := by
        simp only [List.length_cons]
        omega
      rw [hidx, List.drop_succ_cons] at hmem
      exact cr_not_mem_displayNat m (List.mem_of_mem_drop hmem)
    have hall : (displayNat m).all isDigit = true :=
      List.all_eq_true.mpr fun _ => isDigit_of_mem_displayNat
    have hover : i64Max < (((displayNat m).foldl (fun n c => n * 10 + digitVal c) 0 : ℕ) : ℤ) := by
      have hv := digitsValue_displayNat m
      unfold digitsValue at hv
      rw [hv]
      exact hm
    have hscan : Parser.scanLen ((dollar :: displayNat m).drop 1) 0 = .error .panic := by
      have h := Parser.scanLen_overflow [] 0 hall (by unfold i64Max; omega) hover
      simpa using h
    have hs : Parser.speculateBuffer (dollar :: displayNat m) = .error .panic := by
      rw [Parser.speculateBuffer, if_neg (by simp; omega), if_neg hnofast, List.length_cons]
      simp only [Parser.scanLoop, List.getElem?_cons_zero]
      rw [Parser.scanValue, if_pos (.inl rfl), show (0 : ℕ) + 1 = 1 from rfl, hscan]
    exact decode_of_speculate_panic hs

theorem decode_max_length_panics :
    ((2 ^ 63 - 1 : ℕ) : ℤ) ≤ i64Max ∧ i64Max < ((2 ^ 63 - 1 : ℕ) : ℤ) * respValueSize ∧
      i64Max < ((10 ^ 19 : ℕ) : ℤ) ∧
      decode (2 ^ 62) (asterisk :: displayNat (2 ^ 63 - 1) ++ crlf) = none ∧
      decode (2 ^ 62) (dollar :: displayNat (10 ^ 19)) = none :=
  ⟨by decide, by decide, by decide, decode_length_panics (by decide) (by decide) (by decide)⟩

end RespCodec

end Sucredb
