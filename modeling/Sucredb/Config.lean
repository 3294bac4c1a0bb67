/-
Sucredb.Config — how `read_config_file` reads a duration: `parse_duration`,
and the conversion `cfi!` makes into a `u32` field of `Config`.

`split_number_suffix` counts the leading digits in the trimmed text, but cuts
the text as it is, at that count taken as a byte offset. Leading whitespace
therefore shifts the cut, and a multi-byte whitespace character makes
`split_at` panic off a char boundary. The number is parsed as
`str::parse::<i64>` parses it: an optional sign, at least one ASCII digit, and
overflow checked digit by digit. The suffix, trimmed on the left and
lowercased, picks the scale: `ms`, `s`, `m` or `h`. The product is checked
against `i64`. `cfi!` then `expect`s both the parse and the conversion to
`u32`.

A text is a list of `char`s, and byte offsets come from each char's UTF-8
width. Lowercasing only matters here to match the four ASCII suffixes, and
`Char.toLower`, which maps the ASCII letters only, matches the same texts as
Unicode lowercasing does. `parse_size` has no caller and is left out.

The values a duration field admits are exactly those of a `u32`, 0 included
(`readDurationField_admits`).
-/
import Mathlib.Data.List.Basic
import Mathlib.Data.Int.Notation
import Mathlib.Data.Nat.Digits.Defs

namespace Sucredb

namespace Config

/-- `char::is_whitespace`: the characters of Unicode's `White_Space`. -/
def isWhitespace (c : Char) : Bool :=
  let n := c.toNat
  (9 ≤ n && n ≤ 13) || n == 32 || n == 0x85 || n == 0xA0 || n == 0x1680 ||
    (0x2000 ≤ n && n ≤ 0x200A) || n == 0x2028 || n == 0x2029 || n == 0x202F || n == 0x205F ||
    n == 0x3000

/-- `str::trim_left`. -/
def trimLeft (s : List Char) : List Char := s.dropWhile isWhitespace

/-- `str::trim`. -/
def trim (s : List Char) : List Char := ((trimLeft s).reverse.dropWhile isWhitespace).reverse

/-- `str::len`: the length of the UTF-8 encoding, in bytes. -/
def byteLen (s : List Char) : ℕ := (s.map Char.utf8Size).sum

/-- `str::split_at(mid)`: the text cut at byte offset `mid`; `none` is its
panic, off a char boundary or past the end. -/
def splitAt : List Char → ℕ → Option (List Char × List Char)
  | s, 0 => some ([], s)
  | [], _ + 1 => none
  | c :: cs, n + 1 =>
    if c.utf8Size ≤ n + 1 then (splitAt cs (n + 1 - c.utf8Size)).map fun r => (c :: r.1, r.2)
    else none

/-- `core::num::IntErrorKind`: why `str::parse::<i64>` fails. -/
inductive IntErrorKind where
  | empty
  | invalidDigit
  | posOverflow
  | negOverflow
deriving DecidableEq, Repr

/-- The digits after the sign, accumulated as `from_str_radix` does. A
non-digit fails at once, and so does the first digit that takes the value out
of `i64` (downwards for a negative number). -/
def accumulateDigits (neg : Bool) : ℤ → List Char → Except IntErrorKind ℤ
  | acc, [] => .ok acc
  | acc, c :: cs =>
    if c.isDigit then
      let d : ℤ := ((c.toNat - '0'.toNat : ℕ) : ℤ)
      if neg then
        if acc * 10 - d < -2 ^ 63 then .error .negOverflow
        else accumulateDigits neg (acc * 10 - d) cs
      else
        if 2 ^ 63 ≤ acc * 10 + d then .error .posOverflow
        else accumulateDigits neg (acc * 10 + d) cs
    else .error .invalidDigit

/-- `str::parse::<i64>`. -/
def parseI64 : List Char → Except IntErrorKind ℤ
  | [] => .error .empty
  | ['+'] | ['-'] => .error .invalidDigit
  | '+' :: ds => accumulateDigits false 0 ds
  | '-' :: ds => accumulateDigits true 0 ds
  | ds => accumulateDigits false 0 ds

/-- The errors `parse_duration` returns, boxed in a `GenericError`. -/
inductive DurationError where
  /-- The `ParseIntError` of the number, which `?` passes on. -/
  | parseInt (kind : IntErrorKind)
  /-- "Unknown duration suffix `{}`", with the suffix as written. -/
  | unknownSuffix (suffix : List Char)
  /-- "Overflow error". -/
  | overflow
deriving DecidableEq, Repr

/-- `split_number_suffix`: the number the text starts with, and the rest with
its leading whitespace dropped; `none` is the panic of `split_at`. -/
def splitNumberSuffix (s : List Char) : Option (Except DurationError (ℤ × List Char)) :=
  let digitsEnd := ((trim s).findIdx? fun c => !c.isDigit).getD (byteLen s)
  (splitAt s digitsEnd).map fun r =>
    match parseI64 r.1 with
    | .error e => .error (.parseInt e)
    | .ok n => .ok (n, trimLeft r.2)

/-- The scale `parse_duration` gives a suffix, in milliseconds. -/
def durationScale (suffix : List Char) : Except DurationError ℤ :=
  match suffix.map Char.toLower with
  | ['m', 's'] => .ok 1
  | ['s'] => .ok 1000
  | ['m'] => .ok (1000 * 60)
  | ['h'] => .ok (1000 * 60 * 60)
  | _ => .error (.unknownSuffix suffix)

/-- `i64::checked_mul`. -/
def checkedMul (a b : ℤ) : Option ℤ :=
  if -2 ^ 63 ≤ a * b ∧ a * b < 2 ^ 63 then some (a * b) else none

/-- `parse_duration`: a duration in milliseconds. -/
def parseDuration (text : List Char) : Option (Except DurationError ℤ) :=
  (splitNumberSuffix text).map fun r => do
    let (number, suffix) ← r
    let scale ← durationScale suffix
    match checkedMul number scale with
    | some n => pure n
    | none => throw .overflow

/-- A duration field as `cfi!(yaml, config, field, as_str, parse_duration)`
stores it in a `u32` of `Config`; `none` when either `expect` panics. -/
def readDurationField (text : List Char) : Option ℕ :=
  match parseDuration text with
  | some (.ok n) => if 0 ≤ n ∧ n < 2 ^ 32 then some n.toNat else none
  | _ => none

example : parseDuration ['1', '0', '0', '0', 'm', 's'] = some (.ok 1000) := by decide

-- a space in front moves the cut: the number read is " ", which is no number
example : parseDuration [' ', '5', 's'] = some (.error (.parseInt .invalidDigit)) := by decide

example : parseDuration ['5', ' ', 'M', 'S'] = some (.ok 5) := by decide

example : parseDuration ['5', 'd'] = some (.error (.unknownSuffix ['d'])) := by decide

-- an ideographic space is three bytes: the cut after one byte panics
example : parseDuration ['　', '5', 'm', 's'] = none := by decide

/-! ## The durations the configuration admits

A duration field holds a `u32`, so no other value is admitted. Every `u32`
is: its decimal digits followed by `ms` read back as it. The proof follows
`parse_duration` on such a text step by step. `trim` keeps it, the digits
end at the `m`, a digit is one byte so the cut falls there, and the digits
accumulate without overflow. -/

/-- The value of a run of decimal digits. -/
def decimalValue (ds : List Char) : ℕ := ds.foldl (fun n c => n * 10 + (c.toNat - '0'.toNat)) 0

/-- The digit of `d < 10`. -/
def digitChar (d : ℕ) : Char := Char.ofNat (48 + d)

/-- `n` written in decimal. -/
def decimal (n : ℕ) : List Char :=
  if n = 0 then ['0'] else (Nat.digits 10 n).reverse.map digitChar

theorem toNat_of_isDigit {c : Char} (h : c.isDigit = true) : 48 ≤ c.toNat ∧ c.toNat ≤ 57 := by
  simp only [Char.isDigit, Bool.and_eq_true, decide_eq_true_eq, ge_iff_le,
    UInt32.le_iff_toNat_le] at h
  exact h

theorem utf8Size_of_isDigit {c : Char} (h : c.isDigit = true) : c.utf8Size = 1 := by
  unfold Char.utf8Size
  rw [if_pos]
  rw [UInt32.le_iff_toNat_le]
  exact Nat.le_trans (toNat_of_isDigit h).2 (by decide)

theorem isWhitespace_of_isDigit {c : Char} (h : c.isDigit = true) : isWhitespace c = false := by
  obtain ⟨h₁, h₂⟩ := toNat_of_isDigit h
  simp only [isWhitespace, Bool.or_eq_false_iff, Bool.and_eq_false_iff, decide_eq_false_iff_not,
    beq_eq_false_iff_ne]
  omega

/-- `trim` keeps digits followed by `ms`. -/
theorem trim_digits_ms {ds : List Char} (hne : ds ≠ []) (hd : ∀ c ∈ ds, c.isDigit = true) :
    trim (ds ++ ['m', 's']) = ds ++ ['m', 's'] := by
  obtain ⟨c, cs, rfl⟩ := List.exists_cons_of_ne_nil hne
  have hleft : trimLeft (c :: cs ++ ['m', 's']) = c :: cs ++ ['m', 's'] :=
    List.dropWhile_cons_of_neg (by simp [isWhitespace_of_isDigit (hd c List.mem_cons_self)])
  unfold trim
  rw [hleft, List.reverse_append]
  -- read from the end, the text starts with an `s`
  simp [isWhitespace]

/-- The digits end where the suffix starts. -/
theorem findIdx?_digits_ms {ds : List Char} (hd : ∀ c ∈ ds, c.isDigit = true) :
    (ds ++ ['m', 's']).findIdx? (fun c => !c.isDigit) = some ds.length := by
  induction ds with
  | nil => rfl
  | cons c cs ih =>
    rw [List.cons_append, List.findIdx?_cons, if_neg (by simp [hd c List.mem_cons_self]),
      ih fun c' hc' => hd c' (List.mem_cons_of_mem _ hc')]
    rfl

/-- A digit is one byte, so the cut after the digits falls on a char boundary. -/
theorem splitAt_digits {ds : List Char} (hd : ∀ c ∈ ds, c.isDigit = true) (rest : List Char) :
    splitAt (ds ++ rest) ds.length = some (ds, rest) := by
  induction ds with
  | nil => cases rest <;> rfl
  | cons c cs ih =>
    have hc := utf8Size_of_isDigit (hd c List.mem_cons_self)
    rw [List.cons_append, List.length_cons, splitAt, hc, if_pos (Nat.le_add_left 1 _),
      Nat.add_sub_cancel, ih fun c' hc' => hd c' (List.mem_cons_of_mem _ hc')]
    rfl

/-- A run of digits has no sign for `parse::<i64>` to read. -/
theorem parseI64_digits {ds : List Char} (hne : ds ≠ []) (hd : ∀ c ∈ ds, c.isDigit = true) :
    parseI64 ds = accumulateDigits false 0 ds := by
  obtain ⟨c, cs, rfl⟩ := List.exists_cons_of_ne_nil hne
  have hc := toNat_of_isDigit (hd c List.mem_cons_self)
  have hplus : c ≠ '+' := by
    rintro rfl
    simp at hc
  have hminus : c ≠ '-' := by
    rintro rfl
    simp at hc
  unfold parseI64
  split <;> simp_all

theorem le_foldl_decimal (ds : List Char) (a : ℕ) :
    a ≤ ds.foldl (fun n c => n * 10 + (c.toNat - '0'.toNat)) a := by
  induction ds generalizing a with
  | nil => exact Nat.le_refl a
  | cons c cs ih => exact Nat.le_trans (by omega) (ih (a * 10 + (c.toNat - '0'.toNat)))

/-- Digits whose value stays below `2 ^ 63` accumulate without overflow. -/
theorem accumulateDigits_of_lt {ds : List Char} (hd : ∀ c ∈ ds, c.isDigit = true) (a : ℕ)
    (hlt : ds.foldl (fun n c => n * 10 + (c.toNat - '0'.toNat)) a < 2 ^ 63) :
    accumulateDigits false (a : ℤ) ds =
      .ok (ds.foldl (fun n c => n * 10 + (c.toNat - '0'.toNat)) a : ℕ) := by
  induction ds generalizing a with
  | nil => rfl
  | cons c cs ih =>
    have hstep : a * 10 + (c.toNat - '0'.toNat) < 2 ^ 63 :=
      Nat.lt_of_le_of_lt (le_foldl_decimal cs _) hlt
    have hcast : (a : ℤ) * 10 + ((c.toNat - '0'.toNat : ℕ) : ℤ) =
        ((a * 10 + (c.toNat - '0'.toNat) : ℕ) : ℤ) := by
      push_cast
      rfl
    rw [accumulateDigits, if_pos (hd c List.mem_cons_self)]
    simp only [Bool.false_eq_true, if_false, hcast]
    rw [if_neg (by exact_mod_cast Nat.not_le.mpr hstep)]
    exact ih (fun c' hc' => hd c' (List.mem_cons_of_mem _ hc')) _ hlt

/-- `parse_duration` of a text whose number, suffix and product all pass. -/
theorem parseDuration_eq_ok {text suffix : List Char} {number scale r : ℤ}
    (hsplit : splitNumberSuffix text = some (.ok (number, suffix)))
    (hscale : durationScale suffix = .ok scale) (hmul : checkedMul number scale = some r) :
    parseDuration text = some (.ok r) := by
  simp only [parseDuration, hsplit, Option.map_some, Option.some.injEq, bind, Except.bind, hscale,
    hmul]
  rfl

/-- Every run of decimal digits whose value fits a `u32`, followed by `ms`, is
a duration the configuration admits, read as its value. -/
theorem readDurationField_digits_ms {ds : List Char} (hne : ds ≠ [])
    (hd : ∀ c ∈ ds, c.isDigit = true) (hlt : decimalValue ds < 2 ^ 32) :
    readDurationField (ds ++ ['m', 's']) = some (decimalValue ds) := by
  have h63 : decimalValue ds < 2 ^ 63 :=
    Nat.lt_trans hlt (Nat.pow_lt_pow_right (by decide) (by decide))
  have hparse : parseI64 ds = .ok (decimalValue ds : ℤ) := by
    rw [parseI64_digits hne hd]
    exact accumulateDigits_of_lt hd 0 h63
  have hsplit : splitNumberSuffix (ds ++ ['m', 's']) =
      some (.ok ((decimalValue ds : ℤ), ['m', 's'])) := by
    simp only [splitNumberSuffix, trim_digits_ms hne hd, findIdx?_digits_ms hd, Option.getD_some,
      splitAt_digits hd, Option.map_some, hparse]
    rfl
  have hmul : checkedMul (decimalValue ds : ℤ) 1 = some (decimalValue ds : ℤ) := by
    unfold checkedMul
    rw [Int.mul_one, if_pos ⟨by omega, by omega⟩]
  rw [readDurationField, parseDuration_eq_ok hsplit (by decide) hmul]
  dsimp only
  rw [if_pos ⟨Int.natCast_nonneg _, by exact_mod_cast hlt⟩, Int.toNat_natCast]

theorem isDigit_digitChar : ∀ d < 10, (digitChar d).isDigit = true := by decide

theorem toNat_digitChar : ∀ d < 10, (digitChar d).toNat - '0'.toNat = d := by decide

theorem decimal_ne_nil (n : ℕ) : decimal n ≠ [] := by
  unfold decimal
  split
  · exact List.cons_ne_nil _ _
  · rename_i hn
    simpa [Nat.digits_ne_nil_iff_ne_zero] using hn

theorem isDigit_of_mem_decimal {n : ℕ} {c : Char} (hc : c ∈ decimal n) : c.isDigit = true := by
  unfold decimal at hc
  split at hc
  · rw [List.mem_singleton.mp hc]
    rfl
  · obtain ⟨d, hd, rfl⟩ := List.mem_map.mp hc
    exact isDigit_digitChar d (Nat.digits_lt_base (by decide) (List.mem_reverse.mp hd))

/-- Read most significant first, the digits of `ofDigits` give it back. -/
theorem foldl_reverse_eq_ofDigits (L : List ℕ) :
    L.reverse.foldl (fun a d => a * 10 + d) 0 = Nat.ofDigits 10 L := by
  rw [List.foldl_reverse]
  induction L with
  | nil => rfl
  | cons d L ih =>
    rw [List.foldr_cons, ih, Nat.ofDigits_cons]
    omega

theorem decimalValue_map_digitChar (L : List ℕ) (hL : ∀ d ∈ L, d < 10) (a : ℕ) :
    (L.map digitChar).foldl (fun n c => n * 10 + (c.toNat - '0'.toNat)) a =
      L.foldl (fun n d => n * 10 + d) a := by
  induction L generalizing a with
  | nil => rfl
  | cons d L ih =>
    rw [List.map_cons, List.foldl_cons, List.foldl_cons,
      toNat_digitChar d (hL d List.mem_cons_self)]
    exact ih (fun d' hd' => hL d' (List.mem_cons_of_mem _ hd')) _

theorem decimalValue_decimal (n : ℕ) : decimalValue (decimal n) = n := by
  unfold decimal
  split
  · rename_i hn
    rw [hn]
    rfl
  · have hlt : ∀ d ∈ (Nat.digits 10 n).reverse, d < 10 :=
      fun d hd => Nat.digits_lt_base (by decide) (List.mem_reverse.mp hd)
    rw [decimalValue, decimalValue_map_digitChar _ hlt, foldl_reverse_eq_ofDigits,
      Nat.ofDigits_digits]

/-- A duration field holds a `u32`. -/
theorem lt_of_readDurationField {text : List Char} {t : ℕ} (h : readDurationField text = some t) :
    t < 2 ^ 32 := by
  unfold readDurationField at h
  split at h
  · rename_i n _
    split at h
    · rename_i hn
      cases h
      omega
    · cases h
  · cases h

/-- The durations the configuration admits are exactly the values of a `u32`:
no text gives another, and the decimal digits of each, followed by `ms`, give
it. -/
theorem readDurationField_admits (t : ℕ) :
    (∃ text, readDurationField text = some t) ↔ t < 2 ^ 32 := by
  constructor
  · rintro ⟨text, h⟩
    exact lt_of_readDurationField h
  · intro ht
    refine ⟨decimal t ++ ['m', 's'], ?_⟩
    have hval := decimalValue_decimal t
    rw [readDurationField_digits_ms (decimal_ne_nil t) (fun c hc => isDigit_of_mem_decimal hc)
      (by rw [hval]; exact ht), hval]

end Config

end Sucredb
