/-
Sucredb.Resp — the RESP protocol of `resp.rs`: `RespValue::serialize_into`
and `serialized_size`, the `Parser`, and `RespCodec::decode` and `encode` of
`server.rs`, which cut a client's byte stream into values and write replies.

`decode` reads in two passes. `Parser::new` calls `speculate_buffer`, a scanner
that guesses where the complete values of the buffer end, and cuts the buffer
there; `Parser::parse` then reads one value from the cut buffer by recursive
descent. An `Incomplete` error of either pass is `Ok(None)`, any other error
is `InvalidData`, and `split_to` removes the bytes the parser read.

* A byte is a `UInt8`, a buffer a list of them. `{}` writes a number with
  `displayNat` and `displayInt`, and `str::parse::<i64>` is `parseI64`.
* The scanner's `i64` arithmetic is checked: an overflow is a panic
  (`RespError.panic`), as in a build with overflow checks, the default for
  debug builds (a release build wraps instead).
* `Vec::with_capacity(n)` asks for `n` values of 40 bytes, the size of a
  `RespValue` on a 64-bit target (`withCapacity`). Past `isize::MAX` bytes it
  panics; below, it asks the allocator, and the decoder takes `heap`, the
  largest request the allocator grants (on Linux's default overcommit, about
  the machine's memory and swap). A larger request makes the allocator fail,
  and `handle_alloc_error` aborts the process (`RespError.abort`). The other
  allocations of a decode, the copy `Parser::new` makes of the buffer and the
  bookkeeping of `Bytes`, are no larger than the buffer already held, and are
  taken to succeed.
* `encode` writes into a `BytesMut` (`Binary.Buffer`) through its writer, which
  fails a write that does not fit in the capacity `reserve` left.
* The scanner's loop runs on fuel, the length of the buffer, and the parser's
  nesting on one more than that; `Sucredb.RespTheorems` shows that neither
  runs out.
-/
import Sucredb.Types
import Sucredb.Lib.Binary

namespace Sucredb

namespace Resp

/-! ## Bytes and numbers -/

/-- `b'$'`, the prefix of data. -/
@[simp] def dollar : UInt8 := 36

/-- `b'*'`, the prefix of arrays. -/
@[simp] def asterisk : UInt8 := 42

/-- `b':'`, the prefix of integers. -/
@[simp] def colon : UInt8 := 58

/-- `b'+'`, the prefix of statuses. -/
@[simp] def plus : UInt8 := 43

/-- `b'-'`, the prefix of errors and the sign of a negative number. -/
@[simp] def minus : UInt8 := 45

/-- `b'\r'`. -/
@[simp] def cr : UInt8 := 13

/-- `b'\n'`. -/
@[simp] def lf : UInt8 := 10

/-- `b"\r\n"`, the end of every line. -/
def crlf : Bytes := [cr, lf]

/-- `b'0'...b'9'`. -/
def isDigit (c : UInt8) : Bool := 48 ≤ c && c ≤ 57

/-- `c - b'0'` on a digit. -/
def digitVal (c : UInt8) : ℕ := c.toNat - 48

/-- `i64::MAX`, which is `isize::MAX` too on a 64-bit target. -/
def i64Max : ℤ := 2 ^ 63 - 1

/-- `size_of::<RespValue>()`: a tag and the 32 bytes of a `Bytes`. -/
def respValueSize : ℕ := 40

/-- The digit of `d < 10`. -/
def digitByte (d : ℕ) : UInt8 := (48 + d).toUInt8

/-- `{}` on an unsigned number: its decimal digits, most significant first. -/
def displayNat (n : ℕ) : Bytes :=
  if n = 0 then [digitByte 0] else (Nat.digits 10 n).reverse.map digitByte

/-- `{}` on an `i64`. -/
def displayInt (i : ℤ) : Bytes :=
  if i < 0 then minus :: displayNat i.natAbs else displayNat i.toNat

/-- The number a run of digits stands for. -/
def digitsValue (ds : Bytes) : ℕ := ds.foldl (fun n c => n * 10 + digitVal c) 0

/-- The unsigned part of `str::parse`: one digit or more, and nothing else. -/
def parseDigits (ds : Bytes) : Option ℕ :=
  if ds ≠ [] ∧ ds.all isDigit then some (digitsValue ds) else none

/-- `str::parse::<i64>`: an optional sign, then digits, within the range of `i64`. -/
def parseI64 : Bytes → Option ℤ
  | [] => none
  | c :: ds =>
    if c = minus then
      (parseDigits ds).bind fun n => if (n : ℤ) ≤ i64Max + 1 then some (-n) else none
    else
      (parseDigits (if c = plus then ds else c :: ds)).bind fun n =>
        if (n : ℤ) ≤ i64Max then some n else none

end Resp

open Resp

/-! ## Serialization -/

mutual

/-- `RespValue::serialize_into`. -/
def RespValue.serializeInto : RespValue → Bytes
  | .nil => [dollar, minus, digitByte 1] ++ crlf
  | .int v => colon :: displayInt v ++ crlf
  | .data v => dollar :: displayNat v.length ++ crlf ++ v ++ crlf
  | .array a => asterisk :: displayNat a.length ++ crlf ++ RespValue.serializeList a
  | .status v => plus :: v ++ crlf
  | .error v => minus :: v ++ crlf

/-- The `for v in a` loop of `serialize_into` on an array: the values one
after another. -/
def RespValue.serializeList : List RespValue → Bytes
  | [] => []
  | v :: vs => v.serializeInto ++ RespValue.serializeList vs

end

mutual

/-- `RespValue::serialized_size`: the room `RespCodec::encode` reserves. A
length is counted at the width of `4294967296` and an integer at that of
`i64::MIN`. -/
def RespValue.serializedSize : RespValue → ℕ
  | .nil => "$-1\r\n".utf8ByteSize
  | .int _ => ":-9223372036854775808\r\n".utf8ByteSize
  | .data v => "$4294967296\r\n".utf8ByteSize + v.length + "\r\n".utf8ByteSize
  | .array a => "*4294967296\r\n".utf8ByteSize + RespValue.serializedSizeList a
  | .status v | .error v => "+".utf8ByteSize + v.length + "\r\n".utf8ByteSize

/-- `a.iter().map(Self::serialized_size).sum::<usize>()` on an array. -/
def RespValue.serializedSizeList : List RespValue → ℕ
  | [] => 0
  | v :: vs => v.serializedSize + RespValue.serializedSizeList vs

end

/-- `resp::RespError`, with the panics of the parser and the scanner and the
abort of a failed allocation. -/
inductive RespError where
  | incomplete
  | invalid (msg : String)
  | panic
  | abort
deriving DecidableEq, Repr

namespace Parser

/-! ## `speculate_buffer` -/

/-- The length of a `$` or `*` value, read from the byte after its prefix: how
far the scan moves and the length. Digits accumulate into an `i64`; a `-`
makes the length `-1` and is skipped with the byte after it; a `\r` or the
end of the buffer ends the length. -/
def scanLen : Bytes → ℤ → Except RespError (ℕ × ℤ)
  | [], len => .ok (0, len)
  | c :: cs, len =>
    if isDigit c then
      if i64Max < len * 10 + digitVal c then .error .panic
      else (scanLen cs (len * 10 + digitVal c)).map fun r => (r.1 + 1, r.2)
    else if c = minus then .ok (2, -1)
    else if c = cr then .ok (0, len)
    else .error (.invalid "Invalid digit")

/-- The scan of a `:`, `+` or `-` value from `i`: the index of the next `\r`,
or the end of the buffer. -/
def skipLine (buf : Bytes) (i : ℕ) : ℕ :=
  i + ((buf.drop i).takeWhile (· != cr)).length

/-- One round of the loop on the value with prefix `c` at `i`, up to its
delimiter: the delimiter's index and the new `values_pending`. A `\r` prefix
gives `none`: the round skips two bytes and starts the next one. -/
def scanValue (buf : Bytes) (i : ℕ) (c : UInt8) (pending : ℕ) :
    Except RespError (Option (ℕ × ℕ)) :=
  if c = dollar ∨ c = asterisk then
    match scanLen (buf.drop (i + 1)) 0 with
    | .error e => .error e
    | .ok (k, len) =>
      if len < 0 then .ok (some (i + 1 + k, pending))
      else if c = asterisk then
        if i64Max < len + 1 then .error .panic else .ok (some (i + 1 + k, len.toNat + 1))
      else .ok (some (i + 1 + k + 2 + len.toNat, pending))
  else if c = colon ∨ c = plus ∨ c = minus then .ok (some (skipLine buf (i + 1), pending))
  else if c = cr then .ok none
  else .error (.invalid "Invalid prefix")

/-- The answer of `speculate_buffer` once the loop is over. -/
def finishScan (valid : ℕ) : Except RespError ℕ :=
  if valid ≠ 0 then .ok valid else .error .incomplete

/-- The loop of `speculate_buffer` from index `i`, with the last position
`valid` where the values read so far were complete, and `values_pending`. -/
def scanLoop (buf : Bytes) : ℕ → ℕ → ℕ → ℕ → Except RespError ℕ
  | 0, _, valid, _ => finishScan valid
  | fuel + 1, i, valid, pending =>
    match buf[i]? with
    | none => finishScan valid
    | some c =>
      match scanValue buf i c pending with
      | .error e => .error e
      | .ok none => scanLoop buf fuel (i + 2) valid pending
      | .ok (some (j, pending)) =>
        -- skip the delimiter, count the value, and note where no array is open
        scanLoop buf fuel (j + 2) (if pending - 1 = 0 ∧ j + 2 ≤ buf.length then j + 2 else valid)
          (pending - 1)

/-- `Parser::speculate_buffer`: how many bytes hold complete values. -/
def speculateBuffer (buf : Bytes) : Except RespError ℕ :=
  if buf.length < 3 then .error .incomplete
  else if buf.drop (buf.length - 2) = crlf then .ok buf.length
  else scanLoop buf buf.length 0 0 0

/-! ## The parser -/

/-- `Parser::read_with_separator`: `len` bytes, which `\r\n` must follow, and
the bytes after the separator. -/
def readWithSeparator (body : Bytes) (len : ℕ) : Except RespError (Bytes × Bytes) :=
  if body.length < len + 2 then .error .incomplete
  else if (body.drop len).take 2 ≠ crlf then .error (.invalid "Invalid line separator")
  else .ok (body.take len, body.drop (len + 2))

/-- `Parser::read_line`: the bytes before the first `\r`. -/
def readLine (body : Bytes) : Except RespError (Bytes × Bytes) :=
  match body.findIdx? (· == cr) with
  | none => .error .incomplete
  | some pos => readWithSeparator body pos

/-- `Parser::read_int_line`. -/
def readIntLine (body : Bytes) : Except RespError (ℤ × Bytes) := do
  let (line, body) ← readLine body
  match parseI64 line with
  | none => .error (.invalid "Expected integer, got garbage")
  | some v => pure (v, body)

/-- `Parser::parse_data`. -/
def parseData (body : Bytes) : Except RespError (RespValue × Bytes) := do
  let (length, body) ← readIntLine body
  if length < 0 then pure (.nil, body)
  else
    let (data, body) ← readWithSeparator body length.toNat
    pure (.data data, body)

/-- The loop of `parse_array`: `n` values, each read by `parse` where the one
before it ended. -/
def parseElems (parse : Bytes → Except RespError (RespValue × Bytes)) :
    ℕ → Bytes → Except RespError (List RespValue × Bytes)
  | 0, body => .ok ([], body)
  | n + 1, body => do
    let (v, body) ← parse body
    let (vs, body) ← parseElems parse n body
    pure (v :: vs, body)

/-- `Vec::with_capacity(n)` for values of `size` bytes, where the allocator
grants at most `heap` bytes: the capacity overflow past `isize::MAX` bytes is a
panic, a request the allocator refuses an abort. No bytes are asked for `n = 0`. -/
def withCapacity (heap size n : ℕ) : Except RespError Unit :=
  if i64Max < n * size then .error .panic
  else if heap < n * size then .error .abort
  else .ok ()

/-- `Parser::parse_array`, with `parse_value` as `parse`; the vector is
allocated before any value is read. -/
def parseArray (heap : ℕ) (parse : Bytes → Except RespError (RespValue × Bytes)) (body : Bytes) :
    Except RespError (RespValue × Bytes) := do
  let (length, body) ← readIntLine body
  if length < 0 then pure (.nil, body)
  else
    withCapacity heap respValueSize length.toNat
    let (vs, body) ← parseElems parse length.toNat body
    pure (.array vs, body)

/-- `Parser::parse_value` on the unread bytes: the value and the bytes after it. -/
def parseValue (heap : ℕ) : ℕ → Bytes → Except RespError (RespValue × Bytes)
  | 0, _ => .error .incomplete
  | _ + 1, [] => .error .incomplete
  | fuel + 1, c :: body =>
    if c = dollar then parseData body
    else if c = asterisk then parseArray heap (parseValue heap fuel) body
    else if c = colon then (readIntLine body).map fun r => (.int r.1, r.2)
    else if c = plus then (readLine body).map fun r => (.status r.1, r.2)
    else if c = minus then (readLine body).map fun r => (.error r.1, r.2)
    else if c = cr then
      match body with
      | [] => .error .incomplete
      | d :: body =>
        if d = lf then parseValue heap fuel body
        else .error (.invalid "Invalid prefix when parsing value")
    else .error (.invalid "Invalid prefix when parsing value")

/-- `Parser::parse`: one value, and how many bytes it took. -/
def parse (heap : ℕ) (body : Bytes) : Except RespError (RespValue × ℕ) :=
  (parseValue heap (body.length + 1) body).map fun r => (r.1, body.length - r.2.length)

/-- `Parser::new`: the buffer cut where the scanner says complete values end. -/
def new (body : Bytes) : Except RespError Bytes :=
  (speculateBuffer body).map body.take

end Parser

/-! ## The codec -/

/-- The `io::ErrorKind` of a failed decode. -/
inductive IoErrorKind where
  | invalidData
deriving DecidableEq, Repr

/-- `RespCodec::decode` where the allocator grants at most `heap` bytes: the
result, and the buffer after `split_to(consumed)`; `none` is a panic or an
abort. -/
def RespCodec.decode (heap : ℕ) (src : Bytes) :
    Option (Except IoErrorKind (Option RespValue) × Bytes) :=
  match Parser.new src >>= Parser.parse heap with
  | .ok (v, consumed) => some (.ok (some v), src.drop consumed)
  | .error .incomplete => some (.ok none, src)
  | .error (.invalid _) => some (.error .invalidData, src)
  | .error .panic | .error .abort => none

/-- `bytes::BytesMut`. -/
abbrev BytesMut := Binary.Buffer

/-- `RespCodec::encode`: reserve `serialized_size` bytes, then serialize into
the buffer's writer. `serialize_into` writes its value in several calls, which
end as the one write of all its bytes does (`Binary.Buffer.writeAll_append`);
`none` is the panic of the `expect` when a write fails. -/
def RespCodec.encode (item : RespValue) (dst : BytesMut) : Option BytesMut :=
  (dst.reserve item.serializedSize).writeAll item.serializeInto

end Sucredb
