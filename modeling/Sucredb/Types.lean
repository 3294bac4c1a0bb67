/-
Sucredb.Types — the identifiers, error codes and reply values shared by every
part of the model (`types.rs`, `command.rs`, `resp.rs`).

* `NodeId`, `Version` are the `u64` of the source, as `ℕ`: no result of this
  development reaches 2^64 versions or ids, and none depends on wrapping.
  `version_vector.rs` calls `NodeId` `Id` as well; the model keeps one name.
* `Bytes` is the `bytes` crate's buffer, as a list of bytes.
* `RespValue` is the reply tree of `resp.rs`; the `i64` of `Int` is an `Int`.
* `splitU64` and `joinU64` are the `utils.rs` halves of a `u64`, which the
  vnode ids and the ring's physical node ids are built from.
* `CommandError` lists the error codes of `command.rs` in source order, and
  `CommandError.toResp` is its `Into<RespValue>`: the code's `Debug` name as an
  error reply.
-/
import Mathlib

namespace Sucredb

/-- `types::NodeId` (and `version_vector::Id`). -/
abbrev NodeId := ℕ

/-- `version_vector::Version`. -/
abbrev Version := ℕ

/-- A dot: the pair (node id, version) that names one write. -/
abbrev Dot := NodeId × Version

/-- `bytes::Bytes`. -/
abbrev Bytes := List UInt8

/-- The UTF-8 bytes of a string literal of the source. -/
def bytesOf (s : String) : Bytes := s.toUTF8.toList

/-- `resp::RespValue`. -/
inductive RespValue where
  | nil
  | int (i : Int)
  | data (b : Bytes)
  | array (a : List RespValue)
  | status (s : Bytes)
  | error (e : Bytes)
deriving Repr, Inhabited

/-- `command::CommandError`. -/
inductive CommandError where
  | timeout
  | protocolError
  | storageError
  | unknownCommand
  | tooManyVersions
  | typeError
  | invalidContext
  | invalidArgCount
  | invalidKey
  | invalidValue
  | invalidConsistencyValue
  | invalidIntValue
  | invalidExec
  | invalidCommand
  | invalidMultiCommand
  | multiplePartitions
  | multipleKeyMutations
  | unavailable
deriving DecidableEq, Repr, Inhabited

/-- The `Debug` name of an error code, as `format!("{:?}", self)` prints it. -/
def CommandError.debugName : CommandError → String
  | .timeout => "Timeout"
  | .protocolError => "ProtocolError"
  | .storageError => "StorageError"
  | .unknownCommand => "UnknownCommand"
  | .tooManyVersions => "TooManyVersions"
  | .typeError => "TypeError"
  | .invalidContext => "InvalidContext"
  | .invalidArgCount => "InvalidArgCount"
  | .invalidKey => "InvalidKey"
  | .invalidValue => "InvalidValue"
  | .invalidConsistencyValue => "InvalidConsistencyValue"
  | .invalidIntValue => "InvalidIntValue"
  | .invalidExec => "InvalidExec"
  | .invalidCommand => "InvalidCommand"
  | .invalidMultiCommand => "InvalidMultiCommand"
  | .multiplePartitions => "MultiplePartitions"
  | .multipleKeyMutations => "MultipleKeyMutations"
  | .unavailable => "Unavailable"

/-- `impl Into<RespValue> for CommandError`. -/
def CommandError.toResp (e : CommandError) : RespValue :=
  .error (bytesOf e.debugName)

/-- `types::ConsistencyLevel`. -/
inductive ConsistencyLevel where
  | one
  | quorum
  | all
deriving DecidableEq, Repr, Inhabited

/-- `utils::split_u64`: the high and low 32 bits. -/
def splitU64 (u : ℕ) : ℕ × ℕ := (u / 2 ^ 32 % 2 ^ 32, u % 2 ^ 32)

/-- `utils::join_u64`. -/
def joinU64 (hi lo : ℕ) : ℕ := hi % 2 ^ 32 * 2 ^ 32 + lo % 2 ^ 32

/-- `ConsistencyLevel::required`: the successful replies a request needs. -/
def ConsistencyLevel.required : ConsistencyLevel → ℕ → ℕ
  | .one, _ => 1
  | .quorum, replicas => replicas / 2 + 1
  | .all, replicas => replicas

end Sucredb
