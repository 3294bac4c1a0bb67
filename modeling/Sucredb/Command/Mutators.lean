/-
Sucredb.Command.Mutators — the `MutatorFn` closures the write commands of
`command.rs` build, and the read renderers of `cubes.rs`.

A `MutatorFn` receives the coordinator's id, the fresh version `do_flush` drew
for the write and the key's current cube, and returns the new cube with the
command's reply, or a `CommandError` (a `TypeError` when the key holds a cube
of another kind). Each command's closure is a definition of its own, with the
arguments the closure captures; `WriteCmd` names the nine write commands so a
model of a client can pick any of them.

The renderers are what the read commands show: `render_set` (SMEMBERS),
`render_map` (HGETALL), `render_counter` (CGET), `render_type` (TYPE) and
`render_value` (GET), which appends the bincode encoding of the context; that
encoder belongs to the `bincode` crate and is an argument here.
-/
import Sucredb.Cubes

namespace Sucredb

/-- `cubes::MutatorFn`. -/
abbrev MutatorFn := NodeId → Version → Cube → Except CommandError (Cube × Option RespValue)

/-- `cubes::ResponseFn`. -/
abbrev ResponseFn := Cube → RespValue

/-- The `Status("OK")` reply. -/
def okStatus : RespValue := .status (bytesOf "OK")

/-- The closure of `cmd_set`: SET (`replyResult = false`) and GETSET. -/
def setMutator (value : Bytes) (vv : VersionVector) (replyResult : Bool) : MutatorFn :=
  fun i v c =>
    match c.intoValue with
    | none => .error .typeError
    | some cubeValue =>
      .ok (.value (cubeValue.set i v (some value) vv), if replyResult then none else some okStatus)

/-- The closure of `cmd_del`. -/
def delMutator (vv : VersionVector) : MutatorFn :=
  fun i v c =>
    let r := c.del i v vv
    .ok (r.2, some (.int (if r.1 then 1 else 0)))

/-- The closure of `cmd_cset`: clear the counter, then add `value`. -/
def csetMutator (value : Int) : MutatorFn :=
  fun i v c =>
    match c.intoCounter with
    | none => .error .typeError
    | some counter => .ok (.counter ((counter.clear i v).inc i v value), some okStatus)

/-- The closure of `cmd_incrby`. -/
def incrbyMutator (inc : Int) : MutatorFn :=
  fun i v c =>
    match c.intoCounter with
    | none => .error .typeError
    | some counter => .ok (.counter (counter.inc i v inc), some okStatus)

/-- The closure of `cmd_hset`; `timestamp` is the clock reading of `MapValue::new`. -/
def hsetMutator (hashKey hashValue : Bytes) (timestamp : ℕ) : MutatorFn :=
  fun i v c =>
    match c.intoMap with
    | none => .error .typeError
    | some map =>
      let r := map.insert i v hashKey hashValue timestamp
      .ok (.map r.2, some (.int (if r.1 then 1 else 0)))

/-- The closure of `cmd_hdel`. -/
def hdelMutator (hashKey : Bytes) : MutatorFn :=
  fun i v c =>
    match c.intoMap with
    | none => .error .typeError
    | some map =>
      let r := map.remove i v hashKey
      .ok (.map r.2, some (.int (if r.1 then 1 else 0)))

/-- The closure of `cmd_sadd`. -/
def saddMutator (setValue : Bytes) : MutatorFn :=
  fun i v c =>
    match c.intoSet with
    | none => .error .typeError
    | some set =>
      let r := set.insert i v setValue
      .ok (.set r.2, some (.int (if r.1 then 1 else 0)))

/-- The closure of `cmd_srem`. -/
def sremMutator (setValue : Bytes) : MutatorFn :=
  fun i v c =>
    match c.intoSet with
    | none => .error .typeError
    | some set =>
      let r := set.remove i v setValue
      .ok (.set r.2, some (.int (if r.1 then 1 else 0)))

/-- The write commands, with the arguments their closures capture. -/
inductive WriteCmd where
  | set (value : Bytes) (vv : VersionVector)
  | getset (value : Bytes) (vv : VersionVector)
  | del (vv : VersionVector)
  | cset (value : Int)
  | incrby (inc : Int)
  | hset (hashKey hashValue : Bytes) (timestamp : ℕ)
  | hdel (hashKey : Bytes)
  | sadd (value : Bytes)
  | srem (value : Bytes)

/-- The `MutatorFn` a write command hands to `Database::set`. -/
def WriteCmd.mutatorFn : WriteCmd → MutatorFn
  | .set value vv => setMutator value vv false
  | .getset value vv => setMutator value vv true
  | .del vv => delMutator vv
  | .cset value => csetMutator value
  | .incrby inc => incrbyMutator inc
  | .hset k v ts => hsetMutator k v ts
  | .hdel k => hdelMutator k
  | .sadd v => saddMutator v
  | .srem v => sremMutator v

/-- The `reply_result` flag a write command passes to `Database::set`: only
GETSET wants the merged cube back. -/
def WriteCmd.replyResult : WriteCmd → Bool
  | .getset _ _ => true
  | _ => false

/-! ## Renderers -/

/-- `cubes::render_set`: the members, in map order. -/
def renderSet : ResponseFn
  | .set s => .array (s.values.map.keys.map .data)
  | .void _ => .array []
  | _ => CommandError.typeError.toResp

/-- `cubes::render_map`: field, value, field, value, … -/
def renderMap : ResponseFn
  | .map m => .array (m.values.map.entries.flatMap fun e => [.data e.1, .data e.2.value])
  | .void _ => .array []
  | _ => CommandError.typeError.toResp

/-- `cubes::render_counter`. -/
def renderCounter : ResponseFn
  | .counter c => .int c.get
  | .void _ => .nil
  | _ => CommandError.typeError.toResp

/-- `cubes::render_type`. -/
def renderType : ResponseFn
  | .counter _ => .data (bytesOf "counter")
  | .value _ => .data (bytesOf "string")
  | .map _ => .data (bytesOf "hash")
  | .set _ => .data (bytesOf "set")
  | .void _ => .data (bytesOf "none")

/-- `cubes::render_value`: the live siblings, then the encoded context;
`serialize` is `bincode::serialize` on a version vector. -/
def renderValue (serialize : VersionVector → Bytes) : ResponseFn
  | .value v =>
    .array ((v.values.map.entries.filterMap fun e => e.2.map .data) ++ [.data (serialize v.vv)])
  | .void vv => .array [.data (serialize vv)]
  | _ => CommandError.typeError.toResp

end Sucredb
