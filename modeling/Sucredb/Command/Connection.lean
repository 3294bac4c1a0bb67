/-
Sucredb.Command.Connection — one client connection: the server's `Context`
(`dispatch`, `dispatch_next` and the response mapping of
`Server::connection`), the database `Context` with its MULTI and EXEC flags,
and `Database::handler_cmd` / `handle_cmd` with every command's argument
checks, down to the flag preconditions that `get`, `set`, `mget`,
`set_flush`, `cmd_multi` and `cmd_exec` assert.

What lies beyond the connection is the environment of a step (`Env`): the
vnode a key maps to, whether `do_get` finds replicas, how `do_flush` ends
(`Sucredb.VNode.Flush`), whether a version vector decodes, and what CLUSTER
reports. A context that `do_get` or `do_flush` keeps waits in its vnode's
requests (`held`) until the vnode answers it, once
(`Sucredb.VNode.RequestsTheorems`). The closures a command builds
(`MutatorFn`, `ResponseFn`) are not carried: a context keeps the keys of its
reads and writes, and a vnode's answer renders each of them with a function
the event gives. A failed `assert!`, `debug_assert!` or `unwrap` is `none`.
-/
import Sucredb.Command.Mutators
import Sucredb.Resp
import Sucredb.Lib.Reachable

namespace Sucredb

namespace Command

open Resp

/-- `database::Context`, with the keys of its reads and writes. -/
structure Context where
  token : ℕ
  isMultiCmd : Bool
  isExecCmd : Bool
  response : List RespValue
  commands : List RespValue
  reads : List Bytes
  writes : List Bytes

/-- `Context::default()`, what `replace_default` leaves behind. -/
instance : Inhabited Context := ⟨⟨0, false, false, [], [], [], []⟩⟩

namespace Context

/-- `Context::new`. -/
def new (token : ℕ) : Context := ⟨token, false, false, [], [], [], []⟩

/-- `Context::take_response`: the array of every response after MULTI or
MGET, and otherwise the one response there must be. -/
def takeResponse (c : Context) : Option (RespValue × Context) :=
  if c.isMultiCmd then some (.array c.response, { c with response := [] })
  else
    match c.response with
    | [r] => some (r, { c with response := [] })
    | _ => none

/-- `Context::clear`. -/
def clear (c : Context) : Context :=
  { c with isMultiCmd := false, isExecCmd := false, response := [], commands := [], reads := [],
           writes := [] }

end Context

/-! ## Arguments -/

/-- `config::MAX_KEY_LEN`. -/
def maxKeyLen : ℕ := 500

/-- `config::MAX_VALUE_LEN`. -/
def maxValueLen : ℕ := 10 * 1024 * 1024

/-- `args[i]`, read only where the argument count allows it. -/
def arg (args : List Bytes) (i : ℕ) : Bytes := args.getD i []

/-- `check_arg_count`. -/
def checkArgCount (count min max : ℕ) : Except CommandError Unit :=
  if count < min ∨ count > max then .error .invalidArgCount else .ok ()

/-- `check_key_len`. -/
def checkKeyLen (keyLen : ℕ) : Except CommandError Unit :=
  if keyLen > maxKeyLen then .error .invalidKey else .ok ()

/-- `check_value_len`, which reports `InvalidKey` as the source does. -/
def checkValueLen (valueLen : ℕ) : Except CommandError Unit :=
  if valueLen > maxValueLen then .error .invalidKey else .ok ()

/-- `str::parse::<usize>` on a 64-bit target: an optional `+`, then digits,
within range. -/
def parseUsize : Bytes → Option ℕ
  | [] => none
  | c :: ds =>
    (parseDigits (if c = plus then ds else c :: ds)).bind fun n =>
      if n < 2 ^ 64 then some n else none

/-- `parse_int`: `args[i]` parsed when `try` holds, the type's default
otherwise. -/
def parseInt {α : Type} [Inhabited α] (parse : Bytes → Option α) (tryParse : Bool)
    (args : List Bytes) (i : ℕ) : Except CommandError α :=
  if tryParse then
    match parse (arg args i) with
    | some v => .ok v
    | none => .error .invalidIntValue
  else .ok default

/-- `impl TryFrom<&[u8]> for ConsistencyLevel`: the first byte, `1`, `o` or
`O` for One, `q` or `Q` for Quorum, `a` or `A` for All. -/
def consistencyOfBytes : Bytes → Option ConsistencyLevel
  | c :: _ =>
    if c = 49 ∨ c = 111 ∨ c = 79 then some .one
    else if c = 113 ∨ c = 81 then some .quorum
    else if c = 97 ∨ c = 65 then some .all
    else none
  | [] => none

/-- How `VNode::do_flush` ends, as the handler sees it (`FlushResult`). -/
inductive FlushVerdict where
  /-- The batch is stored, and the context waits in the vnode's requests. -/
  | stored
  /-- A storage or mutator error, before the context moves. -/
  | error (e : CommandError)
  /-- `respond_cant_coordinate`: the vnode answers at once. -/
  | cantCoordinate (v : RespValue)
  /-- `storage_set_local` reached `unreachable!()`. -/
  | panic

/-- What a step of the connection reads beyond its contexts. -/
structure Env where
  /-- `config.consistency_read`, the consistency when a command gives none. -/
  consistencyRead : ConsistencyLevel
  /-- `DHT::key_vnode`. -/
  keyVnode : Bytes → ℕ
  /-- `nodes_for_vnode` of the key's vnode is not empty, in `do_get`. -/
  hasReplicas : Bool
  /-- How `do_flush` ends. -/
  flush : FlushVerdict
  /-- `bincode::deserialize` of a `VersionVector` succeeds. -/
  vvDecodes : Bytes → Bool
  /-- `fabric.connections()`. -/
  connections : List ℕ
  /-- `dht.rebalance()` returns `Ok`. -/
  rebalanceOk : Bool
  /-- The reply of CLUSTER SLOTS. -/
  slots : RespValue

/-- `parse_vv`: a version vector is decoded when `try` holds and `args[i]` is
not empty. -/
def parseVv (env : Env) (tryParse : Bool) (args : List Bytes) (i : ℕ) :
    Except CommandError Unit :=
  if tryParse && !(arg args i).isEmpty then
    if env.vvDecodes (arg args i) then .ok () else .error .invalidContext
  else .ok ()

/-- `parse_consistency`. -/
def parseConsistency (env : Env) (tryParse : Bool) (args : List Bytes) (i : ℕ) :
    Except CommandError ConsistencyLevel :=
  if tryParse then
    match consistencyOfBytes (arg args i) with
    | some c => .ok c
    | none => .error .invalidConsistencyValue
  else .ok env.consistencyRead

/-! ## The database side -/

/-- Where a context goes when it leaves the handler. -/
inductive Out where
  /-- `Database::respond`: to the response channel of its token. -/
  | respond (c : Context)
  /-- `do_get` or `do_flush` kept it in a vnode's requests. -/
  | held (c : Context)

/-- The handler's context, and the contexts that have left it. -/
structure Worker where
  ctx : Context
  out : List Out

/-- What a handler returns: its worker and its `Result`, or `none` for a
failed assertion. -/
abbrev Handled := Option (Worker × Except CommandError Unit)

namespace Worker

/-- `Database::respond`: the context moves out, `replace_default` leaves a
default one. -/
def respond (w : Worker) : Worker := ⟨default, w.out ++ [.respond w.ctx]⟩

/-- `Database::respond_resp`. -/
def respondResp (w : Worker) (v : RespValue) : Worker :=
  { w with ctx := { w.ctx with response := w.ctx.response ++ [v] } }.respond

/-- `Database::respond_ok`. -/
def respondOk (w : Worker) : Worker := w.respondResp okStatus

/-- The context moves into a vnode's `ReqState` (`replace_default`). -/
def hold (w : Worker) : Worker := ⟨default, w.out ++ [.held w.ctx]⟩

/-- The `?` of an argument check: its error ends the handler. -/
def guard {α : Type} (w : Worker) (r : Except CommandError α) (k : α → Handled) : Handled :=
  match r with
  | .error e => some (w, .error e)
  | .ok a => k a

end Worker

/-- `VNode::do_get` as the handler sees it: the reads are pushed and the
context moves into the vnode, or `Unavailable` when the vnode has no
replica. -/
def doGet (env : Env) (w : Worker) (keys : List Bytes) : Handled :=
  if env.hasReplicas then
    some ({ w with ctx := { w.ctx with reads := w.ctx.reads ++ keys } }.hold, .ok ())
  else some (w, .error .unavailable)

/-- `VNode::do_flush` as the handler sees it. -/
def doFlush (env : Env) (w : Worker) : Handled :=
  match env.flush with
  | .stored => some (w.hold, .ok ())
  | .error e => some (w, .error e)
  | .cantCoordinate v => some (w.respondResp v, .ok ())
  | .panic => none

/-- `Database::get`. -/
def get (env : Env) (w : Worker) (key : Bytes) : Handled :=
  if !w.ctx.isMultiCmd && !w.ctx.isExecCmd then doGet env w [key] else none

/-- The vnode loop of `Database::mget`: the one vnode of every key, or
`MultiplePartitions`. -/
def keysVnode (env : Env) : Option ℕ → List Bytes → Except CommandError (Option ℕ)
  | mv, [] => .ok mv
  | mv, k :: ks =>
    if mv.isSome ∧ mv ≠ some (env.keyVnode k) then .error .multiplePartitions
    else keysVnode env (some (env.keyVnode k)) ks

/-- `Database::mget`. -/
def mget (env : Env) (w : Worker) (keys : List Bytes) : Handled :=
  if w.ctx.isMultiCmd && w.ctx.isExecCmd then
    w.guard (keysVnode env none keys) fun
      | some _ => doGet env w keys
      | none => some (w.respondResp (.array []), .ok ())
  else none

/-- `Database::set`: the write joins the batch, which is flushed at once
outside MULTI. -/
def set (env : Env) (w : Worker) (key : Bytes) : Handled :=
  if !w.ctx.isExecCmd then
    let w := { w with ctx := { w.ctx with writes := w.ctx.writes ++ [key] } }
    if w.ctx.isMultiCmd then some (w, .ok ())
    else if w.ctx.writes.length = 1 then doFlush env w
    else none
  else none

/-- The batch loop of `Database::set_flush`: every write in one vnode, and no
key written twice. -/
def batchVnode (env : Env) : Option ℕ → List Bytes → Except CommandError (Option ℕ)
  | mv, [] => .ok mv
  | mv, k :: ks =>
    if mv.isSome ∧ mv ≠ some (env.keyVnode k) then .error .multiplePartitions
    else if ks.contains k then .error .multipleKeyMutations
    else batchVnode env (some (env.keyVnode k)) ks

/-- `Database::set_flush`. -/
def setFlush (env : Env) (w : Worker) : Handled :=
  if w.ctx.isMultiCmd && w.ctx.isExecCmd then
    w.guard (batchVnode env none w.ctx.writes) fun
      | some _ => doFlush env w
      | none => some (w.respondResp (.array []), .ok ())
  else none

/-! ## The commands -/

/-- The command names `handle_cmd` matches. -/
inductive CmdName where
  | get | mget | set | cget | cset | incrby | hgetall | hset | hdel | smembers | sadd | srem
  | getset | del | cluster | type | multi | exec | echo | ping | asking | readwrite | config
deriving DecidableEq, Repr

namespace CmdName

/-- The two spellings the source matches. -/
def spellings : CmdName → String × String
  | .get => ("GET", "get")
  | .mget => ("MGET", "mget")
  | .set => ("SET", "set")
  | .cget => ("CGET", "cget")
  | .cset => ("CSET", "cset")
  | .incrby => ("INCRBY", "incrby")
  | .hgetall => ("HGETALL", "hgetall")
  | .hset => ("HSET", "hset")
  | .hdel => ("HDEL", "hdel")
  | .smembers => ("SMEMBERS", "smembers")
  | .sadd => ("SADD", "sadd")
  | .srem => ("SREM", "srem")
  | .getset => ("GETSET", "getset")
  | .del => ("DEL", "del")
  | .cluster => ("CLUSTER", "cluster")
  | .type => ("TYPE", "type")
  | .multi => ("MULTI", "multi")
  | .exec => ("EXEC", "exec")
  | .echo => ("ECHO", "echo")
  | .ping => ("PING", "ping")
  | .asking => ("ASKING", "asking")
  | .readwrite => ("READWRITE", "readwrite")
  | .config => ("CONFIG", "config")

/-- Every command name. -/
def all : List CmdName :=
  [.get, .mget, .set, .cget, .cset, .incrby, .hgetall, .hset, .hdel, .smembers, .sadd, .srem,
    .getset, .del, .cluster, .type, .multi, .exec, .echo, .ping, .asking, .readwrite, .config]

/-- The command `arg0` names. -/
def ofBytes (arg0 : Bytes) : Option CmdName :=
  all.find? fun n => arg0 == bytesOf n.spellings.1 || arg0 == bytesOf n.spellings.2

end CmdName

/-- Whether `a` spells `upper` or `lower`. -/
def spells (a : Bytes) (upper lower : String) : Bool := a == bytesOf upper || a == bytesOf lower

section Commands

variable (env : Env) (w : Worker) (args : List Bytes)

/-- The read commands: a key and an optional consistency, then
`Database::get`. -/
def readCmd : Handled :=
  w.guard (do
      checkArgCount args.length 1 2
      checkKeyLen (arg args 0).length
      parseConsistency env (decide (args.length > 1)) args 1)
    fun _ => get env w (arg args 0)

/-- `cmd_get`. -/
def cmdGet : Handled := readCmd env w args

/-- `cmd_cget`. -/
def cmdCget : Handled := readCmd env w args

/-- `cmd_hgetall`. -/
def cmdHgetall : Handled := readCmd env w args

/-- `cmd_smembers`. -/
def cmdSmembers : Handled := readCmd env w args

/-- `cmd_type`: a read command without the key length check. -/
def cmdType : Handled :=
  w.guard (do
      checkArgCount args.length 1 2
      parseConsistency env (decide (args.length > 1)) args 1)
    fun _ => get env w (arg args 0)

/-- An argument check of a write command, at its index. -/
inductive ArgCheck where
  | key (i : ℕ)
  | value (i : ℕ)
  | int (i : ℕ)
  | vv (i : ℕ)

/-- Run one check: `check_key_len`, `check_value_len`, `parse_int::<i64>`
or `parse_vv`, the last two when the argument is present. -/
def ArgCheck.run : ArgCheck → Except CommandError Unit
  | .key i => checkKeyLen (arg args i).length
  | .value i => checkValueLen (arg args i).length
  | .int i => (parseInt parseI64 (decide (args.length > i)) args i).map fun _ => ()
  | .vv i => parseVv env (decide (args.length > i)) args i

/-- The write commands: the argument count, the checks in order, the
consistency at `consistencyAt` when present, then `Database::set` of
`args[0]`. -/
def writeCmd (min max : ℕ) (checks : List ArgCheck) (consistencyAt : ℕ) : Handled :=
  w.guard (do
      checkArgCount args.length min max
      checks.forM (·.run env args)
      parseConsistency env (decide (args.length > consistencyAt)) args consistencyAt)
    fun _ => set env w (arg args 0)

/-- `cmd_set`, for SET and GETSET: `reply_result` only picks the closure. -/
def cmdSet : Handled := writeCmd env w args 2 4 [.key 0, .value 1, .vv 2] 3

/-- `cmd_hset`. -/
def cmdHset : Handled := writeCmd env w args 3 4 [.key 0, .key 1, .value 2] 3

/-- `cmd_hdel`. -/
def cmdHdel : Handled := writeCmd env w args 2 3 [.key 0, .key 1] 2

/-- `cmd_sadd`. -/
def cmdSadd : Handled := writeCmd env w args 2 3 [.key 0, .value 1] 2

/-- `cmd_srem`. -/
def cmdSrem : Handled := writeCmd env w args 2 3 [.key 0, .value 1] 2

/-- `cmd_del`. -/
def cmdDel : Handled := writeCmd env w args 1 3 [.key 0, .vv 1] 2

/-- `cmd_cset`. -/
def cmdCset : Handled := writeCmd env w args 2 3 [.key 0, .int 1] 2

/-- `cmd_incrby`. -/
def cmdIncrby : Handled := writeCmd env w args 2 3 [.key 0, .int 1] 2

/-- The argument checks of `cmd_mget`: the key count, the consistency after
the keys when present, and the keys. -/
def mgetArgs : Except CommandError (List Bytes) := do
  checkArgCount args.length 1 100
  let keyCount ← parseInt parseUsize (decide (args.length > 0)) args 0
  if keyCount ≥ args.length then throw .invalidCommand
  let keys := (args.drop 1).take keyCount
  let _ ← parseConsistency env (decide (args.length > 1 + keyCount)) args (1 + keyCount)
  keys.forM fun key => checkKeyLen key.length
  pure keys

/-- `cmd_mget`: MULTI's flag is set so that the answer is an array, and only
that one. -/
def cmdMget : Handled :=
  let w := { w with ctx := { w.ctx with isMultiCmd := true } }
  w.guard (mgetArgs env args) fun keys => mget env w keys

/-- `cmd_multi`. -/
def cmdMulti : Handled :=
  if w.ctx.isMultiCmd then none
  else
    let w := { w with ctx := { w.ctx with isMultiCmd := true } }
    w.guard (checkArgCount args.length 0 0) fun _ => some (w.respondOk, .ok ())

/-- `cmd_cluster`. -/
def cmdCluster : Handled :=
  w.guard (checkArgCount args.length 1 1) fun _ =>
    if spells (arg args 0) "CONNECTIONS" "connections" then
      some (w.respondResp (.array (env.connections.map fun x => .int x)), .ok ())
    else if spells (arg args 0) "REBALANCE" "rebalance" then
      if env.rebalanceOk then some (w.respondOk, .ok ()) else none
    else if spells (arg args 0) "SLOTS" "slots" then some (w.respondResp env.slots, .ok ())
    else some (w, .error .unknownCommand)

end Commands

/-- The bytes of a `Data` value. -/
def dataOf : RespValue → Option Bytes
  | .data b => some b
  | _ => none

/-- The arguments `handle_cmd` reads from a request: the `Data` of an array
whose elements are all `Data`, and none otherwise. -/
def cmdArgs : RespValue → List Bytes
  | .array a => (a.mapM dataOf).getD []
  | _ => []

/-- The write command `n` names: the commands `handle_cmd` runs under
`is_exec_cmd`. -/
def writeCommand : CmdName → Option (Env → Worker → List Bytes → Handled)
  | .cset => some cmdCset
  | .incrby => some cmdIncrby
  | .set => some cmdSet
  | .hset => some cmdHset
  | .hdel => some cmdHdel
  | .sadd => some cmdSadd
  | .srem => some cmdSrem
  | .getset => some cmdSet
  | .del => some cmdDel
  | _ => none

/-- `handle_cmd` under `is_exec_cmd`: only a write command runs. -/
def handleExec (env : Env) (w : Worker) (cmd : RespValue) : Handled :=
  match cmdArgs cmd with
  | [] => some (w, .error .protocolError)
  | arg0 :: args =>
    match (CmdName.ofBytes arg0).bind writeCommand with
    | some f => f env w args
    | none => some (w, .error .invalidMultiCommand)

/-- The loop of `cmd_exec`: `handle_cmd(context, cmd)?` for each queued
command. -/
def execLoop (env : Env) : Worker → List RespValue → Handled
  | w, [] => some (w, .ok ())
  | w, cmd :: cmds =>
    match handleExec env w cmd with
    | some (w, .ok ()) => execLoop env w cmds
    | r => r

/-- `cmd_exec`. -/
def cmdExec (env : Env) (w : Worker) (args : List Bytes) : Handled :=
  if !w.ctx.isMultiCmd then some (w, .error .invalidExec)
  else
    w.guard (do
        checkArgCount args.length 0 1
        parseConsistency env (decide (args.length > 0)) args 0)
      fun _ =>
        if w.ctx.isExecCmd then none
        else
          let cmds := w.ctx.commands
          let w := { w with ctx := { w.ctx with isExecCmd := true, commands := [] } }
          match execLoop env w cmds with
          | some (w, .ok ()) => setFlush env { w with ctx := { w.ctx with commands := [] } }
          | r => r

/-- `handle_cmd` outside MULTI. -/
def handlePlain (env : Env) (w : Worker) (cmd : RespValue) (args : List Bytes) :
    Option CmdName → Handled
  | some .get => cmdGet env w args
  | some .mget => cmdMget env w args
  | some .cget => cmdCget env w args
  | some .hgetall => cmdHgetall env w args
  | some .smembers => cmdSmembers env w args
  | some .cluster => cmdCluster env w args
  | some .type => cmdType env w args
  | some .multi => cmdMulti w args
  | some .exec => cmdExec env w args
  | some .echo => some (w.respondResp cmd, .ok ())
  | some .ping => some (w.respondResp (.data (bytesOf "PONG")), .ok ())
  | some .asking | some .readwrite =>
    w.guard (checkArgCount args.length 0 0) fun _ => some (w.respondOk, .ok ())
  | some .config => some (w.respondResp (.array []), .ok ())
  | some n =>
    match writeCommand n with
    | some f => f env w args
    | none => some (w, .error .unknownCommand)
  | none => some (w, .error .unknownCommand)

/-- `Database::handle_cmd`: under EXEC only writes run; under MULTI a command
is queued and answered `QUEUED`, EXEC apart; otherwise the command runs. -/
def handleCmd (env : Env) (w : Worker) (cmd : RespValue) : Handled :=
  match cmdArgs cmd with
  | [] => some (w, .error .protocolError)
  | arg0 :: args =>
    if w.ctx.isExecCmd then handleExec env w cmd
    else if w.ctx.isMultiCmd then
      if CmdName.ofBytes arg0 = some .exec then cmdExec env w args
      else
        some ({ w with ctx := { w.ctx with commands := w.ctx.commands ++ [cmd] } }.respondResp
          (.status (bytesOf "QUEUED")), .ok ())
    else handlePlain env w cmd args (CmdName.ofBytes arg0)

/-- `Database::handler_cmd`: the last command of the context runs, and an
error is answered on the cleared context. The contexts that leave. -/
def handlerCmd (env : Env) (context : Context) : Option (List Out) := do
  let cmd ← context.commands.getLast?
  let (w, r) ← handleCmd env ⟨{ context with commands := context.commands.dropLast }, []⟩ cmd
  match r with
  | .ok () => pure w.out
  | .error e => pure ({ w with ctx := w.ctx.clear }.respondResp e.toResp).out

/-! ## The connection -/

/-- One client connection: the server's `Context` with the contexts of its
requests wherever they are, and the responses written so far. `received` is
not part of the program: it records the requests read. -/
structure Connection where
  token : ℕ
  requests : List RespValue
  dbContext : Option Context
  worker : List Context
  held : List Context
  channel : List Context
  sent : List RespValue
  received : List RespValue

namespace Connection

/-- `Context::new` of the server, whose database context is `Context::new`
of the connection's token. -/
def new (token : ℕ) : Connection := ⟨token, [], some (Context.new token), [], [], [], [], []⟩

/-- `Context::dispatch`: the request goes to the worker with the idle
context, or waits in `requests`. -/
def dispatch (s : Connection) (req : RespValue) : Connection :=
  match s.dbContext with
  | some c =>
    { s with dbContext := none, worker := s.worker ++ [{ c with commands := c.commands ++ [req] }] }
  | none => { s with requests := s.requests ++ [req] }

/-- `Context::dispatch_next`, which asserts that no context is idle. -/
def dispatchNext (s : Connection) (c : Context) : Option Connection :=
  if s.dbContext.isSome then none
  else
    match s.requests with
    | req :: reqs =>
      some { s with requests := reqs, worker := s.worker ++ [{ c with commands := c.commands ++ [req] }] }
    | [] => some { s with dbContext := some c }

/-- Where the contexts that leave a handler go: a response to the channel of
its token, this connection's or another's; a kept context to its vnode. -/
def route (s : Connection) : Out → Connection
  | .respond c => if c.token = s.token then { s with channel := s.channel ++ [c] } else s
  | .held c => { s with held := s.held ++ [c] }

/-- What happens on a connection. -/
inductive Event where
  /-- The decoder yields a request (`Context::dispatch`). -/
  | read (req : RespValue)
  /-- The worker runs the connection's next context (`handler_cmd`). -/
  | work (env : Env)
  /-- The vnode that keeps the connection's context answers it with the
  rendered reads or writes (`process_get`, `process_set`). -/
  | answer (render : Bytes → RespValue)
  /-- The vnode answers it with an error on the cleared context
  (`Unavailable`, or `Timeout` at expiry). -/
  | fail (e : CommandError)
  /-- The response task writes the next response (`take_response`, `clear`,
  `dispatch_next`). -/
  | write

/-- One event on the connection. -/
def step (s : Connection) : Event → Option Connection
  | .read req => some { s.dispatch req with received := s.received ++ [req] }
  | .work env =>
    match s.worker with
    | c :: cs => (handlerCmd env c).map fun outs => outs.foldl route { s with worker := cs }
    | [] => none
  | .answer render =>
    match s.held with
    | c :: cs =>
      some ({ s with held := cs }.route (.respond { c with
        response := c.response ++ (c.reads ++ c.writes).map render, reads := [], writes := [] }))
    | [] => none
  | .fail e =>
    match s.held with
    | c :: cs => some ({ s with held := cs }.route (.respond { c.clear with response := [e.toResp] }))
    | [] => none
  | .write =>
    match s.channel with
    | c :: cs => do
      let (r, c) ← c.takeResponse
      dispatchNext { s with channel := cs, sent := s.sent ++ [r] } c.clear
    | [] => none

/-- The states a connection reaches. -/
abbrev Reachable (token : ℕ) : Connection → Prop :=
  Sucredb.Reachable (· = new token) step

end Connection

end Command

end Sucredb
