/-
Sucredb.VNode.Requests — the client requests a vnode coordinates: `ReqState`,
the in-flight map `VNode::requests`, and the replies that finish a request.

`do_get` and `do_flush` put a `ReqState` in the map under a new cookie, with
`total` the number of replica nodes and `required` what the consistency level
asks of them. They count the local reply, and a failed reply for each send
the fabric refuses. Remote acks come through `process_get` and `process_set`,
and `handler_tick` answers `Timeout` to the requests whose time ran out. A
request leaves the map exactly when it is answered.

An answer is modelled by what it carries: the cubes of the context, which the
`ResponseFn` closures render, or an error. `started` and `answers` are not part
of the program: they record the cookies drawn so far, and each answer with
its request's cookie and the counts the request had when it left the map.
`gen_cookie` draws 128 random bits, modelled as a cookie never drawn before.
The write part of `do_flush` is `VNodeState.doFlush`; here the request starts
from the cubes it stored. Expiry times are not modelled: any request in flight
may time out at a tick. Replica lists have a handful of nodes, so
`nodes.len() as u8` is the length.
-/
import Sucredb.VNode.Sync
import Sucredb.Lib.Reachable

namespace Sucredb

/-- `vnode::ReqState`: the counts of a request, and the cubes of its context
(its reads, or its writes). -/
structure ReqState where
  required : ℕ
  total : ℕ
  replies : ℕ
  succesfull : ℕ
  cubes : List Cube

namespace ReqState

/-- `ReqState::new`. -/
def new (cubes : List Cube) (nodes : ℕ) (consistency : ConsistencyLevel) : ReqState :=
  ⟨consistency.required nodes, nodes, 0, 0, cubes⟩

/-- `ReqState::satisfied`. -/
def satisfied (st : ReqState) : Bool := decide (st.required ≤ st.succesfull)

/-- `ReqState::done`. -/
def done (st : ReqState) : Bool := st.satisfied || st.replies == st.total

end ReqState

/-- What a client is answered: the cubes its context renders, or an error. -/
inductive Answer where
  | data (cubes : List Cube)
  | error (e : CommandError)

/-- The requests a vnode coordinates, with the cookies drawn and the answers
given so far. -/
structure Coordinator where
  requests : VecMap Cookie ReqState
  started : List Cookie
  answers : List (Cookie × ReqState × Answer)

namespace Coordinator

/-- Answer the request of `cookie`, which leaves the map in state `st`. -/
def answer (c : Coordinator) (cookie : Cookie) (st : ReqState) (a : Answer) : Coordinator :=
  { c with requests := c.requests.erase cookie, answers := c.answers ++ [(cookie, st, a)] }

/-- Count a reply to the request of `cookie` and answer it once it is done:
`process_get` and `process_set`, which differ only in how a reply's cubes are
merged into the context. The `bool` is `done`, and `true` for a cookie not in
the map. -/
def processReply {α : Type} (mergeInto : List Cube → α → List Cube) (c : Coordinator)
    (cookie : Cookie) (response : Except FabricError α) : Coordinator × Bool :=
  match c.requests.get? cookie with
  | none => (c, true)
  | some st =>
    let st := match response with
      | .ok r =>
        { st with replies := st.replies + 1, succesfull := st.succesfull + 1,
                  cubes := mergeInto st.cubes r }
      | .error _ => { st with replies := st.replies + 1 }
    if st.done then
      (c.answer cookie st (if st.satisfied then .data st.cubes else .error .unavailable), true)
    else ({ c with requests := c.requests.insert cookie st }, false)

/-- The merge of `process_get`: each read's cube with the reply's cube at its
place. -/
def mergeReads : List Cube → List Cube → List Cube
  | c :: cs, r :: rs => c.merge r :: mergeReads cs rs
  | cs, _ => cs

/-- The merge of `process_set`: each write's cube with the reply's cube at its
place, if the reply has one. -/
def mergeWrites : List Cube → List (Option Cube) → List Cube
  | c :: cs, some r :: rs => c.merge r :: mergeWrites cs rs
  | c :: cs, none :: rs => c :: mergeWrites cs rs
  | cs, _ => cs

/-- `VNode::process_get`. -/
def processGet (c : Coordinator) (cookie : Cookie) (response : Except FabricError (List Cube)) :
    Coordinator × Bool :=
  c.processReply mergeReads cookie response

/-- `VNode::process_set`. -/
def processSet (c : Coordinator) (cookie : Cookie)
    (response : Except FabricError (List (Option Cube))) : Coordinator × Bool :=
  c.processReply mergeWrites cookie response

/-- The send loop of `do_get` and `do_flush`: every replica but this node is
sent the request; a send the fabric refuses counts as a failed reply, and the
loop returns once the request is done. The `bool` says it returned early;
the list is the nodes sent to. -/
def sendLoop {α : Type} (mergeInto : List Cube → α → List Cube) (self : NodeId)
    (cookie : Cookie) (send : NodeId → Except FabricError Unit) :
    Coordinator → List NodeId → Coordinator × Bool × List NodeId
  | c, [] => (c, false, [])
  | c, n :: ns =>
    if n = self then sendLoop mergeInto self cookie send c ns
    else
      match send n with
      | .ok () =>
        let r := sendLoop mergeInto self cookie send c ns
        (r.1, r.2.1, n :: r.2.2)
      | .error e =>
        match c.processReply mergeInto cookie (.error e) with
        | (c', true) => (c', true, [])
        | (c', false) => sendLoop mergeInto self cookie send c' ns

/-- Register a new request: `InFlightMap::insert`, whose panic on a cookie in
the map is `none`. -/
def register (c : Coordinator) (cookie : Cookie) (st : ReqState) : Option Coordinator :=
  if c.requests.contains cookie then none
  else some { c with requests := c.requests.insert cookie st, started := c.started ++ [cookie] }

/-- `VNode::do_get` of `keys` on the replicas `nodes` that `nodes_for_vnode`
lists: the nodes sent to, or `Unavailable` when there is no replica. A
replica coordinator reads its own storage, which counts as a successful
reply. -/
def doGet (c : Coordinator) (state : VNodeState) (self : NodeId) (nodes : List NodeId)
    (keys : List Bytes) (consistency : ConsistencyLevel) (cookie : Cookie)
    (send : NodeId → Except FabricError Unit) :
    Option (Except CommandError (Coordinator × List NodeId)) :=
  if nodes.isEmpty then some (.error .unavailable)
  else
    let participate := decide (self ∈ nodes)
    let cubes := keys.map fun k => if participate then state.storageGet k else default
    match c.register cookie (ReqState.new cubes nodes.length consistency) with
    | none => none
    | some c =>
      let r := if participate then c.processGet cookie (.ok []) else (c, false)
      if r.2 then some (.ok (r.1, []))
      else
        let s := sendLoop mergeReads self cookie send r.1 nodes
        some (.ok (s.1, s.2.2))

/-- The request part of `VNode::do_flush`, once the batch of `cubes` is
stored: the request starts with default cubes, the stored ones having moved
to the message; the sends come first, and the local reply last, unless a
refused send already finished the request. -/
def flushRequest (c : Coordinator) (self : NodeId) (nodes : List NodeId)
    (consistency : ConsistencyLevel) (cookie : Cookie) (cubes : List Cube)
    (send : NodeId → Except FabricError Unit) : Option (Coordinator × List NodeId) := do
  let c ← c.register cookie (ReqState.new (cubes.map fun _ => default) nodes.length consistency)
  let s := sendLoop mergeWrites self cookie send c nodes
  if s.2.1 then pure (s.1, s.2.2)
  else pure ((s.1.processSet cookie (.ok (cubes.map some))).1, s.2.2)

/-- A request whose time ran out, as `handler_tick` pops it: answered
`Timeout`. -/
def expire (c : Coordinator) (cookie : Cookie) : Option Coordinator :=
  (c.requests.get? cookie).map fun st => c.answer cookie st (.error .timeout)

/-- What happens to the requests of a vnode. -/
inductive Event where
  /-- A client read at this vnode (`do_get`). -/
  | get (state : VNodeState) (nodes : List NodeId) (keys : List Bytes)
      (consistency : ConsistencyLevel) (cookie : Cookie) (send : NodeId → Except FabricError Unit)
  /-- A client batch stored by `do_flush`, with the cubes it stored. -/
  | flush (nodes : List NodeId) (consistency : ConsistencyLevel) (cookie : Cookie)
      (cubes : List Cube) (send : NodeId → Except FabricError Unit)
  /-- A `MsgRemoteGetAck`, possibly late or repeated. -/
  | getAck (cookie : Cookie) (result : Except FabricError (List Cube))
  /-- A `MsgRemoteSetAck`, possibly late or repeated. -/
  | setAck (cookie : Cookie) (result : Except FabricError (List (Option Cube)))
  /-- The tick finds a request expired. -/
  | expire (cookie : Cookie)

/-- One event at the vnode of node `self`; a request starts only under a
cookie never drawn before. -/
def step (self : NodeId) (c : Coordinator) : Event → Option Coordinator
  | .get state nodes keys consistency cookie send =>
    if cookie ∈ c.started then none
    else
      match c.doGet state self nodes keys consistency cookie send with
      | none => none
      | some (.error _) => some c
      | some (.ok r) => some r.1
  | .flush nodes consistency cookie cubes send =>
    if cookie ∈ c.started then none
    else (c.flushRequest self nodes consistency cookie cubes send).map Prod.fst
  | .getAck cookie result => some (c.processGet cookie result).1
  | .setAck cookie result => some (c.processSet cookie result).1
  | .expire cookie => c.expire cookie

/-- A vnode's requests when it is created: none. -/
def initial : Coordinator := ⟨VecMap.empty, [], []⟩

/-- The states of the requests some run reaches. -/
abbrev Reachable (self : NodeId) : Coordinator → Prop :=
  Sucredb.Reachable (· = initial) (step self)

end Coordinator

end Sucredb
