/-
Sucredb.Command.ConnectionTheorems — what one client connection does with its
requests, and where MULTI, EXEC and MGET leave it.

The server keeps one request in flight per connection: the idle context, or
one context at the worker, at a vnode or in the response channel (`Inv`).
`handler_cmd` turns a context that nothing has left yet into exactly one that
leaves, to the channel or to a vnode (`handlerCmd_settles`), and each one
that reaches the channel has the responses `take_response` asserts. So every
response is written, `dispatch_next` never finds an idle context, and the
responses come in the order of the requests (`connection_in_order`).

The flags do not survive the round trip. The response task clears each
context before it goes back, so every context `handler_cmd` gets has both
flags down: MULTI only makes its own answer an array, a write after it runs at
once instead of being `QUEUED`, and EXEC is always answered `InvalidExec`.
MGET raises `is_multi_cmd` alone and calls `Database::mget`, which asserts
both flags: every well-formed MGET fails that assertion
(`mget_and_exec_break_protocol`).
-/
import Sucredb.Command.Connection
import Sucredb.RespTheorems

namespace Sucredb

namespace Command

open Resp

/-! ## Contexts that leave a handler -/

namespace Context

/-- A context the response task can take its response from: an array after
MULTI or MGET, otherwise exactly one response. -/
def Answerable (t : ℕ) (c : Context) : Prop :=
  c.token = t ∧ (c.isMultiCmd = true ∨ c.response.length = 1)

/-- A context a vnode keeps: answerable once the vnode renders each of its
reads and writes. -/
def Pending (t : ℕ) (c : Context) : Prop :=
  c.token = t ∧ (c.isMultiCmd = true ∨ c.response.length + (c.reads ++ c.writes).length = 1)

theorem clear_eq_new (c : Context) : c.clear = new c.token := rfl

end Context

/-- A context that left a handler, ready for what comes next. -/
def Out.Settled (t : ℕ) : Out → Prop
  | .respond c => c.Answerable t
  | .held c => c.Pending t

/-- What a handler did with a context of token `t` that nothing had left: on
success exactly one context left, settled; on an error none left, and the
context keeps its token. -/
def Settles (t : ℕ) : Handled → Prop
  | none => True
  | some (w, .ok ()) => ∃ o, w.out = [o] ∧ o.Settled t
  | some (w, .error _) => w.out = [] ∧ w.ctx.token = t

/-- A worker on a context as the server hands it over: nothing has left, no
response, read or write yet, and both flags down. -/
structure Fresh (t : ℕ) (w : Worker) : Prop where
  out : w.out = []
  token : w.ctx.token = t
  response : w.ctx.response = []
  reads : w.ctx.reads = []
  writes : w.ctx.writes = []
  multi : w.ctx.isMultiCmd = false
  exec : w.ctx.isExecCmd = false

section Settles

variable {t : ℕ} {w : Worker} (env : Env)

theorem settles_error (hout : w.out = []) (htok : w.ctx.token = t) (e : CommandError) :
    Settles t (some (w, .error e)) :=
  ⟨hout, htok⟩

theorem settles_respondResp (hout : w.out = []) (htok : w.ctx.token = t)
    (hresp : w.ctx.isMultiCmd = true ∨ w.ctx.response = []) (v : RespValue) :
    Settles t (some (w.respondResp v, .ok ())) := by
  refine ⟨.respond { w.ctx with response := w.ctx.response ++ [v] },
    by simp [Worker.respondResp, Worker.respond, hout], htok, ?_⟩
  rcases hresp with h | h
  · exact .inl h
  · exact .inr (by simp [h])

theorem settles_guard {α : Type} (hout : w.out = []) (htok : w.ctx.token = t)
    {r : Except CommandError α} {k : α → Handled} (hk : ∀ a, r = .ok a → Settles t (k a)) :
    Settles t (w.guard r k) := by
  cases r with
  | error e => exact settles_error hout htok e
  | ok a => exact hk a rfl

theorem settles_doFlush (hout : w.out = []) (htok : w.ctx.token = t)
    (hresp : w.ctx.response = []) (hrw : (w.ctx.reads ++ w.ctx.writes).length = 1) :
    Settles t (doFlush env w) := by
  unfold doFlush
  split
  · refine ⟨.held w.ctx, by simp [Worker.hold, hout], htok, .inr ?_⟩
    simp only [hresp, List.length_nil, hrw]
  · exact settles_error hout htok _
  · exact settles_respondResp hout htok (.inr hresp) _
  · trivial

namespace Fresh

theorem doGet (hw : Fresh t w) (key : Bytes) : Settles t (Command.doGet env w [key]) := by
  unfold Command.doGet
  split
  · refine ⟨.held { w.ctx with reads := w.ctx.reads ++ [key] }, by simp [Worker.hold, hw.out],
      hw.token, .inr ?_⟩
    simp [hw.response, hw.reads, hw.writes]
  · exact settles_error hw.out hw.token _

theorem get (hw : Fresh t w) (key : Bytes) : Settles t (Command.get env w key) := by
  simp only [Command.get, hw.multi, hw.exec, Bool.not_false, Bool.and_self, if_true]
  exact hw.doGet env key

theorem set (hw : Fresh t w) (key : Bytes) : Settles t (Command.set env w key) := by
  simp only [Command.set, hw.exec, hw.multi, hw.writes, Bool.not_false, if_true,
    List.nil_append, List.length_singleton, Bool.false_eq_true, if_false]
  exact settles_doFlush env hw.out hw.token hw.response (by simp [hw.reads])

theorem readCmd (hw : Fresh t w) (args : List Bytes) : Settles t (Command.readCmd env w args) :=
  settles_guard hw.out hw.token fun _ _ => hw.get env _

theorem cmdType (hw : Fresh t w) (args : List Bytes) : Settles t (Command.cmdType env w args) :=
  settles_guard hw.out hw.token fun _ _ => hw.get env _

theorem writeCmd (hw : Fresh t w) (args : List Bytes) (min max : ℕ) (checks : List ArgCheck)
    (consistencyAt : ℕ) : Settles t (Command.writeCmd env w args min max checks consistencyAt) :=
  settles_guard hw.out hw.token fun _ _ => hw.set env _

/-- Every write command settles its context. -/
theorem writeCommand (hw : Fresh t w) (args : List Bytes) {n : CmdName}
    {f : Env → Worker → List Bytes → Handled} (hf : Command.writeCommand n = some f) :
    Settles t (f env w args) := by
  cases n <;> simp only [Command.writeCommand, Option.some.injEq, reduceCtorEq] at hf <;>
    subst hf <;> exact hw.writeCmd env args _ _ _ _

theorem cmdMget (hw : Fresh t w) (args : List Bytes) : Settles t (Command.cmdMget env w args) := by
  dsimp only [Command.cmdMget]
  refine settles_guard ?_ ?_ fun keys _ => ?_
  · exact hw.out
  · exact hw.token
  · -- `mget` asserts EXEC's flag, which MGET does not raise
    simp only [Command.mget, hw.exec, Bool.and_false, Bool.false_eq_true, if_false]
    trivial

theorem cmdMulti (hw : Fresh t w) (args : List Bytes) : Settles t (Command.cmdMulti w args) := by
  simp only [Command.cmdMulti, hw.multi, Bool.false_eq_true, if_false]
  refine settles_guard ?_ ?_ fun _ _ => ?_
  · exact hw.out
  · exact hw.token
  · exact settles_respondResp (w := { w with ctx := { w.ctx with isMultiCmd := true } }) hw.out
      hw.token (.inl rfl) _

theorem cmdExec (hw : Fresh t w) (args : List Bytes) : Settles t (Command.cmdExec env w args) := by
  simp only [Command.cmdExec, hw.multi, Bool.not_false, if_true]
  exact settles_error hw.out hw.token _

theorem cmdCluster (hw : Fresh t w) (args : List Bytes) :
    Settles t (Command.cmdCluster env w args) := by
  refine settles_guard hw.out hw.token fun _ _ => ?_
  have hr := settles_respondResp (v := okStatus) hw.out hw.token (.inr hw.response)
  split
  · exact settles_respondResp hw.out hw.token (.inr hw.response) _
  · split
    · split
      · exact hr
      · trivial
    · split
      · exact settles_respondResp hw.out hw.token (.inr hw.response) _
      · exact settles_error hw.out hw.token _

theorem handlePlain (hw : Fresh t w) (cmd : RespValue) (args : List Bytes) (n : Option CmdName) :
    Settles t (Command.handlePlain env w cmd args n) := by
  have hr := fun v => settles_respondResp (t := t) (w := w) hw.out hw.token (.inr hw.response) v
  rcases n with _ | n
  · exact settles_error hw.out hw.token _
  cases n
  case get => exact hw.readCmd env args
  case mget => exact hw.cmdMget env args
  case cget => exact hw.readCmd env args
  case hgetall => exact hw.readCmd env args
  case smembers => exact hw.readCmd env args
  case cluster => exact hw.cmdCluster env args
  case type => exact hw.cmdType env args
  case multi => exact hw.cmdMulti args
  case exec => exact hw.cmdExec env args
  case echo => exact hr cmd
  case ping => exact hr _
  case asking => exact settles_guard hw.out hw.token fun _ _ => hr _
  case readwrite => exact settles_guard hw.out hw.token fun _ _ => hr _
  case config => exact hr _
  all_goals exact hw.writeCmd env args _ _ _ _

theorem handleCmd (hw : Fresh t w) (cmd : RespValue) : Settles t (Command.handleCmd env w cmd) := by
  unfold Command.handleCmd
  split
  · exact settles_error hw.out hw.token _
  · simp only [hw.exec, hw.multi, Bool.false_eq_true, if_false]
    exact hw.handlePlain env cmd _ _

end Fresh

theorem fresh_new (token : ℕ) (cmds : List RespValue) :
    Fresh token ⟨{ Context.new token with commands := cmds }, []⟩ :=
  ⟨rfl, rfl, rfl, rfl, rfl, rfl, rfl⟩

/-- `handler_cmd` on a context as the server hands it over: exactly one
context leaves, to the response channel or to a vnode, ready for the next
step. -/
theorem handlerCmd_settles {token : ℕ} {cmd : RespValue} {outs : List Out}
    (h : handlerCmd env { Context.new token with commands := [cmd] } = some outs) :
    ∃ o, outs = [o] ∧ o.Settled token := by
  simp only [handlerCmd, List.getLast?_singleton, Option.bind_eq_bind, Option.bind_some,
    List.dropLast_singleton] at h
  have hs := (fresh_new token []).handleCmd env cmd
  revert h hs
  rcases handleCmd env ⟨{ Context.new token with commands := [] }, []⟩ cmd with _ | ⟨w, e | _⟩
  · intro h
    cases h
  · -- an error is answered on the cleared context, the one response it has
    intro h ⟨hout, htok⟩
    simp only [Option.bind_some, Option.pure_def, Option.some.injEq] at h
    subst h
    refine ⟨.respond { w.ctx.clear with response := [e.toResp] },
      by simp [Worker.respondResp, Worker.respond, hout, Context.clear], ?_, .inr rfl⟩
    simp [Context.clear, htok]
  · intro h ⟨o, hout, ho⟩
    simp only [Option.bind_some, Option.pure_def, Option.some.injEq] at h
    exact ⟨o, h ▸ hout, ho⟩

/-! ## MGET and EXEC on a context the server hands over -/

theorem cmdArgs_data (bs : List Bytes) : cmdArgs (.array (bs.map .data)) = bs := by
  have hm : (bs.map RespValue.data).mapM dataOf = some bs := by
    induction bs with
    | nil => rfl
    | cons b bs ih => simp [List.mapM_cons, dataOf, ih]
  simp [cmdArgs, hm]

theorem parseUsize_displayNat {n : ℕ} (h : n < 2 ^ 64) : parseUsize (displayNat n) = some n := by
  obtain ⟨c, ds, hcd⟩ := List.exists_cons_of_ne_nil (displayNat_ne_nil n)
  have hc := ne_of_isDigit (isDigit_of_mem_displayNat (hcd ▸ List.mem_cons_self ..))
  have hp := parseDigits_displayNat n
  rw [hcd] at hp ⊢
  rw [parseUsize, if_neg hc.2.2.1, hp, Option.bind_some, if_pos h]

theorem forM_checkKeyLen {keys : List Bytes} (hk : ∀ k ∈ keys, k.length ≤ maxKeyLen) :
    keys.forM (fun key => checkKeyLen key.length) = .ok () :=
  except_forM_eq_ok_iff.mpr fun k hm => if_neg (Nat.not_lt.mpr (hk k hm))

/-- The checks of `cmd_mget` pass on `n k₁ … kₙ` for fewer than a hundred
keys of admissible length. -/
theorem mgetArgs_displayNat {keys : List Bytes} (hn : keys.length < 100)
    (hk : ∀ k ∈ keys, k.length ≤ maxKeyLen) :
    mgetArgs env (displayNat keys.length :: keys) = .ok keys := by
  have hcount : checkArgCount (keys.length + 1) 1 100 = .ok () := if_neg (by omega)
  have hparse : parseInt parseUsize true (displayNat keys.length :: keys) 0 = .ok keys.length := by
    simp only [parseInt, arg, List.getD_cons_zero, if_true,
      parseUsize_displayNat (lt_trans hn (by norm_num))]
  simp only [mgetArgs, List.length_cons, hcount, gt_iff_lt, Nat.zero_lt_succ, decide_true, hparse,
    bind, Except.bind, ge_iff_le, Nat.not_succ_le_self, if_false, Nat.add_comm 1, lt_irrefl,
    decide_false, List.drop_succ_cons, List.drop_zero, List.take_length,
    forM_checkKeyLen hk]
  rfl

/-- An MGET request of `keys`: `MGET n k₁ … kₙ`. -/
def mgetRequest (keys : List Bytes) : RespValue :=
  .array ((bytesOf "MGET" :: displayNat keys.length :: keys).map .data)

/-- An EXEC request with arguments `args`. -/
def execRequest (args : List Bytes) : RespValue := .array ((bytesOf "EXEC" :: args).map .data)

theorem ofBytes_mget : CmdName.ofBytes (bytesOf "MGET") = some .mget := by decide +kernel

theorem ofBytes_exec : CmdName.ofBytes (bytesOf "EXEC") = some .exec := by decide +kernel

/-- `cmd_mget` raises MULTI's flag and not EXEC's, and `Database::mget`
asserts both: a well-formed MGET ends in a failed assertion. -/
theorem handleCmd_mget {t : ℕ} {w : Worker} (hw : Fresh t w) {keys : List Bytes}
    (hn : keys.length < 100) (hk : ∀ k ∈ keys, k.length ≤ maxKeyLen) :
    handleCmd env w (mgetRequest keys) = none := by
  simp only [handleCmd, mgetRequest, cmdArgs_data, hw.exec, hw.multi, Bool.false_eq_true,
    if_false, ofBytes_mget, handlePlain, cmdMget, Worker.guard, mgetArgs_displayNat env hn hk,
    mget, Bool.true_and, if_false]

/-- Outside MULTI, EXEC is `InvalidExec`. -/
theorem handleCmd_exec {t : ℕ} {w : Worker} (hw : Fresh t w) (args : List Bytes) :
    handleCmd env w (execRequest args) = some (w, .error .invalidExec) := by
  simp only [handleCmd, execRequest, cmdArgs_data, hw.exec, hw.multi, Bool.false_eq_true,
    if_false, ofBytes_exec, handlePlain, cmdExec, Bool.not_false, if_true]

theorem handlerCmd_mget (token : ℕ) {keys : List Bytes} (hn : keys.length < 100)
    (hk : ∀ k ∈ keys, k.length ≤ maxKeyLen) :
    handlerCmd env { Context.new token with commands := [mgetRequest keys] } = none := by
  simp only [handlerCmd, List.getLast?_singleton, List.dropLast_singleton, Option.bind_eq_bind,
    Option.bind_some, handleCmd_mget env (fresh_new token []) hn hk, Option.bind_none]

theorem handlerCmd_exec (token : ℕ) (args : List Bytes) :
    handlerCmd env { Context.new token with commands := [execRequest args] } =
      some [.respond { Context.new token with response := [CommandError.invalidExec.toResp] }] := by
  simp only [handlerCmd, List.getLast?_singleton, List.dropLast_singleton, Option.bind_eq_bind,
    Option.bind_some, handleCmd_exec env (fresh_new token []) args]
  rfl

end Settles

/-! ## The connection -/

namespace Context

theorem takeResponse_of_answerable {t : ℕ} {c : Context} (h : c.Answerable t) :
    ∃ r, c.takeResponse = some (r, { c with response := [] }) := by
  unfold takeResponse
  split
  · exact ⟨_, rfl⟩
  · rename_i hm
    obtain ⟨r, hr⟩ := List.length_eq_one_iff.mp (h.2.resolve_left hm)
    exact ⟨r, by rw [hr]⟩

/-- A vnode's answer makes a kept context answerable: with the rendered
reads and writes, or with an error on the cleared context. -/
theorem Pending.answer {t : ℕ} {c : Context} (h : c.Pending t) (render : Bytes → RespValue) :
    Context.Answerable t
      { c with response := c.response ++ (c.reads ++ c.writes).map render, reads := [], writes := [] } := by
  refine ⟨h.1, h.2.imp id fun hl => ?_⟩
  simpa using hl

end Context

namespace Connection

variable {token : ℕ} {s s' : Connection}

/-- What every reachable state of a connection satisfies: one request in
flight at a time, its context where the next step can take it, and as many
responses written as requests read, less the one in flight and those
waiting, which are the last read. -/
structure Inv (s : Connection) : Prop where
  idle : ∀ c, s.dbContext = some c →
    c = Context.new s.token ∧ s.worker = [] ∧ s.held = [] ∧ s.channel = [] ∧ s.requests = []
  busy : s.dbContext = none → s.worker.length + s.held.length + s.channel.length = 1
  worker : ∀ c ∈ s.worker, ∃ cmd, c = { Context.new s.token with commands := [cmd] }
  held : ∀ c ∈ s.held, c.Pending s.token
  channel : ∀ c ∈ s.channel, c.Answerable s.token
  count : s.sent.length + s.requests.length + (if s.dbContext.isSome then 0 else 1) =
    s.received.length
  waiting : s.requests <:+ s.received

theorem inv_new (token : ℕ) : Inv (new token) := by
  refine ⟨fun c h => ?_, fun h => (by cases h), fun c h => (by cases h), fun c h => (by cases h),
    fun c h => (by cases h), rfl, List.nil_suffix⟩
  cases h
  exact ⟨rfl, rfl, rfl, rfl, rfl⟩

namespace Inv

/-- The one context in flight: with a context at the worker, at a vnode or in
the channel, none is idle and there is no other. -/
theorem inFlight (h : Inv s) (hne : s.worker ≠ [] ∨ s.held ≠ [] ∨ s.channel ≠ []) :
    s.dbContext = none ∧ s.worker.length + s.held.length + s.channel.length = 1 := by
  cases hdb : s.dbContext with
  | none => exact ⟨rfl, h.busy hdb⟩
  | some c =>
    obtain ⟨_, hw, hh, hc, _⟩ := h.idle c hdb
    simp [hw, hh, hc] at hne

theorem read (h : Inv s) (req : RespValue) :
    Inv { s.dispatch req with received := s.received ++ [req] } := by
  cases hdb : s.dbContext with
  | some c =>
    obtain ⟨rfl, hw, hh, hc, hr⟩ := h.idle _ hdb
    have hcount := h.count
    simp only [hdb, Option.isSome_some, if_true, hr, List.length_nil] at hcount
    simp only [dispatch, hdb]
    refine ⟨fun c h => (by cases h), fun _ => (by simp [hw, hh, hc]), fun c hc' => ?_, by simp [hh],
      by simp [hc], ?_, ?_⟩
    · simp only [hw, List.nil_append, List.mem_singleton] at hc'
      exact ⟨req, hc'⟩
    · simp [hr, ← hcount]
    · simp [hr]
  | none =>
    have hcount := h.count
    simp only [hdb, Option.isSome_none, Bool.false_eq_true, if_false] at hcount
    simp only [dispatch, hdb]
    refine ⟨fun c h => (by cases h), fun _ => h.busy hdb, h.worker, h.held, h.channel, ?_, ?_⟩
    · simp [← hcount]
      omega
    · obtain ⟨pre, hpre⟩ := h.waiting
      exact ⟨pre, by simp [← hpre]⟩

/-- Routing the one context a handler lets go. -/
theorem route (h : Inv s) {c : Context} {cs : List Context} (hw : s.worker = c :: cs) {o : Out}
    (ho : o.Settled s.token) : Inv ({ s with worker := cs }.route o) := by
  obtain ⟨hdb, hb⟩ := h.inFlight (.inl (by simp [hw]))
  simp only [hw, List.length_cons] at hb
  have hcs : cs = [] := List.eq_nil_of_length_eq_zero (by omega)
  have hcount := h.count
  cases o with
  | respond c' =>
    simp only [Connection.route, ho.1, if_true]
    exact ⟨fun c h => (by simp [hdb] at h), fun _ => (by simp; omega), by simp [hcs], h.held,
      List.forall_mem_append.mpr ⟨h.channel, List.forall_mem_singleton.mpr ho⟩, hcount, h.waiting⟩
  | held c' =>
    simp only [Connection.route]
    exact ⟨fun c h => (by simp [hdb] at h), fun _ => (by simp; omega), by simp [hcs],
      List.forall_mem_append.mpr ⟨h.held, List.forall_mem_singleton.mpr ho⟩, h.channel, hcount,
      h.waiting⟩

theorem work (h : Inv s) {env : Env} (hs : step s (.work env) = some s') : Inv s' := by
  simp only [step] at hs
  split at hs
  · rename_i c cs hw
    obtain ⟨cmd, rfl⟩ := h.worker c (hw ▸ List.mem_cons_self ..)
    obtain ⟨outs, hh, rfl⟩ := Option.map_eq_some_iff.mp hs
    obtain ⟨o, rfl, ho⟩ := handlerCmd_settles env hh
    exact h.route hw ho
  · cases hs

/-- A vnode answers the kept context. -/
theorem answer (h : Inv s) {c : Context} {cs : List Context} (hh : s.held = c :: cs)
    {c' : Context} (hc' : c.Pending s.token → c'.Answerable s.token) :
    Inv ({ s with held := cs }.route (.respond c')) := by
  obtain ⟨hdb, hb⟩ := h.inFlight (.inr (.inl (by simp [hh])))
  simp only [hh, List.length_cons] at hb
  have hcs : cs = [] := List.eq_nil_of_length_eq_zero (by omega)
  have ho := hc' (h.held c (hh ▸ List.mem_cons_self ..))
  simp only [Connection.route, ho.1, if_true]
  exact ⟨fun c h => (by simp [hdb] at h), fun _ => (by simp [hcs]; omega), h.worker,
    by simp [hcs], List.forall_mem_append.mpr ⟨h.channel, List.forall_mem_singleton.mpr ho⟩,
    h.count, h.waiting⟩

theorem write (h : Inv s) (hs : step s .write = some s') : Inv s' := by
  simp only [step] at hs
  split at hs
  · rename_i c cs hc
    obtain ⟨hdb, hb⟩ := h.inFlight (.inr (.inr (by simp [hc])))
    simp only [hc, List.length_cons] at hb
    have hw : s.worker = [] := List.eq_nil_of_length_eq_zero (by omega)
    have hh : s.held = [] := List.eq_nil_of_length_eq_zero (by omega)
    have hcs : cs = [] := List.eq_nil_of_length_eq_zero (by omega)
    have hans := h.channel c (hc ▸ List.mem_cons_self ..)
    obtain ⟨r, hr⟩ := Context.takeResponse_of_answerable hans
    have hcount := h.count
    simp only [hdb, Option.isSome_none, Bool.false_eq_true, if_false] at hcount
    -- the response goes out, and the cleared context takes the next request
    simp only [hr, Option.bind_eq_bind, Option.bind_some, dispatchNext, hdb, Option.isSome_none,
      Bool.false_eq_true, if_false, Context.clear_eq_new, hans.1] at hs
    split at hs
    · rename_i req reqs hreq
      cases hs
      refine ⟨fun c h => (by simp at h), fun _ => (by simp [hw, hh, hcs]), fun c' hc' => ?_,
        by simp [hh], by simp [hcs], ?_, ?_⟩
      · simp only [hw, List.nil_append, List.mem_singleton] at hc'
        exact ⟨req, by simp [hc', Context.new]⟩
      · simp only [hreq, List.length_cons] at hcount
        simp [← hcount]
        omega
      · obtain ⟨pre, hpre⟩ := h.waiting
        exact ⟨pre ++ [req], by simp [← hpre, hreq]⟩
    · rename_i hreq
      cases hs
      refine ⟨fun c' h => ?_, fun h => (by cases h), fun c h => (by simp [hw] at h),
        fun c h => (by simp [hh] at h), fun c h => (by simp [hcs] at h), ?_, ?_⟩
      · cases h
        exact ⟨rfl, hw, hh, hcs, hreq⟩
      · simp only [hreq, List.length_nil] at hcount
        simp [hreq, ← hcount]
      · simp [hreq]
  · cases hs

end Inv

theorem Inv.step (h : Inv s) {e : Event} (hs : step s e = some s') : Inv s' := by
  cases e with
  | read req =>
    simp only [Connection.step, Option.some.injEq] at hs
    exact hs ▸ h.read req
  | work env => exact h.work hs
  | answer render =>
    simp only [Connection.step] at hs
    split at hs
    · rename_i c cs hh
      cases hs
      exact h.answer hh fun hc => hc.answer render
    · cases hs
  | fail e =>
    simp only [Connection.step] at hs
    split at hs
    · rename_i c cs hh
      cases hs
      exact h.answer hh fun hc => ⟨hc.1, .inr rfl⟩
    · cases hs
  | write => exact h.write hs

theorem step_token {e : Event} (hs : step s e = some s') : s'.token = s.token := by
  cases e with
  | read req =>
    simp only [Connection.step, Option.some.injEq] at hs
    subst hs
    unfold dispatch
    split <;> rfl
  | work env =>
    simp only [Connection.step] at hs
    split at hs
    · obtain ⟨outs, _, rfl⟩ := Option.map_eq_some_iff.mp hs
      have hr : ∀ (outs : List Out) (s : Connection), (outs.foldl Connection.route s).token = s.token := by
        intro outs
        induction outs with
        | nil => exact fun _ => rfl
        | cons o os ih =>
          intro s
          rw [List.foldl_cons, ih]
          cases o
          · simp only [Connection.route]
            split <;> rfl
          · rfl
      exact hr _ _
    · cases hs
  | answer render =>
    simp only [Connection.step] at hs
    split at hs
    · cases hs
      simp only [Connection.route]
      split <;> rfl
    · cases hs
  | fail e =>
    simp only [Connection.step] at hs
    split at hs
    · cases hs
      simp only [Connection.route]
      split <;> rfl
    · cases hs
  | write =>
    simp only [Connection.step] at hs
    split at hs
    · simp only [Option.bind_eq_bind, Option.bind_eq_some_iff] at hs
      obtain ⟨_, _, hs⟩ := hs
      unfold dispatchNext at hs
      split at hs
      · cases hs
      · split at hs <;> cases hs <;> rfl
    · cases hs

theorem inv_of_reachable (h : Reachable token s) : Inv s ∧ s.token = token := by
  induction h with
  | init hs =>
    subst hs
    exact ⟨inv_new token, rfl⟩
  | step e _ hs ih => exact ⟨ih.1.step hs, (step_token hs).trans ih.2⟩

end Connection

/-! ## What a connection does with its requests -/

namespace Connection

variable {token : ℕ} {s : Connection}

theorem Inv.write_some (h : Inv s) {c : Context} {cs : List Context} (hc : s.channel = c :: cs) :
    ∃ s', Connection.step s .write = some s' := by
  have hdb := (h.inFlight (.inr (.inr (by simp [hc])))).1
  obtain ⟨r, hr⟩ := Context.takeResponse_of_answerable (h.channel c (hc ▸ List.mem_cons_self ..))
  simp only [Connection.step, hc, hr, Option.bind_eq_bind, Option.bind_some, dispatchNext, hdb,
    Option.isSome_none, Bool.false_eq_true, if_false]
  split <;> exact ⟨_, rfl⟩

/-- In every reachable state of a connection, the requests read are the
ones answered, then at most one in flight, then the ones waiting, which are
the last read; and the response task can always write the next response:
`take_response` and `dispatch_next` never fail their assertions. -/
theorem connection_in_order (h : Reachable token s) :
    s.sent.length + s.requests.length + (if s.dbContext.isSome then 0 else 1) =
      s.received.length ∧
    s.requests <:+ s.received ∧
    (s.worker.length + s.held.length + s.channel.length ≤ 1) ∧
    ∀ c cs, s.channel = c :: cs → ∃ s', step s .write = some s' := by
  have hinv := (inv_of_reachable h).1
  refine ⟨hinv.count, hinv.waiting, ?_, fun c cs hc => hinv.write_some hc⟩
  cases hdb : s.dbContext with
  | none => exact (hinv.busy hdb).le
  | some c =>
    obtain ⟨_, hw, hh, hc, _⟩ := hinv.idle c hdb
    simp [hw, hh, hc]

/-- In every reachable state of a connection, the context at the worker has
both flags down: the response task clears every context it takes back, so no
command runs under MULTI or EXEC and no write is ever `QUEUED`. A well-formed
MGET there fails the assertion of `Database::mget`, which wants both flags,
and an EXEC is answered `InvalidExec`. -/
theorem mget_and_exec_break_protocol (h : Reachable token s) {c : Context} {cs : List Context}
    (hw : s.worker = c :: cs) :
    (c.isMultiCmd = false ∧ c.isExecCmd = false) ∧
    (∀ keys : List Bytes, keys.length < 100 → (∀ k ∈ keys, k.length ≤ maxKeyLen) →
      c.commands = [mgetRequest keys] → ∀ env, step s (.work env) = none) ∧
    (∀ args, c.commands = [execRequest args] → ∀ env, step s (.work env) =
      some { s with worker := cs, channel := s.channel ++
        [{ Context.new token with response := [CommandError.invalidExec.toResp] }] }) := by
  obtain ⟨hinv, htok⟩ := inv_of_reachable h
  obtain ⟨cmd, rfl⟩ := hinv.worker c (hw ▸ List.mem_cons_self ..)
  refine ⟨⟨rfl, rfl⟩, fun keys hn hk hcmd env => ?_, fun args hcmd env => ?_⟩
  · obtain rfl : cmd = mgetRequest keys := List.singleton_inj.mp hcmd
    simp only [step, hw, handlerCmd_mget env _ hn hk, Option.map_none]
  · obtain rfl : cmd = execRequest args := List.singleton_inj.mp hcmd
    subst htok
    have hnew : (Context.new s.token).token = s.token := rfl
    rw [step, hw]
    dsimp only
    rw [handlerCmd_exec]
    simp only [Option.map_some, List.foldl_cons, List.foldl_nil, route, hnew, if_true]

/-- A connection whose first request is `MGET 1 k`: the worker's step fails
the assertion of `Database::mget`, whatever the database holds. -/
theorem mget_breaks_first_request :
    ∃ s, run step (new 1) [.read (mgetRequest [bytesOf "k"])] = some s ∧
      step s (.work ⟨.one, fun _ => 0, true, .stored, fun _ => true, [], true, .nil⟩) = none := by
  obtain ⟨s, hr⟩ : ∃ s, run step (new 1) [.read (mgetRequest [bytesOf "k"])] = some s := ⟨_, rfl⟩
  have hreach : Reachable 1 s := reachable_of_run rfl hr
  refine ⟨s, hr, ?_⟩
  cases hr
  exact (mget_and_exec_break_protocol hreach rfl).2.1 [bytesOf "k"] (by decide) (by decide +kernel)
    rfl _

end Connection

end Command

end Sucredb
