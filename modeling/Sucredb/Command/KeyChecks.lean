/-
Sucredb.Command.KeyChecks — which keys a command hands to storage.

`Storage::get` and the batch's `set` and `del` first build the RocksDB key
with `build_key`: the vnode number in two bytes, then the key, in a 512-byte
stack buffer. A key over 510 bytes does not fit, and the `unwrap` of its
`write_all` panics (`Storage.buildKey_eq_none_iff`).

A context hands to storage the keys of its reads, which `do_get` looks up
with `storage_get`, and of its writes, which `do_flush` stores. Every command
but one checks its keys against `MAX_KEY_LEN = 500` before they get there:
whatever the connection's state, the contexts a handler leaves hold only keys
of admissible length (`KeysFit`, `KeysFit.handleCmd`). TYPE is the
exception: `cmd_type` reads `args[0]` without `check_key_len`, so a TYPE of a
longer key takes it to `do_get`, whose `storage_get` panics in `build_key`
(`type_key_overflows_buffer`).
-/
import Sucredb.Command.ConnectionTheorems
import Sucredb.Storage

namespace Sucredb

namespace Command

/-! ## The invariant -/

/-- Every key a context hands to storage passes `check_key_len`. -/
def Context.KeysFit (c : Context) : Prop := ∀ k ∈ c.reads ++ c.writes, k.length ≤ maxKeyLen

/-- The context that left a handler. -/
def Out.context : Out → Context
  | .respond c => c
  | .held c => c

/-- The worker's context and every context that has left it pass
`Context.KeysFit`. -/
structure KeysFit (w : Worker) : Prop where
  ctx : w.ctx.KeysFit
  out : ∀ o ∈ w.out, o.context.KeysFit

/-- What a handler returns keeps `KeysFit`; a failed assertion leaves nothing
to check. -/
def HandledFits : Handled → Prop
  | none => True
  | some (w, _) => KeysFit w

/-- The command a request names: `handle_cmd`'s match on `args[0]`. -/
def requestName (cmd : RespValue) : Option CmdName := (cmdArgs cmd).head?.bind CmdName.ofBytes

theorem Context.keysFit_default : (default : Context).KeysFit := fun _ h => absurd h List.not_mem_nil

theorem checkKeyLen_eq_ok_iff {n : ℕ} : checkKeyLen n = .ok () ↔ n ≤ maxKeyLen := by
  unfold checkKeyLen
  split
  · rename_i h
    exact ⟨fun h' => (by cases h'), fun h' => absurd h' (Nat.not_le.mpr h)⟩
  · rename_i h
    exact ⟨fun _ => Nat.not_lt.mp h, fun _ => rfl⟩

namespace KeysFit

section Handlers

variable {w : Worker} (env : Env)

/-- A context with the same reads and writes keeps the invariant. -/
theorem withCtx (h : KeysFit w) {c : Context} (hr : c.reads = w.ctx.reads)
    (hw : c.writes = w.ctx.writes) : KeysFit { w with ctx := c } :=
  ⟨fun k hk => h.ctx k (by rwa [hr, hw] at hk), h.out⟩

theorem respond (h : KeysFit w) : KeysFit w.respond := by
  refine ⟨Context.keysFit_default, fun o ho => ?_⟩
  rcases List.mem_append.mp ho with ho | ho
  · exact h.out o ho
  · rw [List.mem_singleton] at ho
    subst ho
    exact h.ctx

theorem hold (h : KeysFit w) : KeysFit w.hold := by
  refine ⟨Context.keysFit_default, fun o ho => ?_⟩
  rcases List.mem_append.mp ho with ho | ho
  · exact h.out o ho
  · rw [List.mem_singleton] at ho
    subst ho
    exact h.ctx

theorem respondResp (h : KeysFit w) (v : RespValue) : KeysFit (w.respondResp v) :=
  (h.withCtx (c := { w.ctx with response := w.ctx.response ++ [v] }) rfl rfl).respond

theorem guard {α : Type} (h : KeysFit w) {r : Except CommandError α} {k : α → Handled}
    (hk : ∀ a, r = .ok a → HandledFits (k a)) : HandledFits (w.guard r k) := by
  cases r with
  | error e => exact h
  | ok a => exact hk a rfl

/-- `do_get` of checked keys: they join the reads of the context it keeps. -/
theorem doGet (h : KeysFit w) {keys : List Bytes} (hk : ∀ k ∈ keys, k.length ≤ maxKeyLen) :
    HandledFits (Command.doGet env w keys) := by
  unfold Command.doGet
  split
  · refine KeysFit.hold ⟨fun k hk' => ?_, h.out⟩
    -- the new reads are the old ones and `keys`
    simp only [List.append_assoc, List.mem_append] at hk'
    rcases hk' with hr | hr | hwr
    · exact h.ctx k (List.mem_append_left _ hr)
    · exact hk k hr
    · exact h.ctx k (List.mem_append_right _ hwr)
  · exact h

theorem doFlush (h : KeysFit w) : HandledFits (Command.doFlush env w) := by
  unfold Command.doFlush
  split
  · exact h.hold
  · exact h
  · exact h.respondResp _
  · trivial

theorem get (h : KeysFit w) {key : Bytes} (hk : key.length ≤ maxKeyLen) :
    HandledFits (Command.get env w key) := by
  unfold Command.get
  split
  · exact h.doGet env fun k hk' => (List.mem_singleton.mp hk') ▸ hk
  · trivial

/-- `Database::set` of a checked key: it joins the writes, which `do_flush`
stores at once outside MULTI. -/
theorem set (h : KeysFit w) {key : Bytes} (hk : key.length ≤ maxKeyLen) :
    HandledFits (Command.set env w key) := by
  have hw : KeysFit { w with ctx := { w.ctx with writes := w.ctx.writes ++ [key] } } := by
    refine ⟨fun k hk' => ?_, h.out⟩
    rw [← List.append_assoc] at hk'
    rcases List.mem_append.mp hk' with hrw | hkey
    · exact h.ctx k hrw
    · rw [List.mem_singleton.mp hkey]
      exact hk
  unfold Command.set
  split
  · dsimp only
    split
    · exact hw
    · split
      · exact hw.doFlush env
      · trivial
  · trivial

theorem readCmd (h : KeysFit w) (args : List Bytes) : HandledFits (Command.readCmd env w args) := by
  refine h.guard fun _ hok => h.get env ?_
  -- the second check of the block is `check_key_len(args[0])`
  obtain ⟨_, -, hok⟩ := except_bind_eq_ok hok
  obtain ⟨_, hkey, -⟩ := except_bind_eq_ok hok
  exact checkKeyLen_eq_ok_iff.mp hkey

/-- A write command whose checks include `check_key_len(args[0])`. -/
theorem writeCmd (h : KeysFit w) (args : List Bytes) (min max : ℕ) {checks : List ArgCheck}
    (hkey : ArgCheck.key 0 ∈ checks) (consistencyAt : ℕ) :
    HandledFits (Command.writeCmd env w args min max checks consistencyAt) := by
  refine h.guard fun _ hok => h.set env ?_
  obtain ⟨_, -, hok⟩ := except_bind_eq_ok hok
  obtain ⟨u, hchecks, -⟩ := except_bind_eq_ok hok
  cases u
  exact checkKeyLen_eq_ok_iff.mp (except_forM_eq_ok_iff.mp hchecks _ hkey)

/-- Every write command checks `args[0]`, the key it writes. -/
theorem writeCommand (h : KeysFit w) (args : List Bytes) {n : CmdName}
    {f : Env → Worker → List Bytes → Handled} (hf : Command.writeCommand n = some f) :
    HandledFits (f env w args) := by
  cases n <;> simp only [Command.writeCommand, Option.some.injEq, reduceCtorEq] at hf <;>
    subst hf <;> exact h.writeCmd env args _ _ List.mem_cons_self _

/-- MGET checks every key it reads. -/
theorem cmdMget (h : KeysFit w) (args : List Bytes) : HandledFits (Command.cmdMget env w args) := by
  have hw : KeysFit { w with ctx := { w.ctx with isMultiCmd := true } } := h.withCtx rfl rfl
  dsimp only [Command.cmdMget]
  refine hw.guard fun keys hok => ?_
  -- the last check of `mget_args` is `check_key_len` of each key
  have hk : ∀ k ∈ keys, k.length ≤ maxKeyLen := by
    simp only [mgetArgs, bind, Except.bind] at hok
    split at hok
    · cases hok
    split at hok
    · cases hok
    split at hok
    · cases hok
    split at hok
    · cases hok
    split at hok
    · cases hok
    · rename_i hforM
      cases hok
      exact fun k hk => checkKeyLen_eq_ok_iff.mp (except_forM_eq_ok_iff.mp hforM k hk)
  unfold mget
  split
  · refine hw.guard fun v _ => ?_
    cases v with
    | some _ => exact hw.doGet env hk
    | none => exact hw.respondResp _
  · trivial

theorem cmdMulti (h : KeysFit w) (args : List Bytes) : HandledFits (Command.cmdMulti w args) := by
  unfold Command.cmdMulti
  split
  · trivial
  · have hw : KeysFit { w with ctx := { w.ctx with isMultiCmd := true } } := h.withCtx rfl rfl
    exact hw.guard fun _ _ => hw.respondResp _

theorem cmdCluster (h : KeysFit w) (args : List Bytes) :
    HandledFits (Command.cmdCluster env w args) := by
  refine h.guard fun _ _ => ?_
  split
  · exact h.respondResp _
  · split
    · split
      · exact h.respondResp _
      · trivial
    · split
      · exact h.respondResp _
      · exact h

theorem handleExec (h : KeysFit w) (cmd : RespValue) : HandledFits (Command.handleExec env w cmd) := by
  unfold Command.handleExec
  split
  · exact h
  · split
    · rename_i f hf
      obtain ⟨n, -, hn⟩ := Option.bind_eq_some_iff.mp hf
      exact h.writeCommand env _ hn
    · exact h

theorem execLoop : ∀ {w : Worker} (cmds : List RespValue), KeysFit w →
    HandledFits (Command.execLoop env w cmds)
  | _, [], h => h
  | w, cmd :: cmds, h => by
    unfold Command.execLoop
    have hcmd := h.handleExec env cmd
    split
    · rename_i w' heq
      rw [heq] at hcmd
      exact execLoop cmds hcmd
    · rename_i r _
      exact hcmd

theorem setFlush (h : KeysFit w) : HandledFits (Command.setFlush env w) := by
  unfold Command.setFlush
  split
  · refine h.guard fun v _ => ?_
    cases v with
    | some _ => exact h.doFlush env
    | none => exact h.respondResp _
  · trivial

/-- EXEC runs the queued writes, each of which checks its key, and stores the
batch. -/
theorem cmdExec (h : KeysFit w) (args : List Bytes) : HandledFits (Command.cmdExec env w args) := by
  unfold Command.cmdExec
  split
  · exact h
  · refine h.guard fun _ _ => ?_
    split
    · trivial
    · have hw : KeysFit { w with ctx := { w.ctx with isExecCmd := true, commands := [] } } :=
        h.withCtx rfl rfl
      have hloop := execLoop env w.ctx.commands hw
      dsimp only at hloop ⊢
      split
      · rename_i w' heq
        rw [heq] at hloop
        exact (hloop.withCtx (c := { w'.ctx with commands := [] }) rfl rfl).setFlush env
      · rename_i r _
        exact hloop

/-- Every command but TYPE keeps the invariant. -/
theorem handlePlain (h : KeysFit w) (cmd : RespValue) (args : List Bytes) {n : Option CmdName}
    (hn : n ≠ some .type) : HandledFits (Command.handlePlain env w cmd args n) := by
  rcases n with _ | n
  · exact h
  cases n
  case get => exact h.readCmd env args
  case mget => exact h.cmdMget env args
  case cget => exact h.readCmd env args
  case hgetall => exact h.readCmd env args
  case smembers => exact h.readCmd env args
  case cluster => exact h.cmdCluster env args
  case type => exact absurd rfl hn
  case multi => exact h.cmdMulti args
  case exec => exact h.cmdExec env args
  case echo => exact h.respondResp cmd
  case ping => exact h.respondResp _
  case asking => exact h.guard fun _ _ => h.respondResp _
  case readwrite => exact h.guard fun _ _ => h.respondResp _
  case config => exact h.respondResp _
  all_goals exact h.writeCmd env args _ _ List.mem_cons_self _

/-- Whatever the connection's state, a request that does not name TYPE
leaves every context with keys of admissible length only: those are the
keys `do_get` reads and `do_flush` stores. -/
theorem handleCmd (h : KeysFit w) {cmd : RespValue} (htype : requestName cmd ≠ some .type) :
    HandledFits (Command.handleCmd env w cmd) := by
  unfold Command.handleCmd
  split
  · exact h
  · rename_i arg0 args hargs
    have hn : CmdName.ofBytes arg0 ≠ some .type := by
      simpa only [requestName, hargs, List.head?_cons, Option.bind_some] using htype
    split
    · exact h.handleExec env cmd
    · split
      · split
        · exact h.cmdExec env args
        · exact (h.withCtx (c := { w.ctx with commands := w.ctx.commands ++ [cmd] }) rfl
            rfl).respondResp _
      · exact h.handlePlain env cmd args hn

end Handlers

end KeysFit

/-! ## TYPE -/

/-- A TYPE request of `key`. -/
def typeRequest (key : Bytes) : RespValue := .array ([bytesOf "TYPE", key].map .data)

/-- A GET request of `key`. -/
def getRequest (key : Bytes) : RespValue := .array ([bytesOf "GET", key].map .data)

theorem ofBytes_type : CmdName.ofBytes (bytesOf "TYPE") = some .type := by decide +kernel

theorem ofBytes_get : CmdName.ofBytes (bytesOf "GET") = some .get := by decide +kernel

section TypeCmd

variable {t : ℕ} {w : Worker} (env : Env)

/-- TYPE on a context as the server hands it over: whatever the key's
length, the context goes to `do_get` with the key as its one read. -/
theorem handleCmd_type (hw : Fresh t w) (key : Bytes) (hrep : env.hasReplicas = true) :
    handleCmd env w (typeRequest key) =
      some (⟨default, [.held { w.ctx with reads := [key] }]⟩, .ok ()) := by
  simp only [handleCmd, typeRequest, cmdArgs_data, hw.exec, hw.multi, Bool.false_eq_true,
    if_false, ofBytes_type, handlePlain, cmdType, Worker.guard, checkArgCount, parseConsistency,
    bind, Except.bind, Command.get, Command.doGet, hrep, Bool.not_false, Bool.and_self, if_true,
    Worker.hold, hw.out, hw.reads, List.nil_append]
  rfl

/-- GET of a key over `MAX_KEY_LEN` is refused as `InvalidKey`. -/
theorem handleCmd_get_of_long (hw : Fresh t w) {key : Bytes} (hlen : maxKeyLen < key.length) :
    handleCmd env w (getRequest key) = some (w, .error .invalidKey) := by
  have hkey : checkKeyLen key.length = .error .invalidKey := if_pos hlen
  simp only [handleCmd, getRequest, cmdArgs_data, hw.exec, hw.multi, Bool.false_eq_true,
    if_false, ofBytes_get, handlePlain, cmdGet, readCmd, Worker.guard, checkArgCount, arg,
    List.getD_cons_zero, hkey, bind, Except.bind]
  rfl

end TypeCmd

/-- TYPE hands its key to `do_get` without `check_key_len`. On a context as
the server hands it over, a TYPE of a key over 510 bytes, which GET refuses
as `InvalidKey`, becomes a read of the vnode, where `storage_get` builds the
key in its 512-byte buffer and panics. -/
theorem type_key_overflows_buffer {t : ℕ} {w : Worker} (hw : Fresh t w) (env : Env) (num : ℕ)
    {key : Bytes} (hrep : env.hasReplicas = true) (hlen : 510 < key.length) :
    (∃ c, handleCmd env w (typeRequest key) = some (⟨default, [.held c]⟩, .ok ()) ∧
        key ∈ c.reads) ∧
      handleCmd env w (getRequest key) = some (w, .error .invalidKey) ∧
      Storage.buildKey Storage.keyBufferLen num key = none := by
  refine ⟨⟨_, handleCmd_type env hw key hrep, List.mem_singleton_self key⟩, ?_, ?_⟩
  · have hmax : maxKeyLen < key.length := lt_of_le_of_lt (by decide) hlen
    exact handleCmd_get_of_long env hw hmax
  · exact (Storage.buildKey_eq_none_iff num key).mpr hlen

/-- TYPE of a 511-byte key on a new connection's context, at a vnode with
replicas. -/
theorem type_of_long_key_panics :
    (∃ c, handleCmd ⟨.one, fun _ => 0, true, .stored, fun _ => true, [], true, .nil⟩
          ⟨{ Context.new 1 with commands := [] }, []⟩ (typeRequest (List.replicate 511 97)) =
          some (⟨default, [.held c]⟩, .ok ()) ∧ List.replicate 511 97 ∈ c.reads) ∧
      handleCmd ⟨.one, fun _ => 0, true, .stored, fun _ => true, [], true, .nil⟩
          ⟨{ Context.new 1 with commands := [] }, []⟩ (getRequest (List.replicate 511 97)) =
        some (⟨{ Context.new 1 with commands := [] }, []⟩, .error .invalidKey) ∧
      Storage.buildKey Storage.keyBufferLen 0 (List.replicate 511 97) = none :=
  type_key_overflows_buffer (fresh_new 1 []) _ 0 rfl (by rw [List.length_replicate]; decide)

end Command

end Sucredb
