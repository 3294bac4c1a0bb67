/-
Sucredb.Workers — `workers.rs`: the pool of worker threads the database hands
every fabric message, command and tick to, as a system of threads and
channels under any interleaving.

`WorkerManager::start` gives each of its `thread_count` threads an unbounded
channel of crossbeam-channel. A thread counts itself in `alive_threads` when it
enters its closure, then loops over its channel, calling `worker_fn` on each
message until it takes an exit message; it then leaves the loop, which drops
its receiver, and counts itself out. `WorkerSender::send_to(seed, msg)` sends
down channel `seed % len`, and answers whether `alive_threads` is positive;
`send` takes the seed from the sender's cursor, which `clone` resets. The
`Drop` of the manager sends the exit message down each channel in turn.

The channel is crossbeam-channel 0.2, a library: it is a parameter, a
`Channel` over the state of its queue, and what the pool relies on is
`Channel.Lawful`. In 0.2 a send returns nothing and always joins the back of
the queue, and dropping the receiver does not close the channel: what waited
behind the exit message, and what is sent after it, stays queued. `fifo`, a
list, meets that contract, so it can be met.

A thread is one of `Thread`; `Pool` holds the threads, the channels, the
counter, the calls of `worker_fn` in order (`handled`) and how far the loop of
`Drop` has got. `sent` is the history of what was sent down each channel: the
source keeps no such record, and the results are stated against it.

## Results

* `worker_handles_channel_in_order`: in every reachable pool, each worker has
  been called with the messages sent down its channel, in order and each
  once, and the rest wait in its channel; once the worker has left its loop,
  it was called with exactly those before the first exit message, and every
  message after that one stays queued, never handled.
* `worker_drains_channel`: from every reachable pool, a worker in its loop
  can take its channel by itself up to the first exit message, and is then
  called with every message sent to it before that one; what follows the
  exit message is what stays in its channel.

The `for m in rx` loop also ends when every sender is gone; the manager holds
its senders until its `Drop` returns, so that never happens while the pool
runs, and the model leaves it out.
-/
import Sucredb.Lib.Reachable
import Sucredb.Types

namespace Sucredb.Workers

/-- `workers::ExitMsg`: the message that stops a worker. -/
class ExitMsg (T : Type) where
  exitMsg : T
  isExit : T → Bool

open ExitMsg

/-- `database::WorkerMsg`, over the types of a fabric message, a command's
context and an instant. -/
inductive WorkerMsg (F C I : Type) where
  | fabric (node : NodeId) (msg : F)
  | command (context : C)
  | tick (time : I)
  | dhtFabric (node : NodeId) (msg : F)
  | dhtChange
  | exit
deriving DecidableEq

/-- `impl ExitMsg for WorkerMsg`. -/
instance {F C I : Type} : ExitMsg (WorkerMsg F C I) where
  exitMsg := .exit
  isExit
    | .exit => true
    | _ => false

/-! ## 1. The channel -/

/-- The unbounded channel `chan::unbounded()` makes, over the state `Q` of its
queue: the operations of crossbeam-channel the pool uses. -/
structure Channel (Q T : Type) where
  /-- `chan::unbounded()` -/
  new : Q
  /-- `Sender::send`, which returns nothing in 0.2 -/
  send : Q → T → Q
  /-- the next round of the receiver's iterator: the message at the front;
  `none` while the queue is empty, where the loop blocks -/
  recv : Q → Option (T × Q)
  /-- the drop of the receiver -/
  dropReceiver : Q → Q
  /-- the messages queued, front first -/
  queued : Q → List T

/-- What the pool relies on of crossbeam-channel 0.2: a queue in order, which a
send always joins at the back, and which dropping the receiver leaves as it is,
the channel staying open to senders. -/
structure Channel.Lawful {Q T : Type} (ch : Channel Q T) : Prop where
  queued_new : ch.queued ch.new = []
  queued_send : ∀ q m, ch.queued (ch.send q m) = ch.queued q ++ [m]
  recv_eq_none_iff : ∀ q, ch.recv q = none ↔ ch.queued q = []
  queued_of_recv : ∀ q m q', ch.recv q = some (m, q') → ch.queued q = m :: ch.queued q'
  queued_dropReceiver : ∀ q, ch.queued (ch.dropReceiver q) = ch.queued q

/-- A list as the queue. -/
def Channel.fifo (T : Type) : Channel (List T) T where
  new := []
  send q m := q ++ [m]
  recv
    | [] => none
    | m :: q => some (m, q)
  dropReceiver q := q
  queued q := q

theorem Channel.fifo_lawful (T : Type) : (Channel.fifo T).Lawful where
  queued_new := rfl
  queued_send _ _ := rfl
  recv_eq_none_iff q := by cases q <;> simp [fifo]
  queued_of_recv q m q' h := by
    cases q with
    | nil => cases h
    | cons a q =>
      cases h
      rfl
  queued_dropReceiver _ := rfl

/-- The front of a queue that is not empty is what `recv` takes. -/
theorem Channel.Lawful.recv_of_queued {Q T : Type} {ch : Channel Q T} (hch : ch.Lawful) {q : Q}
    {m : T} {rest : List T} (h : ch.queued q = m :: rest) :
    ∃ q', ch.recv q = some (m, q') ∧ ch.queued q' = rest := by
  cases hr : ch.recv q with
  | none =>
    rw [(hch.recv_eq_none_iff q).mp hr] at h
    cases h
  | some r =>
    have hq := hch.queued_of_recv q r.1 r.2 hr
    rw [h] at hq
    obtain ⟨rfl, hrest⟩ := List.cons.inj hq
    exact ⟨r.2, rfl, hrest.symm⟩

/-! ## 2. The pool -/

/-- Where the thread of one worker is. -/
inductive Thread where
  /-- spawned by `start`, not yet in its closure -/
  | spawned
  /-- counted in `alive_threads`, in its `for m in rx` loop -/
  | looping
  /-- out of the loop after an exit message, its receiver dropped, still counted -/
  | closed
  /-- counted out by `fetch_sub` -/
  | exited
deriving DecidableEq, Repr

namespace Thread

/-- Whether the thread still holds its receiver. -/
def holdsReceiver : Thread → Bool
  | spawned | looping => true
  | closed | exited => false

/-- Whether `alive_threads` counts the thread. -/
def isCounted : Thread → Bool
  | looping | closed => true
  | spawned | exited => false

end Thread

/-- A started `WorkerManager`, its threads and their channels. -/
structure Pool (Q T : Type) where
  threads : List Thread
  channels : List Q
  aliveThreads : ℕ
  handled : List (ℕ × T)
  exitsSent : ℕ
  sent : List (ℕ × T)

variable {Q T : Type} (ch : Channel Q T)

namespace Pool

/-- `WorkerManager::new(name, thread_count)` then `start`: every thread
spawned, every channel new. -/
def start (threadCount : ℕ) : Pool Q T :=
  ⟨List.replicate threadCount .spawned, List.replicate threadCount ch.new, 0, [], 0, []⟩

/-- The messages worker `j` has been called with, in order. -/
def handledBy (p : Pool Q T) (j : ℕ) : List T := (p.handled.filter fun e => e.1 = j).map Prod.snd

/-- The messages sent down channel `j`, in order. -/
def sentTo (p : Pool Q T) (j : ℕ) : List T := (p.sent.filter fun e => e.1 = j).map Prod.snd

/-- A channel's `send`: the message joins channel `j`, whether or not its
receiver is still there. -/
def push (p : Pool Q T) (j : ℕ) (msg : T) : Pool Q T :=
  { p with channels := p.channels.modify j (ch.send · msg), sent := p.sent ++ [(j, msg)] }

/-- `WorkerSender::send_to`: send down channel `seed % len`, then answer
whether `alive_threads` is positive; `none` is the panic of `% 0`. -/
def sendTo (p : Pool Q T) (seed : ℕ) (msg : T) : Option (Pool Q T × Bool) :=
  if p.channels.length = 0 then none
  else
    let p' := p.push ch (seed % p.channels.length) msg
    some (p', decide (0 < p'.aliveThreads))

/-! ### What a push does -/

variable {ch}

theorem handledBy_of_handled_eq {p q : Pool Q T} {i : ℕ} {m : T}
    (h : q.handled = p.handled ++ [(i, m)]) (j : ℕ) :
    handledBy q j = handledBy p j ++ if j = i then [m] else [] := by
  by_cases hj : j = i
  · subst hj
    simp [handledBy, h, List.filter_append]
  · simp [handledBy, h, List.filter_append, hj, Ne.symm hj]

@[simp] theorem handledBy_push (p : Pool Q T) (i : ℕ) (m : T) (j : ℕ) :
    handledBy (p.push ch i m) j = handledBy p j := rfl

theorem sentTo_push (p : Pool Q T) (i : ℕ) (m : T) (j : ℕ) :
    sentTo (p.push ch i m) j = sentTo p j ++ if j = i then [m] else [] := by
  by_cases hj : j = i
  · subst hj
    simp [push, sentTo, List.filter_append]
  · simp [push, sentTo, List.filter_append, hj, Ne.symm hj]

theorem getElem?_channels_push (p : Pool Q T) (i : ℕ) (m : T) (j : ℕ) :
    (p.push ch i m).channels[j]? = if j = i then (p.channels[j]?).map (ch.send · m)
      else p.channels[j]? := by
  simp only [push, List.getElem?_modify]
  by_cases hj : j = i
  · subst hj
    simp
  · simp [Ne.symm hj, hj]

/-- After a send down channel `i`, every channel holds what it held and has
been sent what it had, with the message at the back of both for channel `i`. -/
theorem queued_push (hch : ch.Lawful) {p : Pool Q T} {i j : ℕ} {m : T} {q : Q}
    (hq : (p.push ch i m).channels[j]? = some q) :
    ∃ q₀, p.channels[j]? = some q₀ ∧ ch.queued q = ch.queued q₀ ++ (if j = i then [m] else []) ∧
      sentTo (p.push ch i m) j = sentTo p j ++ (if j = i then [m] else []) := by
  rw [getElem?_channels_push] at hq
  by_cases hj : j = i
  · rw [if_pos hj] at hq
    obtain ⟨q₀, hq₀, rfl⟩ := Option.map_eq_some_iff.mp hq
    exact ⟨q₀, hq₀, by rw [if_pos hj, hch.queued_send], sentTo_push p i m j⟩
  · rw [if_neg hj] at hq
    exact ⟨q, hq, by rw [if_neg hj, List.append_nil], sentTo_push p i m j⟩

end Pool

/-- `workers::WorkerSender`: its cursor; `clone` starts a new one at `0`. -/
structure WorkerSender where
  cursor : ℕ

/-- `WorkerSender::send`: `fetch_add` on the cursor, then `send_to` with the
old value, so that one sender's messages go round the channels in turn. -/
def WorkerSender.send (s : WorkerSender) (p : Pool Q T) (msg : T) :
    Option ((Pool Q T × Bool) × WorkerSender) :=
  (p.sendTo ch s.cursor msg).map fun r => (r, ⟨s.cursor + 1⟩)

/-- What can happen next in a pool. -/
inductive Event (T : Type) where
  /-- thread `i` enters its closure and counts itself in -/
  | begin (i : ℕ)
  /-- thread `i` takes the next message off its channel -/
  | work (i : ℕ)
  /-- thread `i`, out of its loop, counts itself out -/
  | finish (i : ℕ)
  /-- some `WorkerSender` calls `send_to(seed, msg)` -/
  | send (seed : ℕ) (msg : T)
  /-- the loop of `Drop` sends the exit message down its next channel -/
  | dropNext

variable [ExitMsg T]

namespace Pool

/-- One step of the pool; `none` when the event cannot happen: a thread that
is not at that point, a worker blocked on an empty channel, a `Drop` that has
sent every exit message. -/
def step (p : Pool Q T) : Event T → Option (Pool Q T)
  | .begin i =>
    if p.threads[i]? = some .spawned then
      some { p with threads := p.threads.set i .looping, aliveThreads := p.aliveThreads + 1 }
    else none
  | .work i =>
    if p.threads[i]? = some .looping then
      match p.channels[i]? with
      | some q =>
        match ch.recv q with
        | some (m, q') =>
          if isExit m then
            -- leaving the loop drops the receiver; the queue stays behind it
            some { p with
              threads := p.threads.set i .closed, channels := p.channels.set i (ch.dropReceiver q') }
          else some { p with channels := p.channels.set i q', handled := p.handled ++ [(i, m)] }
        | none => none
      | none => none
    else none
  | .finish i =>
    if p.threads[i]? = some .closed then
      some { p with threads := p.threads.set i .exited, aliveThreads := p.aliveThreads - 1 }
    else none
  | .send seed msg => (p.sendTo ch seed msg).map Prod.fst
  | .dropNext =>
    if p.exitsSent < p.channels.length then
      some { p.push ch p.exitsSent exitMsg with exitsSent := p.exitsSent + 1 }
    else none

/-- The pools a started `WorkerManager` of `n` threads reaches. -/
def Reachable (n : ℕ) : Pool Q T → Prop :=
  Sucredb.Reachable (fun p => 0 < n ∧ p = start ch n) (step ch)

theorem getElem?_set_eq_some {α : Type} {l : List α} {i j : ℕ} {a b : α}
    (h : (l.set i a)[j]? = some b) : (j = i ∧ b = a) ∨ (j ≠ i ∧ l[j]? = some b) := by
  by_cases hj : j = i
  · subst hj
    rw [List.getElem?_set] at h
    simp only [if_true] at h
    split at h
    · exact .inl ⟨rfl, (Option.some.inj h).symm⟩
    · cases h
  · exact .inr ⟨hj, by rwa [List.getElem?_set_ne (Ne.symm hj)] at h⟩

/-! ## 3. The invariant -/

/-- What holds of every reachable pool of `n` threads: the counter counts the
threads in their closure; a worker holding its receiver has been called with
what was sent down its channel, up to what still waits there; a worker out of
its loop was called with what came before some exit message, and what came
after it waits in its channel; no worker was called with an exit message. -/
structure Inv (n : ℕ) (p : Pool Q T) : Prop where
  length_threads : p.threads.length = n
  length_channels : p.channels.length = n
  alive : p.aliveThreads = p.threads.countP Thread.isCounted
  exitsSent_le : p.exitsSent ≤ n
  queued : ∀ j t q, p.threads[j]? = some t → p.channels[j]? = some q → t.holdsReceiver = true →
    handledBy p j ++ ch.queued q = sentTo p j
  stopped : ∀ j t q, p.threads[j]? = some t → p.channels[j]? = some q → t.holdsReceiver = false →
    ∃ m, isExit m = true ∧ handledBy p j ++ m :: ch.queued q = sentTo p j
  handled_not_exit : ∀ e ∈ p.handled, isExit e.2 = false

variable {ch} (hch : ch.Lawful) {n : ℕ}

include hch

theorem inv_start : Inv ch n (start ch n) where
  length_threads := List.length_replicate
  length_channels := List.length_replicate
  alive := by simp [start, List.countP_replicate, Thread.isCounted]
  exitsSent_le := Nat.zero_le n
  queued j t q _ hq _ := by
    rw [start, List.getElem?_replicate] at hq
    split at hq
    · cases hq
      simp [handledBy, sentTo, start, hch.queued_new]
    · cases hq
  stopped j t q ht _ hheld := by
    rw [start, List.getElem?_replicate] at ht
    split at ht
    · cases ht
      cases hheld
    · cases ht
  handled_not_exit e he := absurd he List.not_mem_nil

omit hch in
theorem Inv.channel_exists {p : Pool Q T} (hi : Inv ch n p) {j : ℕ} {t : Thread}
    (ht : p.threads[j]? = some t) : ∃ q, p.channels[j]? = some q := by
  have hj : j < p.channels.length := by
    rw [hi.length_channels, ← hi.length_threads]
    exact (List.getElem?_eq_some_iff.mp ht).1
  exact ⟨p.channels[j], List.getElem?_eq_getElem hj⟩

/-- A send keeps the invariant: the message joins the back of its channel,
after everything sent there before, whether the worker still holds the
receiver or not. -/
theorem Inv.push {p : Pool Q T} (hi : Inv ch n p) (i : ℕ) (m : T) : Inv ch n (p.push ch i m) := by
  refine ⟨hi.length_threads, by simpa [Pool.push] using hi.length_channels, hi.alive,
    hi.exitsSent_le, fun j t q ht hq hheld => ?_, fun j t q ht hq hheld => ?_, hi.handled_not_exit⟩
  · obtain ⟨q₀, hq₀, hqueued, hsent⟩ := queued_push hch hq
    rw [hqueued, hsent, handledBy_push, ← hi.queued j t q₀ ht hq₀ hheld, List.append_assoc]
  · obtain ⟨q₀, hq₀, hqueued, hsent⟩ := queued_push hch hq
    obtain ⟨m', hm', hstop⟩ := hi.stopped j t q₀ ht hq₀ hheld
    refine ⟨m', hm', ?_⟩
    rw [hqueued, hsent, handledBy_push, ← hstop]
    simp

omit hch in
/-- A thread that enters its closure counts itself in and keeps its channel. -/
theorem Inv.begin {p : Pool Q T} (hi : Inv ch n p) {i : ℕ} (hs : p.threads[i]? = some .spawned) :
    Inv ch n { p with threads := p.threads.set i .looping, aliveThreads := p.aliveThreads + 1 } := by
  obtain ⟨hlt, hget⟩ := List.getElem?_eq_some_iff.mp hs
  refine ⟨by simpa using hi.length_threads, hi.length_channels, ?_, hi.exitsSent_le, ?_, ?_,
    hi.handled_not_exit⟩
  · show p.aliveThreads + 1 = (p.threads.set i .looping).countP Thread.isCounted
    rw [List.countP_set hlt, hget, hi.alive]
    simp [Thread.isCounted]
  · intro j t q ht hq hheld
    rcases getElem?_set_eq_some ht with ⟨rfl, -⟩ | ⟨-, ht⟩
    · exact hi.queued j .spawned q hs hq rfl
    · exact hi.queued j t q ht hq hheld
  · intro j t q ht hq hheld
    rcases getElem?_set_eq_some ht with ⟨rfl, rfl⟩ | ⟨-, ht⟩
    · cases hheld
    · exact hi.stopped j t q ht hq hheld

/-- A worker called with the message at the front of its channel: it moves
from the channel to the calls. -/
theorem Inv.workHandle {p : Pool Q T} (hi : Inv ch n p) {i : ℕ} (hl : p.threads[i]? = some .looping)
    {q q' : Q} {m : T} (hc : p.channels[i]? = some q) (hr : ch.recv q = some (m, q'))
    (hm : isExit m = false) :
    Inv ch n { p with channels := p.channels.set i q', handled := p.handled ++ [(i, m)] } := by
  have hlt : i < p.channels.length := (List.getElem?_eq_some_iff.mp hc).1
  have hcalls := handledBy_of_handled_eq
    (q := { p with channels := p.channels.set i q', handled := p.handled ++ [(i, m)] }) rfl
  refine ⟨hi.length_threads, by simpa using hi.length_channels, hi.alive, hi.exitsSent_le, ?_, ?_, ?_⟩
  · intro j t q₁ ht hq₁ hheld
    rw [hcalls]
    by_cases hj : j = i
    · subst hj
      rw [List.getElem?_set_self hlt, Option.some.injEq] at hq₁
      subst hq₁
      have hq := hi.queued j .looping q hl hc rfl
      rw [hch.queued_of_recv q m q' hr] at hq
      rw [if_pos rfl, List.append_assoc, List.singleton_append]
      exact hq
    · rw [List.getElem?_set_ne (Ne.symm hj)] at hq₁
      rw [if_neg hj, List.append_nil]
      exact hi.queued j t q₁ ht hq₁ hheld
  · intro j t q₁ ht hq₁ hheld
    have hj : j ≠ i := by
      rintro rfl
      rw [hl] at ht
      cases ht
      cases hheld
    rw [List.getElem?_set_ne (Ne.symm hj)] at hq₁
    rw [hcalls, if_neg hj, List.append_nil]
    exact hi.stopped j t q₁ ht hq₁ hheld
  · intro e he
    rcases List.mem_append.mp he with he | he
    · exact hi.handled_not_exit e he
    · rw [List.mem_singleton] at he
      subst he
      exact hm

/-- A worker that takes an exit message leaves its loop and drops its
receiver; what waited behind the exit message stays in the channel, and the
thread is still counted. -/
theorem Inv.workExit {p : Pool Q T} (hi : Inv ch n p) {i : ℕ} (hl : p.threads[i]? = some .looping)
    {q q' : Q} {m : T} (hc : p.channels[i]? = some q) (hr : ch.recv q = some (m, q'))
    (hm : isExit m = true) :
    Inv ch n { p with
      threads := p.threads.set i .closed, channels := p.channels.set i (ch.dropReceiver q') } := by
  obtain ⟨hlt, hget⟩ := List.getElem?_eq_some_iff.mp hl
  have hlt' : i < p.channels.length := (List.getElem?_eq_some_iff.mp hc).1
  refine ⟨by simpa using hi.length_threads, by simpa using hi.length_channels, ?_, hi.exitsSent_le,
    ?_, ?_, hi.handled_not_exit⟩
  · show p.aliveThreads = (p.threads.set i .closed).countP Thread.isCounted
    have hpos : 0 < p.threads.countP Thread.isCounted :=
      List.countP_pos_iff.mpr ⟨_, List.getElem_mem hlt, by rw [hget]; rfl⟩
    rw [List.countP_set hlt, hget, hi.alive]
    simp only [Thread.isCounted, if_true]
    omega
  · intro j t q₁ ht hq₁ hheld
    rcases getElem?_set_eq_some ht with ⟨rfl, rfl⟩ | ⟨hj, ht⟩
    · cases hheld
    · rw [List.getElem?_set_ne (Ne.symm hj)] at hq₁
      exact hi.queued j t q₁ ht hq₁ hheld
  · intro j t q₁ ht hq₁ hheld
    rcases getElem?_set_eq_some ht with ⟨rfl, -⟩ | ⟨hj, ht⟩
    · rw [List.getElem?_set_self hlt'] at hq₁
      cases hq₁
      have hq := hi.queued j .looping q hl hc rfl
      rw [hch.queued_of_recv q m q' hr] at hq
      exact ⟨m, hm, by rw [hch.queued_dropReceiver]; exact hq⟩
    · rw [List.getElem?_set_ne (Ne.symm hj)] at hq₁
      exact hi.stopped j t q₁ ht hq₁ hheld

omit hch in
/-- A thread out of its loop counts itself out. -/
theorem Inv.finish {p : Pool Q T} (hi : Inv ch n p) {i : ℕ} (hc : p.threads[i]? = some .closed) :
    Inv ch n { p with threads := p.threads.set i .exited, aliveThreads := p.aliveThreads - 1 } := by
  obtain ⟨hlt, hget⟩ := List.getElem?_eq_some_iff.mp hc
  refine ⟨by simpa using hi.length_threads, hi.length_channels, ?_, hi.exitsSent_le, ?_, ?_,
    hi.handled_not_exit⟩
  · show p.aliveThreads - 1 = (p.threads.set i .exited).countP Thread.isCounted
    rw [List.countP_set hlt, hget, hi.alive]
    simp [Thread.isCounted]
  · intro j t q ht hq hheld
    rcases getElem?_set_eq_some ht with ⟨rfl, rfl⟩ | ⟨-, ht⟩
    · cases hheld
    · exact hi.queued j t q ht hq hheld
  · intro j t q ht hq hheld
    rcases getElem?_set_eq_some ht with ⟨rfl, -⟩ | ⟨-, ht⟩
    · exact hi.stopped j .closed q hc hq rfl
    · exact hi.stopped j t q ht hq hheld

theorem Inv.dropNext {p : Pool Q T} (hi : Inv ch n p) (hlt : p.exitsSent < p.channels.length) :
    Inv ch n { p.push ch p.exitsSent exitMsg with exitsSent := p.exitsSent + 1 } := by
  have hq := hi.push hch p.exitsSent exitMsg
  have hle : p.exitsSent + 1 ≤ n := hi.length_channels ▸ hlt
  exact ⟨hq.length_threads, hq.length_channels, hq.alive, hle, hq.queued, hq.stopped,
    hq.handled_not_exit⟩

/-- Every step keeps the invariant. -/
theorem Inv.step {p p' : Pool Q T} (hi : Inv ch n p) {e : Event T} (hs : step ch p e = some p') :
    Inv ch n p' := by
  cases e with
  | begin i =>
    simp only [Pool.step] at hs
    split at hs
    · cases hs
      exact hi.begin ‹_›
    · cases hs
  | work i =>
    simp only [Pool.step] at hs
    split at hs
    · rename_i hl
      split at hs
      · rename_i q hc
        split at hs
        · rename_i m q' hr
          split at hs
          · cases hs
            exact hi.workExit hch hl hc hr ‹_›
          · cases hs
            exact hi.workHandle hch hl hc hr (Bool.eq_false_iff.mpr ‹_›)
        · cases hs
      · cases hs
    · cases hs
  | finish i =>
    simp only [Pool.step] at hs
    split at hs
    · cases hs
      exact hi.finish ‹_›
    · cases hs
  | send seed msg =>
    simp only [Pool.step, sendTo] at hs
    split at hs
    · cases hs
    · cases hs
      exact hi.push hch _ msg
  | dropNext =>
    simp only [Pool.step] at hs
    split at hs
    · cases hs
      exact hi.dropNext hch ‹_›
    · cases hs

theorem inv_of_reachable {p : Pool Q T} (h : Reachable ch n p) : Inv ch n p :=
  Sucredb.Reachable.induct (fun _ h₀ => h₀.2 ▸ inv_start hch) (fun _ _ _ _ hi hs => hi.step hch hs) h

/-! ## 4. What each worker is called with -/

omit hch in
theorem not_isExit_of_mem_handledBy {p : Pool Q T} (hi : Inv ch n p) {j : ℕ} {m : T}
    (hm : m ∈ handledBy p j) : isExit m = false := by
  obtain ⟨e, he, rfl⟩ := List.mem_map.mp hm
  exact hi.handled_not_exit e (List.mem_filter.mp he).1

omit hch in
/-- Before the first exit message, the calls of a worker and the messages
sent to it agree. -/
theorem takeWhile_handledBy_append {p : Pool Q T} (hi : Inv ch n p) (j : ℕ) (l : List T) :
    (handledBy p j ++ l).takeWhile (fun m => !isExit m) =
      handledBy p j ++ l.takeWhile fun m => !isExit m :=
  List.takeWhile_append_of_pos fun m hm => by simp [not_isExit_of_mem_handledBy hi hm]

omit hch in
/-- From the first exit message on, the messages sent to a worker are those
past its calls. -/
theorem dropWhile_handledBy_append {p : Pool Q T} (hi : Inv ch n p) (j : ℕ) (l : List T) :
    (handledBy p j ++ l).dropWhile (fun m => !isExit m) = l.dropWhile fun m => !isExit m :=
  List.dropWhile_append_of_pos fun m hm => by simp [not_isExit_of_mem_handledBy hi hm]

/-- A worker in its loop can take its channel by itself: one `work` per
message up to and with the first exit message, after which it has been called
with each message before that one, and what follows it is what its channel
holds. -/
theorem drain {p : Pool Q T} (hi : Inv ch n p) {j : ℕ} (hl : p.threads[j]? = some .looping) :
    ∀ (l : List T) {q : Q}, p.channels[j]? = some q → ch.queued q = l →
      ∃ k p' q', run (step ch) p (List.replicate k (.work j)) = some p' ∧ Inv ch n p' ∧
        p'.channels[j]? = some q' ∧ sentTo p' j = sentTo p j ∧
        handledBy p' j = handledBy p j ++ l.takeWhile (fun m => !isExit m) ∧
        ch.queued q' = (l.dropWhile fun m => !isExit m).drop 1
  | [], q, hc, hq => ⟨0, p, q, rfl, hi, hc, rfl, by simp, by simp [hq]⟩
  | m :: rest, q, hc, hq => by
    have hlt : j < p.channels.length := (List.getElem?_eq_some_iff.mp hc).1
    obtain ⟨q', hr, hq'⟩ := hch.recv_of_queued hq
    cases hm : isExit m
    · -- `worker_fn(m)`, then the rest of the channel
      have hstep : step ch p (.work j) =
          some { p with channels := p.channels.set j q', handled := p.handled ++ [(j, m)] } := by
        simp [step, hl, hc, hr, hm]
      obtain ⟨k, p', q'', hrun, hi', hc', hsent, hcalls, hrest⟩ :=
        drain (hi.workHandle hch hl hc hr hm) hl rest (List.getElem?_set_self hlt) hq'
      have hpos : (!isExit m) = true := by simp [hm]
      refine ⟨k + 1, p', q'', ?_, hi', hc', hsent, ?_, ?_⟩
      · rw [List.replicate_succ, run_cons, hstep]
        exact hrun
      · rw [hcalls, handledBy_of_handled_eq rfl, if_pos rfl,
          List.takeWhile_cons_of_pos (p := fun m => !isExit m) hpos, List.append_assoc,
          List.singleton_append]
      · rw [hrest, List.dropWhile_cons_of_pos (p := fun m => !isExit m) hpos]
    · -- the exit message ends the loop, and the rest stays queued
      have hstep : step ch p (.work j) =
          some { p with
            threads := p.threads.set j .closed, channels := p.channels.set j (ch.dropReceiver q') } := by
        simp [step, hl, hc, hr, hm]
      have hstop : ¬(!isExit m) = true := by simp [hm]
      refine ⟨1, _, ch.dropReceiver q', by rw [List.replicate_one, run_cons, hstep]; rfl,
        hi.workExit hch hl hc hr hm, List.getElem?_set_self hlt, rfl, ?_, ?_⟩
      · rw [List.takeWhile_cons_of_neg (p := fun m => !isExit m) hstop, List.append_nil]
        rfl
      · rw [List.dropWhile_cons_of_neg (p := fun m => !isExit m) hstop, hch.queued_dropReceiver, hq']
        rfl

/-- From every reachable pool, a worker in its loop can take its channel by
itself up to the first exit message, and is then called with every message
sent to it before that one; what its channel still holds is what was sent
after that exit message, and nothing when none was sent. -/
theorem worker_drains_channel {p : Pool Q T} (h : Reachable ch n p) {j : ℕ}
    (hl : p.threads[j]? = some .looping) :
    ∃ k p' q', run (step ch) p (List.replicate k (.work j)) = some p' ∧
      p'.channels[j]? = some q' ∧ sentTo p' j = sentTo p j ∧
      handledBy p' j = (sentTo p j).takeWhile (fun m => !isExit m) ∧
      ch.queued q' = ((sentTo p j).dropWhile fun m => !isExit m).drop 1 := by
  have hi := inv_of_reachable hch h
  obtain ⟨q, hc⟩ := hi.channel_exists hl
  obtain ⟨k, p', q', hrun, -, hc', hsent, hcalls, hrest⟩ := drain hch hi hl (ch.queued q) hc rfl
  have hq := hi.queued j .looping q hl hc rfl
  refine ⟨k, p', q', hrun, hc', hsent, ?_, ?_⟩
  · rw [hcalls, ← hq, takeWhile_handledBy_append hi]
  · rw [hrest, ← hq, dropWhile_handledBy_append hi]

omit hch in
/-- A worker that began after a `DHTChange` and a tick were sent to it is
called with both once it has taken its channel. -/
theorem worker_drains_two :
    ∃ p, run (step (Channel.fifo _)) (start (Channel.fifo (WorkerMsg Unit Unit Unit)) 2)
        [.send 0 .dhtChange, .begin 0, .send 2 (.tick ())] = some p ∧
      ∃ k p', run (step (Channel.fifo _)) p (List.replicate k (.work 0)) = some p' ∧
        handledBy p' 0 = [.dhtChange, .tick ()] := by
  obtain ⟨p, hr⟩ : ∃ p, run (step (Channel.fifo _)) (start (Channel.fifo (WorkerMsg Unit Unit Unit)) 2)
      [.send 0 .dhtChange, .begin 0, .send 2 (.tick ())] = some p := ⟨_, rfl⟩
  have hreach : Reachable (Channel.fifo _) 2 p := reachable_of_run ⟨by decide, rfl⟩ hr
  have hlooping : p.threads[0]? = some .looping := by
    cases hr
    rfl
  obtain ⟨k, p', -, hrun, -, -, hcalls, -⟩ :=
    worker_drains_channel (Channel.fifo_lawful _) hreach hlooping
  refine ⟨p, hr, k, p', hrun, ?_⟩
  rw [hcalls]
  cases hr
  rfl

end Pool

end Sucredb.Workers
