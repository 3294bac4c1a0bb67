/-
Sucredb.InFlightMap — `InFlightMap`, the map of what waits for an answer
until a deadline: the requests a vnode coordinates (`VNode::requests`), the
`SyncSend`s a sync sender has not seen acknowledged, and the gossip layer's
pings.

It keeps a hash map of the live keys and a binary heap of
`Pair(deadline, key)`. `Pair` compares only the deadlines, and the other way
round, so the top of the `BinaryHeap` is an entry of earliest deadline: the
`MinHeap T K` here. The two halves are kept in step lazily. `remove` and
`entry` touch only the map and leave the key's heap entry behind, stale.
`pop_expired` and `touch_expired` skip stale entries as they reach the top.
`insert` pushes the deadline before it looks at the map, and panics (`none`
here) on a key that is present.

What the structure is for is stated apart, as `TimedMap`: each live key with
its value and its current deadline, the last one `insert` or `touch_expired`
gave it. `TimedMap.Step` says what each call may do there. `pop_expired` takes
out a live key that is due and whose deadline no live key beats, or answers
`None` when no live key is due. `touch_expired` chooses the same way but
keeps the key, with the new deadline. `InFlightMapTheorems` proves that the
map refines it.

The `HashMap` is a `VecMap`, without its hasher. `entry_with_timeout` has no
caller and is left out; `entry` is modelled as its callers use it.
-/
import Sucredb.Lib.VecMap
import Sucredb.Lib.MinHeap
import Sucredb.Lib.Reachable

namespace Sucredb

open MinHeap (PrioLe)

/-- `InFlightMap<K, V, T>`: the live keys with their values, and the heap of
`Pair(deadline, key)`, earliest deadline on top. -/
structure InFlightMap (K V T : Type*) [LinearOrder T] where
  map : VecMap K V
  heap : MinHeap T K

namespace InFlightMap

variable {K V T : Type*} [DecidableEq K] [LinearOrder T]

/-- `InFlightMap::new`: nothing in flight. -/
def new : InFlightMap K V T := ⟨.empty, .empty⟩

/-- `clear`: the map and the heap emptied. -/
def clear (_ : InFlightMap K V T) : InFlightMap K V T := new

/-- `remove`: the map gives up the key and its value. The key's heap entry
stays, stale. -/
def remove (m : InFlightMap K V T) (key : K) : Option V × InFlightMap K V T :=
  (m.map.get? key, { m with map := m.map.erase key })

/-- `insert`: push `Pair(expire, key)`, then `entry(key).or_insert_with`; a
key already present panics. -/
def insert (m : InFlightMap K V T) (key : K) (value : V) (expire : T) :
    Option (InFlightMap K V T) :=
  let heap := m.heap.push (expire, key)
  match m.map.get? key with
  | some _ => none
  | none => some ⟨m.map.insert key value, heap⟩

/-- `entry(key)` as `VNode::process_get` and `process_set` use it. On an
occupied entry, `get_mut` updates the value, and `o.remove()` takes the key
out when `f` answers `none`. A vacant entry is left alone. -/
def entry (m : InFlightMap K V T) (key : K) (f : V → Option V) : InFlightMap K V T :=
  match m.map.get? key with
  | none => m
  | some v =>
    match f v with
    | some v' => { m with map := m.map.insert key v' }
    | none => { m with map := m.map.erase key }

/-- The loop of `pop_expired` over the heap's entries, top first. A due top
entry is popped, and returned with its value when the map still has its key;
a stale one is skipped. The loop stops at an empty heap or at a top that is
not due. -/
def popLoop (now : T) (map : VecMap K V) :
    (l : List (T × K)) → l.Pairwise PrioLe → Option (K × V) × InFlightMap K V T
  | [], _ => (none, ⟨map, .empty⟩)
  | (e, k) :: rest, hl =>
    if e ≤ now then
      match map.get? k with
      | some v => (some (k, v), ⟨map.erase k, ⟨rest, hl.of_cons⟩⟩)
      | none => popLoop now map rest hl.of_cons
    else (none, ⟨map, ⟨(e, k) :: rest, hl⟩⟩)

/-- `pop_expired(now)`. -/
def popExpired (now : T) (m : InFlightMap K V T) : Option (K × V) × InFlightMap K V T :=
  popLoop now m.map m.heap.entries m.heap.sorted

/-- The loop of `touch_expired` over the heap's entries, top first. A due top
entry whose key is live is overwritten through `peek_mut` with the new
deadline, and the key returned with its value; a stale one is popped. -/
def touchLoop (now expire : T) (map : VecMap K V) :
    (l : List (T × K)) → l.Pairwise PrioLe → Option (K × V) × MinHeap T K
  | [], _ => (none, .empty)
  | (e, k) :: rest, hl =>
    if e ≤ now then
      match map.get? k with
      | some v => (some (k, v), (MinHeap.mk ((e, k) :: rest) hl).replaceTop (expire, k))
      | none => touchLoop now expire map rest hl.of_cons
    else (none, ⟨(e, k) :: rest, hl⟩)

/-- `touch_expired(now, expire)`: the map is only read. -/
def touchExpired (now expire : T) (m : InFlightMap K V T) :
    Option (K × V) × InFlightMap K V T :=
  let r := touchLoop now expire m.map m.heap.entries m.heap.sorted
  (r.1, { m with heap := r.2 })

/-- The calls the users of an `InFlightMap` make. -/
inductive Op (K V T : Type*)
  | insert (key : K) (value : V) (expire : T)
  | remove (key : K)
  | entry (key : K) (f : V → Option V)
  | popExpired (now : T)
  | touchExpired (now expire : T)
  | clear

/-- One call; only `insert` can fail, by its panic. -/
def step (m : InFlightMap K V T) : Op K V T → Option (InFlightMap K V T)
  | .insert key value expire => m.insert key value expire
  | .remove key => some (m.remove key).2
  | .entry key f => some (m.entry key f)
  | .popExpired now => some (m.popExpired now).2
  | .touchExpired now expire => some (m.touchExpired now expire).2
  | .clear => some m.clear

/-- The keys a list of calls inserts, in order. -/
def insertedKeys : List (Op K V T) → List K
  | [] => []
  | .insert key _ _ :: ops => key :: insertedKeys ops
  | _ :: ops => insertedKeys ops

-- two keys in flight, the earlier one answered: its stale entry is skipped,
-- and the other is due only from its own deadline
example :
    ((((new : InFlightMap ℕ ℕ ℕ).insert 1 10 5).bind fun m => m.insert 2 20 3).map
      fun m => ((m.remove 2).2.popExpired 4).1) = some none := by decide

example :
    ((((new : InFlightMap ℕ ℕ ℕ).insert 1 10 5).bind fun m => m.insert 2 20 3).map
      fun m => ((m.remove 2).2.popExpired 6).1) = some (some (1, 10)) := by decide

end InFlightMap

/-! ## What an in-flight map is for -/

/-- Each live key with its value and its current deadline. -/
abbrev TimedMap (K V T : Type*) := VecMap K (V × T)

namespace TimedMap

variable {K V T : Type*} [DecidableEq K] [LinearOrder T]

/-- `k`, with value `v` and deadline `d`, is due at `now`, and no live key has
an earlier deadline. -/
def IsNext (a : TimedMap K V T) (now : T) (k : K) (v : V) (d : T) : Prop :=
  a.get? k = some (v, d) ∧ d ≤ now ∧ ∀ k' v' d', a.get? k' = some (v', d') → d ≤ d'

/-- No live key is due at `now`. -/
def NoneDue (a : TimedMap K V T) (now : T) : Prop :=
  ∀ k v d, a.get? k = some (v, d) → now < d

/-- The value of a live key updated, or the key taken out; its deadline stays. -/
def entry (a : TimedMap K V T) (key : K) (f : V → Option V) : TimedMap K V T :=
  match a.get? key with
  | none => a
  | some (v, d) =>
    match f v with
    | some v' => a.insert key (v', d)
    | none => a.erase key

/-- What each call may do to the live keys. -/
inductive Step : TimedMap K V T → InFlightMap.Op K V T → TimedMap K V T → Prop
  | insert {a key value expire} : a.get? key = none →
      Step a (.insert key value expire) (a.insert key (value, expire))
  | remove {a key} : Step a (.remove key) (a.erase key)
  | entry {a key f} : Step a (.entry key f) (a.entry key f)
  | popNone {a now} : a.NoneDue now → Step a (.popExpired now) a
  | popSome {a now k v d} : a.IsNext now k v d → Step a (.popExpired now) (a.erase k)
  | touchNone {a now expire} : a.NoneDue now → Step a (.touchExpired now expire) a
  | touchSome {a now expire k v d} : a.IsNext now k v d →
      Step a (.touchExpired now expire) (a.insert k (v, expire))
  | clear {a} : Step a .clear .empty

end TimedMap

end Sucredb
