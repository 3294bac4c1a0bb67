/-
Sucredb.Lib.Reachable — the states a partial step function reaches.

A system is given by a predicate on its initial states and a step function
`step : σ → ε → Option σ`, where `none` says that the event cannot happen, or
that handling it crashes. `run` applies a list of events in order, and
`Reachable` is the least set of states that holds the initial ones and is
closed under steps. An invariant is proved once, by `Reachable.induct`, from
one lemma for the initial states and one for a step; `foldlM_induct` and
`foldlM_except_induct` do the same for the loops inside one step, in `Option`
and in `Except`, and `foldlM_eq_none` says when such a loop fails. `Steps` is a
run of a step relation, the form an abstract model's nondeterministic steps
take.
`except_bind_eq_ok` and `except_map_eq_ok` peel a successful computation in
`Except` apart, and `except_forM_eq_ok_iff` a loop of checks. A loop in
`Option` whose every step succeeds is the plain loop (`foldlM_eq_some_foldl`),
and a `mapM` in `Option` succeeds exactly when each item does
(`mapM_eq_some_iff`).
-/
import Mathlib.Logic.Basic

namespace Sucredb

universe u v

variable {σ : Type u} {ε : Type v} {init : σ → Prop} {step : σ → ε → Option σ}

/-- The states reachable from an initial state by steps. -/
inductive Reachable (init : σ → Prop) (step : σ → ε → Option σ) : σ → Prop
  | init {s : σ} : init s → Reachable init step s
  | step {s s' : σ} (e : ε) : Reachable init step s → step s e = some s' →
      Reachable init step s'

/-- The events of a list, applied in order; `none` as soon as one cannot happen. -/
def run (step : σ → ε → Option σ) : σ → List ε → Option σ
  | s, [] => some s
  | s, e :: es =>
    match step s e with
    | none => none
    | some s' => run step s' es

@[simp] theorem run_nil (s : σ) : run step s [] = some s := rfl

theorem run_cons {s : σ} {e : ε} {es : List ε} :
    run step s (e :: es) = (step s e).bind (fun s' => run step s' es) := by
  simp only [run]
  cases step s e <;> rfl

/-- A run of a step relation along a list of events. -/
inductive Steps (rel : σ → ε → σ → Prop) : σ → List ε → σ → Prop
  | nil (s : σ) : Steps rel s [] s
  | cons {s s' s'' : σ} {e : ε} {es : List ε} : rel s e s' → Steps rel s' es s'' →
      Steps rel s (e :: es) s''

/-- An invariant that holds initially and that every step keeps holds of every
reachable state. -/
theorem Reachable.induct {Inv : σ → Prop} (h₀ : ∀ s, init s → Inv s)
    (h₁ : ∀ s e s', Reachable init step s → Inv s → step s e = some s' → Inv s')
    {s : σ} (h : Reachable init step s) : Inv s := by
  induction h with
  | init hs => exact h₀ _ hs
  | step e hr hs ih => exact h₁ _ e _ hr ih hs

/-- Every state a run from a reachable state ends in is reachable. -/
theorem Reachable.run {s s' : σ} (h : Reachable init step s) :
    ∀ {es : List ε}, run step s es = some s' → Reachable init step s'
  | [], hr => by
    cases hr
    exact h
  | e :: es, hr => by
    rw [run_cons] at hr
    obtain ⟨s₁, h₁, hr⟩ := Option.bind_eq_some_iff.mp hr
    exact (Reachable.step e h h₁).run hr

/-- An invariant that every step of a run keeps holds at the end of the run:
the form for runs whose events are restricted, where `Reachable.induct` does
not apply. -/
theorem run_induct {Inv : σ → Prop} :
    ∀ {es : List ε} {s s' : σ}, (∀ s e s', e ∈ es → Inv s → step s e = some s' → Inv s') →
      Inv s → run step s es = some s' → Inv s'
  | [], _, _, _, hs, h => by
    cases h
    exact hs
  | e :: es, s, _, hstep, hs, h => by
    rw [run_cons] at h
    obtain ⟨s₁, h₁, h⟩ := Option.bind_eq_some_iff.mp h
    exact run_induct (fun a x b hx => hstep a x b (List.mem_cons_of_mem _ hx))
      (hstep s e s₁ (List.mem_cons_self ..) hs h₁) h

/-- Every state a run from an initial state ends in is reachable. -/
theorem reachable_of_run {s s' : σ} {es : List ε} (hs : init s) (hr : run step s es = some s') :
    Reachable init step s' :=
  (Reachable.init hs).run hr

/-- An invariant of the accumulator that every successful call of `f` on an
item of the list keeps holds after a successful `foldlM` in `Option`: the
loops of a step function that stop at the first failure. -/
theorem foldlM_induct {α β : Type*} {P : β → Prop} {f : β → α → Option β} :
    ∀ {l : List α} {b b' : β}, (∀ b a b', a ∈ l → P b → f b a = some b' → P b') →
      P b → l.foldlM f b = some b' → P b'
  | [], _, _, _, hb, h => by
    cases h
    exact hb
  | a :: l, b, b', hf, hb, h => by
    rw [List.foldlM_cons] at h
    obtain ⟨b₁, h₁, h⟩ := Option.bind_eq_some_iff.mp h
    exact foldlM_induct (fun c x c' hx => hf c x c' (List.mem_cons_of_mem _ hx))
      (hf b a b₁ (List.mem_cons_self ..) hb h₁) h

/-- `foldlM_induct` for a loop that cannot fail. -/
theorem foldl_induct {α β : Type*} {P : β → Prop} {f : β → α → β} :
    ∀ {l : List α} {b : β}, (∀ b a, a ∈ l → P b → P (f b a)) → P b → P (l.foldl f b)
  | [], _, _, hb => hb
  | a :: l, b, hf, hb => by
    rw [List.foldl_cons]
    exact foldl_induct (fun c x hx => hf c x (List.mem_cons_of_mem _ hx))
      (hf b a (List.mem_cons_self ..) hb)

/-- A successful bind in `Except` took a successful first step. -/
theorem except_bind_eq_ok {ε : Type v} {α β : Type u} {x : Except ε α} {f : α → Except ε β}
    {b : β} (h : (x >>= f) = .ok b) : ∃ a, x = .ok a ∧ f a = .ok b := by
  cases x with
  | error e => cases h
  | ok a => exact ⟨a, rfl, h⟩

/-- A loop of checks in `Except` passes exactly when each check passes. -/
theorem except_forM_eq_ok_iff {α : Type*} {ε : Type v} {f : α → Except ε Unit} :
    ∀ {l : List α}, l.forM f = .ok () ↔ ∀ a ∈ l, f a = .ok ()
  | [] => ⟨fun _ _ h => absurd h List.not_mem_nil, fun _ => rfl⟩
  | a :: l => by
    rw [List.forall_mem_cons, ← except_forM_eq_ok_iff]
    show (f a >>= fun _ => l.forM f) = .ok () ↔ f a = .ok () ∧ l.forM f = .ok ()
    cases f a with
    | error e => exact ⟨fun h => (by cases h), fun h => (by cases h.1)⟩
    | ok u => exact ⟨fun h => ⟨rfl, h⟩, fun h => h.2⟩

/-- A successful `Except.map` mapped a success. -/
theorem except_map_eq_ok {ε : Type v} {α β : Type u} {x : Except ε α} {f : α → β} {b : β}
    (h : x.map f = .ok b) : ∃ a, x = .ok a ∧ f a = b := by
  cases x with
  | error e => cases h
  | ok a => exact ⟨a, rfl, Except.ok.inj h⟩

/-- `foldlM_induct` for the loops that stop at the first `Except.error`. -/
theorem foldlM_except_induct {α : Type*} {β : Type u} {ε : Type v} {P : β → Prop}
    {f : β → α → Except ε β} :
    ∀ {l : List α} {b b' : β}, (∀ b a b', a ∈ l → P b → f b a = .ok b' → P b') →
      P b → l.foldlM f b = .ok b' → P b'
  | [], _, _, _, hb, h => by
    cases h
    exact hb
  | a :: l, b, b', hf, hb, h => by
    rw [List.foldlM_cons] at h
    obtain ⟨b₁, h₁, h⟩ := except_bind_eq_ok h
    exact foldlM_except_induct (fun c x c' hx => hf c x c' (List.mem_cons_of_mem _ hx))
      (hf b a b₁ (List.mem_cons_self ..) hb h₁) h

/-- A `foldlM` in `Option` fails when one item fails from every accumulator
that an invariant of the successful calls describes: the loop reaches that
item, if nothing failed before, in a state the invariant holds of. -/
theorem foldlM_eq_none {α β : Type*} {P : β → Prop} {f : β → α → Option β} {a : α} :
    ∀ {l : List α} {b : β}, (∀ b x b', x ∈ l → P b → f b x = some b' → P b') →
      (∀ b, P b → f b a = none) → a ∈ l → P b → l.foldlM f b = none
  | [], _, _, _, ha, _ => absurd ha List.not_mem_nil
  | x :: l, b, hf, hnone, ha, hb => by
    rw [List.foldlM_cons]
    rcases List.mem_cons.mp ha with rfl | ha'
    · rw [hnone b hb]
      rfl
    · cases h : f b x with
      | none => rfl
      | some b₁ =>
        exact foldlM_eq_none (fun c y c' hy => hf c y c' (List.mem_cons_of_mem _ hy)) hnone ha'
          (hf b x b₁ (List.mem_cons_self ..) hb h)

/-- A `foldlM` in `Option` succeeds when every step succeeds from the states an
invariant describes. The invariant may speak of the items still to come, as a
loop over a map's entries speaks of the entries not handled yet. -/
theorem foldlM_eq_some_of_step {α β : Type*} {P : β → List α → Prop} {f : β → α → Option β}
    (hf : ∀ b a l, P b (a :: l) → ∃ b', f b a = some b' ∧ P b' l) :
    ∀ {l : List α} {b : β}, P b l → ∃ b', l.foldlM f b = some b' ∧ P b' []
  | [], b, hb => ⟨b, rfl, hb⟩
  | a :: l, b, hb => by
    obtain ⟨b₁, h₁, hb₁⟩ := hf b a l hb
    obtain ⟨b', h', hb'⟩ := foldlM_eq_some_of_step hf hb₁
    refine ⟨b', ?_, hb'⟩
    rw [List.foldlM_cons, h₁]
    exact h'

/-- A `foldlM` in `Option` whose every step succeeds, as `g` says, is the
`foldl` of `g`. -/
theorem foldlM_eq_some_foldl {α β : Type*} {f : β → α → Option β} {g : β → α → β} :
    ∀ {l : List α} (b : β), (∀ b a, a ∈ l → f b a = some (g b a)) →
      l.foldlM f b = some (l.foldl g b)
  | [], _, _ => rfl
  | a :: l, b, hf => by
    rw [List.foldlM_cons, hf b a (List.mem_cons_self ..), List.foldl_cons]
    exact foldlM_eq_some_foldl _ fun c x hx => hf c x (List.mem_cons_of_mem _ hx)

/-- A `mapM` in `Option` succeeds exactly when every item does, with the
results of the items in order. -/
theorem mapM_eq_some_iff {α β : Type*} {f : α → Option β} :
    ∀ {l : List α} {l' : List β}, l.mapM f = some l' ↔ (∀ a ∈ l, (f a).isSome) ∧ l.filterMap f = l'
  | [], l' => by
    simp only [List.mapM_nil, List.not_mem_nil, false_implies, implies_true, List.filterMap_nil,
      true_and]
    exact ⟨fun h => Option.some.inj h, fun h => h ▸ rfl⟩
  | a :: l, l' => by
    rw [List.mapM_cons, List.forall_mem_cons]
    cases ha : f a with
    | none => simp
    | some b =>
      have ih : ∀ l'', l.mapM f = some l'' ↔ (∀ a ∈ l, (f a).isSome) ∧ l.filterMap f = l'' :=
        fun _ => mapM_eq_some_iff
      cases hl : l.mapM f with
      | none =>
        -- some later item fails
        have hfail : ¬ ∀ a ∈ l, (f a).isSome := fun hall => by
          simpa [hl] using (ih (l.filterMap f)).mpr ⟨hall, rfl⟩
        simp [hfail]
      | some l'' =>
        obtain ⟨hall, rfl⟩ := (ih l'').mp hl
        simp only [Option.bind_eq_bind, Option.bind_some, Option.pure_def, List.filterMap_cons, ha,
          Option.isSome_some, true_and]
        exact ⟨fun h => ⟨hall, Option.some.inj h⟩, fun h => h.2 ▸ rfl⟩

end Sucredb
