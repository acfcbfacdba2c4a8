import Mathlib.Data.List.Induction

/-!
# Event machines

A system that reacts to events is a state type, an initial state and a partial
step: `step s e = none` says that the event `e` cannot happen in the state `s`.
A run is a list of events.  Every safety property of this development is proved
along such runs, by one of the rules below.

## Main definitions

* `EventMachine` — states, events, initial state and step.
* `EventMachine.run` — the state a list of events leads to.
* `EventMachine.ReachableVia Q` — the states reached by runs whose steps all meet `Q`.
* `EventMachine.restrict Q` — the machine that takes only the steps that meet `Q`.
* `EventMachine.Visits P`, `EventMachine.Meets Q` — all states visited satisfy `P`,
  all steps taken meet `Q`.
* `EventMachine.Follows Q` — all steps of a run meet `Q`, which sees the events before.
* `EventMachine.latest f` — the last answer `f` gave to a step of a run.
* `EventMachine.outputs` — what a machine that answers its events puts out.

## Main results

* `ReachableVia.invariant` — **the invariant rule.**
* `run_invariant`, `Meets.invariant` — the same for a run from any state.
* `exists_reachable_of_run` — a run replayed by evaluation reaches its last state.
* `exists_run_of_step` — **the refinement rule.**
* `run_map` — **the transport rule** for machines that are the same up to maps.
* `outputs_eq` — **the simulation rule** for machines with outputs.
* `run_history`, `history_iff` — **the history rules**, for what depends on the events
  before.
* `visits_iff_meets` — if a good step is exactly what keeps `P`, then the runs all
  of whose states satisfy `P` are exactly the runs all of whose steps are good.
-/

/-- A system reacting to events: `step s e = none` when `e` cannot happen in `s`. -/
structure EventMachine (σ ε : Type*) where
  /-- The initial state. -/
  init : σ
  /-- The state after an event, if the event is possible. -/
  step : σ → ε → Option σ

namespace EventMachine

variable {σ ε : Type*} {M : EventMachine σ ε} {I P : σ → Prop} {Q : σ → ε → Prop}

/-- The state a list of events leads to. -/
def run (M : EventMachine σ ε) : σ → List ε → Option σ
  | s, [] => some s
  | s, e :: es => (M.step s e).bind fun t => M.run t es

@[simp] theorem run_nil (s : σ) : M.run s [] = some s := rfl

theorem run_cons (s : σ) (e : ε) (es : List ε) :
    M.run s (e :: es) = (M.step s e).bind fun t => M.run t es := rfl

theorem run_cons_eq_some {s t : σ} {e : ε} {es : List ε} :
    M.run s (e :: es) = some t ↔ ∃ u, M.step s e = some u ∧ M.run u es = some t := by
  rw [run_cons, Option.bind_eq_some_iff]

/-- A run in two parts. -/
theorem run_append_eq_some {s t : σ} {es es' : List ε} :
    M.run s (es ++ es') = some t ↔ ∃ u, M.run s es = some u ∧ M.run u es' = some t := by
  induction es generalizing s with
  | nil => simp
  | cons e es ih =>
    simp only [List.cons_append, run_cons_eq_some, ih]
    constructor
    · rintro ⟨v, hv, u, hu, ht⟩
      exact ⟨u, ⟨v, hv, hu⟩, ht⟩
    · rintro ⟨u, ⟨v, hv, hu⟩, ht⟩
      exact ⟨v, hv, u, hu, ht⟩

/-- A machine that is never stuck has a run for every list of events. -/
theorem exists_run (h : ∀ s e, ∃ t, M.step s e = some t) (s : σ) (es : List ε) :
    ∃ t, M.run s es = some t := by
  induction es generalizing s with
  | nil => exact ⟨s, rfl⟩
  | cons e es ih =>
    obtain ⟨u, hu⟩ := h s e
    obtain ⟨t, ht⟩ := ih u
    exact ⟨t, run_cons_eq_some.mpr ⟨u, hu, ht⟩⟩

/-- The states reached by runs whose every step, taken in the state before it,
meets `Q`. -/
inductive ReachableVia (M : EventMachine σ ε) (Q : σ → ε → Prop) : σ → Prop
  /-- The initial state. -/
  | init : ReachableVia M Q M.init
  /-- One more step. -/
  | step {s t : σ} {e : ε} :
      ReachableVia M Q s → Q s e → M.step s e = some t → ReachableVia M Q t

/-- The states reached by any run. -/
abbrev Reachable (M : EventMachine σ ε) : σ → Prop := M.ReachableVia fun _ _ => True

/-- **The invariant rule.**  What holds initially and is kept by every allowed
step holds in every state reached. -/
theorem ReachableVia.invariant (h₀ : I M.init)
    (hstep : ∀ s e t, I s → Q s e → M.step s e = some t → I t) {s : σ}
    (h : M.ReachableVia Q s) : I s := by
  induction h with
  | init => exact h₀
  | step _ hQ hs ih => exact hstep _ _ _ ih hQ hs

/-- What weaker allowed steps reach. -/
theorem ReachableVia.mono {Q' : σ → ε → Prop} (hQ : ∀ s e, Q s e → Q' s e) {s : σ}
    (h : M.ReachableVia Q s) : M.ReachableVia Q' s := by
  induction h with
  | init => exact .init
  | step _ hs hstep ih => exact ih.step (hQ _ _ hs) hstep

/-- A run from a reached state reaches its last state. -/
theorem Reachable.of_run {s t : σ} (hs : M.Reachable s) {es : List ε}
    (h : M.run s es = some t) : M.Reachable t := by
  induction es generalizing s with
  | nil =>
    rw [run_nil, Option.some.injEq] at h
    exact h ▸ hs
  | cons e es ih =>
    obtain ⟨u, hu, hrun⟩ := run_cons_eq_some.mp h
    exact ih (hs.step trivial hu) hrun

/-- What is reached is reached by a run. -/
theorem Reachable.exists_run {s : σ} (h : M.Reachable s) : ∃ es, M.run M.init es = some s := by
  induction h with
  | init => exact ⟨[], rfl⟩
  | @step s t e _ _ hs ih =>
    obtain ⟨es, hes⟩ := ih
    exact ⟨es ++ [e], run_append_eq_some.mpr ⟨s, hes, run_cons_eq_some.mpr ⟨t, hs, rfl⟩⟩⟩

/-- **The run rule.**  What every step keeps holds after a run from any state where it holds. -/
theorem run_invariant (hstep : ∀ s e t, I s → M.step s e = some t → I t) {s t : σ} {es : List ε}
    (hs : I s) (hrun : M.run s es = some t) : I t := by
  induction es generalizing s with
  | nil =>
    rw [run_nil, Option.some.injEq] at hrun
    exact hrun ▸ hs
  | cons e es ih =>
    obtain ⟨u, hu, hrest⟩ := run_cons_eq_some.mp hrun
    exact ih (hstep s e u hs hu) hrest

/-- A run from the initial state whose last state passes a test, replayed by evaluation. -/
theorem exists_reachable_of_run (M : EventMachine σ ε) (es : List ε) (p : σ → Bool)
    (h : (M.run M.init es).any p = true) : ∃ s, M.Reachable s ∧ p s = true := by
  cases hrun : M.run M.init es with
  | none => simp [hrun] at h
  | some s =>
    refine ⟨s, Reachable.of_run .init hrun, ?_⟩
    simpa [hrun] using h

/-- The machine that takes only the steps that meet `Q`. -/
def restrict (M : EventMachine σ ε) (Q : σ → ε → Prop) [∀ s e, Decidable (Q s e)] :
    EventMachine σ ε where
  init := M.init
  step s e := if Q s e then M.step s e else none

/-- Every state visited along the run satisfies `P`, the first and the last included. -/
def Visits (M : EventMachine σ ε) (P : σ → Prop) : σ → List ε → Prop
  | s, [] => P s
  | s, e :: es => P s ∧ ∀ t, M.step s e = some t → M.Visits P t es

/-- Every step of the run, taken in the state before it, meets `Q`. -/
def Meets (M : EventMachine σ ε) (Q : σ → ε → Prop) : σ → List ε → Prop
  | _, [] => True
  | s, e :: es => Q s e ∧ ∀ t, M.step s e = some t → M.Meets Q t es

/-- **The invariant rule for one run.**  What every step that meets `Q` keeps holds after a run
all of whose steps meet it. -/
theorem Meets.invariant (hstep : ∀ s e t, I s → Q s e → M.step s e = some t → I t) {s t : σ}
    {es : List ε} (h : M.Meets Q s es) (hs : I s) (hrun : M.run s es = some t) : I t := by
  induction es generalizing s with
  | nil =>
    rw [run_nil, Option.some.injEq] at hrun
    exact hrun ▸ hs
  | cons e es ih =>
    obtain ⟨u, hu, hrest⟩ := run_cons_eq_some.mp hrun
    exact ih (h.2 u hu) (hstep s e u hs h.1 hu) hrest

/-- Events that are all allowed meet that too. -/
theorem Meets.and_forall {A : ε → Prop} {s : σ} {es : List ε} (h : M.Meets Q s es)
    (hes : ∀ e ∈ es, A e) : M.Meets (fun s e => Q s e ∧ A e) s es := by
  induction es generalizing s with
  | nil => exact trivial
  | cons e es ih =>
    refine ⟨⟨h.1, hes e (by simp)⟩, fun t ht => ih (h.2 t ht) fun e' he' => ?_⟩
    exact hes e' (List.mem_cons_of_mem _ he')

/-- A run of the machine that takes only steps that meet `Q`. -/
theorem meets_of_restrict [∀ s e, Decidable (Q s e)] {s t : σ} {es : List ε}
    (h : (M.restrict Q).run s es = some t) : M.run s es = some t ∧ M.Meets Q s es := by
  induction es generalizing s with
  | nil => exact ⟨h, trivial⟩
  | cons e es ih =>
    obtain ⟨u, hu, hrest⟩ := run_cons_eq_some.mp h
    obtain ⟨hQ, hu⟩ := Option.ite_none_right_eq_some.mp hu
    obtain ⟨hrun, hmeets⟩ := ih hrest
    refine ⟨run_cons_eq_some.mpr ⟨u, hu, hrun⟩, hQ, fun v hv => ?_⟩
    exact Option.some.inj (hu.symm.trans hv) ▸ hmeets

theorem Visits.head {s : σ} {es : List ε} (h : M.Visits P s es) : P s := by
  cases es with
  | nil => exact h
  | cons e es => exact h.1

/-- All states visited from a state satisfying an invariant satisfy what it implies. -/
theorem visits_of_invariant (hI : ∀ s e t, I s → M.step s e = some t → I t)
    (hP : ∀ s, I s → P s) {s : σ} (hs : I s) (es : List ε) : M.Visits P s es := by
  induction es generalizing s with
  | nil => exact hP s hs
  | cons e es ih => exact ⟨hP s hs, fun t ht => ih (hI s e t hs ht)⟩

/-- **The exactness rule.**  Suppose a step from a state satisfying `P` leads to one
satisfying `P` exactly when it meets `Q`.  Then a run stays inside `P` exactly
when each of its steps meets `Q`.  The auxiliary invariant `I` is free. -/
theorem visits_iff_meets (hI : ∀ s e t, I s → M.step s e = some t → I t)
    (hstep : ∀ s e t, I s → P s → M.step s e = some t → (P t ↔ Q s e))
    {s t : σ} {es : List ε} (hs : I s) (hP : P s) (hrun : M.run s es = some t) :
    M.Visits P s es ↔ M.Meets Q s es := by
  induction es generalizing s with
  | nil => exact iff_of_true hP trivial
  | cons e es ih =>
    obtain ⟨u, hu, hrest⟩ := run_cons_eq_some.mp hrun
    -- the step is deterministic: `u` is the state both sides go on from
    have hkeep : P u ↔ Q s e := hstep s e u hs hP hu
    constructor
    · rintro ⟨-, h⟩
      have hvis := h u hu
      refine ⟨hkeep.mp hvis.head, fun v hv => ?_⟩
      obtain rfl : u = v := Option.some.inj (hu.symm.trans hv)
      exact (ih (hI s e u hs hu) hvis.head hrest).mp hvis
    · rintro ⟨hq, h⟩
      have hPu : P u := hkeep.mpr hq
      refine ⟨hP, fun v hv => ?_⟩
      obtain rfl : u = v := Option.some.inj (hu.symm.trans hv)
      exact (ih (hI s e u hs hu) hPu hrest).mpr (h u hu)

/-! ### What depends on the events before -/

/-- Every step of a run from the initial state meets `Q`, given the events before it and
the state it is taken in. -/
def Follows (M : EventMachine σ ε) (Q : List ε → σ → ε → Prop) (es : List ε) : Prop :=
  ∀ before e after s, es = before ++ e :: after → M.run M.init before = some s → Q before s e

theorem follows_nil {Q : List ε → σ → ε → Prop} : M.Follows Q [] := by
  intro before e after s h
  simp at h

/-- The last step is one more step to meet `Q`. -/
theorem follows_concat {Q : List ε → σ → ε → Prop} {es : List ε} {e : ε} {s : σ}
    (hrun : M.run M.init es = some s) :
    M.Follows Q (es ++ [e]) ↔ M.Follows Q es ∧ Q es s e := by
  constructor
  · intro h
    refine ⟨fun before e' after u hes hu => ?_, h es e [] s rfl hrun⟩
    exact h before e' (after ++ [e]) u (by simp [hes]) hu
  · rintro ⟨h, hlast⟩ before e' after u hes hu
    -- the step is the last one, or one of those before
    rcases List.eq_nil_or_concat after with rfl | ⟨after, last, rfl⟩
    · obtain ⟨rfl, rfl⟩ : es = before ∧ e = e' := by simpa using List.append_inj' hes rfl
      obtain rfl : s = u := Option.some.inj (hrun.symm.trans hu)
      exact hlast
    · have hes' : es ++ [e] = (before ++ e' :: after) ++ [last] := by simpa using hes
      exact h before e' after u (List.append_inj' hes' rfl).1 hu

/-- The last step of a run. -/
theorem run_concat_eq_some {s t : σ} {e : ε} {es : List ε} :
    M.run s (es ++ [e]) = some t ↔ ∃ u, M.run s es = some u ∧ M.step u e = some t := by
  simp [run_append_eq_some, run_cons_eq_some]

/-- **The history rule for invariants.** -/
theorem run_history {I : List ε → σ → Prop} (h₀ : I [] M.init)
    (hstep : ∀ es s e t, I es s → M.step s e = some t → I (es ++ [e]) t) {es : List ε} {s : σ}
    (hrun : M.run M.init es = some s) : I es s := by
  induction es using List.reverseRecOn generalizing s with
  | nil =>
    rw [run_nil, Option.some.injEq] at hrun
    exact hrun ▸ h₀
  | append_singleton es e ih =>
    obtain ⟨u, hu, hs⟩ := run_concat_eq_some.mp hrun
    exact hstep es u e s (ih hu) hs

/-- A run of allowed events reaches its last state by allowed steps. -/
theorem reachableVia_of_run {A : ε → Prop} {es : List ε} {s : σ}
    (hrun : M.run M.init es = some s) (hes : ∀ e ∈ es, A e) : M.ReachableVia (fun _ e => A e) s := by
  refine run_history (I := fun es s => (∀ e ∈ es, A e) → M.ReachableVia (fun _ e => A e) s)
    (fun _ => .init) ?_ hrun hes
  intro es s e t ih hs hall
  have hbefore : ∀ e ∈ es, A e := fun e' he' => hall e' (List.mem_append_left _ he')
  exact (ih hbefore).step (hall e (by simp)) hs

/-- **The history rule for exactness.**  Suppose a step keeps `P` exactly when it meets `Q`
and `P` held before.  Then `P` holds after a run exactly when all its steps meet `Q`. -/
theorem history_iff {Q : List ε → σ → ε → Prop} (h₀ : P M.init)
    (hstep : ∀ es s e t, M.run M.init es = some s → M.step s e = some t →
      (P t ↔ P s ∧ Q es s e)) {es : List ε} {s : σ} (hrun : M.run M.init es = some s) :
    P s ↔ M.Follows Q es := by
  induction es using List.reverseRecOn generalizing s with
  | nil =>
    rw [run_nil, Option.some.injEq] at hrun
    exact iff_of_true (hrun ▸ h₀) follows_nil
  | append_singleton es e ih =>
    obtain ⟨u, hu, hs⟩ := run_concat_eq_some.mp hrun
    rw [hstep es u e s hu hs, follows_concat hu, ih hu]

/-- The last answer that `f` gives to a step of the run, `a` if it gives none. -/
def latest {α : Type*} (M : EventMachine σ ε) (f : σ → ε → Option α) (a : α) : σ → List ε → α
  | _, [] => a
  | s, e :: es =>
    match M.step s e with
    | none => (f s e).getD a
    | some t => M.latest f ((f s e).getD a) t es

/-- The last step answers first. -/
theorem latest_concat {α : Type*} {f : σ → ε → Option α} {a : α} {s t : σ} {e : ε} {es : List ε}
    (hrun : M.run s es = some t) :
    M.latest f a s (es ++ [e]) = (f t e).getD (M.latest f a s es) := by
  induction es generalizing s a with
  | nil =>
    rw [run_nil, Option.some.injEq] at hrun
    subst hrun
    simp only [List.nil_append, latest]
    split <;> rfl
  | cons e' es ih =>
    obtain ⟨u, hu, hrest⟩ := run_cons_eq_some.mp hrun
    simp only [List.cons_append, latest, hu]
    exact ih hrest

/-! ### Refinement -/

/-- **The refinement rule.**  If every step of a machine is, seen through `f`, a run of another
machine, then so is every run.  The invariant `I` is free. -/
theorem exists_run_of_step {τ δ : Type*} {N : EventMachine τ δ} {f : σ → τ}
    (hI : ∀ s e t, I s → M.step s e = some t → I t)
    (hstep : ∀ s e t, I s → M.step s e = some t → ∃ ds, N.run (f s) ds = some (f t))
    {s t : σ} {es : List ε} (hs : I s) (hrun : M.run s es = some t) :
    ∃ ds, N.run (f s) ds = some (f t) := by
  induction es generalizing s with
  | nil =>
    rw [run_nil, Option.some.injEq] at hrun
    exact ⟨[], hrun ▸ rfl⟩
  | cons e es ih =>
    obtain ⟨u, hu, hrest⟩ := run_cons_eq_some.mp hrun
    obtain ⟨ds, hds⟩ := hstep s e u hs hu
    obtain ⟨ds', hds'⟩ := ih (hI s e u hs hu) hrest
    exact ⟨ds ++ ds', run_append_eq_some.mpr ⟨f u, hds, hds'⟩⟩

/-- **The transport rule.**  If the steps of two machines are the same up to maps of states and
events, then so are the runs. -/
theorem run_map {τ δ : Type*} {N : EventMachine τ δ} {f : σ → τ} {g : ε → δ}
    (hstep : ∀ s e, (M.step s e).map f = N.step (f s) (g e)) (s : σ) (es : List ε) :
    (M.run s es).map f = N.run (f s) (es.map g) := by
  induction es generalizing s with
  | nil => rfl
  | cons e es ih =>
    rw [List.map_cons, run_cons, run_cons, ← hstep]
    cases M.step s e with
    | none => rfl
    | some t => exact ih t

/-! ### Machines with outputs -/

section outputs
variable {σ' ε' ω : Type*}

/-- What a machine that answers every event puts out along a list of events. -/
def outputs (step : σ → ε → σ × ω) : σ → List ε → List ω
  | _, [] => []
  | s, e :: es => (step s e).2 :: outputs step (step s e).1 es

/-- **The simulation rule.**  Two machines put out the same if their states are related,
and related states put out the same and stay related. -/
theorem outputs_eq {step : σ → ε → σ × ω} {step' : σ' → ε' → σ' × ω} {f : ε → ε'}
    {R : σ → σ' → Prop} (hstep : ∀ s s' e, R s s' →
      (step s e).2 = (step' s' (f e)).2 ∧ R (step s e).1 (step' s' (f e)).1)
    {s : σ} {s' : σ'} (h : R s s') (es : List ε) :
    outputs step s es = outputs step' s' (es.map f) := by
  induction es generalizing s s' with
  | nil => rfl
  | cons e es ih =>
    obtain ⟨hout, hnext⟩ := hstep s s' e h
    rw [List.map_cons, outputs, outputs, hout, ih hnext]

end outputs

end EventMachine
