import Mathlib.Data.Nat.Init
import TestDatabase.Lib.EventMachine

/-!
# Fair schedules

Safety properties are proved along finite runs.  That something happens at last is a
property of schedules that go on for ever and pass over no one who could go on.

The steps of a machine are attributed to actors.  A schedule is fair to an actor if the
actor makes a step again and again, unless it cannot; a schedule may pause, so that a
machine that has come to its end has schedules too.

## Main definitions

* `EventMachine.Schedule` — an endless run with pauses.
* `EventMachine.CanAct`, `Schedule.Fair` — weak fairness.
* `Schedule.map` — the schedule of a machine with fewer events.
* `Schedule.replay` — the schedule that makes the steps of a list, and pauses ever after.
* `EventMachine.Ranking` — a rank that no step raises, and at any time one actor whose
  steps lower it.

## Main results

* `Schedule.reachable` — a schedule stays within the states that runs reach.
* `Ranking.eventually` — **the ranking rule**: under a fair schedule the goal is reached.
-/

namespace EventMachine

variable {σ ε α : Type*} {M : EventMachine σ ε} {acts : α → ε → Prop} {P Q : σ → Prop}

/-- The state after an event, or after a pause. -/
def stepOrPause (M : EventMachine σ ε) (s : σ) : Option ε → Option σ
  | some e => M.step s e
  | none => some s

/-- An endless run: the state at any time, and what happens then. -/
structure Schedule (M : EventMachine σ ε) where
  state : ℕ → σ
  event : ℕ → Option ε
  init : state 0 = M.init
  next : ∀ n, M.stepOrPause (state n) (event n) = some (state (n + 1))

/-- The actor can make a step. -/
def CanAct (M : EventMachine σ ε) (acts : α → ε → Prop) (a : α) (s : σ) : Prop :=
  ∃ e t, acts a e ∧ M.step s e = some t

namespace Schedule

variable {S : M.Schedule}

/-- If the actor can make a step at any time from `n` on, it makes one. -/
def Fair (S : M.Schedule) (acts : α → ε → Prop) (a : α) : Prop :=
  ∀ n, (∀ m, n ≤ m → M.CanAct acts a (S.state m)) → ∃ m e, n ≤ m ∧ S.event m = some e ∧ acts a e

theorem state_of_pause {n : ℕ} (h : S.event n = none) : S.state (n + 1) = S.state n := by
  have hnext := S.next n
  rw [h] at hnext
  exact (Option.some.inj hnext).symm

theorem step_of_event {n : ℕ} {e : ε} (h : S.event n = some e) :
    M.step (S.state n) e = some (S.state (n + 1)) := by
  have hnext := S.next n
  rw [h] at hnext
  exact hnext

/-- The states of a schedule are reached by runs. -/
theorem reachable (S : M.Schedule) (n : ℕ) : M.Reachable (S.state n) := by
  induction n with
  | zero => exact S.init ▸ .init
  | succ n ih =>
    cases hevent : S.event n with
    | none => exact (state_of_pause hevent).symm ▸ ih
    | some e => exact ih.step trivial (step_of_event hevent)

/-- A schedule of another machine: the states seen through `f`, and the events through `g`,
for which some are pauses. -/
def map {τ δ : Type*} {N : EventMachine τ δ} (S : M.Schedule) (f : σ → τ) (g : ε → Option δ)
    (hinit : f M.init = N.init)
    (hstep : ∀ s e t, M.step s e = some t → N.stepOrPause (f s) (g e) = some (f t)) :
    N.Schedule where
  state n := f (S.state n)
  event n := (S.event n).bind g
  init := (congrArg f S.init).trans hinit
  next n := by
    cases hevent : S.event n with
    | none => rw [state_of_pause hevent, Option.bind_none, stepOrPause]
    | some e => exact hstep _ _ _ (step_of_event hevent)

/-! ### Replaying a list of events -/

/-- The state after the first `n` events of a list, those left out that cannot happen. -/
def replayState (M : EventMachine σ ε) (es : List ε) : ℕ → σ
  | 0 => M.init
  | n + 1 => (es[n]?.bind (M.step (replayState M es n))).getD (replayState M es n)

/-- The schedule that makes the steps of a list, and pauses ever after. -/
def replay (M : EventMachine σ ε) (es : List ε) : M.Schedule where
  state := replayState M es
  event n := es[n]?.filter fun e => (M.step (replayState M es n) e).isSome
  init := rfl
  next n := by
    rw [replayState]
    cases es[n]? with
    | none => rfl
    | some e => cases hstep : M.step (replayState M es n) e <;> simp [hstep, stepOrPause, Option.filter]

theorem replayState_of_le {es : List ε} {n : ℕ} (h : es.length ≤ n) :
    replayState M es n = replayState M es es.length := by
  induction n, h using Nat.le_induction with
  | base => rfl
  | succ n hn ih =>
    rw [replayState, List.getElem?_eq_none hn]
    exact ih

/-- A replayed list is fair to an actor that has nothing to do in the end. -/
theorem fair_replay {es : List ε} {a : α}
    (h : ¬ M.CanAct acts a (replayState M es es.length)) : (replay M es).Fair acts a := by
  intro n hcan
  have hlast : M.CanAct acts a (replayState M es (n + es.length)) := hcan _ (Nat.le_add_right _ _)
  rw [replayState_of_le (Nat.le_add_left _ _)] at hlast
  exact absurd hlast h

end Schedule

/-- What leads from `P` to `Q`: a rank that no step raises, and an actor that can make a step
and lowers the rank by any step it makes.  It stays the same actor until the rank is lower. -/
structure Ranking (M : EventMachine σ ε) (acts : α → ε → Prop) (P Q : σ → Prop) where
  rank : σ → ℕ
  helpful : σ → α
  canAct : ∀ s, P s → ¬ Q s → M.CanAct acts (helpful s) s
  step : ∀ s e t, P s → ¬ Q s → M.step s e = some t →
    Q t ∨ P t ∧ (rank t < rank s ∨
      rank t = rank s ∧ helpful t = helpful s ∧ ¬ acts (helpful s) e)

namespace Ranking

variable {S : M.Schedule}

/-- As long as neither `Q` is reached nor the rank lowered, the helpful actor stays the same. -/
theorem stays (R : M.Ranking acts P Q) {n : ℕ} (hP : P (S.state n))
    (hnot : ∀ m, n ≤ m → ¬ Q (S.state m))
    (hrank : ∀ m, n ≤ m → P (S.state m) → ¬ R.rank (S.state m) < R.rank (S.state n)) {m : ℕ}
    (hm : n ≤ m) :
    P (S.state m) ∧ R.rank (S.state m) = R.rank (S.state n) ∧
      R.helpful (S.state m) = R.helpful (S.state n) := by
  induction m, hm using Nat.le_induction with
  | base => exact ⟨hP, rfl, rfl⟩
  | succ m hm ih =>
    obtain ⟨hPm, hrankm, hhelpful⟩ := ih
    cases hevent : S.event m with
    | none =>
      rw [Schedule.state_of_pause hevent]
      exact ⟨hPm, hrankm, hhelpful⟩
    | some e =>
      rcases R.step _ _ _ hPm (hnot m hm) (Schedule.step_of_event hevent) with
        hQ | ⟨hPnext, hlower | ⟨hsame, hactor, -⟩⟩
      · exact absurd hQ (hnot (m + 1) (by omega))
      · exact absurd (hrankm ▸ hlower) (hrank (m + 1) (by omega) hPnext)
      · exact ⟨hPnext, hsame.trans hrankm, hactor.trans hhelpful⟩

/-- **The ranking rule.**  From `P` a schedule that is fair to all actors comes to `Q`. -/
theorem eventually (R : M.Ranking acts P Q) (hfair : ∀ a, S.Fair acts a) {n : ℕ}
    (hP : P (S.state n)) : ∃ m, n ≤ m ∧ Q (S.state m) := by
  induction hr : R.rank (S.state n) using Nat.strong_induction_on generalizing n with
  | _ r ih =>
    by_contra hnever
    have hnot : ∀ m, n ≤ m → ¬ Q (S.state m) := fun m hm hQ => hnever ⟨m, hm, hQ⟩
    -- a lower rank would lead to `Q`
    have hrank : ∀ m, n ≤ m → P (S.state m) → ¬ R.rank (S.state m) < R.rank (S.state n) := by
      intro m hm hPm hlower
      obtain ⟨l, hl, hQ⟩ := ih _ (hr ▸ hlower) hPm rfl
      exact hnot l (Nat.le_trans hm hl) hQ
    obtain ⟨m, e, hm, hevent, hacts⟩ := hfair (R.helpful (S.state n)) n fun m hm => by
      obtain ⟨hPm, -, hhelpful⟩ := R.stays hP hnot hrank hm
      rw [← hhelpful]
      exact R.canAct _ hPm (hnot m hm)
    obtain ⟨hPm, hrankm, hhelpful⟩ := R.stays hP hnot hrank hm
    -- the step of the helpful actor lowers the rank after all
    rcases R.step _ _ _ hPm (hnot m hm) (Schedule.step_of_event hevent) with
      hQ | ⟨hPnext, hlower | ⟨-, -, hother⟩⟩
    · exact hnot (m + 1) (by omega) hQ
    · exact hrank (m + 1) (by omega) hPnext (hrankm ▸ hlower)
    · rw [hhelpful] at hother
      exact hother hacts

end Ranking

end EventMachine
