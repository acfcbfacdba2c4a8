import TestDatabase.Lib.FairSchedule
import TestDatabase.Clients.WorkerThreads

/-!
# `stop()` returns

`stop()` sets `isStop` and waits, without a timeout, for the thread to signal that it has
seen it.  Meanwhile the thread finishes its round of puts or gets, and the thread of the
other kind goes on with its own.  On `exit`, `main` stops the one and then the other.

A thread that is inside `put()` or `get()` goes on when the call returns, which the server
decides.  No exception leaves `run()`: it would end the program.

## Main definitions

* `Actor`, `Acts` — `main` and the two threads.
* `World.Effect` — what a step can do.
* `World.Told` — a thread waited for has been told to stop, and those the program leaves
  behind have returned.
* `stopRanking` — the steps `main` and the thread it waits for have still to make.
* `callingThreads` — the program with the calls of `put()` and `get()` its threads are in.
* `CallsReturn` — every such call returns at some time.

## Main results

* `World.Told.step` — every step keeps `Told`.
* `fair_withoutCalls` — calls that return are no obstacle to a fair schedule.
* `stop_returns` — **every stop comes to its end, if the calls return.**
-/

namespace TestDatabase.WorkerThreads

/-- Who makes a step, the user and the threads that have returned apart. -/
inductive Actor
  | main
  | thread (kind : Kind)
  deriving DecidableEq, Repr

/-- The steps of an actor. -/
inductive Acts : Actor → Event → Prop
  | main : Acts .main .main
  | thread (kind : Kind) : Acts (.thread kind) (.run kind)

/-! ### The steps of a thread -/

namespace Worker

variable {worker worker' : Worker}

/-- The steps a thread still makes once `isStop` is set. -/
def toGo (worker : Worker) : ℕ :=
  match worker.progress with
  | .creating => 2
  | .checking => 1
  | .working i => worker.nPvs - i + 3
  | .sleeping => 2
  | .returned => 0

/-- More than the steps of a thread that is told to stop, and of `main` that waits for it. -/
def bound (worker : Worker) : ℕ := worker.nPvs + 5

theorem toGo_lt_bound (worker : Worker) : worker.toGo + 1 < worker.bound := by
  unfold toGo bound
  split <;> omega

/-- No step changes how many channels there are, or takes back that the thread is to stop. -/
theorem kept_of_step (hs : worker.step = some worker') :
    worker'.nPvs = worker.nPvs ∧ worker'.isStop = worker.isStop := by
  unfold Worker.step at hs
  split at hs
  · obtain rfl := Option.some.inj hs
    exact ⟨rfl, rfl⟩
  · obtain rfl := Option.some.inj hs
    unfold check
    split <;> exact ⟨rfl, rfl⟩
  · obtain rfl := Option.some.inj hs
    unfold work
    split <;> exact ⟨rfl, rfl⟩
  · obtain rfl := Option.some.inj hs
    exact ⟨rfl, rfl⟩
  · exact absurd hs (by simp)

/-- **A thread that is told to stop comes closer to its return by every step.** -/
theorem toGo_of_step (hstop : worker.isStop = true) (hs : worker.step = some worker') :
    worker'.toGo < worker.toGo := by
  unfold Worker.step at hs
  split at hs
  · next hprogress =>
    obtain rfl := Option.some.inj hs
    simp [toGo, hprogress]
  · next hprogress =>
    obtain rfl := Option.some.inj hs
    simp [toGo, check, hstop, hprogress]
  · next i hprogress =>
    obtain rfl := Option.some.inj hs
    unfold work
    split
    · simp only [toGo, hprogress]
      omega
    · simp only [toGo, hprogress]
      omega
  · next hprogress =>
    obtain rfl := Option.some.inj hs
    simp [toGo, hprogress]
  · exact absurd hs (by simp)

/-- A thread makes steps until it has returned. -/
theorem exists_step (h : worker.Live) : ∃ worker', worker.step = some worker' := by
  unfold Worker.step
  split
  · exact ⟨_, rfl⟩
  · exact ⟨_, rfl⟩
  · exact ⟨_, rfl⟩
  · exact ⟨_, rfl⟩
  · next hreturned => exact absurd hreturned h

theorem live_of_step (hs : worker.step = some worker') : worker.Live := by
  intro hreturned
  simp [Worker.step, hreturned] at hs

end Worker

/-! ### The steps of the program -/

namespace World

variable {w w' : World} {e : Event}

/-- What a step can do. -/
inductive Effect (w : World) : Event → World → Prop
  | command (command : Command) (hmain : w.main = .reading) :
    Effect w (.command command) (w.command command)
  | tell (kind : Kind) (exiting : Bool) (worker : Worker) (hmain : w.main = .stopping kind exiting)
      (hpointer : w.pointer kind = some worker) :
    Effect w .main { w with
      main := .waiting kind exiting
      pointer := Function.update w.pointer kind (some { worker with isStop := true }) }
  | returns (kind : Kind) (exiting : Bool) (worker : Worker) (hmain : w.main = .waiting kind exiting)
      (hpointer : w.pointer kind = some worker) (hsignal : worker.waitForStop = true) :
    Effect w .main (w.stopReturns kind exiting worker)
  | run (kind : Kind) (worker worker' : Worker) (hpointer : w.pointer kind = some worker)
      (hstep : worker.step = some worker') :
    Effect w (.run kind) { w with pointer := Function.update w.pointer kind (some worker') }
  | runPast (i : ℕ) (worker worker' : Worker) (hpast : w.past[i]? = some worker)
      (hstep : worker.step = some worker') :
    Effect w (.runPast i) { w with past := w.past.set i worker' }

theorem step_effect (hs : w.step e = some w') : w.Effect e w' := by
  cases e with
  | command command =>
    simp only [World.step, Option.ite_none_right_eq_some, Option.some.injEq] at hs
    obtain ⟨hmain, rfl⟩ := hs
    exact .command command hmain
  | main =>
    simp only [World.step, mainStep] at hs
    split at hs
    · next kind exiting hmain =>
      obtain ⟨worker, hpointer, rfl⟩ := Option.map_eq_some_iff.mp hs
      exact .tell kind exiting worker hmain hpointer
    · next kind exiting hmain =>
      obtain ⟨worker, hpointer, hreturns⟩ := Option.bind_eq_some_iff.mp hs
      simp only [Option.ite_none_right_eq_some, Option.some.injEq] at hreturns
      obtain ⟨hsignal, rfl⟩ := hreturns
      exact .returns kind exiting worker hmain hpointer hsignal
    · exact absurd hs (by simp)
  | run kind =>
    obtain ⟨worker', hbind, rfl⟩ := Option.map_eq_some_iff.mp hs
    obtain ⟨worker, hpointer, hstep⟩ := Option.bind_eq_some_iff.mp hbind
    exact .run kind worker worker' hpointer hstep
  | runPast i =>
    obtain ⟨worker', hbind, rfl⟩ := Option.map_eq_some_iff.mp hs
    obtain ⟨worker, hpast, hstep⟩ := Option.bind_eq_some_iff.mp hbind
    exact .runPast i worker worker' hpast hstep

/-- `exit` without a `PutThread`, or with one that has returned: stop the `GetThread`, if
there is one. -/
theorem exitGetThread_cases (w : World) :
    (∃ worker, w.pointer .get = some worker ∧
      w.exitGetThread = { w with main := .stopping .get true }) ∨
    w.pointer .get = none ∧ w.exitGetThread = { w with main := .exited } := by
  unfold exitGetThread
  cases hget : w.pointer .get with
  | none => exact .inr ⟨rfl, rfl⟩
  | some worker => exact .inl ⟨worker, rfl, rfl⟩

/-- On `exit` the `GetThread` is stopped once the `PutThread` is. -/
theorem stopReturns_put_cases (w : World) (worker : Worker) :
    (∃ other, w.pointer .get = some other ∧
      (w.stopReturns .put true worker).main = .stopping .get true ∧
      (w.stopReturns .put true worker).pointer .get = some other) ∨
    (w.stopReturns .put true worker).main = .exited := by
  let v : World := { w with
    pointer := Function.update w.pointer .put
      (some { worker with waitForStop := false, stopped := true }) }
  have hv : w.stopReturns .put true worker = v.exitGetThread := rfl
  have hget : v.pointer .get = w.pointer .get := by simp [v]
  rw [hv]
  rcases v.exitGetThread_cases with ⟨other, hother, hworld⟩ | ⟨-, hworld⟩
  · rw [hworld]
    exact .inl ⟨other, hget.symm.trans hother, rfl, hother⟩
  · rw [hworld]
    exact .inr rfl

/-! ### What the threads have been told -/

/-- A thread waited for has been told to stop.  The `PutThread` has returned when `exit` stops
the `GetThread`, and both have when the program ends. -/
structure Told (w : World) : Prop where
  told : ∀ {kind exiting worker}, w.main = .waiting kind exiting →
    w.pointer kind = some worker → worker.isStop = true
  putEnded : ∀ {worker}, w.main.target = some (.get, true) →
    w.pointer .put = some worker → worker.progress = .returned
  ended : ∀ {kind worker}, w.main = .exited →
    w.pointer kind = some worker → worker.progress = .returned

theorem told_init : Told {} where
  told := fun hmain => MainStep.noConfusion hmain
  putEnded := fun htarget => absurd htarget (by simp [MainStep.target])
  ended := fun hmain => MainStep.noConfusion hmain

/-- Nothing is claimed while `main` reads commands. -/
theorem told_of_reading (hmain : w.main = .reading) : w.Told where
  told := fun hwaiting => MainStep.noConfusion (hmain.symm.trans hwaiting)
  putEnded := fun htarget => absurd htarget (by simp [hmain, MainStep.target])
  ended := fun hexited => MainStep.noConfusion (hmain.symm.trans hexited)

/-- A stop begins. -/
theorem told_of_stopping {kind : Kind} {exiting : Bool} (hmain : w.main = .stopping kind exiting)
    (hput : kind = .get → exiting = true → ∀ worker, w.pointer .put = some worker →
      worker.progress = .returned) : w.Told where
  told := fun hwaiting => MainStep.noConfusion (hmain.symm.trans hwaiting)
  putEnded := by
    intro worker htarget hpointer
    obtain ⟨rfl, rfl⟩ : kind = .get ∧ exiting = true := by simpa [hmain, MainStep.target] using htarget
    exact hput rfl rfl worker hpointer
  ended := fun hexited => MainStep.noConfusion (hmain.symm.trans hexited)

/-- `exit` goes on to the `GetThread` with a `PutThread` that has returned. -/
theorem told_exitGetThread
    (hput : ∀ worker, w.pointer .put = some worker → worker.progress = .returned) :
    w.exitGetThread.Told := by
  rcases w.exitGetThread_cases with ⟨worker, -, hworld⟩ | ⟨hget, hworld⟩
  · rw [hworld]
    exact told_of_stopping rfl fun _ _ => hput
  · rw [hworld]
    refine ⟨fun hwaiting => MainStep.noConfusion hwaiting,
      fun htarget => absurd htarget (by simp [MainStep.target]), ?_⟩
    intro kind worker _ hpointer
    cases kind with
    | put => exact hput worker hpointer
    | get => exact absurd (hget.symm.trans hpointer) (by simp)

theorem told_command (hmain : w.main = .reading) (command : Command) : (w.command command).Told := by
  cases command with
  | toggle kind nPvs =>
    simp only [World.command]
    split
    · exact told_of_stopping rfl fun _ hexiting => Bool.noConfusion hexiting
    · exact told_of_reading hmain
  | exit =>
    simp only [World.command]
    split
    · exact told_of_stopping rfl fun hkind => Kind.noConfusion hkind
    · next hnone =>
      refine told_exitGetThread fun worker hpointer => ?_
      exact absurd (by rw [hpointer]; rfl) hnone
  | other => exact told_of_reading hmain

/-- **Every step keeps what the threads have been told.** -/
theorem Told.step (h : w.Told) (hinv : w.Inv) (hs : w.step e = some w') : w'.Told := by
  cases step_effect hs with
  | command command hmain => exact told_command hmain command
  | tell kind exiting worker hmain hpointer =>
    refine ⟨?_, ?_, fun hexited => MainStep.noConfusion hexited⟩
    · intro kind' exiting' other hwaiting hother
      obtain ⟨rfl, -⟩ := MainStep.waiting.inj hwaiting
      rcases pointer_update hother with ⟨-, hnew⟩ | ⟨hne, -⟩
      · obtain rfl := Option.some.inj hnew
        rfl
      · exact absurd rfl hne
    · intro other htarget hother
      obtain ⟨rfl, rfl⟩ : kind = .get ∧ exiting = true := by simpa [MainStep.target] using htarget
      exact h.putEnded (by simp [hmain, MainStep.target]) (by simpa using hother)
  | returns kind exiting worker hmain hpointer hsignal =>
    have hreturned : worker.progress = .returned := (hinv.pointed hpointer).2.signalled hsignal
    unfold stopReturns
    cases exiting with
    | false => exact told_of_reading rfl
    | true =>
      cases kind with
      | put =>
        refine told_exitGetThread fun other hother => ?_
        obtain rfl : _ = other := by simpa using hother
        exact hreturned
      | get =>
        refine ⟨fun hwaiting => MainStep.noConfusion hwaiting,
          fun htarget => absurd htarget (by simp [MainStep.target]), ?_⟩
        intro kind other _ hother
        rcases pointer_update hother with ⟨-, hnew⟩ | ⟨hkind, hold⟩
        · obtain rfl := Option.some.inj hnew
          exact hreturned
        · obtain rfl : kind = .put := by cases kind <;> simp_all
          exact h.putEnded (by simp [hmain, MainStep.target]) hold
  | run kind worker worker' hpointer hstep =>
    refine ⟨?_, ?_, ?_⟩
    · intro kind' exiting other hwaiting hother
      rcases pointer_update hother with ⟨rfl, hnew⟩ | ⟨-, hold⟩
      · obtain rfl := Option.some.inj hnew
        exact (Worker.kept_of_step hstep).2.trans (h.told hwaiting hpointer)
      · exact h.told hwaiting hold
    · intro other htarget hother
      rcases pointer_update hother with ⟨rfl, -⟩ | ⟨-, hold⟩
      · exact absurd (h.putEnded htarget hpointer) (Worker.live_of_step hstep)
      · exact h.putEnded htarget hold
    · intro kind' other hexited hother
      rcases pointer_update hother with ⟨rfl, -⟩ | ⟨-, hold⟩
      · exact absurd (h.ended hexited hpointer) (Worker.live_of_step hstep)
      · exact h.ended hexited hold
  | runPast i worker worker' hpast hstep => exact ⟨h.told, h.putEnded, h.ended⟩

theorem told_of_reachable (hw : workerThreads.Reachable w) : w.Told := by
  have hboth : w.Inv ∧ w.Told := by
    refine hw.invariant (I := fun w => w.Inv ∧ w.Told) ⟨inv_init, told_init⟩ ?_
    intro s e t h _ hs
    exact ⟨h.1.step hs, h.2.step h.1 hs⟩
  exact hboth.2

/-! ### The ranking -/

/-- The steps left to the thread `exit` stops after the one of this kind. -/
def behind (w : World) (kind : Kind) (exiting : Bool) : ℕ :=
  if exiting = true ∧ kind = .put then (w.pointer .get).elim 0 Worker.bound else 0

/-- At least as many steps as `main` and the threads it stops have still to make. -/
def rank (w : World) : ℕ :=
  match w.main with
  | .stopping kind exiting => (w.pointer kind).elim 0 Worker.bound + w.behind kind exiting
  | .waiting kind exiting =>
    (w.pointer kind).elim 0 (fun worker => worker.toGo + 1) + w.behind kind exiting
  | _ => 0

/-- Who is to make the next step: the thread waited for, or `main` once it has returned. -/
def helpful (w : World) : Actor :=
  match w.main with
  | .waiting kind _ => if ∃ worker ∈ w.pointer kind, worker.Live then .thread kind else .main
  | _ => .main

/-- `main` is in a stop of a thread, or of the threads that are left on `exit`. -/
structure Stops (kind : Kind) (exiting : Bool) (w : World) : Prop where
  inv : w.Inv
  told : w.Told
  target : ∃ kind', w.main.target = some (kind', exiting) ∧ (exiting = false → kind' = kind)

/-- The stop has come to its end: the pointer is reset, or the program has ended. -/
def Stopped (kind : Kind) (exiting : Bool) (w : World) : Prop :=
  if exiting then w.main = .exited else w.main = .reading ∧ w.pointer kind = none

variable {kind : Kind} {exiting : Bool}

/-- The bounds do not change while the threads run. -/
theorem bound_update {worker worker' : Worker} (hpointer : w.pointer kind = some worker)
    (hstep : worker.step = some worker') (kind' : Kind) :
    (Function.update w.pointer kind (some worker') kind').elim 0 Worker.bound =
      (w.pointer kind').elim 0 Worker.bound := by
  by_cases hkind : kind' = kind
  · subst hkind
    rw [Function.update_self, hpointer]
    exact congrArg (· + 5) (Worker.kept_of_step hstep).1
  · rw [Function.update_of_ne hkind]

/-- Somebody can go on with a stop. -/
theorem canAct_helpful (h : w.Stops kind exiting) : workerThreads.CanAct Acts w.helpful w := by
  obtain ⟨kind', htarget, -⟩ := h.target
  obtain ⟨worker, hpointer, hnot⟩ := h.inv.target htarget
  cases hmain : w.main with
  | reading => simp [hmain, MainStep.target] at htarget
  | exited => simp [hmain, MainStep.target] at htarget
  | stopping stopped exiting' =>
    obtain ⟨rfl, rfl⟩ : stopped = kind' ∧ exiting' = exiting := by
      simpa [hmain, MainStep.target] using htarget
    have hstep : ∃ w', w.step .main = some w' := by
      simp [World.step, mainStep, hmain, hpointer]
    obtain ⟨w', hw'⟩ := hstep
    exact ⟨.main, w', by simpa [helpful, hmain] using Acts.main, hw'⟩
  | waiting stopped exiting' =>
    obtain ⟨rfl, rfl⟩ : stopped = kind' ∧ exiting' = exiting := by
      simpa [hmain, MainStep.target] using htarget
    by_cases hlive : worker.Live
    · obtain ⟨worker', hworker⟩ := Worker.exists_step hlive
      have hstep : ∃ w', w.step (.run stopped) = some w' := by
        simp [World.step, hpointer, hworker]
      obtain ⟨w', hw'⟩ := hstep
      exact ⟨.run stopped, w', by simpa [helpful, hmain, hpointer, hlive] using Acts.thread stopped,
        hw'⟩
    · -- the thread has returned, and its signal is there
      have hreturned : worker.progress = .returned := not_not.mp hlive
      have hsignal := (h.inv.pointed hpointer).2.latched hreturned hnot
      have hstep : ∃ w', w.step .main = some w' := by
        simp [World.step, mainStep, hmain, hpointer, hsignal]
      obtain ⟨w', hw'⟩ := hstep
      exact ⟨.main, w', by simpa [helpful, hmain, hpointer, hlive] using Acts.main, hw'⟩

/-- `main` goes on in a stop, or comes to its end, and has fewer steps left. -/
theorem stops_mainStep (h : w.Stops kind exiting) (hs : w.mainStep = some w') :
    w'.Stopped kind exiting ∨ w'.Stops kind exiting ∧ w'.rank < w.rank := by
  have hinv : w'.Inv := h.inv.step (e := .main) hs
  have htold : w'.Told := h.told.step (e := .main) h.inv hs
  obtain ⟨kind', htarget, hkind'⟩ := h.target
  cases step_effect (e := .main) hs with
  | tell stopped exiting' worker hmain hpointer =>
    obtain ⟨rfl, rfl⟩ : stopped = kind' ∧ exiting' = exiting := by
      simpa [hmain, MainStep.target] using htarget
    refine .inr ⟨⟨hinv, htold, stopped, rfl, hkind'⟩, ?_⟩
    have hbehind : World.behind { w with
        main := .waiting stopped exiting'
        pointer := Function.update w.pointer stopped (some { worker with isStop := true }) }
        stopped exiting' = w.behind stopped exiting' := by
      cases stopped <;> simp [behind]
    simp only [rank, hmain, hpointer, hbehind, Function.update_self, Option.elim_some]
    have hlt := worker.toGo_lt_bound
    have htoGo : Worker.toGo { worker with isStop := true } = worker.toGo := rfl
    omega
  | returns stopped exiting' worker hmain hpointer hsignal =>
    obtain ⟨rfl, rfl⟩ : stopped = kind' ∧ exiting' = exiting := by
      simpa [hmain, MainStep.target] using htarget
    cases exiting' with
    | false =>
      obtain rfl := hkind' rfl
      exact .inl ⟨rfl, Function.update_self ..⟩
    | true =>
      cases stopped with
      | get => exact .inl rfl
      | put =>
        rcases w.stopReturns_put_cases worker with ⟨other, hget, hmain', hget'⟩ | hexited
        · -- what is left is the `GetThread`, which was behind
          have htarget' : (w.stopReturns .put true worker).main.target = some (.get, true) := by
            rw [hmain', MainStep.target]
          refine .inr ⟨⟨hinv, htold, .get, htarget', fun heq => Bool.noConfusion heq⟩, ?_⟩
          simp only [rank, hmain', hget', hmain, hpointer, behind, hget, Option.elim_some]
          simp
        · exact .inl hexited

/-- A thread makes a step during a stop.  The one waited for has fewer steps left, and the
others change nothing. -/
theorem stops_run (h : w.Stops kind exiting) {running : Kind} {worker worker' : Worker}
    (hpointer : w.pointer running = some worker) (hstep : worker.step = some worker')
    (hw' : w' = { w with pointer := Function.update w.pointer running (some worker') }) :
    w'.rank < w.rank ∨
      w'.rank = w.rank ∧ w'.helpful = w.helpful ∧ ¬ Acts w.helpful (.run running) := by
  subst hw'
  obtain ⟨kind', htarget, -⟩ := h.target
  have hbound := bound_update hpointer hstep
  -- one bound is that of the thread behind
  have hbehind : ∀ main stopped exiting', World.behind { w with
      main := main
      pointer := Function.update w.pointer running (some worker') } stopped exiting' =
        w.behind stopped exiting' := by
    intro main stopped exiting'
    simp only [behind, hbound]
  cases hmain : w.main with
  | reading => simp [hmain, MainStep.target] at htarget
  | exited => simp [hmain, MainStep.target] at htarget
  | stopping stopped exiting' =>
    right
    simp only [rank, helpful, hmain, hbound, hbehind, true_and]
    intro hacts
    cases hacts
  | waiting stopped exiting' =>
    by_cases hsame : stopped = running
    · subst hsame
      left
      have hlower := Worker.toGo_of_step (h.told.told hmain hpointer) hstep
      simp only [rank, hmain, hbehind, hpointer, Function.update_self, Option.elim_some]
      omega
    · right
      simp only [rank, helpful, hmain, hbehind, Function.update_of_ne hsame, true_and]
      intro hacts
      split at hacts
      · cases hacts
        exact hsame rfl
      · cases hacts

end World

/-! ### Every stop ends -/

open World in
/-- The steps `main` and the thread it waits for have still to make. -/
def stopRanking (kind : Kind) (exiting : Bool) :
    workerThreads.Ranking Acts (Stops kind exiting) (Stopped kind exiting) where
  rank := World.rank
  helpful := World.helpful
  canAct _ h _ := canAct_helpful h
  step w e w' h _ hs := by
    have hinv : w'.Inv := h.inv.step hs
    have htold : w'.Told := h.told.step h.inv hs
    obtain ⟨kind', htarget, hkind'⟩ := h.target
    cases step_effect hs with
    | command command hmain => simp [hmain, MainStep.target] at htarget
    | tell | returns =>
      exact (stops_mainStep h hs).imp_right fun hnext => ⟨hnext.1, .inl hnext.2⟩
    | run running worker worker' hpointer hstep =>
      exact .inr ⟨⟨hinv, htold, kind', htarget, hkind'⟩, stops_run h hpointer hstep rfl⟩
    | runPast i worker worker' hpast hstep =>
      -- the threads that were stopped have returned and make no step
      have hreturned := (h.inv.past worker (List.mem_of_getElem? hpast)).2
      exact absurd hreturned (Worker.live_of_step hstep)

/-- Every stop comes to its end, under every schedule that passes over neither `main` nor a
thread for ever, whatever the user types and the other thread does: the command that stops a
thread resets its pointer and reads the next command, and `exit` ends the program, with all
threads returned. -/
theorem stop_ends (S : workerThreads.Schedule) (hfair : ∀ actor, S.Fair Acts actor) {n : ℕ}
    {kind : Kind} {exiting : Bool} (h : (S.state n).main.target = some (kind, exiting)) :
    ∃ m, n ≤ m ∧
      if exiting then (S.state m).main = .exited ∧
        ∀ worker ∈ (S.state m).workers, worker.progress = .returned
      else (S.state m).main = .reading ∧ (S.state m).pointer kind = none := by
  have hstops : (S.state n).Stops kind exiting :=
    ⟨World.inv_of_reachable (S.reachable n), World.told_of_reachable (S.reachable n), kind, h,
      fun _ => rfl⟩
  obtain ⟨m, hm, hstopped⟩ := (stopRanking kind exiting).eventually hfair hstops
  refine ⟨m, hm, ?_⟩
  cases exiting with
  | false => exact hstopped
  | true =>
    refine ⟨hstopped, fun worker hworker => ?_⟩
    have hinv := World.inv_of_reachable (S.reachable m)
    have htold := World.told_of_reachable (S.reachable m)
    simp only [World.workers, List.mem_append, Option.mem_toList] at hworker
    rcases hworker with (hput | hget) | hpast
    · exact htold.ended hstopped hput
    · exact htold.ended hstopped hget
    · exact (hinv.past worker hpast).2

/-! ### Calls that may not return

`put()` ends in a wait without a timeout, and `get()` in one of the library.  What is a step
of a thread above is here the beginning of a call, and the thread goes on when it returns. -/

/-- The program, and which of its threads are inside `put()` or `get()`. -/
structure CallWorld where
  world : World := {}
  inCall : Kind → Bool := fun _ => false

inductive CallEvent
  /-- An event of the program.  A call of `put()` or `get()` only begins. -/
  | step (e : Event)
  /-- The call that the thread is in returns. -/
  | returns (kind : Kind)
  deriving DecidableEq, Repr

/-- The next step of the thread is a call of `put()` or `get()`. -/
def Worker.calls (worker : Worker) : Bool :=
  match worker.progress with
  | .working i => decide (i < worker.nPvs)
  | _ => false

/-- One event.  A thread that is inside a call makes no step. -/
def CallWorld.step (w : CallWorld) : CallEvent → Option CallWorld
  | .step (.run kind) =>
    if w.inCall kind then none
    else (w.world.step (.run kind)).map fun world =>
      { world, inCall := Function.update w.inCall kind ((w.world.pointer kind).any Worker.calls) }
  | .step (.command command) => (w.world.step (.command command)).map fun world => { w with world }
  | .step .main => (w.world.step .main).map fun world => { w with world }
  | .step (.runPast i) => (w.world.step (.runPast i)).map fun world => { w with world }
  | .returns kind =>
    if w.inCall kind then some { w with inCall := Function.update w.inCall kind false } else none

/-- The program, among its user, its threads and the calls they are in. -/
def callingThreads : EventMachine CallWorld CallEvent where
  init := {}
  step := CallWorld.step

/-- The event of the program, if it is one. -/
def CallEvent.event : CallEvent → Option Event
  | .step e => some e
  | .returns _ => none

/-- The steps of an actor. -/
def CallActs (actor : Actor) (e : CallEvent) : Prop := ∃ e', e = .step e' ∧ Acts actor e'

namespace CallWorld

variable {w w' : CallWorld} {e : CallEvent}

/-- Seen without the calls, an event is a step of the program, or a pause. -/
theorem stepOrPause_of_step (hs : w.step e = some w') :
    workerThreads.stepOrPause w.world e.event = some w'.world := by
  cases e with
  | step e =>
    cases e with
    | run kind =>
      simp only [step, Option.ite_none_left_eq_some, Option.map_eq_some_iff] at hs
      obtain ⟨-, world, hworld, rfl⟩ := hs
      exact hworld
    | command | main | runPast =>
      obtain ⟨world, hworld, rfl⟩ := Option.map_eq_some_iff.mp hs
      exact hworld
  | returns kind =>
    simp only [step, Option.ite_none_right_eq_some, Option.some.injEq] at hs
    obtain ⟨-, rfl⟩ := hs
    rfl

/-- Only its own step gets a thread into a call. -/
theorem inCall_of_step (hs : w.step e = some w') {kind : Kind} (hne : e ≠ .step (.run kind))
    (hcall : w'.inCall kind = true) : w.inCall kind = true := by
  cases e with
  | step e =>
    cases e with
    | run running =>
      simp only [step, Option.ite_none_left_eq_some, Option.map_eq_some_iff] at hs
      obtain ⟨-, world, -, rfl⟩ := hs
      have hkind : kind ≠ running := fun heq => hne (by rw [heq])
      simpa [Function.update_of_ne hkind] using hcall
    | command | main | runPast =>
      obtain ⟨world, -, rfl⟩ := Option.map_eq_some_iff.mp hs
      exact hcall
  | returns returning =>
    simp only [step, Option.ite_none_right_eq_some, Option.some.injEq] at hs
    obtain ⟨-, rfl⟩ := hs
    by_cases hkind : kind = returning
    · subst hkind
      simp at hcall
    · simpa [Function.update_of_ne hkind] using hcall

/-- An actor that is not inside a call can make the steps it can make without the calls. -/
theorem canAct_of_world {actor : Actor} (hcan : workerThreads.CanAct Acts actor w.world)
    (hcall : ∀ kind, actor = .thread kind → w.inCall kind = false) :
    callingThreads.CanAct CallActs actor w := by
  obtain ⟨e, world, hacts, hs⟩ := hcan
  cases hacts with
  | main =>
    refine ⟨.step .main, { w with world }, ⟨_, rfl, .main⟩, ?_⟩
    exact Option.map_eq_some_iff.mpr ⟨world, hs, rfl⟩
  | thread kind =>
    have hout : ¬ w.inCall kind = true := by simp [hcall kind rfl]
    let calls := (w.world.pointer kind).any Worker.calls
    refine ⟨.step (.run kind), { world, inCall := Function.update w.inCall kind calls },
      ⟨_, rfl, .thread kind⟩, ?_⟩
    exact (if_neg hout).trans (Option.map_eq_some_iff.mpr ⟨world, hs, rfl⟩)

end CallWorld

/-- A schedule of the program, seen without the calls. -/
def withoutCalls (S : callingThreads.Schedule) : workerThreads.Schedule :=
  S.map CallWorld.world CallEvent.event rfl fun _ _ _ hs => CallWorld.stepOrPause_of_step hs

/-- Every call of `put()` or `get()` returns at some time. -/
def CallsReturn (S : callingThreads.Schedule) : Prop :=
  ∀ n kind, (S.state n).inCall kind = true → ∃ m, n ≤ m ∧ S.event m = some (.returns kind)

section fair
variable {S : callingThreads.Schedule}

/-- A thread that makes no step any more is inside no call from some time on. -/
theorem exists_outside (hreturns : CallsReturn S) {kind : Kind} {n : ℕ}
    (hnone : ∀ m, n ≤ m → S.event m ≠ some (.step (.run kind))) :
    ∃ m, n ≤ m ∧ ∀ l, m ≤ l → (S.state l).inCall kind = false := by
  -- once outside, it stays outside
  have hstays : ∀ m, n ≤ m → (S.state m).inCall kind = false →
      ∀ l, m ≤ l → (S.state l).inCall kind = false := by
    intro m hm hout l hl
    induction l, hl using Nat.le_induction with
    | base => exact hout
    | succ l hl ih =>
      cases hevent : S.event l with
      | none => rw [EventMachine.Schedule.state_of_pause hevent, ih]
      | some e =>
        by_contra hin
        have hne : e ≠ .step (.run kind) := by
          rintro rfl
          exact hnone l (by omega) hevent
        have hbefore := CallWorld.inCall_of_step (EventMachine.Schedule.step_of_event hevent) hne
          (by simpa using hin)
        simp [ih] at hbefore
  cases hcall : (S.state n).inCall kind with
  | false => exact ⟨n, Nat.le_refl n, hstays n (Nat.le_refl n) hcall⟩
  | true =>
    obtain ⟨m, hm, hevent⟩ := hreturns n kind hcall
    have hs := EventMachine.Schedule.step_of_event hevent
    simp only [callingThreads, CallWorld.step, Option.ite_none_right_eq_some,
      Option.some.injEq] at hs
    refine ⟨m + 1, by omega, hstays (m + 1) (by omega) ?_⟩
    rw [← hs.2]
    exact Function.update_self ..

/-- **If the calls return, a fair schedule is fair without them.** -/
theorem fair_withoutCalls (hfair : ∀ actor, S.Fair CallActs actor) (hreturns : CallsReturn S)
    (actor : Actor) : (withoutCalls S).Fair Acts actor := by
  intro n hcan
  by_contra hnone
  have hnone : ∀ m, n ≤ m → ∀ e, S.event m = some e → ¬ CallActs actor e := by
    rintro m hm _ hevent ⟨e, rfl, hacts⟩
    refine hnone ⟨m, e, hm, ?_, hacts⟩
    show (S.event m).bind CallEvent.event = some e
    rw [hevent]
    rfl
  have hout : ∃ m, n ≤ m ∧ ∀ l, m ≤ l → ∀ kind, actor = .thread kind →
      (S.state l).inCall kind = false := by
    cases actor with
    | main => exact ⟨n, Nat.le_refl n, fun _ _ kind hkind => Actor.noConfusion hkind⟩
    | thread kind =>
      obtain ⟨m, hm, hout⟩ := exists_outside hreturns fun m hm hevent =>
        hnone m hm _ hevent ⟨_, rfl, .thread kind⟩
      refine ⟨m, hm, fun l hl kind' hkind => ?_⟩
      obtain rfl := Actor.thread.inj hkind
      exact hout l hl
  obtain ⟨m, hm, hout⟩ := hout
  obtain ⟨l, e, hl, hevent, hacts⟩ := hfair actor m fun l hl =>
    CallWorld.canAct_of_world (hcan l (by omega)) (hout l hl)
  exact hnone l (by omega) e hevent hacts

end fair

/-- **Every stop comes to its end, if the calls of `put()` and `get()` return**, under every
schedule that passes over neither `main` nor a thread for ever, whatever the user types and
the other thread does: the command that stops a thread resets its pointer and reads the next
command, and `exit` ends the program, with all threads returned. -/
theorem stop_returns (S : callingThreads.Schedule) (hfair : ∀ actor, S.Fair CallActs actor)
    (hreturns : CallsReturn S) {n : ℕ} {kind : Kind} {exiting : Bool}
    (h : (S.state n).world.main.target = some (kind, exiting)) :
    ∃ m, n ≤ m ∧
      if exiting then (S.state m).world.main = .exited ∧
        ∀ worker ∈ (S.state m).world.workers, worker.progress = .returned
      else (S.state m).world.main = .reading ∧ (S.state m).world.pointer kind = none :=
  stop_ends (withoutCalls S) (fair_withoutCalls hfair hreturns) h

/-- Both threads are made, and `exit` stops them while they work. -/
def exitRun : List CallEvent :=
  [.step (.command (.toggle .put 1)), .step (.command (.toggle .get 2)), .step (.run .put),
    .step (.run .get), .step (.run .get), .step (.run .put), .step (.run .get),
    .step (.command .exit), .step .main, .step (.run .put), .returns .get, .step (.run .get),
    .returns .put, .step (.run .put), .step (.run .put), .returns .get, .step (.run .get),
    .step (.run .put), .step .main, .step .main, .step (.run .get), .step (.run .get), .step .main]

theorem stop_returns_exitRun :
    ∃ m, 8 ≤ m ∧
      ((EventMachine.Schedule.replay callingThreads exitRun).state m).world.main = .exited ∧
      ∀ worker ∈ ((EventMachine.Schedule.replay callingThreads exitRun).state m).world.workers,
        worker.progress = .returned := by
  have hstop : ((EventMachine.Schedule.replay callingThreads exitRun).state 8).world.main.target =
      some (.put, true) := by decide
  refine stop_returns _ ?_ ?_ hstop
  · intro actor
    apply EventMachine.Schedule.fair_replay
    rintro ⟨_, w', ⟨e, rfl, hacts⟩, hs⟩
    -- the program has ended, and its threads have returned
    have hnone : ∀ e ∈ [Event.main, .run .put, .run .get],
        (callingThreads.step (EventMachine.Schedule.replayState callingThreads exitRun
          exitRun.length) (.step e)).isNone = true := by decide
    have he : e ∈ [Event.main, .run .put, .run .get] := by
      cases hacts with
      | main => simp
      | thread kind => cases kind <;> simp
    simpa [hs] using hnone e he
  · -- the calls begun return, and in the end there is none
    intro n kind hcall
    by_cases hn : exitRun.length ≤ n
    · have hlast : ∀ kind, (EventMachine.Schedule.replayState callingThreads exitRun
          exitRun.length).inCall kind = false := by
        intro kind
        cases kind <;> decide
      have hstate : (EventMachine.Schedule.replay callingThreads exitRun).state n = _ :=
        EventMachine.Schedule.replayState_of_le hn
      rw [hstate, hlast] at hcall
      exact Bool.noConfusion hcall
    · have hreturned : ∀ n ∈ List.range exitRun.length, ∀ kind ∈ [Kind.put, .get],
          ((EventMachine.Schedule.replay callingThreads exitRun).state n).inCall kind = true →
          ∃ m ∈ List.range exitRun.length, n ≤ m ∧
            (EventMachine.Schedule.replay callingThreads exitRun).event m =
              some (.returns kind) := by decide +kernel
      have hkind : kind ∈ [Kind.put, .get] := by cases kind <;> simp
      obtain ⟨m, -, hm⟩ := hreturned n (List.mem_range.mpr (by omega)) kind hkind hcall
      exact ⟨m, hm⟩

end TestDatabase.WorkerThreads
