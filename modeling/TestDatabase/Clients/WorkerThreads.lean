import Mathlib.Data.List.Basic
import Mathlib.Logic.Function.Basic
import TestDatabase.Lib.EventMachine

/-!
# Stopping the worker threads

On the commands `putThread` and `getThread` the program `getputmonitorrate` starts a thread
that puts to, or gets from, its channels again and again; the same command stops it, and
`exit` stops both.  `stop()` sets `isStop` under the mutex of the thread object and waits
for the event `waitForStop`.  `run()` looks at `isStop` under the mutex before each round of
operations, and if it is set signals the event and returns.

A section under the mutex is one step.  The event stays signalled until a wait takes the
signal.  The two classes have the same code; a call of `put()` or `get()` is one step,
whatever becomes of it.

## Main definitions

* `Worker`, `Worker.step` — a thread object and the steps of its `run()`.
* `World`, `World.mainStep` — `main`, the two pointers and the threads they pointed to.
* `workerThreads` — the event machine of the user, `main` and the threads.

## Main results

* `Worker.Ok.step`, `World.Inv.step` — the invariant of a thread, and that of all.
* `stop_is_final` — **stopping is final, is never missed, and leaves one thread of a kind.**
-/

namespace TestDatabase.WorkerThreads

/-! ### A thread -/

/-- `PutThread` and `GetThread` -/
inductive Kind
  | put
  | get
  deriving DecidableEq, Repr

/-- How far `run()` has come. -/
inductive RunStep
  /-- It makes its clients. -/
  | creating
  /-- It is about to look at `isStop`. -/
  | checking
  /-- It is about to call `put()` or `get()` of a client. -/
  | working (i : ℕ)
  | sleeping
  | returned
  deriving DecidableEq, Repr

/-- A `PutThread` or a `GetThread`. -/
structure Worker where
  kind : Kind
  nPvs : ℕ
  isStop : Bool := false
  /-- The event is signalled. -/
  waitForStop : Bool := false
  progress : RunStep := .creating
  /-- The calls of `put()` or `get()`. -/
  issued : ℕ := 0
  /-- `stop()` has returned. -/
  stopped : Bool := false
  /-- The calls of `put()` or `get()` since `stop()` returned. -/
  late : ℕ := 0
  deriving DecidableEq, Repr

namespace Worker

/-- The section under the mutex in `run()`. -/
def check (worker : Worker) : Worker :=
  if worker.isStop then { worker with waitForStop := true, progress := .returned }
  else { worker with progress := .working 0 }

/-- One call of `put()` or `get()`, or the end of the round. -/
def work (worker : Worker) (i : ℕ) : Worker :=
  if i < worker.nPvs then
    { worker with
      progress := .working (i + 1)
      issued := worker.issued + 1
      late := if worker.stopped then worker.late + 1 else worker.late }
  else { worker with progress := .sleeping }

/-- The next step of `run()`. -/
def step (worker : Worker) : Option Worker :=
  match worker.progress with
  | .creating => some { worker with progress := .checking }
  | .checking => some worker.check
  | .working i => some (worker.work i)
  | .sleeping => some { worker with progress := .checking }
  | .returned => none

/-- The thread has not returned. -/
def Live (worker : Worker) : Prop := worker.progress ≠ .returned

instance (worker : Worker) : Decidable worker.Live := inferInstanceAs (Decidable (_ ≠ _))

end Worker

/-! ### The program -/

/-- What the user types. -/
inductive Command
  /-- `putThread` with a number of channel names, `getThread` with those of the program. -/
  | toggle (kind : Kind) (nPvs : ℕ)
  | exit
  /-- Any other line. -/
  | other
  deriving DecidableEq, Repr

/-- How far `main` has come. -/
inductive MainStep
  /-- It reads a command. -/
  | reading
  /-- In `stop()`, before `isStop` is set. -/
  | stopping (kind : Kind) (exiting : Bool)
  /-- In `stop()`, waiting for the event. -/
  | waiting (kind : Kind) (exiting : Bool)
  | exited
  deriving DecidableEq, Repr

/-- `main` and the threads. -/
structure World where
  main : MainStep := .reading
  /-- `putThread` and `getThread`. -/
  pointer : Kind → Option Worker := fun _ => none
  /-- The threads whose pointer has been reset. -/
  past : List Worker := []

inductive Event
  | command (command : Command)
  /-- `main` makes its next step in `stop()`. -/
  | main
  /-- The thread a pointer points to makes its next step. -/
  | run (kind : Kind)
  /-- The same for a thread whose pointer has been reset. -/
  | runPast (i : ℕ)
  deriving DecidableEq, Repr

namespace World

/-- `exit` once `putThread` is stopped, or from the beginning if there is none. -/
def exitGetThread (w : World) : World :=
  { w with main := if (w.pointer .get).isSome then .stopping .get true else .exited }

/-- Carry a command out, up to `stop()`. -/
def command (w : World) : Command → World
  | .toggle kind nPvs =>
    match w.pointer kind with
    | some _ => { w with main := .stopping kind false }
    | none => { w with pointer := Function.update w.pointer kind (some { kind, nPvs }) }
  | .exit => if (w.pointer .put).isSome then { w with main := .stopping .put true }
    else w.exitGetThread
  | .other => w

/-- The wait has ended: `stop()` returns.  Unless the program ends, the pointer is reset. -/
def stopReturns (w : World) (kind : Kind) (exiting : Bool) (worker : Worker) : World :=
  let worker := { worker with waitForStop := false, stopped := true }
  if exiting then
    let w := { w with pointer := Function.update w.pointer kind (some worker) }
    match kind with
    | .put => w.exitGetThread
    | .get => { w with main := .exited }
  else
    { main := .reading
      pointer := Function.update w.pointer kind none
      past := worker :: w.past }

/-- The next step of `main` in `stop()`. -/
def mainStep (w : World) : Option World :=
  match w.main with
  | .stopping kind exiting =>
    (w.pointer kind).map fun worker =>
      { w with
        main := .waiting kind exiting
        pointer := Function.update w.pointer kind (some { worker with isStop := true }) }
  | .waiting kind exiting =>
    (w.pointer kind).bind fun worker =>
      if worker.waitForStop then some (w.stopReturns kind exiting worker) else none
  | _ => none

/-- One event. -/
def step (w : World) : Event → Option World
  | .command command => if w.main = .reading then some (w.command command) else none
  | .main => w.mainStep
  | .run kind =>
    ((w.pointer kind).bind Worker.step).map fun worker =>
      { w with pointer := Function.update w.pointer kind (some worker) }
  | .runPast i =>
    ((w.past[i]?).bind Worker.step).map fun worker => { w with past := w.past.set i worker }

/-- All threads. -/
def workers (w : World) : List Worker :=
  (w.pointer .put).toList ++ (w.pointer .get).toList ++ w.past

/-- How many threads of a kind have not returned. -/
def live (w : World) (kind : Kind) : ℕ :=
  w.workers.countP fun worker => worker.kind = kind ∧ worker.Live

end World

/-- The program, among its user and its threads. -/
def workerThreads : EventMachine World Event where
  init := {}
  step := World.step

/-! ### The invariant of a thread -/

namespace Worker

/-- What is known of a thread. -/
structure Ok (worker : Worker) : Prop where
  /-- The signal is that of the return. -/
  signalled : worker.waitForStop = true → worker.progress = .returned
  /-- The signal stays until `stop()` returns. -/
  latched : worker.progress = .returned → worker.stopped = false → worker.waitForStop = true
  stopped : worker.stopped = true → worker.progress = .returned
  late : worker.late = 0

theorem ok_new (kind : Kind) (nPvs : ℕ) : Ok { kind, nPvs } where
  signalled := Bool.noConfusion
  latched := RunStep.noConfusion
  stopped := Bool.noConfusion
  late := rfl

/-- **Every step of `run()` keeps what is known of the thread**, whatever `isStop` says. -/
theorem Ok.step {worker worker' : Worker} (h : worker.Ok) (hs : worker.step = some worker') :
    worker'.Ok ∧ worker'.kind = worker.kind ∧ worker'.stopped = worker.stopped := by
  have hrunning : worker.progress ≠ .returned := by
    intro hreturned
    simp [Worker.step, hreturned] at hs
  -- a thread that makes a step has not signalled, and its `stop()` has not returned
  have hsignal : worker.waitForStop = false := by
    by_contra hset
    exact hrunning (h.signalled (by simpa using hset))
  have hstopped : worker.stopped = false := by
    by_contra hset
    exact hrunning (h.stopped (by simpa using hset))
  have hlate := h.late
  unfold Worker.step at hs
  split at hs
  · obtain rfl := Option.some.inj hs
    exact ⟨⟨by simp [hsignal], by simp, by simp [hstopped], hlate⟩, rfl, rfl⟩
  · obtain rfl := Option.some.inj hs
    unfold check
    split
    · exact ⟨⟨fun _ => rfl, fun _ _ => rfl, fun _ => rfl, hlate⟩, rfl, rfl⟩
    · exact ⟨⟨by simp [hsignal], by simp, by simp [hstopped], hlate⟩, rfl, rfl⟩
  · obtain rfl := Option.some.inj hs
    unfold work
    split
    · exact ⟨⟨by simp [hsignal], by simp, by simp [hstopped], by simp [hstopped, hlate]⟩, rfl, rfl⟩
    · exact ⟨⟨by simp [hsignal], by simp, by simp [hstopped], hlate⟩, rfl, rfl⟩
  · obtain rfl := Option.some.inj hs
    exact ⟨⟨by simp [hsignal], by simp, by simp [hstopped], hlate⟩, rfl, rfl⟩
  · exact absurd hs (by simp)

/-- `stop()` may set `isStop` at any time. -/
theorem Ok.setStop {worker : Worker} (h : worker.Ok) : Ok { worker with isStop := true } :=
  ⟨h.signalled, h.latched, h.stopped, h.late⟩

/-- Once the wait has ended the thread has returned. -/
theorem Ok.setStopped {worker : Worker} (h : worker.Ok) (hsignal : worker.waitForStop = true) :
    Ok { worker with waitForStop := false, stopped := true } where
  signalled := Bool.noConfusion
  latched := fun _ hset => Bool.noConfusion hset
  stopped := fun _ => h.signalled hsignal
  late := h.late

end Worker

/-! ### The invariant of all threads -/

/-- The thread that `main` is about to stop. -/
def MainStep.target : MainStep → Option (Kind × Bool)
  | .stopping kind exiting => some (kind, exiting)
  | .waiting kind exiting => some (kind, exiting)
  | _ => none

namespace World

/-- A pointer points to a thread of its kind that is still to be stopped, unless the program
ends; the threads that were stopped have returned. -/
structure Inv (w : World) : Prop where
  pointed : ∀ {kind worker}, w.pointer kind = some worker → worker.kind = kind ∧ worker.Ok
  past : ∀ worker ∈ w.past, worker.Ok ∧ worker.progress = .returned
  /-- `stop()` is called for a thread that has not been stopped. -/
  target : ∀ {kind exiting}, w.main.target = some (kind, exiting) →
    ∃ worker, w.pointer kind = some worker ∧ worker.stopped = false
  /-- Only `exit` keeps a pointer to a thread that has been stopped. -/
  kept : ∀ {kind worker}, w.pointer kind = some worker → worker.stopped = true →
    w.main = .exited ∨ kind = .put ∧ w.main.target = some (.get, true)

theorem inv_init : Inv {} where
  pointed := fun h => absurd h (by simp)
  past := fun _ h => absurd h (by simp)
  target := fun h => absurd h (by simp [MainStep.target])
  kept := fun h => absurd h (by simp)

variable {w w' : World}

/-- Between commands no thread that is pointed to has been stopped. -/
theorem Inv.not_stopped (h : w.Inv) (hmain : w.main = .reading) {kind : Kind} {worker : Worker}
    (hpointer : w.pointer kind = some worker) : worker.stopped = false := by
  by_contra hset
  rcases h.kept hpointer (by simpa using hset) with hexited | ⟨-, htarget⟩
  · rw [hmain] at hexited
    exact MainStep.noConfusion hexited
  · rw [hmain] at htarget
    exact absurd htarget (by simp [MainStep.target])

/-- After a pointer is set it points to the new thread, and the other one to the old. -/
theorem pointer_update {pointer : Kind → Option Worker} {kind kind' : Kind}
    {new : Option Worker} {other : Worker}
    (h : Function.update pointer kind new kind' = some other) :
    kind' = kind ∧ new = some other ∨ kind' ≠ kind ∧ pointer kind' = some other := by
  by_cases heq : kind' = kind
  · subst heq
    exact .inl ⟨rfl, by simpa using h⟩
  · exact .inr ⟨heq, by simpa [Function.update_of_ne heq] using h⟩

/-- A pointer may be set to a thread of its kind that is well. -/
theorem Inv.pointed_update (h : w.Inv) {kind : Kind} {new : Worker} (hkind : new.kind = kind)
    (hok : new.Ok) {kind' : Kind} {other : Worker}
    (hother : Function.update w.pointer kind (some new) kind' = some other) :
    other.kind = kind' ∧ other.Ok := by
  rcases pointer_update hother with ⟨rfl, hnew⟩ | ⟨-, hold⟩
  · obtain rfl := Option.some.inj hnew
    exact ⟨hkind, hok⟩
  · exact h.pointed hold

/-- A thread that is pointed to may change as long as it is well, is of the same kind and has
been stopped or not as before; `main` may go on towards the same thread. -/
theorem Inv.setWorker (h : w.Inv) {main : MainStep} {kind : Kind} {worker new : Worker}
    (hpointer : w.pointer kind = some worker) (hok : new.Ok)
    (hkind : new.kind = worker.kind) (hstopped : new.stopped = worker.stopped)
    (htarget : main.target = w.main.target) (hexited : w.main = .exited → main = .exited) :
    Inv { w with main := main, pointer := Function.update w.pointer kind (some new) } where
  pointed := h.pointed_update (hkind.trans (h.pointed hpointer).1) hok
  past := h.past
  target := by
    intro kind' exiting hmain
    obtain ⟨other, hother, hnot⟩ := h.target (htarget.symm.trans hmain)
    by_cases heq : kind' = kind
    · subst heq
      obtain rfl : worker = other := Option.some.inj (hpointer.symm.trans hother)
      exact ⟨new, Function.update_self .., hstopped.trans hnot⟩
    · exact ⟨other, (Function.update_of_ne heq ..).trans hother, hnot⟩
  kept := by
    intro kind' other hother hset
    have hbefore : w.main = .exited ∨ kind' = .put ∧ w.main.target = some (.get, true) := by
      rcases pointer_update hother with ⟨rfl, hnew⟩ | ⟨-, hold⟩
      · obtain rfl := Option.some.inj hnew
        exact h.kept hpointer (hstopped.symm.trans hset)
      · exact h.kept hold hset
    exact hbefore.imp hexited (And.imp_right htarget.trans)

/-- A thread is made where none is pointed to. -/
theorem Inv.create (h : w.Inv) (hmain : w.main = .reading) (kind : Kind) (nPvs : ℕ) :
    Inv { w with pointer := Function.update w.pointer kind (some { kind, nPvs }) } where
  pointed := h.pointed_update rfl (Worker.ok_new kind nPvs)
  past := h.past
  target := by
    intro kind' exiting htarget
    rw [hmain] at htarget
    exact absurd htarget (by simp [MainStep.target])
  kept := by
    intro kind' other hother hset
    rcases pointer_update hother with ⟨rfl, hnew⟩ | ⟨-, hold⟩
    · obtain rfl := Option.some.inj hnew
      exact absurd hset Bool.noConfusion
    · exact h.kept hold hset

/-- `stop()` is entered for a thread that is pointed to. -/
theorem Inv.enterStop (h : w.Inv) {kind : Kind} {worker : Worker} (exiting : Bool)
    (hpointer : w.pointer kind = some worker) (hnot : worker.stopped = false)
    (hkept : ∀ {kind' other}, w.pointer kind' = some other → other.stopped = true →
      kind' = .put ∧ kind = .get ∧ exiting = true) :
    Inv { w with main := .stopping kind exiting } where
  pointed := h.pointed
  past := h.past
  target := by
    intro kind' exiting' htarget
    obtain ⟨rfl, rfl⟩ : kind = kind' ∧ exiting = exiting' := by
      simpa [MainStep.target] using htarget
    exact ⟨worker, hpointer, hnot⟩
  kept := by
    intro kind' other hother hset
    obtain ⟨hput, rfl, rfl⟩ := hkept hother hset
    exact .inr ⟨hput, rfl⟩

/-- What `exit` does once there is no `PutThread` to stop. -/
theorem inv_exitGetThread
    (hpointed : ∀ {kind worker}, w.pointer kind = some worker → worker.kind = kind ∧ worker.Ok)
    (hpast : ∀ worker ∈ w.past, worker.Ok ∧ worker.progress = .returned)
    (hnot : ∀ {worker}, w.pointer .get = some worker → worker.stopped = false) :
    w.exitGetThread.Inv := by
  -- a thread that has been stopped is the `PutThread`
  have hput : ∀ {kind worker}, w.pointer kind = some worker → worker.stopped = true →
      kind = .put := by
    intro kind worker hpointer hset
    cases kind with
    | put => rfl
    | get => exact absurd ((hnot hpointer).symm.trans hset) Bool.noConfusion
  cases hget : w.pointer .get with
  | none =>
    have hworld : w.exitGetThread = { w with main := .exited } := by
      simp [exitGetThread, hget]
    rw [hworld]
    exact ⟨hpointed, hpast, fun htarget => absurd htarget (by simp [MainStep.target]),
      fun _ _ => .inl rfl⟩
  | some worker =>
    have hworld : w.exitGetThread = { w with main := .stopping .get true } := by
      simp [exitGetThread, hget]
    rw [hworld]
    refine ⟨hpointed, hpast, ?_, fun hpointer hset => .inr ⟨hput hpointer hset, rfl⟩⟩
    intro kind exiting htarget
    obtain ⟨rfl, rfl⟩ : Kind.get = kind ∧ true = exiting := by
      simpa [MainStep.target] using htarget
    exact ⟨worker, hget, hnot hget⟩

/-- A command keeps the invariant. -/
theorem Inv.command (h : w.Inv) (hmain : w.main = .reading) (command : Command) :
    (w.command command).Inv := by
  have hnot : ∀ {kind worker}, w.pointer kind = some worker → worker.stopped = false :=
    fun hpointer => h.not_stopped hmain hpointer
  -- no thread that is pointed to has been stopped, so any of them may be stopped now
  have hstop : ∀ {kind worker} exiting, w.pointer kind = some worker →
      Inv { w with main := .stopping kind exiting } := fun exiting hpointer =>
    h.enterStop exiting hpointer (hnot hpointer) fun hother hset =>
      absurd ((hnot hother).symm.trans hset) Bool.noConfusion
  cases command with
  | toggle kind nPvs =>
    simp only [World.command]
    split
    · next worker hpointer => exact hstop false hpointer
    · exact h.create hmain kind nPvs
  | exit =>
    simp only [World.command]
    split
    · next hsome =>
      obtain ⟨worker, hpointer⟩ := Option.isSome_iff_exists.mp hsome
      exact hstop true hpointer
    · exact inv_exitGetThread h.pointed h.past hnot
  | other => exact h

/-- The return of `stop()` keeps the invariant. -/
theorem Inv.stopReturns (h : w.Inv) {kind : Kind} {exiting : Bool} {worker : Worker}
    (hmain : w.main = .waiting kind exiting) (hpointer : w.pointer kind = some worker)
    (hsignal : worker.waitForStop = true) : (w.stopReturns kind exiting worker).Inv := by
  obtain ⟨hkind, hok⟩ := h.pointed hpointer
  have hstopped := hok.setStopped hsignal
  have hpointed : ∀ {kind' other}, Function.update w.pointer kind
      (some { worker with waitForStop := false, stopped := true }) kind' = some other →
        other.kind = kind' ∧ other.Ok := fun hother =>
      h.pointed_update (by exact hkind) hstopped hother
  -- while `stop()` waits, a thread that has been stopped is the `PutThread` before `exit`
  have hkept : ∀ {kind' other}, w.pointer kind' = some other → other.stopped = true →
      kind' = .put ∧ kind = .get ∧ exiting = true := by
    intro kind' other hother hset
    have := h.kept hother hset
    simpa [hmain, MainStep.target] using this
  cases exiting with
  | false =>
    refine ⟨?_, ?_, fun htarget => absurd htarget (by simp [World.stopReturns, MainStep.target]),
      ?_⟩
    · intro kind' other hother
      rcases pointer_update hother with ⟨-, hnone⟩ | ⟨-, hold⟩
      · exact absurd hnone (by simp)
      · exact h.pointed hold
    · intro other hother
      rcases List.mem_cons.mp hother with rfl | hbefore
      · exact ⟨hstopped, hok.signalled hsignal⟩
      · exact h.past other hbefore
    · intro kind' other hother hset
      rcases pointer_update hother with ⟨-, hnone⟩ | ⟨-, hold⟩
      · exact absurd hnone (by simp)
      · exact absurd (hkept hold hset).2.2 Bool.noConfusion
  | true =>
    cases kind with
    | put =>
      refine inv_exitGetThread hpointed h.past ?_
      intro other hother
      have hold : w.pointer .get = some other := by simpa using hother
      by_contra hset
      exact absurd (hkept hold (by simpa using hset)).1 Kind.noConfusion
    | get =>
      exact ⟨hpointed, h.past,
        fun htarget => absurd htarget (by simp [World.stopReturns, MainStep.target]),
        fun _ _ => .inl rfl⟩

/-- **Every event keeps the invariant.** -/
theorem Inv.step (h : w.Inv) {e : Event} (hs : w.step e = some w') : w'.Inv := by
  cases e with
  | command command =>
    simp only [World.step, Option.ite_none_right_eq_some, Option.some.injEq] at hs
    obtain ⟨hmain, rfl⟩ := hs
    exact h.command hmain command
  | main =>
    simp only [World.step, mainStep] at hs
    split at hs
    · next kind exiting hmain =>
      obtain ⟨worker, hpointer, rfl⟩ := Option.map_eq_some_iff.mp hs
      have hok := (h.pointed hpointer).2
      refine h.setWorker hpointer hok.setStop rfl rfl (by rw [hmain]; rfl) fun hexited => ?_
      exact absurd (hmain.symm.trans hexited) MainStep.noConfusion
    · next kind exiting hmain =>
      obtain ⟨worker, hpointer, hreturns⟩ := Option.bind_eq_some_iff.mp hs
      simp only [Option.ite_none_right_eq_some, Option.some.injEq] at hreturns
      obtain ⟨hsignal, rfl⟩ := hreturns
      exact h.stopReturns hmain hpointer hsignal
    · exact absurd hs (by simp)
  | run kind =>
    obtain ⟨new, hstep, rfl⟩ := Option.map_eq_some_iff.mp hs
    obtain ⟨worker, hpointer, hnew⟩ := Option.bind_eq_some_iff.mp hstep
    obtain ⟨hok, hkind, hstopped⟩ := (h.pointed hpointer).2.step hnew
    exact h.setWorker hpointer hok hkind hstopped rfl id
  | runPast i =>
    -- the threads that were stopped have returned and make no step
    obtain ⟨new, hstep, -⟩ := Option.map_eq_some_iff.mp hs
    obtain ⟨worker, hget, hnew⟩ := Option.bind_eq_some_iff.mp hstep
    have hreturned := (h.past worker (List.mem_of_getElem? hget)).2
    exact absurd hnew (by simp [Worker.step, hreturned])

theorem inv_of_reachable (hw : workerThreads.Reachable w) : w.Inv :=
  hw.invariant inv_init fun _ _ _ h _ hs => h.step hs

/-! ### Stopping a thread -/

/-- Of the threads one of a kind at most has not returned: the one that is pointed to. -/
theorem Inv.live_le_one (h : w.Inv) (kind : Kind) : w.live kind ≤ 1 := by
  have hpast : w.past.countP (fun worker => worker.kind = kind ∧ worker.Live) = 0 := by
    rw [List.countP_eq_zero]
    intro worker hworker
    simp [Worker.Live, (h.past worker hworker).2]
  -- a pointer counts for its own kind only
  have hpointer : ∀ kind', (w.pointer kind').toList.countP
      (fun worker => worker.kind = kind ∧ worker.Live) ≤ if kind' = kind then 1 else 0 := by
    intro kind'
    cases hworker : w.pointer kind' with
    | none => simp
    | some worker =>
      have hkind := (h.pointed hworker).1
      rw [Option.toList_some, List.countP_singleton, hkind]
      by_cases heq : kind' = kind
      · rw [if_pos heq]
        split <;> omega
      · simp [heq]
  have hput := hpointer .put
  have hget := hpointer .get
  have hone : (if Kind.put = kind then 1 else 0) + (if Kind.get = kind then 1 else 0) = 1 := by
    cases kind <;> rfl
  rw [live, workers, List.countP_append, List.countP_append, hpast]
  omega

/-- Every thread is well. -/
theorem Inv.ok (h : w.Inv) {worker : Worker} (hworker : worker ∈ w.workers) : worker.Ok := by
  simp only [workers, List.mem_append, Option.mem_toList] at hworker
  rcases hworker with (hput | hget) | hpast
  · exact (h.pointed hput).2
  · exact (h.pointed hget).2
  · exact (h.past worker hpast).1

end World

/-- **Stopping is final, is never missed, and leaves one thread of a kind.**  Whatever the
user types and however the threads interleave: no thread puts or gets after its `stop()` has
returned; while `stop()` waits for a thread that has returned, the event is signalled; and
there is at most one live thread of a kind. -/
theorem stop_is_final {w : World} (hw : workerThreads.Reachable w) :
    (∀ worker ∈ w.workers, worker.late = 0) ∧
      (∀ kind exiting, w.main = .waiting kind exiting → ∃ worker, w.pointer kind = some worker ∧
        (worker.progress = .returned → worker.waitForStop = true)) ∧
      ∀ kind, w.live kind ≤ 1 := by
  have h := World.inv_of_reachable hw
  refine ⟨fun worker hworker => (h.ok hworker).late, ?_, h.live_le_one⟩
  intro kind exiting hmain
  obtain ⟨worker, hpointer, hnot⟩ := h.target (congrArg MainStep.target hmain)
  exact ⟨worker, hpointer, fun hreturned => (h.pointed hpointer).2.latched hreturned hnot⟩

/-- A `GetThread` is made, gets once, is stopped within the round, and is made again. -/
theorem stop_is_final_toggled : ∃ w : World,
    w.past.map (fun worker => (worker.issued, worker.stopped)) = [(2, true)] ∧
      (∀ worker ∈ w.workers, worker.late = 0) ∧ ∀ kind, w.live kind ≤ 1 := by
  obtain ⟨w, hw, hpast⟩ := workerThreads.exists_reachable_of_run
    [.command (.toggle .get 2), .run .get, .run .get, .run .get, .command (.toggle .get 2),
      .main, .run .get, .run .get, .run .get, .run .get, .main, .command (.toggle .get 2)]
    (fun w => w.past.map (fun worker => (worker.issued, worker.stopped)) == [(2, true)])
    (by decide)
  obtain ⟨hlate, -, hlive⟩ := stop_is_final hw
  exact ⟨w, by simpa using hpast, hlate, hlive⟩

end TestDatabase.WorkerThreads
