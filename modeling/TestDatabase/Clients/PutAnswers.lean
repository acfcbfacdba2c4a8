import TestDatabase.Clients.PutRounds
import TestDatabase.Clients.StopReturns

/-!
# The answers to the puts of a PutThread

The event that `put()` waits for stays signalled until a wait takes it.  Were there a signal
left over, or a second put under way, `put()` would return before its own answer.  While it
waits, the thread does not look at `isStop`: whether `stop()` returns depends on the server.

## Main definitions

* `PutThread.Waits` — a client waits if `put()` waits for it, and for one answer.
* `PutThread.toWorker` — the thread as `WorkerThreads` has it, a put being one step.
* `stopRanking` — the steps of the thread and the server until the thread returns.

## Main results

* `puts_answered` — **each put waits for its own answer.**
* `putThread_refines_worker` — **a run of the thread is a run of a worker.**
* `putThread_stops` — **a thread told to stop returns, if the server answers.**
-/

namespace TestDatabase.PutRounds

open TimeMany (PVField search)

/-! ### The answers -/

/-- The client whose answer `put()` waits for. -/
def Progress.waits : Progress → Option ℕ
  | waiting i _ => some i
  | _ => none

namespace PutThread

variable {n : ℕ} {pvStructure : ℕ → List (String × PVField)} {t t' : PutThread} {e : Event}

/-- The client waited for has been answered, or will be; no other has been signalled, or waits
for an answer. -/
structure Waits (t : PutThread) (j : ℕ) : Prop where
  own : t.progress.waits = some j → (t.clients j).waitForCallback = !(t.clients j).outstanding
  other : t.progress.waits ≠ some j →
    (t.clients j).outstanding = false ∧ (t.clients j).waitForCallback = false

/-- The puts issued to a channel. -/
def issued (t : PutThread) (j : ℕ) : ℕ := t.calls.countP fun call => call.channel = j ∧ call.issued

/-- The client whose put is outstanding is the one waited for. -/
theorem Waits.of_outstanding {j : ℕ} (h : t.Waits j) (houtstanding : (t.clients j).outstanding = true) :
    t.progress.waits = some j := by
  by_contra hnot
  exact Bool.noConfusion (houtstanding.symm.trans (h.other hnot).1)

@[simp] theorem clients_setClient_self (i : ℕ) (c : ClientPut) :
    (t.setClient i c).clients i = c := Function.update_self ..

theorem clients_setClient_of_ne {i j : ℕ} (c : ClientPut) (h : j ≠ i) :
    (t.setClient i c).clients j = t.clients j := Function.update_of_ne h ..

/-- Nothing but the client and whom the thread waits for counts. -/
theorem Waits.congr {j : ℕ} (h : t.Waits j) (hclients : t'.clients j = t.clients j)
    (hwaits : t'.progress.waits = some j ↔ t.progress.waits = some j) : t'.Waits j := by
  constructor
  · intro hj
    rw [hclients]
    exact h.own (hwaits.mp hj)
  · intro hj
    rw [hclients]
    exact h.other (mt hwaits.mpr hj)

/-- **A step of the thread waits for its own put only, and takes only its own answer.** -/
theorem Waits.runStep {j : ℕ} (h : t.Waits j) (hs : t.RunEffect n pvStructure t') : t'.Waits j := by
  cases hs with
  | create i hprogress | created i hprogress | returns hprogress | round hprogress
  | connected i val hprogress | sleep i val hprogress | wake hprogress
  | createDies i hprogress | putDies i val hprogress =>
    refine h.congr rfl ?_
    rw [hprogress]
    rfl
  | skip i val hi hprogress =>
    refine h.congr rfl ?_
    rcases hprogress with hprogress | hprogress
    · rw [hprogress]
      rfl
    · rw [hprogress]
      rfl
  | issue i val hprogress =>
    have hj := h.other (by rw [hprogress]; simp [Progress.waits])
    by_cases hji : j = i
    · subst hji
      refine ⟨fun _ => ?_, fun hnot => absurd rfl hnot⟩
      simpa using hj.2
    · refine h.congr (clients_setClient_of_ne _ hji) ?_
      rw [hprogress]
      simp [Progress.waits, Ne.symm hji]
  | answered i val hprogress hsignal =>
    by_cases hji : j = i
    · subst hji
      refine ⟨fun hnext => absurd hnext (by simp [Progress.waits]), fun _ => ?_⟩
      have hown := h.own (by rw [hprogress, Progress.waits])
      rw [hsignal] at hown
      simpa using hown.symm
    · refine h.congr (clients_setClient_of_ne _ hji) ?_
      rw [hprogress]
      simp [Progress.waits, Ne.symm hji]

/-- **Every event leaves at most one client to be waited for.** -/
theorem Waits.step {j : ℕ} (h : ∀ j, t.Waits j) (hrange : t.InRange n)
    (hs : t.step n pvStructure e = some t') : t'.Waits j := by
  cases step_effect hrange hs with
  | run t' hrun | throws t' hrun => exact (h j).runStep hrun
  | stop => exact (h j).congr rfl Iff.rfl
  | answer i houtstanding =>
    by_cases hji : j = i
    · subst hji
      refine ⟨fun _ => by simp, fun hnot => absurd ((h j).of_outstanding houtstanding) hnot⟩
    · exact (h j).congr (clients_setClient_of_ne _ hji) Iff.rfl
  | connection e i c _ _ houtstanding hsignal =>
    by_cases hji : j = i
    · subst hji
      refine ⟨fun hwaits => ?_, fun hwaits => ?_⟩
      · rw [clients_setClient_self, houtstanding, hsignal]
        exact (h j).own hwaits
      · rw [clients_setClient_self, houtstanding, hsignal]
        exact (h j).other hwaits
    · exact (h j).congr (clients_setClient_of_ne _ hji) Iff.rfl

/-- The puts to a channel that wait for their answer. -/
def pending (t : PutThread) (j : ℕ) : ℕ := (t.clients j).outstanding.toNat

/-- A call of `put()` counts for its channel, if it issues a put. -/
theorem issued_concat {call : Call} (hcalls : t'.calls = t.calls ++ [call]) (j : ℕ) :
    t'.issued j = t.issued j + if call.channel = j ∧ call.issued = true then 1 else 0 := by
  rw [issued, hcalls, List.countP_append, List.countP_singleton]
  simp [issued]

theorem pending_congr {j : ℕ} (h : (t'.clients j).outstanding = (t.clients j).outstanding) :
    t'.pending j = t.pending j := congrArg Bool.toNat h

/-- Issued is what is pending more than before. -/
theorem issued_runStep {j : ℕ} (h : t.Waits j) (hs : t.RunEffect n pvStructure t') :
    t'.issued j + t.pending j = t.issued j + t'.pending j := by
  cases hs with
  | create | created | returns | round | connected | sleep | wake | createDies => rfl
  | skip i val =>
    have hpending : (t.skip i val).pending j = t.pending j := rfl
    rw [issued_concat (t := t) rfl, hpending]
    simp
  | putDies i val =>
    have hpending : (t.die i val).pending j = t.pending j := rfl
    rw [issued_concat (t := t) rfl, hpending]
    simp
  | issue i val hprogress =>
    have hj := h.other (by rw [hprogress]; simp [Progress.waits])
    rw [issued_concat (t := t) rfl]
    by_cases hji : j = i
    · subst hji
      simp [pending, setClient, hj.1]
    · simp [pending, setClient, hji, Ne.symm hji]
  | answered i val =>
    by_cases hji : j = i
    · subst hji
      simp [pending, issued, setClient]
    · simp [pending, issued, setClient, hji]

/-- What was issued has been answered or is pending, and the clients wait as they should. -/
structure Answered (n : ℕ) (es : List Event) (t : PutThread) : Prop where
  range : t.InRange n
  waits : ∀ j, t.Waits j
  issued : ∀ j, t.issued j = es.count (.putDone j) + t.pending j

theorem answered_init : Answered n [] {} := by
  refine ⟨trivial, fun j => ⟨fun h => ?_, fun _ => ⟨rfl, rfl⟩⟩, fun j => rfl⟩
  exact absurd h (by simp [Progress.waits])

/-- Only `putDone` counts as an answer. -/
theorem count_concat (es : List Event) (j : ℕ) (h : e ≠ .putDone j) :
    (es ++ [e]).count (.putDone j) = es.count (.putDone j) := by
  rw [List.count_append, List.count_singleton, if_neg (by simpa using h), Nat.add_zero]

/-- **Every event keeps account of the answers.** -/
theorem Answered.step {es : List Event} (h : t.Answered n es)
    (hs : t.step n pvStructure e = some t') : t'.Answered n (es ++ [e]) := by
  have hwaits : ∀ j, t'.Waits j := fun j => Waits.step h.waits h.range hs
  cases step_effect h.range hs with
  | run t' hrun | throws t' hrun =>
    refine ⟨h.range.runStep hrun, hwaits, fun j => ?_⟩
    have hissued := issued_runStep (h.waits j) hrun
    have hbefore := h.issued j
    rw [count_concat es j Event.noConfusion]
    omega
  | stop =>
    refine ⟨h.range, hwaits, fun j => ?_⟩
    rw [count_concat es j Event.noConfusion]
    exact h.issued j
  | answer i houtstanding =>
    refine ⟨h.range, hwaits, fun j => ?_⟩
    have hbefore := h.issued j
    by_cases hji : j = i
    · subst hji
      rw [pending, houtstanding] at hbefore
      rw [pending, clients_setClient_self, List.count_append, List.count_singleton_self]
      exact hbefore
    · rw [count_concat es j (by simpa using Ne.symm hji),
        pending_congr (t := t) (congrArg _ (clients_setClient_of_ne _ hji))]
      exact hbefore
  | connection e i c _ hanswer houtstanding =>
    refine ⟨h.range, hwaits, fun j => ?_⟩
    have hbefore := h.issued j
    rw [count_concat es j (hanswer j)]
    by_cases hji : j = i
    · subst hji
      rw [pending_congr (t := t) ((congrArg _ (clients_setClient_self _ _)).trans houtstanding)]
      exact hbefore
    · rw [pending_congr (t := t) (congrArg _ (clients_setClient_of_ne _ hji))]
      exact hbefore

/-- **Each put waits for its own answer.**  However the callbacks come in between: the puts
issued to a channel have all been answered, but for the one that `put()` waits for, and no
event is signalled but that of the client that `put()` waits for. -/
theorem puts_answered {es : List Event} (hrun : (putThread n pvStructure).run {} es = some t)
    (j : ℕ) :
    t.issued j = es.count (.putDone j) +
        (if t.progress.waits = some j ∧ (t.clients j).waitForCallback = false then 1 else 0) ∧
      ((t.clients j).waitForCallback = true → t.progress.waits = some j) := by
  have h : t.Answered n es := EventMachine.run_history (M := putThread n pvStructure)
    answered_init (fun _ _ _ _ h hs => h.step hs) hrun
  by_cases hwaits : t.progress.waits = some j
  · have hown := (h.waits j).own hwaits
    refine ⟨?_, fun _ => hwaits⟩
    rw [h.issued j, pending, hown]
    cases (t.clients j).outstanding <;> simp [hwaits]
  · obtain ⟨houtstanding, hsignal⟩ := (h.waits j).other hwaits
    refine ⟨?_, fun hset => absurd (hsignal.symm.trans hset) Bool.noConfusion⟩
    rw [h.issued j, pending, houtstanding]
    simp [hwaits]

/-- In the run of two rounds the put of the second channel is the third. -/
theorem puts_answered_stopped :
    ∃ t, twoChannels.run {} roundsRun = some t ∧
      t.issued 0 = 2 ∧ t.issued 1 = 1 := by
  have hreturned : (twoChannels.run {} roundsRun).map
      PutThread.progress = some .returned := by decide
  obtain ⟨t, hrun, hreturned⟩ := Option.map_eq_some_iff.mp hreturned
  refine ⟨t, hrun, ?_, ?_⟩
  · rw [(puts_answered hrun 0).1, hreturned, if_neg (by simp [Progress.waits])]
    decide
  · rw [(puts_answered hrun 1).1, hreturned, if_neg (by simp [Progress.waits])]
    decide

end PutThread

/-! ### The thread as a worker -/

open WorkerThreads (Worker RunStep)

/-- What happens to a worker: it makes a step, or is told to stop. -/
inductive WorkerEvent
  | run
  | stop
  deriving DecidableEq, Repr

/-- A worker by itself. -/
def workerThread (kind : WorkerThreads.Kind) (nPvs : ℕ) : EventMachine Worker WorkerEvent where
  init := { kind, nPvs }
  step worker
    | .run => worker.step
    | .stop => some { worker with isStop := true }

/-- How far a worker has come, to which a call of `put()` is one step. -/
def Progress.toRunStep : Progress → RunStep
  | creating _ => .creating
  | checking => .checking
  | calling i _ => .working i
  | connected i _ => .working i
  | waiting i _ => .working i
  | sleeping => .sleeping
  | returned => .returned
  -- the call that the program died in has not returned
  | died none => .creating
  | died (some (i, _)) => .working i

namespace PutThread

variable {n : ℕ} {pvStructure : ℕ → List (String × PVField)} {t t' : PutThread} {e : Event}

/-- The calls of `put()` that have returned. -/
def finished (t : PutThread) : ℕ :=
  match t.progress with
  | .waiting _ _ => t.calls.length - 1
  | .died (some _) => t.calls.length - 1
  | _ => t.calls.length

/-- The thread as a worker. -/
def toWorker (n : ℕ) (t : PutThread) : Worker where
  kind := .put
  nPvs := n
  isStop := t.isStop
  waitForStop := t.waitForStop
  progress := t.progress.toRunStep
  issued := t.finished

/-- The put that `put()` waits for is among the calls. -/
theorem Inv.calls_of_waiting (h : t.Inv n) {i : ℕ} {val : String}
    (hprogress : t.progress = .waiting i val) : t.calls.length - 1 + 1 = t.calls.length := by
  obtain ⟨r, hlogged⟩ := h.logged
  simp only [Logged, hprogress, Progress.called] at hlogged
  obtain ⟨hi, -, -, hputs⟩ := hlogged
  have hlength := congrArg List.length hputs
  rw [puts, List.length_map, List.length_append, List.length_take, length_round] at hlength
  omega

/-- A step of the thread is one step of the worker, or none. -/
theorem runStep_refines (h : t.Inv n) (hs : t.RunEffect n pvStructure t') :
    t'.toWorker n = t.toWorker n ∨ (t.toWorker n).step = some (t'.toWorker n) := by
  cases hs with
  | create i hprogress =>
    left
    simp only [toWorker, finished, hprogress, Progress.toRunStep]
  | connected i val hprogress | createDies i hprogress =>
    left
    simp only [toWorker, finished, hprogress, Progress.toRunStep]
  | putDies i val hprogress =>
    left
    simp [toWorker, finished, hprogress, Progress.toRunStep, die]
  | issue i val hprogress =>
    left
    simp [toWorker, finished, hprogress, Progress.toRunStep, setClient]
  | created i hprogress | sleep i val hprogress | wake hprogress =>
    right
    simp [toWorker, finished, Progress.toRunStep, Worker.step, Worker.work, *]
  | returns hprogress hstop | round hprogress hstop =>
    right
    simp [toWorker, finished, hprogress, Progress.toRunStep, Worker.step, Worker.check, hstop]
  | skip i val hi hprogress =>
    right
    rcases hprogress with hprogress | hprogress
    · simp [toWorker, finished, hprogress, Progress.toRunStep, Worker.step, Worker.work, hi, skip]
    · simp [toWorker, finished, hprogress, Progress.toRunStep, Worker.step, Worker.work, hi, skip]
  | answered i val hprogress =>
    right
    have hi : i < n := by simpa [InRange, hprogress] using h.range
    have hcalls := h.calls_of_waiting hprogress
    simp [toWorker, finished, hprogress, Progress.toRunStep, Worker.step, Worker.work, hi, setClient,
      hcalls]

/-- The steps of the thread, those of a worker among them. -/
theorem exists_worker_run {es : List Event} (hrun : (putThread n pvStructure).run {} es = some t) :
    ∃ ds, (workerThread .put n).run { kind := .put, nPvs := n } ds = some (t.toWorker n) := by
  refine EventMachine.exists_run_of_step (M := putThread n pvStructure) (I := Inv n)
    (f := toWorker n) (fun _ _ _ h hs => h.step hs) ?_ inv_init hrun
  intro t e t' h hs
  cases step_effect h.range hs with
  | run t' hrun | throws t' hrun =>
    rcases runStep_refines h hrun with hsame | hstep
    · exact ⟨[], congrArg some hsame.symm⟩
    · exact ⟨[.run], EventMachine.run_cons_eq_some.mpr ⟨_, hstep, rfl⟩⟩
  | stop => exact ⟨[.stop], EventMachine.run_cons_eq_some.mpr ⟨_, rfl, rfl⟩⟩
  | answer => exact ⟨[], rfl⟩
  | connection => exact ⟨[], rfl⟩

/-- The thread signals its return, and nothing else, as every worker does. -/
theorem signalled_iff_returned {es : List Event}
    (hrun : (putThread n pvStructure).run {} es = some t) :
    t.waitForStop = true ↔ t.progress = .returned := by
  obtain ⟨ds, hds⟩ := exists_worker_run hrun
  have hok : (t.toWorker n).Ok := by
    refine EventMachine.run_invariant (M := workerThread .put n) (I := Worker.Ok) ?_
      (Worker.ok_new .put n) hds
    intro worker d worker' hworker hd
    cases d with
    | run => exact (hworker.step hd).1
    | stop =>
      obtain rfl := Option.some.inj hd
      exact hworker.setStop
  have hreturned : (t.toWorker n).progress = .returned ↔ t.progress = .returned := by
    unfold toWorker
    cases t.progress with
    | died call => cases call <;> simp [Progress.toRunStep]
    | _ => simp [Progress.toRunStep]
  rw [← hreturned]
  exact ⟨hok.signalled, fun h => hok.latched h rfl⟩

/-- **A run of the thread is a run of a worker**, to which each call of `put()` is one step: it
has been told to stop, has signalled its return, and has made its calls, as the thread has.
What holds of every worker therefore holds of the thread. -/
theorem putThread_refines_worker {es : List Event}
    (hrun : (putThread n pvStructure).run {} es = some t) :
    ∃ ds worker, (workerThread .put n).run { kind := .put, nPvs := n } ds = some worker ∧
      worker.progress = t.progress.toRunStep ∧ worker.isStop = t.isStop ∧
      worker.waitForStop = t.waitForStop ∧ worker.issued = t.finished ∧
      (worker.waitForStop = true ↔ t.progress = .returned) := by
  obtain ⟨ds, hds⟩ := exists_worker_run hrun
  exact ⟨ds, t.toWorker n, hds, rfl, rfl, rfl, rfl, signalled_iff_returned hrun⟩

/-- The worker has returned as well, having made the four calls of two rounds. -/
theorem putThread_refines_worker_stopped :
    ∃ ds worker, (workerThread .put 2).run { kind := .put, nPvs := 2 } ds = some worker ∧
      worker.progress = .returned ∧ worker.issued = 4 := by
  have hrun : ∃ t, twoChannels.run {} roundsRun = some t ∧ t.progress.toRunStep = .returned ∧
      t.finished = 4 := ⟨_, rfl, rfl, rfl⟩
  obtain ⟨t, hrun, hreturned, hfinished⟩ := hrun
  obtain ⟨ds, worker, hds, hprogress, -, -, hissued, -⟩ := putThread_refines_worker hrun
  exact ⟨ds, worker, hds, hprogress.trans hreturned, hissued.trans hfinished⟩

end PutThread

/-! ### The thread stops -/

/-- The thread, and the server that answers its puts. -/
inductive Actor
  | thread
  | server
  deriving DecidableEq, Repr

/-- The steps of an actor. -/
inductive Acts : Actor → Event → Prop
  | thread : Acts .thread .run
  | server (i : ℕ) : Acts .server (.putDone i)

theorem not_acts {e : Event} (hrun : e ≠ .run) (hanswer : ∀ j, e ≠ .putDone j) (actor : Actor) :
    ¬ Acts actor e := by
  intro hacts
  cases hacts with
  | thread => exact hrun rfl
  | server j => exact hanswer j rfl

namespace PutThread

variable {n : ℕ} {pvStructure : ℕ → List (String × PVField)} {t t' : PutThread} {e : Event}

/-- The steps of the thread and of the server until a thread that is to stop returns. -/
def toGo (n : ℕ) (t : PutThread) : ℕ :=
  match t.progress with
  | .creating i => n - i + 2
  | .checking => 1
  | .calling i _ => 4 * (n - i) + 3
  | .connected i _ => 4 * (n - i) + 2
  | .waiting i _ => 4 * (n - i) + (!(t.clients i).waitForCallback).toNat
  | .sleeping => 2
  | .returned => 0
  | .died _ => 0

/-- The server while `put()` waits for its answer, and else the thread. -/
def helpful (t : PutThread) : Actor :=
  match t.progress with
  | .waiting i _ => if (t.clients i).outstanding then .server else .thread
  | _ => .thread

/-- A thread that is to stop. -/
structure Stopping (n : ℕ) (t : PutThread) : Prop where
  range : t.InRange n
  waits : ∀ j, t.Waits j
  stop : t.isStop = true

/-- A step of the thread brings it closer to its return. -/
theorem Stopping.toGo_runStep (h : t.Stopping n) (hs : t.RunEffect n pvStructure t') :
    t'.toGo n < t.toGo n := by
  cases hs with
  | create i hprogress hi | created i hprogress hi =>
    simp only [toGo, hprogress]
    omega
  | returns hprogress | wake hprogress | createDies i hprogress =>
    simp only [toGo, hprogress]
    omega
  | putDies i val hprogress =>
    simp only [toGo, hprogress, die]
    omega
  | round hprogress hstop => exact absurd (hstop.symm.trans h.stop) Bool.noConfusion
  | connected i val hprogress hi =>
    simp only [toGo, hprogress]
    omega
  | skip i val hi hprogress =>
    rcases hprogress with hprogress | hprogress
    · simp only [toGo, hprogress, skip]
      omega
    · simp only [toGo, hprogress, skip]
      omega
  | issue i val hprogress hi =>
    simp only [toGo, hprogress]
    exact Nat.add_lt_add_left (Nat.lt_succ_of_le (Bool.toNat_le _)) _
  | answered i val hprogress =>
    have hi : i < n := by simpa [InRange, hprogress] using h.range
    simp only [toGo, hprogress]
    omega
  | sleep i val hprogress =>
    simp only [toGo, hprogress]
    omega

/-- The thread has returned, or the program has died. -/
def Ended (t : PutThread) : Prop := (∃ call, t.progress = .died call) ∨ t.progress = .returned

/-- Somebody can go on, unless the thread has come to its end. -/
theorem Stopping.canAct (h : t.Stopping n) (hnot : ¬ t.Ended) :
    (putThread n pvStructure).CanAct Acts t.helpful t := by
  have hthread : t.helpful = .thread → (∃ t', t.runStep n pvStructure = some t') →
      (putThread n pvStructure).CanAct Acts t.helpful t := by
    rintro hhelpful ⟨t', hs⟩
    exact ⟨.run, t', hhelpful ▸ Acts.thread, hs⟩
  cases hprogress : t.progress with
  | creating i =>
    refine hthread (by simp [helpful, hprogress]) ?_
    simp only [runStep, hprogress]
    split <;> exact ⟨_, rfl⟩
  | checking =>
    refine hthread (by simp [helpful, hprogress]) ?_
    simp only [runStep, hprogress]
    split <;> exact ⟨_, rfl⟩
  | calling i val =>
    refine hthread (by simp [helpful, hprogress]) ?_
    simp only [runStep, hprogress]
    split
    · split <;> exact ⟨_, rfl⟩
    · exact ⟨_, rfl⟩
  | connected i val =>
    refine hthread (by simp [helpful, hprogress]) ?_
    simp only [runStep, hprogress]
    split
    · split
      · exact ⟨_, rfl⟩
      · split <;> exact ⟨_, rfl⟩
    · exact ⟨_, rfl⟩
  | waiting i val =>
    have hown := (h.waits i).own (by rw [hprogress, Progress.waits])
    by_cases houtstanding : (t.clients i).outstanding = true
    · -- the server can answer
      have hi : i < t.created n := by simpa [created, InRange, hprogress] using h.range
      have hhelpful : t.helpful = .server := by simp [helpful, hprogress, houtstanding]
      have hstep : ∃ t', t.step n pvStructure (.putDone i) = some t' := by
        simp [step, callback, hi, ClientPut.putDone, houtstanding]
      obtain ⟨t', ht'⟩ := hstep
      exact ⟨.putDone i, t', hhelpful ▸ Acts.server i, ht'⟩
    · rw [Bool.not_eq_true] at houtstanding
      refine hthread (by simp [helpful, hprogress, houtstanding]) ?_
      simp [runStep, hprogress, hown, houtstanding]
  | sleeping =>
    refine hthread (by simp [helpful, hprogress]) ?_
    simp only [runStep, hprogress]
    exact ⟨_, rfl⟩
  | returned => exact absurd (.inr hprogress) hnot
  | died call => exact absurd (.inl ⟨call, hprogress⟩) hnot

/-- An answer brings the thread closer to its return. -/
theorem Stopping.toGo_answer (h : t.Stopping n) {i : ℕ}
    (houtstanding : (t.clients i).outstanding = true) :
    (t.setClient i { t.clients i with outstanding := false, waitForCallback := true }).toGo n <
      t.toGo n := by
  have hwaits := (h.waits i).of_outstanding houtstanding
  have hown := (h.waits i).own hwaits
  cases hprogress : t.progress with
  | waiting j val =>
    obtain rfl : j = i := by simpa [hprogress, Progress.waits] using hwaits
    simp [toGo, hprogress, setClient, hown, houtstanding]
  | _ => simp [hprogress, Progress.waits] at hwaits

/-- A connection callback neither helps nor hinders. -/
theorem toGo_connection {i : ℕ} {c : ClientPut}
    (houtstanding : c.outstanding = (t.clients i).outstanding)
    (hsignal : c.waitForCallback = (t.clients i).waitForCallback) :
    (t.setClient i c).toGo n = t.toGo n ∧ (t.setClient i c).helpful = t.helpful := by
  have hclients : ∀ j, ((t.setClient i c).clients j).outstanding = (t.clients j).outstanding ∧
      ((t.setClient i c).clients j).waitForCallback = (t.clients j).waitForCallback := by
    intro j
    by_cases hji : j = i
    · subst hji
      rw [clients_setClient_self]
      exact ⟨houtstanding, hsignal⟩
    · rw [clients_setClient_of_ne _ hji]
      exact ⟨rfl, rfl⟩
  have hprogress : (t.setClient i c).progress = t.progress := rfl
  unfold toGo helpful
  rw [hprogress]
  cases t.progress <;> simp [hclients]

end PutThread

open PutThread in
/-- What leads a thread that is to stop to its end. -/
def stopRanking (n : ℕ) (pvStructure : ℕ → List (String × PVField)) :
    (putThread n pvStructure).Ranking Acts (Stopping n) Ended where
  rank := toGo n
  helpful := helpful
  canAct _ h hnot := h.canAct hnot
  step t e t' h _ hs := by
    right
    have hwaits : ∀ j, t'.Waits j := fun j => Waits.step h.waits h.range hs
    cases step_effect h.range hs with
    | run t' hrun | throws t' hrun =>
      have hstop : t'.isStop = true := by cases hrun <;> exact h.stop
      exact ⟨⟨h.range.runStep hrun, hwaits, hstop⟩, .inl (h.toGo_runStep hrun)⟩
    | stop =>
      exact ⟨⟨h.range, hwaits, rfl⟩, .inr ⟨rfl, rfl, not_acts Event.noConfusion
        (fun _ => Event.noConfusion) _⟩⟩
    | answer i houtstanding =>
      exact ⟨⟨h.range, hwaits, h.stop⟩, .inl (h.toGo_answer houtstanding)⟩
    | connection e i c hrun hanswer houtstanding hsignal =>
      obtain ⟨hrank, hhelpful⟩ := toGo_connection (n := n) houtstanding hsignal
      exact ⟨⟨h.range, hwaits, h.stop⟩, .inr ⟨hrank, hhelpful, not_acts hrun hanswer _⟩⟩

/-- **A thread told to stop returns**, if it is not passed over and the server answers, whatever
the connections do, unless an exception ends the program.  It has then put whole rounds, all
its puts are answered, and the event that `stop()` waits for is signalled. -/
theorem putThread_stops (n : ℕ) (pvStructure : ℕ → List (String × PVField))
    (S : (putThread n pvStructure).Schedule) (hfair : ∀ actor, S.Fair Acts actor) {k : ℕ}
    (hstop : (S.state k).isStop = true) :
    ∃ m, k ≤ m ∧ ((∃ call, (S.state m).progress = .died call) ∨
      (S.state m).progress = .returned ∧ (S.state m).waitForStop = true ∧
        (∀ j, ((S.state m).clients j).outstanding = false) ∧
        ∃ r, (S.state m).puts = rounds n r) := by
  have hkept : ∀ {t}, (putThread n pvStructure).Reachable t → t.Inv n ∧ ∀ j, t.Waits j := by
    intro t ht
    refine ht.invariant (I := fun t => t.Inv n ∧ ∀ j, t.Waits j)
      ⟨PutThread.inv_init, (PutThread.answered_init (n := n)).waits⟩ ?_
    intro t e t' h _ hs
    exact ⟨h.1.step hs, fun j => PutThread.Waits.step h.2 h.1.range hs⟩
  obtain ⟨hinv, hwaits⟩ := hkept (S.reachable k)
  obtain ⟨m, hm, hdied | hreturned⟩ :=
    (stopRanking n pvStructure).eventually hfair ⟨hinv.range, hwaits, hstop⟩
  · exact ⟨m, hm, .inl hdied⟩
  obtain ⟨es, hrun⟩ := (S.reachable m).exists_run
  have hlater := hkept (S.reachable m)
  refine ⟨m, hm, .inr ⟨hreturned, (PutThread.signalled_iff_returned hrun).mpr hreturned, ?_,
    hlater.1.whole hreturned⟩⟩
  intro j
  exact ((hlater.2 j).other (by rw [hreturned]; simp [Progress.waits])).1

theorem putThread_stops_roundsRun :
    ∃ m, 19 ≤ m ∧ ((EventMachine.Schedule.replay twoChannels roundsRun).state m).progress =
      .returned := by
  have hstop : ((EventMachine.Schedule.replay twoChannels roundsRun).state 19).isStop = true := by
    decide
  -- in the end the thread has returned, and neither put is outstanding
  have hnone : ∀ e ∈ [Event.run, .putDone 0, .putDone 1],
      (twoChannels.step (EventMachine.Schedule.replayState twoChannels roundsRun roundsRun.length)
        e).isNone = true := by decide
  have hcreated : (EventMachine.Schedule.replayState twoChannels roundsRun
      roundsRun.length).created 2 = 2 := by decide
  have hfair : ∀ actor, (EventMachine.Schedule.replay twoChannels roundsRun).Fair Acts actor := by
    intro actor
    apply EventMachine.Schedule.fair_replay
    rintro ⟨e, t, hacts, hs⟩
    cases hacts with
    | thread => simpa [hs] using hnone .run (by simp)
    | server i =>
      match i with
      | 0 => simpa [hs] using hnone (.putDone 0) (by simp)
      | 1 => simpa [hs] using hnone (.putDone 1) (by simp)
      | i + 2 =>
        replace hs : PutThread.step 2 (fun _ => [("value", .scalar)])
          (EventMachine.Schedule.replayState twoChannels roundsRun roundsRun.length)
          (.putDone (i + 2)) = some t := hs
        simp only [PutThread.step, PutThread.callback, hcreated, Option.ite_none_right_eq_some] at hs
        exact absurd hs.1 (by omega)
  obtain ⟨m, hm, ⟨call, hdied⟩ | ⟨hreturned, -⟩⟩ := putThread_stops 2 _ _ hfair hstop
  · -- no exception is among the events
    exfalso
    by_cases hlast : roundsRun.length ≤ m
    · have hstate : (EventMachine.Schedule.replay twoChannels roundsRun).state m = _ :=
        EventMachine.Schedule.replayState_of_le hlast
      have hreturned : (EventMachine.Schedule.replayState twoChannels roundsRun
          roundsRun.length).progress = .returned := by decide
      rw [hstate, hreturned] at hdied
      exact Progress.noConfusion hdied
    · have halive : ∀ m ∈ List.range roundsRun.length,
          (EventMachine.Schedule.replayState twoChannels roundsRun m).progress.lives = true := by
        decide
      have hlives := halive m (List.mem_range.mpr (by omega))
      have hstate : (EventMachine.Schedule.replayState twoChannels roundsRun m).progress = _ := hdied
      rw [hstate] at hlives
      exact Bool.noConfusion hlives
  · exact ⟨m, hm, hreturned⟩

end TestDatabase.PutRounds
