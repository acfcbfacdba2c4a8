import TestDatabase.Lib.LockedFlag
import TestDatabase.Link.Get

/-!
# A lost channel, thread by thread

The event machines `getLink` and `monitorLink` take a callback for one step.  But
`channelStateChange` stores `channelConnected` before it takes the record lock, `event()`
takes the lock for each element anew, and the callbacks that tell of success take no lock at
all.  A thread that processes the record may have found the channel connected, and may be
inside `get()`, when the channel is lost.

Here any number of threads run these callbacks and process the record, and take turns between
the store, the lock, the look at `channelConnected`, and what `process()` makes of the record.

It is assumed that only the record writes its alarm field (a client that writes it can hide a
loss), that no exception leaves a section (it would release the lock with the loss not yet
shown), and that no callback is made by the thread that holds the lock.  Clients may write the
value.

## Main definitions

* `Alarm.Disconnected` — the alarm of a link whose channel is not connected.

* `GetLinkRecord.flagged`, `MonitorLinkRecord.flagged` — the two records and what threads do to
  them, as objects with a flag that is stored without the lock.

## Main results

* `GetLinkRecord.uninterrupted`, `MonitorLinkRecord.uninterrupted` — a callback of a loss that
  nobody interrupts is the one of the event machine.
* `loss_shown` — **between two sections a read link whose channel is lost looks disconnected.**
-/

namespace TestDatabase

/-- The alarm of a link whose channel is not connected.  Until the first connect, which makes
the client object, it may still be that of `init`. -/
def Alarm.Disconnected (a : Alarm) (everConnected : Bool) : Prop :=
  a.severity = .invalidAlarm ∧
    (a.message = "disconnected" ∨ everConnected = false ∧ a.message = "never connected")

/-! ### The get link record -/

/-- What is done to the record without a look at `channelConnected`. -/
inductive GetStore
  /-- `channelGetConnect`, told that the connect succeeded. -/
  | channelGetConnect
  /-- A client writes the value. -/
  | write (value : Double)
  deriving DecidableEq, Repr

/-- The sections that end in `process()`. -/
inductive GetSection
  | process
  /-- `channelGetConnect`, told that the connect failed. -/
  | channelGetConnect
  deriving DecidableEq, Repr

namespace GetLinkRecord

/-- `process()`, once it has found `channelConnected` to be `saw`. -/
def processSeeing (r : GetLinkRecord) (saw : Bool) (outcome : GetOutcome) : Option GetLinkRecord :=
  let seen : GetLinkRecord := { r with channelConnected := saw }
  (seen.process outcome).map fun t => { t with channelConnected := r.channelConnected }

theorem process_of_lost {r : GetLinkRecord} (h : r.channelConnected = false) (outcome : GetOutcome) :
    r.process outcome = some (r.bad "disconnected") := if_pos h

theorem processSeeing_eq_some {r t : GetLinkRecord} {saw : Bool} {outcome : GetOutcome}
    (h : r.processSeeing saw outcome = some t) :
    ∃ u, { r with channelConnected := saw }.process outcome = some u ∧
      t = { u with channelConnected := r.channelConnected } := by
  obtain ⟨u, hproc, rfl⟩ := Option.map_eq_some_iff.mp h
  exact ⟨u, hproc, rfl⟩

/-- The record among the threads that work on it. -/
def flagged : FlaggedObject GetLinkRecord GetStore GetSection GetOutcome where
  init := .init
  flag r := r.channelConnected
  shown r := r.pvAlarm.Disconnected r.pvaClientGet.isSome
  lose r := { r with channelConnected := false }
  find r := { r with channelConnected := true }.createGet
  other
    | .channelGetConnect, r =>
      if r.pvaClientGet.isSome then some { r with isGetConnected := true } else none
    | .write value, r => some { r with pvValue := value }
  enter
    | .process, r => r
    | .channelGetConnect, r => { r with isGetConnected := false }
  finish _ outcome saw r := r.processSeeing saw outcome
  lossSection := .process
  flag_lose _ := rfl
  flag_find r := by
    unfold createGet
    split <;> rfl
  flag_other {i r r'} h := by
    cases i with
    | channelGetConnect =>
      simp only [Option.ite_none_right_eq_some, Option.some.injEq] at h
      obtain ⟨-, rfl⟩ := h
      rfl
    | write value =>
      obtain rfl := Option.some.inj h
      rfl
  flag_enter k r := by cases k <;> rfl
  flag_finish h := by
    obtain ⟨u, -, rfl⟩ := processSeeing_eq_some h
    rfl
  shown_init := ⟨rfl, .inr ⟨rfl, rfl⟩⟩
  shown_other {i r r'} h hshown := by
    cases i with
    | channelGetConnect =>
      simp only [Option.ite_none_right_eq_some, Option.some.injEq] at h
      obtain ⟨-, rfl⟩ := h
      exact hshown
    | write value =>
      obtain rfl := Option.some.inj h
      exact hshown
  shown_finish h := by
    obtain ⟨u, hproc, rfl⟩ := processSeeing_eq_some h
    obtain rfl := Option.some.inj ((process_of_lost rfl _).symm.trans hproc)
    exact ⟨rfl, .inl rfl⟩

/-- The steps of a callback of a loss, one after the other, are `channelStateChange`. -/
theorem uninterrupted (r : GetLinkRecord) (outcome : GetOutcome) :
    flagged.finish .process outcome (flagged.flag (flagged.lose r)) (flagged.lose r) =
      r.channelStateChange false outcome := by
  let lost : GetLinkRecord := { r with channelConnected := false }
  show (lost.process outcome).map (fun t => { t with channelConnected := false }) =
    lost.process outcome
  cases hproc : lost.process outcome with
  | none => rfl
  | some t =>
    have hflag : t.channelConnected = false := channelConnected_of_process hproc
    rw [Option.map_some, ← hflag]

end GetLinkRecord

/-! ### The monitor link record -/

/-- What is done to the record without a look at `channelConnected`. -/
inductive MonitorStore
  /-- `monitorConnect`, told that the connect succeeded. -/
  | monitorConnect
  /-- A client writes the value. -/
  | write (value : Double)
  deriving DecidableEq, Repr

/-- The sections that end in `process()`. -/
inductive MonitorSection
  | process
  /-- `monitorConnect`, told that the connect failed. -/
  | monitorConnect
  /-- The section of `event()` for one element. -/
  | element (value : Double) (alarm : AlarmField)
  deriving DecidableEq, Repr

namespace MonitorLinkRecord

/-- `process()`, once it has found `channelConnected` to be `saw`. -/
def processSeeing (r : MonitorLinkRecord) (saw : Bool) : MonitorLinkRecord :=
  let seen : MonitorLinkRecord := { r with channelConnected := saw }
  { seen.processed with channelConnected := r.channelConnected }

/-- The record among the threads that work on it. -/
def flagged : FlaggedObject MonitorLinkRecord MonitorStore MonitorSection Unit where
  init := .init
  flag r := r.channelConnected
  shown r := r.pvAlarm.Disconnected r.pvaClientMonitor.isSome
  lose r := { r with channelConnected := false }
  find r := { r with channelConnected := true }.createMonitor
  other
    | .monitorConnect, r =>
      if r.pvaClientMonitor.isSome then some { r with isMonitorConnected := true } else none
    | .write value, r => some { r with pvValue := value }
  enter
    | .process, r => r
    | .monitorConnect, r => { r with isMonitorConnected := false }
    | .element value alarm, r => r.mirrored value alarm
  finish _ _ saw r := some (r.processSeeing saw)
  lossSection := .process
  flag_lose _ := rfl
  flag_find r := channelConnected_createMonitor _
  flag_other {i r r'} h := by
    cases i with
    | monitorConnect =>
      simp only [Option.ite_none_right_eq_some, Option.some.injEq] at h
      obtain ⟨-, rfl⟩ := h
      rfl
    | write value =>
      obtain rfl := Option.some.inj h
      rfl
  flag_enter k r := by cases k <;> rfl
  flag_finish h := by
    obtain rfl := Option.some.inj h
    rfl
  shown_init := ⟨rfl, .inr ⟨rfl, rfl⟩⟩
  shown_other {i r r'} h hshown := by
    cases i with
    | monitorConnect =>
      simp only [Option.ite_none_right_eq_some, Option.some.injEq] at h
      obtain ⟨-, rfl⟩ := h
      exact hshown
    | write value =>
      obtain rfl := Option.some.inj h
      exact hshown
  shown_finish h := by
    obtain rfl := Option.some.inj h
    exact ⟨rfl, .inl rfl⟩

/-- The steps of a callback of a loss, one after the other, are `channelStateChange`. -/
theorem uninterrupted (r : MonitorLinkRecord) :
    flagged.finish .process () (flagged.flag (flagged.lose r)) (flagged.lose r) =
      monitorLink.step r (.channelStateChange false) := by
  let lost : MonitorLinkRecord := { r with channelConnected := false }
  have hflag : lost.processed.channelConnected = false := (sameLink_processed lost).1
  have hstep : monitorLink.step r (.channelStateChange false) = some lost.processed := step_eq r _
  rw [hstep]
  show some ({ lost.processed with channelConnected := false } : MonitorLinkRecord) = _
  rw [← hflag]

end MonitorLinkRecord

/-! ### Both read links -/

/-- **Between two sections a read link whose channel is lost looks disconnected.**  Any number
of threads run callbacks and process the record.  While nobody holds the record lock and no
`channelStateChange` that was told of a loss is at the lock, a record whose channel is not
connected publishes an invalid alarm, "disconnected" once it has been connected, however far
the other threads had come when the channel was lost. -/
theorem loss_shown :
    (∀ s, GetLinkRecord.flagged.machine.Reachable s → s.owner = none →
      (∀ t, ¬ (s.phase t).Losing) → s.object.channelConnected = false →
        s.object.pvAlarm.Disconnected s.object.pvaClientGet.isSome) ∧
    ∀ s, MonitorLinkRecord.flagged.machine.Reachable s → s.owner = none →
      (∀ t, ¬ (s.phase t).Losing) → s.object.channelConnected = false →
        s.object.pvAlarm.Disconnected s.object.pvaClientMonitor.isSome :=
  ⟨fun _ hs hfree hcallbacks hlost => LockedFlag.shown_of_free hs hfree hcallbacks hlost,
    fun _ hs hfree hcallbacks hlost => LockedFlag.shown_of_free hs hfree hcallbacks hlost⟩

/-- The channel is lost while thread 1 is inside `get()`, and found connected. -/
def lostInGet : List (SectionEvent GetStore GetSection GetOutcome) :=
  [.find 0, .other 0 .channelGetConnect, .call 1 .process, .lock 1, .look 1, .lose 0,
    .finish 1 (.got ⟨1⟩ .missing), .unlock 1, .lock 0, .look 0, .finish 0 (.threw ""), .unlock 0]

/-- What thread 1 got is overwritten by the callback of the loss. -/
theorem loss_shown_lostInGet :
    ∃ s, GetLinkRecord.flagged.machine.Reachable s ∧ s.object.pvValue = ⟨1⟩ ∧
      s.object.pvAlarm.Disconnected s.object.pvaClientGet.isSome := by
  have hrun : ∃ s, GetLinkRecord.flagged.machine.run GetLinkRecord.flagged.machine.init lostInGet =
      some s ∧ s.owner = none ∧ (∀ t, ¬ (s.phase t).Losing) ∧ s.object.channelConnected = false ∧
      s.object.pvValue = ⟨1⟩ := by
    refine ⟨_, rfl, rfl, fun t => ?_, rfl, rfl⟩
    match t with
    | 0 => exact id
    | 1 => exact id
    | t + 2 => exact id
  obtain ⟨s, hs, hfree, hcallbacks, hlost, hvalue⟩ := hrun
  have hreach := EventMachine.Reachable.of_run .init hs
  exact ⟨s, hreach, hvalue, loss_shown.1 s hreach hfree hcallbacks hlost⟩

end TestDatabase
