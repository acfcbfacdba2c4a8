import TestDatabase.Lib.EventMachine
import TestDatabase.Link.Alarm

/-!
# The put link record

`PutLinkRecord` forwards the value a client puts to it over a `PvaClientPut`.
Four flags steer it: two say which connections are up, `isPutDone` guards against
a second put, and `setAlarmGood` asks the next put to publish a good alarm.

`process()` blocks inside `pvaClientPut->put()`, and callbacks are delivered
meanwhile, on the same thread or on another one.  It is therefore modelled in two
parts: `process` runs up to that call and `afterPut` from there on.  Everything a
thread does under the record lock, up to `put()` or to the release, is one step.
The one assignment made before a lock is taken, `channelConnected = false` in
`channelStateChange`, is a step of its own.

## Main definitions

* `PutLinkRecord` — the record, with `process`, `afterPut`, `channelStateChange`,
  `channelPutConnect` and `putDone`.
* `PutWorld` — the record, the calls of `process()` that are inside `put()`, and
  what pvaClient knows of the puts.
* `putLink` — the event machine of clients and callbacks.

## Main results

* `PutLinkRecord.process_cases` — the three ways a call of `process()` can go.
* `PutWorld.step_effect` — what each event does to the world, branch by branch.
-/

namespace TestDatabase

/-- The part of a `PvaClientChannel` the link records use: it makes client objects. -/
structure PvaClientChannel where
  /-- How many objects `createGet`, `createPut` or `createMonitor` has made. -/
  created : Nat := 0
  deriving DecidableEq, Repr, Inhabited

/-- A `PvaClientPut`, with the value held by its data. -/
structure PvaClientPut where
  value : Double := default
  deriving DecidableEq, Repr, Inhabited

/-- The record.  The defaults are what the constructor and `init` leave. -/
structure PutLinkRecord where
  channelConnected : Bool := false
  isPutConnected : Bool := false
  isPutDone : Bool := true
  setAlarmGood : Bool := false
  pvValue : Double := default
  /-- The published alarm field. -/
  pvAlarm : Alarm := {}
  /-- The private copy. -/
  alarm : Alarm := {}
  pvaClientChannel : PvaClientChannel := {}
  pvaClientPut : Option PvaClientPut := none
  deriving DecidableEq, Repr, Inhabited

/-- How far a call of `process()` has come. -/
inductive ProcessStep
  /-- It returned. -/
  | returned (record : PutLinkRecord)
  /-- It is inside `pvaClientPut->put()`. -/
  | inPut (record : PutLinkRecord)
  /-- It dereferenced a null `pvaClientPut`. -/
  | nullPut
  deriving DecidableEq, Repr

namespace PutLinkRecord

/-- The body of every failure branch: publish an invalid alarm and ask for a good
one later. -/
def bad (r : PutLinkRecord) (message : String) : PutLinkRecord :=
  { r with
    alarm := r.alarm.invalid message
    pvAlarm := r.alarm.invalid message
    setAlarmGood := true }

/-- `if(setAlarmGood)`: publish a good alarm once. -/
def good (r : PutLinkRecord) : PutLinkRecord :=
  if r.setAlarmGood then
    let alarm := { r.alarm with message := "connected", severity := .noAlarm }
    { r with setAlarmGood := false, alarm := alarm, pvAlarm := alarm }
  else r

/-- From `putDouble` to the call of `put()`. -/
def issue (r : PutLinkRecord) (clientPut : PvaClientPut) : PutLinkRecord :=
  let r := { r with pvaClientPut := some { clientPut with value := r.pvValue } }
  { r.good with isPutDone := false }

/-- `process()` up to its return or to the call of `put()`.  `thrown` is the exception
of `getData()` or `putDouble`, if one is thrown. -/
def process (r : PutLinkRecord) (thrown : Option String) : ProcessStep :=
  if r.channelConnected = false then .returned (r.bad "disconnected")
  else if r.isPutConnected = false then .returned (r.bad "channelPut not connected")
  else if r.isPutDone = false then .returned (r.bad "previous put not done")
  else
    match r.pvaClientPut, thrown with
    | none, _ => .nullPut
    | some _, some message => .returned (r.bad message)
    | some clientPut, none => .inPut (r.issue clientPut)

/-- `process()` from the end of `put()`: normal, or by an exception. -/
def afterPut (r : PutLinkRecord) : Option String → PutLinkRecord
  | none => r
  | some message => r.bad message

/-- `createPut("value")`, `setRequester` and `issueConnect`. -/
def createPut (r : PutLinkRecord) : PutLinkRecord :=
  { r with
    pvaClientPut := some {}
    pvaClientChannel := { created := r.pvaClientChannel.created + 1 } }

/-- `channelStateChange`, up to `lock()` when the channel is lost. -/
def channelStateChange (r : PutLinkRecord) (isConnected : Bool) : PutLinkRecord :=
  let r := { r with channelConnected := isConnected }
  if isConnected then
    let r := { r with setAlarmGood := true }
    match r.pvaClientPut with
    | none => r.createPut
    | some _ => r
  else r

/-- `channelPutConnect`, up to the call of `process()` when the connect failed. -/
def channelPutConnect (r : PutLinkRecord) (isOK : Bool) : PutLinkRecord :=
  { r with isPutConnected := isOK }

/-- `putDone`, up to the call of `process()` when the put failed. -/
def putDone (r : PutLinkRecord) (isOK : Bool) : PutLinkRecord :=
  { r with isPutDone := isOK }

/-- The three flags that let `process()` put. -/
def Ready (r : PutLinkRecord) : Prop :=
  r.channelConnected = true ∧ r.isPutConnected = true ∧ r.isPutDone = true

instance (r : PutLinkRecord) : Decidable r.Ready := inferInstanceAs (Decidable (_ ∧ _))

/-! ### What the pieces do to the flags and to the alarm -/

section bad
variable (r : PutLinkRecord) (message : String)

@[simp] theorem channelConnected_bad :
    (r.bad message).channelConnected = r.channelConnected := rfl
@[simp] theorem isPutDone_bad : (r.bad message).isPutDone = r.isPutDone := rfl
@[simp] theorem setAlarmGood_bad : (r.bad message).setAlarmGood = true := rfl
@[simp] theorem pvValue_bad : (r.bad message).pvValue = r.pvValue := rfl
@[simp] theorem severity_bad : (r.bad message).pvAlarm.severity = .invalidAlarm := rfl
@[simp] theorem pvaClientPut_bad : (r.bad message).pvaClientPut = r.pvaClientPut := rfl

end bad

section good
variable (r : PutLinkRecord)

@[simp] theorem channelConnected_good : r.good.channelConnected = r.channelConnected := by
  unfold good; split <;> rfl

@[simp] theorem pvValue_good : r.good.pvValue = r.pvValue := by unfold good; split <;> rfl

@[simp] theorem isPutConnected_good : r.good.isPutConnected = r.isPutConnected := by
  unfold good; split <;> rfl

@[simp] theorem pvaClientPut_good : r.good.pvaClientPut = r.pvaClientPut := by
  unfold good; split <;> rfl

@[simp] theorem pvaClientChannel_good : r.good.pvaClientChannel = r.pvaClientChannel := by
  unfold good; split <;> rfl

@[simp] theorem setAlarmGood_good : r.good.setAlarmGood = false := by
  unfold good
  split
  · rfl
  · next h => simpa using h

/-- A put that was asked for a good alarm publishes one; otherwise it leaves the
published alarm alone. -/
theorem severity_good (h : r.setAlarmGood = false → r.pvAlarm.severity = .noAlarm) :
    r.good.pvAlarm.severity = .noAlarm := by
  unfold good
  split
  · rfl
  · next hgood => exact h (by simpa using hgood)

end good

section issue
variable (r : PutLinkRecord) (clientPut : PvaClientPut)

@[simp] theorem channelConnected_issue :
    (r.issue clientPut).channelConnected = r.channelConnected := by simp [issue]

@[simp] theorem isPutConnected_issue :
    (r.issue clientPut).isPutConnected = r.isPutConnected := by simp [issue]

@[simp] theorem pvaClientChannel_issue :
    (r.issue clientPut).pvaClientChannel = r.pvaClientChannel := by simp [issue]

@[simp] theorem isPutDone_issue : (r.issue clientPut).isPutDone = false := rfl

@[simp] theorem setAlarmGood_issue : (r.issue clientPut).setAlarmGood = false := by simp [issue]

@[simp] theorem pvValue_issue : (r.issue clientPut).pvValue = r.pvValue := by simp [issue]

@[simp] theorem pvaClientPut_issue :
    (r.issue clientPut).pvaClientPut = some { clientPut with value := r.pvValue } := by
  simp [issue]

theorem severity_issue (h : r.setAlarmGood = false → r.pvAlarm.severity = .noAlarm) :
    (r.issue clientPut).pvAlarm.severity = .noAlarm :=
  severity_good { r with pvaClientPut := some { clientPut with value := r.pvValue } } h

end issue

section channelStateChange
variable (r : PutLinkRecord) (isConnected : Bool)

@[simp] theorem channelConnected_channelStateChange :
    (r.channelStateChange isConnected).channelConnected = isConnected := by
  unfold channelStateChange createPut
  cases isConnected <;> cases r.pvaClientPut <;> rfl

@[simp] theorem isPutConnected_channelStateChange :
    (r.channelStateChange isConnected).isPutConnected = r.isPutConnected := by
  unfold channelStateChange createPut
  cases isConnected <;> cases r.pvaClientPut <;> rfl

@[simp] theorem isPutDone_channelStateChange :
    (r.channelStateChange isConnected).isPutDone = r.isPutDone := by
  unfold channelStateChange createPut
  cases isConnected <;> cases r.pvaClientPut <;> rfl

@[simp] theorem pvValue_channelStateChange :
    (r.channelStateChange isConnected).pvValue = r.pvValue := by
  unfold channelStateChange createPut
  cases isConnected <;> cases r.pvaClientPut <;> rfl

@[simp] theorem pvAlarm_channelStateChange :
    (r.channelStateChange isConnected).pvAlarm = r.pvAlarm := by
  unfold channelStateChange createPut
  cases isConnected <;> cases r.pvaClientPut <;> rfl

theorem setAlarmGood_channelStateChange (h : (r.channelStateChange isConnected).setAlarmGood = false) :
    r.setAlarmGood = false := by
  unfold channelStateChange createPut at h
  cases isConnected
  · simpa using h
  · cases hput : r.pvaClientPut <;> simp [hput] at h

/-- Connecting makes the put object, if there is none yet. -/
theorem pvaClientPut_channelStateChange_true :
    (r.channelStateChange true).pvaClientPut.isSome = true := by
  unfold channelStateChange createPut
  cases r.pvaClientPut <;> simp

end channelStateChange

/-! ### The outcomes of `process()` -/

/-- **The three ways a call of `process()` can go**: it fails with an alarm, it issues
a put, or it has no object to put with. -/
theorem process_cases (r : PutLinkRecord) (thrown : Option String) :
    (∃ message, r.process thrown = .returned (r.bad message)) ∨
    (r.Ready ∧ thrown = none ∧
      ∃ clientPut, r.pvaClientPut = some clientPut ∧
        r.process thrown = .inPut (r.issue clientPut)) ∨
    (r.Ready ∧ r.pvaClientPut = none ∧ r.process thrown = .nullPut) := by
  unfold process
  split
  · exact .inl ⟨_, rfl⟩
  split
  · exact .inl ⟨_, rfl⟩
  split
  · exact .inl ⟨_, rfl⟩
  next hc hp hd =>
    have hready : r.Ready := ⟨by simpa using hc, by simpa using hp, by simpa using hd⟩
    cases hput : r.pvaClientPut with
    | none => exact .inr (.inr ⟨hready, rfl, rfl⟩)
    | some clientPut =>
      cases thrown with
      | some message => exact .inl ⟨message, rfl⟩
      | none => exact .inr (.inl ⟨hready, rfl, clientPut, rfl, rfl⟩)

/-- Without all three flags, `process()` publishes an invalid alarm and returns. -/
theorem process_of_not_ready {r : PutLinkRecord} (h : ¬ r.Ready) (thrown : Option String) :
    ∃ message, r.process thrown = .returned (r.bad message) := by
  rcases r.process_cases thrown with hbad | ⟨hready, -⟩ | ⟨hready, -⟩
  · exact hbad
  · exact absurd hready h
  · exact absurd hready h

/-- With all three flags and an object, `process()` gets into `put()`. -/
theorem process_of_ready {r : PutLinkRecord} (h : r.Ready) {clientPut : PvaClientPut}
    (hput : r.pvaClientPut = some clientPut) :
    r.process none = .inPut (r.issue clientPut) := by
  obtain ⟨hc, hp, hd⟩ := h
  simp [process, hc, hp, hd, hput]

end PutLinkRecord

/-! ### Clients and callbacks -/

/-- A call of `process()` that is inside `pvaClientPut->put()`. -/
structure PutFrame where
  /-- The put it issued. -/
  put : ℕ
  /-- The value that put carries. -/
  sent : Option Double
  /-- What `putDone` reported for that put, if it was delivered. -/
  status : Option Bool := none
  /-- Whether a failing callback called `process()` during this `put()`. -/
  disturbed : Bool := false
  deriving DecidableEq, Repr

/-- How a call of `process()` ended. -/
structure ProcessEnd where
  /-- The value of the put it sent, if it sent one. -/
  sent : Option Double := none
  /-- Whether `put()` returned without an exception. -/
  returned : Bool := false
  /-- Whether a failing callback called `process()` during that `put()`. -/
  disturbed : Bool := false
  deriving DecidableEq, Repr

/-- The record together with what is going on around it. -/
structure PutWorld where
  record : PutLinkRecord := {}
  /-- The calls of `process()` inside `put()`, innermost first. -/
  frames : List PutFrame := []
  /-- How many puts have been issued: puts are numbered from `0`. -/
  issued : ℕ := 0
  /-- The puts issued and not answered by `putDone`. -/
  unanswered : List ℕ := []
  /-- The puts whose `put()` ended by an exception. -/
  threw : List ℕ := []
  /-- A `channelStateChange(false)` has cleared the flag and not yet got the lock. -/
  changing : Bool := false
  /-- The call of `process()` that returned in the last step, if one did. -/
  ended : Option ProcessEnd := none
  deriving DecidableEq, Repr

/-- What clients, pvaClient and pvDatabase can do to the record. -/
inductive PutEvent
  /-- A client writes the value field. -/
  | write (value : Double)
  /-- A client processes the record. -/
  | process (thrown : Option String)
  /-- `channelStateChange`; for a lost channel, up to `lock()`. -/
  | channelStateChange (isConnected : Bool)
  /-- The part of `channelStateChange(false)` run under the lock. -/
  | channelStateChangeLocked (thrown : Option String)
  | channelPutConnect (isOK : Bool) (thrown : Option String)
  | putDone (put : ℕ) (isOK : Bool) (thrown : Option String)
  /-- The innermost `put()` returns. -/
  | putReturns
  /-- The innermost `put()` throws. -/
  | putThrows (message : String)
  deriving DecidableEq, Repr

namespace PutWorld

/-- The puts still outstanding: neither reported by `putDone` nor ended by an exception. -/
def outstanding (w : PutWorld) : List ℕ := w.unanswered.filter (· ∉ w.threw)

/-- Note on every call inside `put()` that a failing callback processed the record. -/
def disturb (w : PutWorld) : PutWorld :=
  { w with frames := w.frames.map fun f => { f with disturbed := true } }

/-- Deliver `putDone` for a put: it is answered, and its caller will see the status. -/
def answer (w : PutWorld) (put : ℕ) (isOK : Bool) : PutWorld :=
  { w with
    unanswered := w.unanswered.erase put
    frames := w.frames.map fun f => if f.put = put then { f with status := some isOK } else f }

/-- A call of `process()` returned without a put. -/
def failed (w : PutWorld) (r : PutLinkRecord) : PutWorld :=
  { w with record := r, ended := some {} }

/-- A call of `process()` issued the next put and is inside `put()`. -/
def issue (w : PutWorld) (r : PutLinkRecord) : PutWorld :=
  { w with
    record := r
    frames := { put := w.issued, sent := r.pvaClientPut.map (·.value) } :: w.frames
    issued := w.issued + 1
    unanswered := w.issued :: w.unanswered
    ended := none }

/-- Carry a call of `process()` as far as it goes.  Using a null object is no step. -/
def enter (w : PutWorld) : ProcessStep → Option PutWorld
  | .returned r => some (w.failed r)
  | .inPut r => some (w.issue r)
  | .nullPut => none

/-- The innermost `put()` ends, and with it its call of `process()`. -/
def leave (w : PutWorld) (f : PutFrame) (fs : List PutFrame) (thrown : Option String) : PutWorld :=
  { w with
    record := w.record.afterPut thrown
    frames := fs
    ended := some { sent := f.sent, returned := thrown.isNone, disturbed := f.disturbed } }

/-- One event.  A client needs the record lock, which a call inside `put()` holds;
callbacks may be delivered at any time.  `channelStateChange` calls do not overlap,
`putDone` answers a put that was issued and not answered, and `put()` does not
return when its status is not OK. -/
def step (w : PutWorld) : PutEvent → Option PutWorld
  | .write value =>
    if w.frames = [] then some { w with record.pvValue := value, ended := none } else none
  | .process thrown => if w.frames = [] then w.enter (w.record.process thrown) else none
  | .channelStateChange isConnected =>
    if w.changing then none
    else some { w with
      record := w.record.channelStateChange isConnected
      changing := !isConnected
      ended := none }
  | .channelStateChangeLocked thrown =>
    if w.changing then
      { w.disturb with changing := false }.enter (w.record.process thrown)
    else none
  | .channelPutConnect isOK thrown =>
    if isOK then some { w with record := w.record.channelPutConnect true, ended := none }
    else w.disturb.enter ((w.record.channelPutConnect false).process thrown)
  | .putDone put isOK thrown =>
    if put ∈ w.unanswered then
      if isOK then some { w.answer put true with record := w.record.putDone true, ended := none }
      else (w.answer put false).disturb.enter ((w.record.putDone false).process thrown)
    else none
  | .putReturns =>
    match w.frames with
    | [] => none
    | f :: fs => if f.status = some false then none else some (w.leave f fs none)
  | .putThrows message =>
    match w.frames with
    | [] => none
    | f :: fs => some { w.leave f fs (some message) with threw := f.put :: w.threw }

/-- What an event does, branch by branch.  The processing done by the three failing
callbacks always ends in a failure branch, with some message. -/
inductive Effect (w : PutWorld) : PutEvent → PutWorld → Prop
  | write (value : Double) (hlock : w.frames = []) :
    Effect w (.write value) { w with record.pvValue := value, ended := none }
  | refused (thrown : Option String) (message : String) (hlock : w.frames = []) :
    Effect w (.process thrown) (w.failed (w.record.bad message))
  | issued (clientPut : PvaClientPut) (hlock : w.frames = []) (hready : w.record.Ready)
      (hput : w.record.pvaClientPut = some clientPut) :
    Effect w (.process none) (w.issue (w.record.issue clientPut))
  | stateChange (isConnected : Bool) (hchanging : w.changing = false) :
    Effect w (.channelStateChange isConnected)
      { w with
        record := w.record.channelStateChange isConnected
        changing := !isConnected
        ended := none }
  | lost (thrown : Option String) (message : String) (hchanging : w.changing = true) :
    Effect w (.channelStateChangeLocked thrown)
      ({ w.disturb with changing := false }.failed (w.record.bad message))
  | connected (thrown : Option String) :
    Effect w (.channelPutConnect true thrown)
      { w with record := w.record.channelPutConnect true, ended := none }
  | notConnected (thrown : Option String) (message : String) :
    Effect w (.channelPutConnect false thrown)
      (w.disturb.failed ((w.record.channelPutConnect false).bad message))
  | done (put : ℕ) (thrown : Option String) (hput : put ∈ w.unanswered) :
    Effect w (.putDone put true thrown)
      { w.answer put true with record := w.record.putDone true, ended := none }
  | notDone (put : ℕ) (thrown : Option String) (message : String) (hput : put ∈ w.unanswered) :
    Effect w (.putDone put false thrown)
      ((w.answer put false).disturb.failed ((w.record.putDone false).bad message))
  | returns (f : PutFrame) (fs : List PutFrame) (hframes : w.frames = f :: fs)
      (hstatus : f.status ≠ some false) :
    Effect w .putReturns (w.leave f fs none)
  | throws (f : PutFrame) (fs : List PutFrame) (message : String) (hframes : w.frames = f :: fs) :
    Effect w (.putThrows message)
      { w.leave f fs (some message) with threw := f.put :: w.threw }

/-- A call of `process()` that lacks a flag fails with some message. -/
theorem enter_of_not_ready {w : PutWorld} {r : PutLinkRecord} (h : ¬ r.Ready)
    (thrown : Option String) :
    ∃ message, w.enter (r.process thrown) = some (w.failed (r.bad message)) := by
  obtain ⟨message, hproc⟩ := PutLinkRecord.process_of_not_ready h thrown
  exact ⟨message, by rw [hproc, enter]⟩

/-- **What each event does.**  The hypothesis is the one invariant needed to see that
a failing callback cannot issue a put: a lost channel stays lost until its
`channelStateChange` has processed the record. -/
theorem step_effect {w w' : PutWorld} {e : PutEvent}
    (hlost : w.changing = true → w.record.channelConnected = false)
    (h : w.step e = some w') : Effect w e w' := by
  cases e with
  | write value =>
    simp only [step, Option.ite_none_right_eq_some, Option.some.injEq] at h
    obtain ⟨hlock, rfl⟩ := h
    exact .write value hlock
  | process thrown =>
    simp only [step, Option.ite_none_right_eq_some] at h
    obtain ⟨hlock, h⟩ := h
    rcases w.record.process_cases thrown with ⟨message, hproc⟩ |
      ⟨hready, rfl, clientPut, hput, hproc⟩ | ⟨-, -, hproc⟩
    · rw [hproc, enter, Option.some.injEq] at h
      exact h ▸ .refused thrown message hlock
    · rw [hproc, enter, Option.some.injEq] at h
      exact h ▸ .issued clientPut hlock hready hput
    · rw [hproc, enter] at h
      exact absurd h (by simp)
  | channelStateChange isConnected =>
    simp only [step, Option.ite_none_left_eq_some, Option.some.injEq] at h
    obtain ⟨hchanging, rfl⟩ := h
    exact .stateChange isConnected (by simpa using hchanging)
  | channelStateChangeLocked thrown =>
    simp only [step, Option.ite_none_right_eq_some] at h
    obtain ⟨hchanging, h⟩ := h
    have hready : ¬ w.record.Ready := fun hr => by simpa [hlost hchanging] using hr.1
    obtain ⟨message, henter⟩ := enter_of_not_ready hready thrown
    rw [henter, Option.some.injEq] at h
    exact h ▸ .lost thrown message hchanging
  | channelPutConnect isOK thrown =>
    cases isOK with
    | true =>
      simp only [step, if_true, Option.some.injEq] at h
      exact h ▸ .connected thrown
    | false =>
      have hready : ¬ (w.record.channelPutConnect false).Ready :=
        fun hr => Bool.false_ne_true hr.2.1
      obtain ⟨message, henter⟩ := enter_of_not_ready (w := w.disturb) hready thrown
      simp only [step, Bool.false_eq_true, if_false, henter, Option.some.injEq] at h
      exact h ▸ .notConnected thrown message
  | putDone put isOK thrown =>
    simp only [step, Option.ite_none_right_eq_some] at h
    obtain ⟨hput, h⟩ := h
    cases isOK with
    | true =>
      simp only [if_true, Option.some.injEq] at h
      exact h ▸ .done put thrown hput
    | false =>
      have hready : ¬ (w.record.putDone false).Ready := fun hr => Bool.false_ne_true hr.2.2
      obtain ⟨message, henter⟩ :=
        enter_of_not_ready (w := (w.answer put false).disturb) hready thrown
      simp only [Bool.false_eq_true, if_false, henter, Option.some.injEq] at h
      exact h ▸ .notDone put thrown message hput
  | putReturns =>
    cases hframes : w.frames with
    | nil => simp [step, hframes] at h
    | cons f fs =>
      simp only [step, hframes, Option.ite_none_left_eq_some, Option.some.injEq] at h
      obtain ⟨hstatus, rfl⟩ := h
      exact .returns f fs hframes hstatus
  | putThrows message =>
    cases hframes : w.frames with
    | nil => simp [step, hframes] at h
    | cons f fs =>
      simp only [step, hframes, Option.some.injEq] at h
      exact h ▸ .throws f fs message hframes

end PutWorld

/-- The put link record among its clients and callbacks. -/
def putLink : EventMachine PutWorld PutEvent where
  init := {}
  step := PutWorld.step

end TestDatabase
