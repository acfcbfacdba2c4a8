import TestDatabase.Link.MonitorRuns

/-!
# The get link record

`GetLinkRecord` gets the value and the alarm of a channel each time it is processed.
Like `MonitorLinkRecord` it copies the alarm component by component into a private
`alarm` and publishes that if a component changed.  Its failure branches keep the
status of the private alarm.

## Main definitions

* `GetOutcome` — what `get()` and the reads of its data come to.
* `GetLinkRecord` — the record, with `process`, `channelStateChange` and
  `channelGetConnect`.
* `getLink` — the event machine of clients and callbacks.

## Main results

* `GetLinkRecord.process_cases` — the ways a call of `process()` can go.
* `severity_of_disconnected` — a read link that is down never looks healthy.
-/

namespace TestDatabase

/-- A `PvaClientGet`. -/
structure PvaClientGet where
  deriving DecidableEq, Repr, Inhabited

/-- How the body of the `try` block of `process()` goes. -/
inductive GetOutcome
  /-- `get()`, or reading the double, throws. -/
  | threw (message : String)
  /-- The value and the alarm field of the data. -/
  | got (value : Double) (alarm : AlarmField)
  deriving DecidableEq, Repr, Inhabited

/-- The record.  The defaults are what the constructor leaves. -/
structure GetLinkRecord where
  channelConnected : Bool := false
  isGetConnected : Bool := false
  pvValue : Double := default
  /-- The published alarm field. -/
  pvAlarm : Alarm := {}
  /-- The private copy. -/
  alarm : Alarm := {}
  linkAlarm : Alarm := {}
  pvaClientChannel : PvaClientChannel := {}
  pvaClientGet : Option PvaClientGet := none
  deriving DecidableEq, Repr, Inhabited

namespace GetLinkRecord

/-- What `init` leaves. -/
def init : GetLinkRecord :=
  let alarm := { message := "never connected", severity := .invalidAlarm, status := .clientStatus }
  { alarm := alarm, pvAlarm := alarm }

/-- The body of every failure branch. -/
def bad (r : GetLinkRecord) (message : String) : GetLinkRecord :=
  { r with alarm := r.alarm.invalid message, pvAlarm := r.alarm.invalid message }

/-- Copy the components of `linkAlarm` that differ, and publish if one did. -/
def copyAlarm (r : GetLinkRecord) : GetLinkRecord :=
  let setMessage := decide (r.alarm.message ≠ r.linkAlarm.message)
  let setSeverity := decide (r.alarm.severity ≠ r.linkAlarm.severity)
  let setStatus := decide (r.alarm.status ≠ r.linkAlarm.status)
  let alarm := {
    message := if setMessage then r.linkAlarm.message else r.alarm.message
    severity := if setSeverity then r.linkAlarm.severity else r.alarm.severity
    status := if setStatus then r.linkAlarm.status else r.alarm.status }
  { r with
    alarm := alarm
    pvAlarm := if setMessage || setSeverity || setStatus then alarm else r.pvAlarm }

/-- `process()`, up to `PVRecord::process()`.  There is no record after a null
`pvaClientGet` is used. -/
def process (r : GetLinkRecord) (outcome : GetOutcome) : Option GetLinkRecord :=
  if r.channelConnected = false then some (r.bad "disconnected")
  else if r.isGetConnected = false then some (r.bad "channelGet not connected")
  else
    match r.pvaClientGet, outcome with
    | none, _ => none
    -- the catch block
    | some _, .threw message => some (r.bad message)
    | some _, .got value alarm =>
      some { r with pvValue := value, linkAlarm := alarm.linkAlarm }.copyAlarm

/-- `createGet("value,alarm")`, `setRequester` and `issueConnect`, unless there is a get
object already. -/
def createGet (r : GetLinkRecord) : GetLinkRecord :=
  match r.pvaClientGet with
  | none =>
    { r with
      pvaClientGet := some {}
      pvaClientChannel := { created := r.pvaClientChannel.created + 1 } }
  | some _ => r

/-- `channelStateChange`. -/
def channelStateChange (r : GetLinkRecord) (isConnected : Bool) (outcome : GetOutcome) :
    Option GetLinkRecord :=
  let r := { r with channelConnected := isConnected }
  if isConnected then some r.createGet else r.process outcome

/-- `channelGetConnect`. -/
def channelGetConnect (r : GetLinkRecord) (isOK : Bool) (outcome : GetOutcome) :
    Option GetLinkRecord :=
  let r := { r with isGetConnected := isOK }
  if isOK then some r else r.process outcome

/-! ### What `process()` does -/

@[simp] theorem channelConnected_bad (r : GetLinkRecord) (message : String) :
    (r.bad message).channelConnected = r.channelConnected := rfl

@[simp] theorem severity_bad (r : GetLinkRecord) (message : String) :
    (r.bad message).pvAlarm.severity = .invalidAlarm := rfl

/-- The private alarm is that of the link; it is published if it was not that before. -/
theorem copyAlarm_eq (r : GetLinkRecord) :
    r.copyAlarm = { r with
      alarm := r.linkAlarm
      pvAlarm := if r.alarm = r.linkAlarm then r.pvAlarm else r.linkAlarm } := by
  obtain ⟨-, -, -, -, ⟨m, s, t⟩, ⟨m', s', t'⟩, -, -⟩ := r
  by_cases hm : m = m' <;> by_cases hs : s = s' <;> by_cases ht : t = t' <;>
    simp [copyAlarm, hm, hs, ht]

/-- Without both connections `process()` fails with some message. -/
theorem process_of_not_ready {r : GetLinkRecord}
    (h : r.channelConnected = false ∨ r.isGetConnected = false) (outcome : GetOutcome) :
    ∃ message, r.process outcome = some (r.bad message) := by
  unfold process
  split
  · exact ⟨_, rfl⟩
  · next hconnected =>
    rw [if_pos (h.resolve_left hconnected)]
    exact ⟨_, rfl⟩

/-- **The ways `process()` can go.**  It fails with some message, or both connections are
up and it uses a null object or publishes what it got. -/
theorem process_cases (r : GetLinkRecord) (outcome : GetOutcome) :
    (∃ message, r.process outcome = some (r.bad message)) ∨
    r.channelConnected = true ∧ r.isGetConnected = true ∧
      (r.pvaClientGet = none ∧ r.process outcome = none ∨
        ∃ value alarm, outcome = .got value alarm ∧
          r.process outcome =
            some { r with pvValue := value, linkAlarm := alarm.linkAlarm }.copyAlarm) := by
  by_cases hready : r.channelConnected = true ∧ r.isGetConnected = true
  · obtain ⟨hchannel, hget⟩ := hready
    cases hclient : r.pvaClientGet with
    | none => exact .inr ⟨hchannel, hget, .inl ⟨rfl, by simp [process, hchannel, hget, hclient]⟩⟩
    | some clientGet =>
      cases outcome with
      | threw message => exact .inl ⟨message, by simp [process, hchannel, hget, hclient]⟩
      | got value alarm =>
        exact .inr ⟨hchannel, hget, .inr ⟨value, alarm, rfl, by
          simp [process, hchannel, hget, hclient]⟩⟩
  · refine .inl (process_of_not_ready ?_ outcome)
    simpa [← not_and_or, or_iff_not_imp_left] using hready

/-- `process()` keeps the connection flag of the channel. -/
theorem channelConnected_of_process {r t : GetLinkRecord} {outcome : GetOutcome}
    (h : r.process outcome = some t) : t.channelConnected = r.channelConnected := by
  rcases r.process_cases outcome with ⟨message, hproc⟩ |
    ⟨-, -, ⟨-, hproc⟩ | ⟨value, alarm, -, hproc⟩⟩
  · obtain rfl := Option.some.inj (hproc.symm.trans h)
    rfl
  · simp [hproc] at h
  · obtain rfl := Option.some.inj (hproc.symm.trans h)
    rfl

end GetLinkRecord

/-! ### The event machine -/

/-- What can happen to the record. -/
inductive GetEvent
  /-- A client writes the value, and maybe the alarm field. -/
  | write (value : Double) (alarm : Option Alarm)
  /-- A client processes the record. -/
  | process (outcome : GetOutcome)
  | channelStateChange (isConnected : Bool) (outcome : GetOutcome)
  | channelGetConnect (isOK : Bool) (outcome : GetOutcome)
  deriving DecidableEq, Repr

namespace GetLinkRecord

/-- One event.  Each takes the record lock, which is recursive, for all it does. -/
def step (r : GetLinkRecord) : GetEvent → Option GetLinkRecord
  | .write value alarm => some { r with pvValue := value, pvAlarm := alarm.getD r.pvAlarm }
  | .process outcome => r.process outcome
  | .channelStateChange isConnected outcome => r.channelStateChange isConnected outcome
  | .channelGetConnect isOK outcome => r.channelGetConnect isOK outcome

end GetLinkRecord

/-- The get link record among its clients and callbacks. -/
def getLink : EventMachine GetLinkRecord GetEvent where
  init := .init
  step := GetLinkRecord.step

namespace GetLinkRecord

/-! ### A lost channel -/

/-- A record whose channel is not connected publishes an invalid alarm. -/
def ShowsLoss (r : GetLinkRecord) : Prop :=
  r.channelConnected = false → r.pvAlarm.severity = .invalidAlarm

theorem showsLoss_of_process {r t : GetLinkRecord} {outcome : GetOutcome}
    (h : r.process outcome = some t) : ShowsLoss t := by
  intro hlost
  rw [channelConnected_of_process h] at hlost
  obtain ⟨message, hproc⟩ := process_of_not_ready (.inl hlost) outcome
  obtain rfl := Option.some.inj (hproc.symm.trans h)
  exact severity_bad r message

/-- Only a client that writes the alarm field can hide that the channel is lost. -/
theorem ShowsLoss.step {r t : GetLinkRecord} {e : GetEvent} (hr : ShowsLoss r)
    (he : ∀ value alarm, e ≠ .write value (some alarm)) (h : r.step e = some t) :
    ShowsLoss t := by
  cases e with
  | write value alarm =>
    cases alarm with
    | none =>
      obtain rfl := Option.some.inj h
      exact hr
    | some alarm => exact absurd rfl (he value alarm)
  | process outcome => exact showsLoss_of_process h
  | channelStateChange isConnected outcome =>
    cases isConnected with
    | true =>
      -- the channel is connected now, so nothing is to be shown
      obtain rfl := Option.some.inj h
      intro hlost
      unfold createGet at hlost
      split at hlost <;> exact absurd hlost Bool.noConfusion
    | false =>
      have hproc : { r with channelConnected := false }.process outcome = some t := h
      exact showsLoss_of_process hproc
  | channelGetConnect isOK outcome =>
    cases isOK with
    | true =>
      obtain rfl := Option.some.inj h
      exact hr
    | false =>
      have hproc : { r with isGetConnected := false }.process outcome = some t := h
      exact showsLoss_of_process hproc

theorem showsLoss_of_reachable {r : GetLinkRecord}
    (h : getLink.ReachableVia (fun _ e => ∀ value alarm, e ≠ .write value (some alarm)) r) :
    ShowsLoss r :=
  h.invariant (fun _ => rfl) fun _ _ _ hs he hst => hs.step he hst

end GetLinkRecord

/-- **A read link that is down never looks healthy.**  After any number of callbacks,
gets and updates, in any order, a record whose channel is not connected publishes an
invalid alarm, provided no client writes the alarm field. -/
theorem severity_of_disconnected :
    (∀ r, getLink.ReachableVia (fun _ e => ∀ value alarm, e ≠ .write value (some alarm)) r →
      r.channelConnected = false → r.pvAlarm.severity = .invalidAlarm) ∧
    ∀ r, monitorLink.Reachable r →
      r.channelConnected = false → r.pvAlarm.severity = .invalidAlarm :=
  ⟨fun _ => GetLinkRecord.showsLoss_of_reachable, fun _ => MonitorLinkRecord.showsLoss_of_reachable⟩

/-- An element without an alarm, drained after the channel is lost. -/
theorem severity_of_disconnected_late_event :
    ∃ r, monitorLink.Reachable r ∧ r.channelConnected = false ∧ r.pvValue = ⟨1⟩ ∧
      r.pvAlarm.severity = .invalidAlarm := by
  obtain ⟨r, hr, h⟩ := monitorLink.exists_reachable_of_run
    [.channelStateChange true, .monitorConnect true, .channelStateChange false,
      .event [⟨some ⟨1⟩, .missing⟩]]
    (fun r => decide (r.channelConnected = false ∧ r.pvValue = ⟨1⟩)) (by decide +kernel)
  obtain ⟨hlost, hvalue⟩ := of_decide_eq_true h
  exact ⟨r, hr, hlost, hvalue, severity_of_disconnected.2 r hr hlost⟩

end TestDatabase
