import TestDatabase.Link.Get
import TestDatabase.Link.MonitorMirror
import TestDatabase.Link.PutRuns

/-!
# What the alarm field of a link record depends on

The alarm field should tell what the last `process()` found.  Three things stand between
the two.  `GetLinkRecord` decides whether to publish by a private copy of the alarm, so a
client that writes the field hides an alarm that does not change.  Its failure branches
keep the status of that copy, so an alarm got long ago shows in a later failure.  And
`PutLinkRecord` publishes nothing until it is first processed.

## Main definitions

* `GetLinkRecord.obtains` — the value and alarm that a successful `process()` gets.
* `LinkFailure` — the connection that `process()` finds missing.
* `PutWorld.verdict` — whether the `process()` that a step makes or ends fails.

## Main results

* `publishes_iff_notHidden` — **when a successful get is published.**
* `failure_alarm_eq_iff` — **when two failures of the same kind show the same alarm.**
* `severity_before_transfer` — **when a record that has transferred nothing looks healthy.**
-/

namespace TestDatabase

/-! ### What a get publishes -/

namespace GetLinkRecord

/-- Both connections are up, so that `process()` gets. -/
def Ready (r : GetLinkRecord) : Prop := r.channelConnected = true ∧ r.isGetConnected = true

instance (r : GetLinkRecord) : Decidable r.Ready := inferInstanceAs (Decidable (_ ∧ _))

/-- The value and the alarm obtained by an event, if it is a `process()` whose get
succeeds. -/
def obtains (r : GetLinkRecord) : GetEvent → Option (Double × Alarm)
  | .process (.got value alarm) => if r.Ready then some (value, alarm.linkAlarm) else none
  | _ => none

/-- After a successful `process()` the record shows the value and the alarm obtained. -/
def Publishes (r : GetLinkRecord) (e : GetEvent) : Prop :=
  ∀ value alarm t, r.obtains e = some (value, alarm) → r.step e = some t →
    t.pvValue = value ∧ t.pvAlarm = alarm

/-- The alarm to be obtained differs from the private copy, or the field shows it already. -/
def NotHidden (r : GetLinkRecord) (e : GetEvent) : Prop :=
  ∀ value alarm, r.obtains e = some (value, alarm) → r.alarm ≠ alarm ∨ r.pvAlarm = alarm

/-- The get object is there before the channel counts as connected. -/
def Created (r : GetLinkRecord) : Prop :=
  r.channelConnected = true → r.pvaClientGet.isSome = true

theorem obtains_eq_some {r : GetLinkRecord} {e : GetEvent} {value : Double} {a : Alarm} :
    r.obtains e = some (value, a) ↔
      ∃ alarm : AlarmField, e = .process (.got value alarm) ∧ alarm.linkAlarm = a ∧ r.Ready := by
  constructor
  · intro h
    unfold obtains at h
    split at h
    · next value' alarm =>
      split at h
      · next hready =>
        obtain ⟨rfl, rfl⟩ := Prod.mk.inj (Option.some.inj h)
        exact ⟨alarm, rfl, rfl, hready⟩
      · exact absurd h (by simp)
    · exact absurd h (by simp)
  · rintro ⟨alarm, rfl, rfl, hready⟩
    exact if_pos hready

/-- A `process()` whose get succeeds: the value is published, the alarm if it is news. -/
theorem process_of_ready {r : GetLinkRecord} (hready : r.Ready) (hcreated : r.Created)
    (value : Double) (alarm : AlarmField) :
    r.process (.got value alarm) = some { r with
      pvValue := value
      linkAlarm := alarm.linkAlarm
      alarm := alarm.linkAlarm
      pvAlarm := if r.alarm = alarm.linkAlarm then r.pvAlarm else alarm.linkAlarm } := by
  obtain ⟨hchannel, hget⟩ := hready
  obtain ⟨clientGet, hclient⟩ := Option.isSome_iff_exists.mp (hcreated hchannel)
  simp [process, hchannel, hget, hclient, copyAlarm_eq]

/-- A `process()` that is not a successful get fails. -/
theorem process_eq_bad {r t : GetLinkRecord} {outcome : GetOutcome}
    (hnone : r.obtains (.process outcome) = none) (h : r.process outcome = some t) :
    ∃ message, t = r.bad message := by
  rcases r.process_cases outcome with ⟨message, hproc⟩ |
    ⟨hchannel, hget, ⟨-, hproc⟩ | ⟨value, alarm, rfl, -⟩⟩
  · exact ⟨message, Option.some.inj (h.symm.trans hproc)⟩
  · simp [hproc] at h
  · have hsome : r.obtains (.process (.got value alarm)) = some (value, alarm.linkAlarm) :=
      if_pos ⟨hchannel, hget⟩
    simp [hsome] at hnone

/-- What an event does.  The processing done by the two failing callbacks fails. -/
inductive Effect (r : GetLinkRecord) : GetEvent → GetLinkRecord → Prop
  | write (value : Double) (alarm : Option Alarm) :
    Effect r (.write value alarm) { r with pvValue := value, pvAlarm := alarm.getD r.pvAlarm }
  | got (value : Double) (alarm : AlarmField) (hready : r.Ready) :
    Effect r (.process (.got value alarm)) { r with
      pvValue := value
      linkAlarm := alarm.linkAlarm
      alarm := alarm.linkAlarm
      pvAlarm := if r.alarm = alarm.linkAlarm then r.pvAlarm else alarm.linkAlarm }
  | failed (outcome : GetOutcome) (message : String)
      (hnone : r.obtains (.process outcome) = none) :
    Effect r (.process outcome) (r.bad message)
  | connected (outcome : GetOutcome) :
    Effect r (.channelStateChange true outcome) { r with channelConnected := true }.createGet
  | lost (outcome : GetOutcome) (message : String) :
    Effect r (.channelStateChange false outcome) ({ r with channelConnected := false }.bad message)
  | getConnected (outcome : GetOutcome) :
    Effect r (.channelGetConnect true outcome) { r with isGetConnected := true }
  | notConnected (outcome : GetOutcome) (message : String) :
    Effect r (.channelGetConnect false outcome) ({ r with isGetConnected := false }.bad message)

theorem step_effect {r t : GetLinkRecord} {e : GetEvent} (hcreated : r.Created)
    (h : r.step e = some t) : r.Effect e t := by
  cases e with
  | write value alarm =>
    obtain rfl := Option.some.inj h
    exact .write value alarm
  | process outcome =>
    have hproc : r.process outcome = some t := h
    cases hobtains : r.obtains (.process outcome) with
    | none =>
      obtain ⟨message, rfl⟩ := process_eq_bad hobtains hproc
      exact .failed outcome message hobtains
    | some got =>
      obtain ⟨value, a⟩ := got
      obtain ⟨alarm, heq, rfl, hready⟩ := obtains_eq_some.mp hobtains
      obtain rfl : outcome = .got value alarm := by simpa using heq
      rw [process_of_ready hready hcreated] at hproc
      obtain rfl := Option.some.inj hproc
      exact .got value alarm hready
  | channelStateChange isConnected outcome =>
    cases isConnected with
    | true =>
      obtain rfl := Option.some.inj h
      exact .connected outcome
    | false =>
      have hproc : { r with channelConnected := false }.process outcome = some t := h
      obtain ⟨message, hbad⟩ := process_of_not_ready
        (r := { r with channelConnected := false }) (.inl rfl) outcome
      obtain rfl := Option.some.inj (hbad.symm.trans hproc)
      exact .lost outcome message
  | channelGetConnect isOK outcome =>
    cases isOK with
    | true =>
      obtain rfl := Option.some.inj h
      exact .getConnected outcome
    | false =>
      have hproc : { r with isGetConnected := false }.process outcome = some t := h
      obtain ⟨message, hbad⟩ := process_of_not_ready
        (r := { r with isGetConnected := false }) (.inr rfl) outcome
      obtain rfl := Option.some.inj (hbad.symm.trans hproc)
      exact .notConnected outcome message

@[simp] theorem alarm_createGet (r : GetLinkRecord) : r.createGet.alarm = r.alarm := by
  unfold createGet
  split <;> rfl

@[simp] theorem pvAlarm_createGet (r : GetLinkRecord) : r.createGet.pvAlarm = r.pvAlarm := by
  unfold createGet
  split <;> rfl

theorem created_createGet (r : GetLinkRecord) : r.createGet.Created := by
  intro _
  unfold createGet
  split
  · rfl
  · next clientGet hclient => simp [hclient]

theorem Created.step {r t : GetLinkRecord} {e : GetEvent} (hr : r.Created)
    (h : r.step e = some t) : t.Created := by
  cases step_effect hr h with
  | connected outcome => exact created_createGet _
  | lost outcome message => exact fun hconnected => absurd hconnected Bool.noConfusion
  | _ => exact hr

theorem created_of_run {r : GetLinkRecord} {es : List GetEvent}
    (hrun : getLink.run getLink.init es = some r) : r.Created :=
  EventMachine.run_invariant (I := Created) (fun _ _ _ h hs => h.step hs)
    (fun hconnected => absurd hconnected Bool.noConfusion) hrun

/-- The private alarm is the one published. -/
def Synced (r : GetLinkRecord) : Prop := r.pvAlarm = r.alarm

/-- Only a client that writes the alarm field can part it from the private copy. -/
theorem Synced.step {r t : GetLinkRecord} {e : GetEvent} (hr : r.Synced) (hcreated : r.Created)
    (he : ∀ value alarm, e ≠ .write value (some alarm)) (h : r.step e = some t) : t.Synced := by
  cases step_effect hcreated h with
  | write value alarm =>
    cases alarm with
    | none => exact hr
    | some alarm => exact absurd rfl (he value alarm)
  | got value alarm hready =>
    show (if r.alarm = alarm.linkAlarm then r.pvAlarm else alarm.linkAlarm) = alarm.linkAlarm
    split
    · next hsame => exact hr.trans hsame
    · rfl
  | connected outcome =>
    show ({ r with channelConnected := true }.createGet).pvAlarm = _
    rw [pvAlarm_createGet, alarm_createGet]
    exact hr
  | getConnected outcome => exact hr
  | failed | lost | notConnected => rfl

theorem synced_of_reachable {r : GetLinkRecord}
    (h : getLink.ReachableVia (fun _ e => ∀ value alarm, e ≠ .write value (some alarm)) r) :
    r.Synced := by
  refine (h.invariant (I := fun r => r.Created ∧ r.Synced) ?_ ?_).2
  · exact ⟨fun hconnected => absurd hconnected Bool.noConfusion, rfl⟩
  · exact fun r e t hr he hs => ⟨hr.1.step hs, hr.2.step hr.1 he hs⟩

/-- In a record that has its get object, the two conditions are the same. -/
theorem Created.publishes_iff {r : GetLinkRecord} (hr : r.Created) (e : GetEvent) :
    r.Publishes e ↔ r.NotHidden e := by
  constructor
  · intro h value a hobtains
    obtain ⟨alarm, rfl, rfl, hready⟩ := obtains_eq_some.mp hobtains
    obtain ⟨-, halarm⟩ := h value _ _ hobtains (process_of_ready hready hr value alarm)
    by_cases hsame : r.alarm = alarm.linkAlarm
    · -- nothing is published, so the field has to show the alarm before
      rw [if_pos hsame] at halarm
      exact .inr halarm
    · exact .inl hsame
  · intro h value a t hobtains hstep
    obtain ⟨alarm, rfl, rfl, hready⟩ := obtains_eq_some.mp hobtains
    have hproc : r.process (.got value alarm) = some t := hstep
    rw [process_of_ready hready hr] at hproc
    obtain rfl := Option.some.inj hproc
    refine ⟨rfl, ?_⟩
    by_cases hsame : r.alarm = alarm.linkAlarm
    · rw [if_pos hsame]
      exact (h value _ hobtains).resolve_left fun hdiffers => hdiffers hsame
    · rw [if_neg hsame]

end GetLinkRecord

/-- **When a successful get is published.**  Along a run every successful `process()`
shows what it got exactly when, before each of them, the alarm to be got differs from the
private copy or the field shows it already. -/
theorem publishes_iff_notHidden (es : List GetEvent) :
    getLink.Follows (fun _ => GetLinkRecord.Publishes) es ↔
      getLink.Follows (fun _ => GetLinkRecord.NotHidden) es := by
  constructor
  · intro h before e after r hes hrun
    exact ((GetLinkRecord.created_of_run hrun).publishes_iff e).mp (h before e after r hes hrun)
  · intro h before e after r hes hrun
    exact ((GetLinkRecord.created_of_run hrun).publishes_iff e).mpr (h before e after r hes hrun)

/-- A client replaces the alarm field between two gets of the same alarm: the second get
leaves the alarm of the client. -/
theorem not_publishes_after_write : ¬ ∀ es, getLink.Follows (fun _ => GetLinkRecord.Publishes) es := by
  intro h
  have hlast : ∃ r t, getLink.run getLink.init [.channelStateChange true (.threw ""),
        .channelGetConnect true (.threw ""), .process (.got ⟨1⟩ .missing),
        .write ⟨1⟩ (some { severity := .majorAlarm })] = some r ∧
      r.step (.process (.got ⟨2⟩ .missing)) = some t ∧
      r.obtains (.process (.got ⟨2⟩ .missing)) = some (⟨2⟩, .connected) ∧
      t.pvAlarm ≠ .connected := ⟨_, _, rfl, rfl, by decide, by decide⟩
  obtain ⟨r, t, hrun, hstep, hobtains, hwrong⟩ := hlast
  exact hwrong (h _ _ _ [] r rfl hrun _ _ t hobtains hstep).2

/-- A record whose alarm field no client writes publishes every successful get. -/
theorem publishes_of_no_write {es : List GetEvent}
    (hes : ∀ e ∈ es, ∀ value alarm, e ≠ .write value (some alarm)) :
    getLink.Follows (fun _ => GetLinkRecord.Publishes) es := by
  intro before e after r hsplit hrun
  refine ((GetLinkRecord.created_of_run hrun).publishes_iff e).mpr fun value a _ => ?_
  have hbefore : ∀ e ∈ before, ∀ value alarm, e ≠ .write value (some alarm) :=
    fun e he => hes e (by simp [hsplit, he])
  have hsynced : r.Synced :=
    GetLinkRecord.synced_of_reachable (EventMachine.reachableVia_of_run hrun hbefore)
  by_cases hsame : r.alarm = a
  · exact .inr (hsynced.trans hsame)
  · exact .inl hsame

/-! ### What a failure publishes -/

/-- The connection that `process()` finds missing. -/
inductive LinkFailure
  | disconnected
  /-- The channel is connected, the get or the monitor is not. -/
  | notConnected
  deriving DecidableEq, Repr

namespace GetLinkRecord

/-- The failing connection state, if it is one. -/
def failure (r : GetLinkRecord) : Option LinkFailure :=
  if r.channelConnected = false then some .disconnected
  else if r.isGetConnected = false then some .notConnected
  else none

/-- The status of the alarm obtained by an event, if it obtains one. -/
def obtainsStatus (r : GetLinkRecord) (e : GetEvent) : Option AlarmStatus :=
  (r.obtains e).map fun got => got.2.status

/-- The status of the alarm obtained last along a run; that of `init` if there is none. -/
def lastStatus (es : List GetEvent) : AlarmStatus :=
  getLink.latest obtainsStatus .clientStatus getLink.init es

end GetLinkRecord

/-- The event ends with a call of `process()`. -/
def GetEvent.processes : GetEvent → Bool
  | .write _ _ => false
  | .process _ => true
  | .channelStateChange isConnected _ => !isConnected
  | .channelGetConnect isOK _ => !isOK

/-- The message of a failed get. -/
def LinkFailure.getMessage : LinkFailure → String
  | .disconnected => "disconnected"
  | .notConnected => "channelGet not connected"

namespace GetLinkRecord

/-- A call of `process()` that finds a connection missing says which, and keeps the status
of the private alarm. -/
theorem pvAlarm_of_process {r t : GetLinkRecord} {outcome : GetOutcome} {missing : LinkFailure}
    (h : r.process outcome = some t) (hmissing : t.failure = some missing) :
    t.pvAlarm = r.alarm.invalid missing.getMessage := by
  have hflags : r.failure = t.failure := by
    rcases r.process_cases outcome with ⟨message, hproc⟩ |
      ⟨-, -, ⟨-, hproc⟩ | ⟨value, alarm, -, hproc⟩⟩
    · obtain rfl := Option.some.inj (hproc.symm.trans h)
      rfl
    · simp [hproc] at h
    · obtain rfl := Option.some.inj (hproc.symm.trans h)
      rfl
  rw [← hflags, failure] at hmissing
  unfold process at h
  split at hmissing
  · next hlost =>
    rw [if_pos hlost] at h
    obtain rfl := Option.some.inj h
    obtain rfl := Option.some.inj hmissing
    rfl
  · next hchannel =>
    rw [if_neg hchannel] at h
    split at hmissing
    · next hget =>
      rw [if_pos hget] at h
      obtain rfl := Option.some.inj h
      obtain rfl := Option.some.inj hmissing
      rfl
    · exact absurd hmissing (by simp)

theorem pvAlarm_of_step {r t : GetLinkRecord} {e : GetEvent} {missing : LinkFailure}
    (h : r.step e = some t) (he : e.processes = true) (hmissing : t.failure = some missing) :
    t.pvAlarm = r.alarm.invalid missing.getMessage := by
  cases e with
  | write value alarm => exact absurd he Bool.noConfusion
  | process outcome =>
    exact pvAlarm_of_process h hmissing
  | channelStateChange isConnected outcome =>
    obtain rfl : isConnected = false := by simpa [GetEvent.processes] using he
    have hproc : { r with channelConnected := false }.process outcome = some t := h
    have halarm := pvAlarm_of_process hproc hmissing
    exact halarm
  | channelGetConnect isOK outcome =>
    obtain rfl : isOK = false := by simpa [GetEvent.processes] using he
    have hproc : { r with isGetConnected := false }.process outcome = some t := h
    have halarm := pvAlarm_of_process hproc hmissing
    exact halarm

/-- The status of the private alarm is the one obtained last: no failure changes it. -/
theorem status_alarm_of_run {r : GetLinkRecord} {es : List GetEvent}
    (hrun : getLink.run getLink.init es = some r) : r.alarm.status = lastStatus es := by
  have h : getLink.run getLink.init es = some r ∧ r.alarm.status = lastStatus es := by
    refine EventMachine.run_history (I := fun es r =>
      getLink.run getLink.init es = some r ∧ r.alarm.status = lastStatus es)
      ⟨rfl, rfl⟩ ?_ hrun
    rintro es r e t ⟨hbefore, hstatus⟩ hs
    refine ⟨EventMachine.run_concat_eq_some.mpr ⟨r, hbefore, hs⟩, ?_⟩
    rw [lastStatus, EventMachine.latest_concat hbefore, ← lastStatus, ← hstatus]
    cases step_effect (created_of_run hbefore) hs with
    | got value alarm hready => simp [obtainsStatus, obtains, hready]
    | failed outcome message hnone => simp [obtainsStatus, hnone, bad]
    | connected outcome => simp [obtainsStatus, obtains]
    | write | lost | getConnected | notConnected => rfl
  exact h.2

end GetLinkRecord

namespace MonitorLinkRecord

/-- The failing connection state, if it is one. -/
def failure (r : MonitorLinkRecord) : Option LinkFailure :=
  if r.channelConnected = false then some .disconnected
  else if r.isMonitorConnected = false then some .notConnected
  else none

end MonitorLinkRecord

/-- An element is transferred: the first one polled has a double value. -/
def MonitorEvent.transfers : MonitorEvent → Bool
  | .event queue => queue.head?.any fun element => element.value.isSome
  | _ => false

/-- The event ends with a call of `process()`. -/
def MonitorEvent.processes : MonitorEvent → Bool
  | .channelStateChange isConnected => !isConnected
  | .monitorConnect isOK => !isOK
  | .process => true
  | .event queue => (MonitorEvent.event queue).transfers

/-- The message of a failed monitor. -/
def LinkFailure.monitorMessage : LinkFailure → String
  | .disconnected => "disconnected"
  | .notConnected => "monitor not connected"

namespace MonitorLinkRecord

/-- In a failing connection state the record shows the alarm of that state. -/
def ShowsFailure (r : MonitorLinkRecord) : Prop :=
  ∀ missing, r.failure = some missing → r.pvAlarm =
    { message := missing.monitorMessage, severity := .invalidAlarm, status := .clientStatus }

theorem showsFailure_processed (r : MonitorLinkRecord) : r.processed.ShowsFailure := by
  intro missing hmissing
  have hflags : r.processed.failure = r.failure := by
    obtain ⟨hchannel, hmonitor, -, -⟩ := sameLink_processed r
    rw [failure, failure, hchannel, hmonitor]
  rw [hflags, failure] at hmissing
  unfold processed
  split at hmissing
  · next hlost =>
    rw [if_pos hlost]
    obtain rfl := Option.some.inj hmissing
    rfl
  · next hchannel =>
    rw [if_neg hchannel]
    split at hmissing
    · next hmonitor =>
      rw [if_pos hmonitor]
      obtain rfl := Option.some.inj hmissing
      rfl
    · exact absurd hmissing (by simp)

/-- Draining starts from such a record or processes an element. -/
theorem ShowsFailure.drained {r : MonitorLinkRecord} (hr : r.ShowsFailure)
    (queue : List MonitorElement) : (r.drained queue).ShowsFailure := by
  induction queue generalizing r with
  | nil => exact hr
  | cons element queue ih =>
    rw [MonitorLinkRecord.drained]
    cases element.value with
    | none => exact hr
    | some value => exact ih (showsFailure_processed _)

/-- A callback that ends with `process()` leaves the alarm of the connection state,
whatever was mirrored before. -/
theorem showsFailure_effect (r : MonitorLinkRecord) {e : MonitorEvent} (he : e.processes = true) :
    (r.effect e).ShowsFailure := by
  cases e with
  | channelStateChange isConnected =>
    obtain rfl : isConnected = false := by simpa [MonitorEvent.processes] using he
    exact showsFailure_processed _
  | monitorConnect isOK =>
    obtain rfl : isOK = false := by simpa [MonitorEvent.processes] using he
    exact showsFailure_processed _
  | process => exact showsFailure_processed r
  | event queue =>
    cases queue with
    | nil => exact absurd he Bool.noConfusion
    | cons element queue =>
      show (r.drained (element :: queue)).ShowsFailure
      have hvalue : element.value.isSome = true := he
      obtain ⟨value, hvalue⟩ := Option.isSome_iff_exists.mp hvalue
      rw [MonitorLinkRecord.drained, hvalue]
      exact (showsFailure_processed _).drained queue

end MonitorLinkRecord

/-- **When two failures of the same kind show the same alarm.**  Take two runs that end with
a `process()` in the same failing connection state.  Of two get link records the alarm
fields are the same exactly when the alarms the two obtained last have the same status; of
two monitor link records they always are. -/
theorem failure_alarm_eq_iff {es₁ es₂ : List GetEvent} {e₁ e₂ : GetEvent}
    {r₁ r₂ : GetLinkRecord} {missing : LinkFailure}
    (hrun₁ : getLink.run getLink.init (es₁ ++ [e₁]) = some r₁)
    (hrun₂ : getLink.run getLink.init (es₂ ++ [e₂]) = some r₂)
    (he₁ : e₁.processes = true) (he₂ : e₂.processes = true)
    (hmissing₁ : r₁.failure = some missing) (hmissing₂ : r₂.failure = some missing) :
    (r₁.pvAlarm = r₂.pvAlarm ↔
      GetLinkRecord.lastStatus es₁ = GetLinkRecord.lastStatus es₂) ∧
    ∀ es₁ es₂ e₁ e₂ r₁ r₂,
      monitorLink.run monitorLink.init (es₁ ++ [e₁]) = some r₁ →
      monitorLink.run monitorLink.init (es₂ ++ [e₂]) = some r₂ →
      e₁.processes = true → e₂.processes = true →
      r₁.failure = some missing → r₂.failure = some missing → r₁.pvAlarm = r₂.pvAlarm := by
  refine ⟨?_, ?_⟩
  · obtain ⟨s₁, hbefore₁, hstep₁⟩ := EventMachine.run_concat_eq_some.mp hrun₁
    obtain ⟨s₂, hbefore₂, hstep₂⟩ := EventMachine.run_concat_eq_some.mp hrun₂
    rw [GetLinkRecord.pvAlarm_of_step hstep₁ he₁ hmissing₁,
      GetLinkRecord.pvAlarm_of_step hstep₂ he₂ hmissing₂,
      ← GetLinkRecord.status_alarm_of_run hbefore₁, ← GetLinkRecord.status_alarm_of_run hbefore₂]
    -- message and severity are those of the failure
    simp [Alarm.invalid]
  · intro es₁ es₂ e₁ e₂ r₁ r₂ hrun₁ hrun₂ he₁ he₂ hmissing₁ hmissing₂
    have hshows : ∀ es e r, monitorLink.run monitorLink.init (es ++ [e]) = some r →
        e.processes = true → r.ShowsFailure := by
      intro es e r hrun he
      obtain ⟨s, -, hstep⟩ := EventMachine.run_concat_eq_some.mp hrun
      rw [← MonitorLinkRecord.effect_eq_of_step hstep]
      exact s.showsFailure_effect he
    rw [hshows _ _ _ hrun₁ he₁ missing hmissing₁, hshows _ _ _ hrun₂ he₂ missing hmissing₂]

/-- A get of an alarm. -/
def getRun (alarm : Alarm) : List GetEvent :=
  [.channelStateChange true (.threw ""), .channelGetConnect true (.threw ""),
    .process (.got ⟨1⟩ (.attached alarm))]

/-- Two channels lost after alarms with different messages and the same status. -/
theorem failure_alarm_eq_same_status : ∃ r₁ r₂,
    getLink.run getLink.init (getRun { message := "hot", status := .deviceStatus } ++
      [.channelStateChange false (.threw "")]) = some r₁ ∧
    getLink.run getLink.init (getRun { message := "cold", status := .deviceStatus } ++
      [.channelStateChange false (.threw "")]) = some r₂ ∧
    r₁.pvAlarm = r₂.pvAlarm := by
  have hrun₁ : getLink.run getLink.init (getRun { message := "hot", status := .deviceStatus } ++
    [.channelStateChange false (.threw "")]) = some _ := rfl
  have hrun₂ : getLink.run getLink.init (getRun { message := "cold", status := .deviceStatus } ++
    [.channelStateChange false (.threw "")]) = some _ := rfl
  exact ⟨_, _, hrun₁, hrun₂,
    (failure_alarm_eq_iff hrun₁ hrun₂ rfl rfl rfl rfl).1.mpr (by decide)⟩

/-- Two lost channels with different alarms: one had delivered a device alarm before, the
other nothing. -/
theorem failure_alarm_ne : ¬ ∀ (es₁ es₂ : List GetEvent) (e₁ e₂ : GetEvent)
    (r₁ r₂ : GetLinkRecord), getLink.run getLink.init (es₁ ++ [e₁]) = some r₁ →
    getLink.run getLink.init (es₂ ++ [e₂]) = some r₂ →
    e₁.processes = true → e₂.processes = true →
    r₁.failure = some .disconnected → r₂.failure = some .disconnected →
    r₁.pvAlarm = r₂.pvAlarm := by
  intro h
  have hsame := h (getRun { status := .deviceStatus }) [] (.channelStateChange false (.threw ""))
    (.process (.threw "")) _ _ rfl rfl rfl rfl rfl rfl
  exact absurd hsame (by decide)

/-! ### Before the first transfer -/

theorem GetLinkRecord.severity_of_nothing_obtained {r : GetLinkRecord}
    (h : getLink.ReachableVia (fun r e => r.obtains e = none ∧
      ∀ value alarm, e ≠ .write value (some alarm)) r) :
    r.pvAlarm.severity = .invalidAlarm := by
  refine (h.invariant (I := fun r => r.Created ∧ r.pvAlarm.severity = .invalidAlarm) ?_ ?_).2
  · exact ⟨fun hconnected => absurd hconnected Bool.noConfusion, rfl⟩
  · rintro r e t ⟨hcreated, hbad⟩ ⟨hnone, hwrite⟩ hs
    refine ⟨hcreated.step hs, ?_⟩
    cases step_effect hcreated hs with
    | write value alarm =>
      cases alarm with
      | none => exact hbad
      | some alarm => exact absurd rfl (hwrite value alarm)
    | got value alarm hready => simp [obtains, hready] at hnone
    | connected outcome =>
      show ({ r with channelConnected := true }.createGet).pvAlarm.severity = _
      rw [pvAlarm_createGet]
      exact hbad
    | getConnected outcome => exact hbad
    | failed | lost | notConnected => rfl

namespace MonitorLinkRecord

@[simp] theorem pvAlarm_createMonitor (r : MonitorLinkRecord) :
    r.createMonitor.pvAlarm = r.pvAlarm := by
  unfold createMonitor
  split <;> rfl

theorem severity_processed_of_invalid {r : MonitorLinkRecord}
    (h : r.pvAlarm.severity = .invalidAlarm) : r.processed.pvAlarm.severity = .invalidAlarm := by
  unfold processed
  split
  · rfl
  · split
    · rfl
    · exact h

theorem severity_of_nothing_transferred {r : MonitorLinkRecord}
    (h : monitorLink.ReachableVia (fun _ e => e.transfers = false) r) :
    r.pvAlarm.severity = .invalidAlarm := by
  refine h.invariant (I := fun r => r.pvAlarm.severity = .invalidAlarm) rfl ?_
  intro r e t hbad hnone hs
  obtain rfl := effect_eq_of_step hs
  cases e with
  | channelStateChange isConnected =>
    cases isConnected with
    | true =>
      show ({ r with channelConnected := true }.createMonitor).pvAlarm.severity = _
      rw [pvAlarm_createMonitor]
      exact hbad
    | false => exact severity_processed_of_invalid hbad
  | monitorConnect isOK =>
    cases isOK with
    | true => exact hbad
    | false => exact severity_processed_of_invalid hbad
  | process => exact severity_processed_of_invalid hbad
  | event queue =>
    cases queue with
    | nil => exact hbad
    | cons element queue =>
      -- the exception comes before anything is written
      have hvalue : element.value = none := by simpa [MonitorEvent.transfers] using hnone
      show (r.drained (element :: queue)).pvAlarm.severity = _
      rw [drained, hvalue]
      exact hbad

end MonitorLinkRecord

/-- The value has reached the linked channel: `putDone` says so, or `put()` returns. -/
def PutEvent.transfers : PutEvent → Bool
  | .putDone _ isOK _ => isOK
  | .putReturns => true
  | _ => false

namespace PutWorld

/-- Whether the call of `process()` that an event makes or ends fails.  The call that gets
into `put()` has not failed. -/
def verdict (w : PutWorld) : PutEvent → Option Bool
  | .process thrown => some !decide (w.record.Ready ∧ thrown = none)
  | .channelStateChangeLocked _ => some true
  | .channelPutConnect isOK _ => if isOK then none else some true
  | .putDone _ isOK _ => if isOK then none else some true
  | .putThrows _ => some true
  | _ => none

/-- A call that returned failed for a reason. -/
theorem Inv.not_ready_of_refused {w w' : PutWorld} {thrown : Option String} {message : String}
    (h : w.Inv) (hs : w.step (.process thrown) = some w')
    (hrefused : w' = w.failed (w.record.bad message)) : ¬ (w.record.Ready ∧ thrown = none) := by
  rintro ⟨hready, rfl⟩
  obtain ⟨clientPut, hput⟩ := Option.isSome_iff_exists.mp (h.created hready.1)
  simp only [PutWorld.step, Option.ite_none_right_eq_some,
    PutLinkRecord.process_of_ready hready hput, enter, Option.some.injEq] at hs
  -- it would be inside `put()`
  have hended : w'.ended = none := by rw [← hs.2, issue]
  rw [hrefused, failed] at hended
  exact absurd hended (by simp)

/-- After each event the alarm is invalid if the call of `process()` failed, good if it got
into `put()`, and otherwise as before. -/
theorem Inv.severity_step {w w' : PutWorld} {e : PutEvent} (h : w.Inv)
    (hs : w.step e = some w') :
    w'.record.pvAlarm.severity = .invalidAlarm ↔
      (w.verdict e).getD (decide (w.record.pvAlarm.severity = .invalidAlarm)) = true := by
  cases step_effect h.lost hs with
  | refused thrown message hlock =>
    have hnot := h.not_ready_of_refused hs rfl
    simp [verdict, hnot, failed]
  | issued clientPut hlock hready hput =>
    have hgood := w.record.severity_issue clientPut h.good
    simp [verdict, hready, issue, hgood]
  | stateChange isConnected hchanging => simp [verdict]
  | connected | done | returns | write =>
    simp [verdict, leave, PutLinkRecord.channelPutConnect, PutLinkRecord.putDone,
      PutLinkRecord.afterPut]
  | lost | notConnected | notDone | throws =>
    simp [verdict, failed, leave, PutLinkRecord.afterPut]

/-- The alarm is invalid exactly when the last call of `process()` to say something failed. -/
theorem severity_of_run {w : PutWorld} {es : List PutEvent}
    (hrun : putLink.run putLink.init es = some w) :
    w.record.pvAlarm.severity = .invalidAlarm ↔
      putLink.latest verdict false putLink.init es = true := by
  have h : putLink.run putLink.init es = some w ∧ w.Inv ∧
      (w.record.pvAlarm.severity = .invalidAlarm ↔
        putLink.latest verdict false putLink.init es = true) := by
    refine EventMachine.run_history (I := fun es w => putLink.run putLink.init es = some w ∧
      w.Inv ∧ (w.record.pvAlarm.severity = .invalidAlarm ↔
        putLink.latest verdict false putLink.init es = true)) ?_ ?_ hrun
    · exact ⟨rfl, inv_init, by decide⟩
    · rintro es w e w' ⟨hbefore, hinv, hsev⟩ hs
      refine ⟨EventMachine.run_concat_eq_some.mpr ⟨w, hbefore, hs⟩, hinv.step hs, ?_⟩
      rw [EventMachine.latest_concat hbefore, hinv.severity_step hs]
      cases w.verdict e with
      | some failed => rfl
      | none => simp [hsev]
  exact h.2.2

end PutWorld

/-- **When a record that has transferred nothing looks healthy.**  A put link record over
whose link no value has gone yet shows an invalid alarm exactly when a call of `process()`
has failed and none has got into `put()` since; in particular not before its first
`process()`.  Get and monitor link records always do. -/
theorem severity_before_transfer {es : List PutEvent} {w : PutWorld}
    (hrun : putLink.run putLink.init es = some w) :
    (((∀ e ∈ es, e.transfers = false) → w.record.pvAlarm.severity = .invalidAlarm) ↔
      ((∀ e ∈ es, e.transfers = false) →
        putLink.latest PutWorld.verdict false putLink.init es = true)) ∧
    (∀ r, getLink.ReachableVia (fun r e => r.obtains e = none ∧
      ∀ value alarm, e ≠ .write value (some alarm)) r → r.pvAlarm.severity = .invalidAlarm) ∧
    ∀ r, monitorLink.ReachableVia (fun _ e => e.transfers = false) r →
      r.pvAlarm.severity = .invalidAlarm := by
  refine ⟨?_, fun _ => GetLinkRecord.severity_of_nothing_obtained,
    fun _ => MonitorLinkRecord.severity_of_nothing_transferred⟩
  rw [PutWorld.severity_of_run hrun]

/-- A record processed before its channel connects. -/
theorem severity_before_transfer_processed : ∃ w,
    putLink.run putLink.init [.process none, .channelStateChange true] = some w ∧
    w.record.pvAlarm.severity = .invalidAlarm := by
  have hrun : putLink.run putLink.init [.process none, .channelStateChange true] = some _ := rfl
  exact ⟨_, hrun, (severity_before_transfer hrun).1.mpr (fun _ => by decide) (by decide)⟩

/-- A put link record that was never processed shows a good alarm. -/
theorem severity_before_transfer_good : ¬ ∀ es w, putLink.run putLink.init es = some w →
    (∀ e ∈ es, e.transfers = false) → w.record.pvAlarm.severity = .invalidAlarm := by
  intro h
  exact absurd (h [] _ rfl (by simp)) (by decide)

end TestDatabase
