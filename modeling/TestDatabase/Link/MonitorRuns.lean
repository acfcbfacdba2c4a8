import TestDatabase.Lib.EventMachine
import TestDatabase.Link.Monitor

/-!
# Runs of the monitor link record

As long as no call made under the record lock throws, every callback of
`MonitorLinkRecord` is a function of the record.  This file computes that function
for each callback and studies the runs of the event machine they make up.

## Main definitions

* `MonitorLinkRecord.processed`, `mirrored`, `drained` — what `process()`, one element
  and `event()` make of the record.
* `MonitorEvent` — a callback with its arguments.
* `monitorLink` — the event machine of the callbacks.

## Main results

* `returns_process`, `returns_mirror`, `event_record` — the code computes these functions.
* `MonitorLinkRecord.step_eq` — what each event makes of the record.
* `MonitorLinkRecord.subscribed_iff_not_completes` — the runs along which a connected record is subscribed.
* `MonitorLinkRecord.showsLoss_of_reachable` — a lost channel shows an invalid alarm.
-/

namespace TestDatabase

open Fallible

namespace MonitorLinkRecord

/-- The body of every failure branch. -/
def bad (r : MonitorLinkRecord) (message : String) : MonitorLinkRecord :=
  let alarm := { message := message, severity := .invalidAlarm, status := .clientStatus }
  { r with alarm := alarm, pvAlarm := alarm }

/-- What `init` leaves. -/
def init : MonitorLinkRecord := bad {} "never connected"

/-- What `process()` makes of the record. -/
def processed (r : MonitorLinkRecord) : MonitorLinkRecord :=
  if r.channelConnected = false then r.bad "disconnected"
  else if r.isMonitorConnected = false then r.bad "monitor not connected"
  else r

/-- What one element makes of the record, up to `process()`. -/
def mirrored (r : MonitorLinkRecord) (value : Double) (alarm : AlarmField) : MonitorLinkRecord :=
  { r with
    pvValue := value
    linkAlarm := alarm.linkAlarm
    alarm := alarm.linkAlarm
    pvAlarm := if r.alarm = alarm.linkAlarm then r.pvAlarm else alarm.linkAlarm }

/-- What `event()` makes of the record.  It stops at an element without a value. -/
def drained (r : MonitorLinkRecord) : List MonitorElement → MonitorLinkRecord
  | [] => r
  | element :: queue =>
    match element.value with
    | none => r
    | some value => (r.mirrored value element.alarm).processed.drained queue

/-! ### The code computes these functions -/

theorem returns_call (f : MonitorLinkRecord → MonitorLinkRecord) (s : MonitorSession) :
    Returns (call never f) s () { s with record := f s.record } :=
  returns_attempt _ s

theorem returns_publishInvalid (message : String) (s : MonitorSession) :
    Returns (publishInvalid never message) s () { s with record := s.record.bad message } :=
  returns_bind (returns_call _ _) <| returns_bind (returns_call _ _) <|
    returns_bind (returns_call _ _) <| returns_call _ _

theorem returns_process (s : MonitorSession) :
    Returns (process never) s () { s with record := s.record.processed } := by
  refine returns_bind (returns_current s) ?_
  unfold processed
  split
  · exact returns_bind (returns_publishInvalid _ _) (returns_call id _)
  · split
    · exact returns_bind (returns_publishInvalid _ _) (returns_call id _)
    · exact returns_call id _

theorem returns_connected (s : MonitorSession) :
    Returns (connected never) s () { s with record.linkAlarm := Alarm.connected } :=
  returns_bind (returns_call _ _) <| returns_bind (returns_call _ _) <| returns_call _ _

theorem returns_readAlarm (alarm : AlarmField) (s : MonitorSession) :
    Returns (readAlarm never alarm) s () { s with record.linkAlarm := alarm.linkAlarm } := by
  refine returns_bind (returns_call id s) ?_
  cases alarm with
  | attached a => exact returns_bind (returns_call id s) (returns_call _ _)
  | unattachable => exact returns_bind (returns_call id s) (returns_connected _)
  | missing => exact returns_connected _

/-- One component: afterwards it is that of `linkAlarm`, whether it differed or not. -/
theorem returns_copyComponent {β : Type} [DecidableEq β] {get : Alarm → β}
    {set : Alarm → β → Alarm} (hset : ∀ a, set a (get a) = a) (s : MonitorSession) :
    Returns (copyComponent never get set) s
      (!decide (get s.record.alarm = get s.record.linkAlarm))
      { s with record.alarm := set s.record.alarm (get s.record.linkAlarm) } := by
  refine returns_bind (returns_call id s) (returns_bind (returns_current _) ?_)
  simp only [id]
  split
  · next heq =>
    rw [← heq, hset, decide_eq_true rfl]
    exact returns_pure _ _
  · next hne =>
    rw [decide_eq_false hne]
    exact returns_bind (returns_call _ _) (returns_pure _ _)

theorem returns_mirror (value : Double) (alarm : AlarmField) (s : MonitorSession) :
    Returns (mirror never value alarm) s () { s with record := s.record.mirrored value alarm } := by
  refine returns_bind (returns_call _ _) <| returns_bind (returns_readAlarm _ _) <|
    returns_bind (returns_copyComponent (fun _ => rfl) _) <|
    returns_bind (returns_copyComponent (fun _ => rfl) _) <|
    returns_bind (returns_copyComponent (fun _ => rfl) _) ?_
  have hdiffers : ∀ a b : Alarm, ((!decide (a.message = b.message) ||
      !decide (a.severity = b.severity)) || !decide (a.status = b.status)) = true ↔ a ≠ b := by
    intro a b
    cases a; cases b
    simp only [Bool.or_eq_true, Bool.not_eq_true', decide_eq_false_iff_not, ne_eq, Alarm.mk.injEq]
    tauto
  simp only [hdiffers]
  by_cases heq : s.record.alarm = alarm.linkAlarm
  · rw [if_neg (not_not_intro heq)]
    convert returns_pure _ _ using 2
    simp [mirrored, heq]
  · rw [if_pos heq]
    convert returns_call _ _ using 2
    simp [mirrored, heq]

theorem returns_locked {body : Callback Unit} {a b : MonitorSession}
    (hbody : Returns body { a with held.lockTaken := a.held.lockTaken + 1 } () b) :
    Returns (locked body) a () { b with held.lockReleased := b.held.lockReleased + 1 } :=
  returns_guarded (a := a) (b := b) hbody

/-- A locked group put changes the record as its body does. -/
theorem returns_locked_grouped {body : Callback Unit} {r t : MonitorLinkRecord}
    (hbody : ∀ held, Returns body ⟨r, held⟩ () ⟨t, held⟩) (held : Held) :
    ∃ held', Returns (locked (grouped never body)) ⟨r, held⟩ () ⟨t, held'⟩ := by
  have hgroup : ∀ held, ∃ held', Returns (grouped never body) ⟨r, held⟩ () ⟨t, held'⟩ :=
    fun _ => ⟨_, returns_bind (returns_attempt _ _) <|
      returns_bind (hbody _) (returns_attempt _ _)⟩
  obtain ⟨held', h⟩ := hgroup { held with lockTaken := held.lockTaken + 1 }
  exact ⟨_, returns_locked (a := ⟨r, held⟩) h⟩

/-- The branch of a lost channel and the one of a failed connect. -/
theorem returns_failure (r : MonitorLinkRecord) (held : Held) :
    ∃ held', Returns (locked (grouped never (process never))) ⟨r, held⟩ () ⟨r.processed, held'⟩ :=
  returns_locked_grouped (fun held => returns_process ⟨r, held⟩) held

/-- The section of one element. -/
theorem returns_element (value : Double) (alarm : AlarmField) (r : MonitorLinkRecord)
    (held : Held) :
    ∃ held', Returns (locked (grouped never do mirror never value alarm; process never))
      ⟨r, held⟩ () ⟨(r.mirrored value alarm).processed, held'⟩ :=
  returns_locked_grouped (fun _ => returns_bind (returns_mirror _ _ _) (returns_process _)) held

theorem event_record (queue : List MonitorElement) (s : Counted MonitorSession) :
    (event never queue s).final.val.record = s.val.record.drained queue := by
  induction queue generalizing s with
  | nil => rfl
  | cons element queue ih =>
    obtain ⟨⟨r, held⟩, n⟩ := s
    rw [event_cons, drained]
    cases element.value with
    | none => rfl
    | some value =>
      obtain ⟨held', hreturns⟩ := returns_element value element.alarm r
        { held with polled := held.polled ++ [element] }
      obtain ⟨m, hrun⟩ := hreturns n
      simp only [hrun]
      exact ih _

/-! ### What the functions keep -/

@[simp] theorem severity_bad (r : MonitorLinkRecord) (message : String) :
    (r.bad message).pvAlarm.severity = .invalidAlarm := rfl

@[simp] theorem channelConnected_createMonitor (r : MonitorLinkRecord) :
    r.createMonitor.channelConnected = r.channelConnected := by
  unfold createMonitor
  split <;> rfl

@[simp] theorem isMonitorConnected_createMonitor (r : MonitorLinkRecord) :
    r.createMonitor.isMonitorConnected = r.isMonitorConnected := by
  unfold createMonitor
  split <;> rfl

/-- Two records agree on the connection flags and on the client objects. -/
def SameLink (r t : MonitorLinkRecord) : Prop :=
  t.channelConnected = r.channelConnected ∧ t.isMonitorConnected = r.isMonitorConnected ∧
  t.pvaClientChannel = r.pvaClientChannel ∧ t.pvaClientMonitor = r.pvaClientMonitor

theorem sameLink_processed (r : MonitorLinkRecord) : SameLink r r.processed := by
  unfold processed
  split
  · exact ⟨rfl, rfl, rfl, rfl⟩
  · split <;> exact ⟨rfl, rfl, rfl, rfl⟩

theorem sameLink_drained (queue : List MonitorElement) (r : MonitorLinkRecord) :
    SameLink r (r.drained queue) := by
  induction queue generalizing r with
  | nil => exact ⟨rfl, rfl, rfl, rfl⟩
  | cons element queue ih =>
    rw [drained]
    cases element.value with
    | none => exact ⟨rfl, rfl, rfl, rfl⟩
    | some value =>
      obtain ⟨h₁, h₂, h₃, h₄⟩ := ih (r.mirrored value element.alarm).processed
      obtain ⟨k₁, k₂, k₃, k₄⟩ := sameLink_processed (r.mirrored value element.alarm)
      exact ⟨h₁.trans k₁, h₂.trans k₂, h₃.trans k₃, h₄.trans k₄⟩

/-- `process()` of a record whose channel is lost publishes an invalid alarm. -/
theorem severity_processed {r : MonitorLinkRecord} (h : r.channelConnected = false) :
    r.processed.pvAlarm.severity = .invalidAlarm := by
  rw [processed, if_pos h, severity_bad]

/-- `event()` leaves a lost channel with an invalid alarm, whatever the elements say. -/
theorem severity_drained (queue : List MonitorElement) {r : MonitorLinkRecord}
    (h : r.channelConnected = false) (hr : r.pvAlarm.severity = .invalidAlarm) :
    (r.drained queue).pvAlarm.severity = .invalidAlarm := by
  induction queue generalizing r with
  | nil => exact hr
  | cons element queue ih =>
    rw [drained]
    cases element.value with
    | none => exact hr
    | some value =>
      have hlost : (r.mirrored value element.alarm).channelConnected = false := h
      refine ih ?_ (severity_processed hlost)
      rw [(sameLink_processed _).1, hlost]

end MonitorLinkRecord

/-! ### The event machine -/

/-- A callback with its arguments; `event` with the elements that `poll()` finds. -/
inductive MonitorEvent
  | channelStateChange (isConnected : Bool)
  | monitorConnect (isOK : Bool)
  | process
  | event (queue : List MonitorElement)
  deriving DecidableEq, Repr

/-- The code an event runs. -/
def MonitorEvent.callback (throws : ℕ → Option String) : MonitorEvent → Callback Unit
  | .channelStateChange isConnected => MonitorLinkRecord.channelStateChange throws isConnected
  | .monitorConnect isOK => MonitorLinkRecord.monitorConnect throws isOK
  | .process => MonitorLinkRecord.process throws
  | .event queue => MonitorLinkRecord.event throws queue

namespace MonitorLinkRecord

/-- The record after an event in which no call under the lock throws. -/
def step (r : MonitorLinkRecord) (e : MonitorEvent) : Option MonitorLinkRecord :=
  some (e.callback never { val := { record := r } }).final.val.record

/-- What an event makes of the record. -/
def effect (r : MonitorLinkRecord) : MonitorEvent → MonitorLinkRecord
  | .channelStateChange true => { r with channelConnected := true }.createMonitor
  | .channelStateChange false => { r with channelConnected := false }.processed
  | .monitorConnect true => { r with isMonitorConnected := true }
  | .monitorConnect false => { r with isMonitorConnected := false }.processed
  | .process => r.processed
  | .event queue => r.drained queue

/-- **What each event does.** -/
theorem step_eq (r : MonitorLinkRecord) (e : MonitorEvent) : r.step e = some (r.effect e) := by
  have hfinal : ∀ {p : Callback Unit} {a : MonitorSession} {t : MonitorLinkRecord} {held : Held},
      Returns p a () ⟨t, held⟩ → (p { val := a }).final.val.record = t := by
    intro p a t held h
    obtain ⟨m, hm⟩ := h 0
    rw [hm, EStateM.Result.final]
  rw [step, Option.some.injEq]
  cases e with
  | channelStateChange isConnected =>
    cases isConnected with
    | true => rfl
    | false =>
      obtain ⟨held, h⟩ := returns_failure { r with channelConnected := false } {}
      exact hfinal h
  | monitorConnect isOK =>
    cases isOK with
    | true => rfl
    | false =>
      obtain ⟨held, h⟩ := returns_failure { r with isMonitorConnected := false } {}
      exact hfinal h
  | process => exact hfinal (returns_process _)
  | event queue => exact event_record queue _

end MonitorLinkRecord

/-- The monitor link record among its callbacks. -/
def monitorLink : EventMachine MonitorLinkRecord MonitorEvent where
  init := .init
  step := MonitorLinkRecord.step

namespace MonitorLinkRecord

theorem effect_eq_of_step {r t : MonitorLinkRecord} {e : MonitorEvent}
    (h : monitorLink.step r e = some t) : r.effect e = t :=
  Option.some.inj ((r.step_eq e).symm.trans h)

/-! ### A lost channel -/

/-- A record whose channel is not connected publishes an invalid alarm. -/
def ShowsLoss (r : MonitorLinkRecord) : Prop :=
  r.channelConnected = false → r.pvAlarm.severity = .invalidAlarm

theorem showsLoss_processed (r : MonitorLinkRecord) : ShowsLoss r.processed := by
  intro h
  rw [(sameLink_processed r).1] at h
  exact severity_processed h

theorem ShowsLoss.effect {r : MonitorLinkRecord} (hr : ShowsLoss r) (e : MonitorEvent) :
    ShowsLoss (r.effect e) := by
  cases e with
  | channelStateChange isConnected =>
    cases isConnected with
    | true =>
      intro h
      simp [MonitorLinkRecord.effect] at h
    | false => exact showsLoss_processed _
  | monitorConnect isOK =>
    cases isOK with
    | true => exact hr
    | false => exact showsLoss_processed _
  | process => exact showsLoss_processed _
  | event queue =>
    intro h
    have hlost : r.channelConnected = false := (sameLink_drained queue r).1.symm.trans h
    exact severity_drained queue hlost (hr hlost)

theorem showsLoss_of_reachable {r : MonitorLinkRecord} (h : monitorLink.Reachable r) :
    ShowsLoss r := by
  refine h.invariant (fun _ => rfl) ?_
  intro s e t hs _ hst
  rw [← effect_eq_of_step hst]
  exact hs.effect e

/-! ### The subscription -/

/-- A link both of whose connections are up has made its monitor once and started it. -/
def Subscribed (r : MonitorLinkRecord) : Prop :=
  r.channelConnected = true → r.isMonitorConnected = true →
    r.pvaClientChannel.created = 1 ∧ ∃ m, r.pvaClientMonitor = some m ∧ m.started = true

/-- The event brings up the second of the two connections. -/
def Completes (r : MonitorLinkRecord) (e : MonitorEvent) : Prop :=
  e = .channelStateChange true ∧ r.isMonitorConnected = true ∨
    e = .monitorConnect true ∧ r.channelConnected = true

/-- Before the channel connects first there is no monitor.  From then on there is one,
made once and never started. -/
def Unstarted (r : MonitorLinkRecord) : Prop :=
  r.pvaClientMonitor = none ∧ r.pvaClientChannel.created = 0 ∧ r.channelConnected = false ∨
    r.pvaClientMonitor = some { started := false } ∧ r.pvaClientChannel.created = 1

theorem Unstarted.of_sameLink {r t : MonitorLinkRecord} (h : SameLink r t) (hr : Unstarted r) :
    Unstarted t := by
  obtain ⟨h₁, -, h₃, h₄⟩ := h
  rw [Unstarted, h₁, h₃, h₄]
  exact hr

theorem Unstarted.effect {r : MonitorLinkRecord} (hr : Unstarted r) (e : MonitorEvent) :
    Unstarted (r.effect e) := by
  cases e with
  | channelStateChange isConnected =>
    cases isConnected with
    | true =>
      -- the monitor is made now, or was made before
      rcases hr with ⟨hnone, hcreated, -⟩ | ⟨hsome, hcreated⟩
      · refine .inr ?_
        simp [MonitorLinkRecord.effect, createMonitor, hnone, hcreated]
      · refine .inr ?_
        simp [MonitorLinkRecord.effect, createMonitor, hsome, hcreated]
    | false =>
      refine Unstarted.of_sameLink (sameLink_processed _) ?_
      exact hr.imp (fun h => ⟨h.1, h.2.1, rfl⟩) id
  | monitorConnect isOK =>
    cases isOK with
    | true => exact hr
    | false => exact Unstarted.of_sameLink (sameLink_processed _) hr
  | process => exact hr.of_sameLink (sameLink_processed r)
  | event queue => exact hr.of_sameLink (sameLink_drained queue r)

/-- An unstarted link is subscribed only while one of its connections is down. -/
theorem Unstarted.subscribed_iff {r : MonitorLinkRecord} (hr : Unstarted r) :
    Subscribed r ↔ ¬ (r.channelConnected = true ∧ r.isMonitorConnected = true) := by
  constructor
  · rintro h ⟨hchannel, hmonitor⟩
    obtain ⟨-, m, hm, hstarted⟩ := h hchannel hmonitor
    rcases hr with ⟨hnone, -⟩ | ⟨hsome, -⟩
    · simp [hnone] at hm
    · obtain rfl : { started := false } = m := Option.some.inj (hsome.symm.trans hm)
      simp at hstarted
  · intro h hchannel hmonitor
    exact absurd ⟨hchannel, hmonitor⟩ h

/-- From a state with a connection down, both are up after an event exactly when it
completes them. -/
theorem both_effect_iff {r : MonitorLinkRecord} (e : MonitorEvent)
    (hr : ¬ (r.channelConnected = true ∧ r.isMonitorConnected = true)) :
    ((r.effect e).channelConnected = true ∧ (r.effect e).isMonitorConnected = true) ↔
      Completes r e := by
  have hsame : ∀ t, SameLink r t →
      ¬ (t.channelConnected = true ∧ t.isMonitorConnected = true) := by
    rintro t ⟨h₁, h₂, -⟩
    rwa [h₁, h₂]
  cases e with
  | channelStateChange isConnected =>
    cases isConnected with
    | true => simp [Completes, MonitorLinkRecord.effect]
    | false =>
      have h := (sameLink_processed { r with channelConnected := false }).1
      simp [Completes, MonitorLinkRecord.effect, h]
  | monitorConnect isOK =>
    cases isOK with
    | true => simp [Completes, MonitorLinkRecord.effect]
    | false =>
      have h := (sameLink_processed { r with isMonitorConnected := false }).2.1
      simp [Completes, MonitorLinkRecord.effect, h]
  | process => exact iff_of_false (hsame _ (sameLink_processed r)) (by simp [Completes])
  | event queue => exact iff_of_false (hsame _ (sameLink_drained queue r)) (by simp [Completes])

/-- **When a connected link is subscribed.**  All states of a run are subscribed exactly
when no event of the run brings up the second connection: the monitor of a connected
channel is made once, and nothing ever starts it. -/
theorem subscribed_iff_not_completes (es : List MonitorEvent) :
    (monitorLink.Visits Subscribed init es ↔
      monitorLink.Meets (fun r e => ¬ Completes r e) init es) ∧
    monitorLink.Visits (fun r => r.channelConnected = true →
      r.pvaClientChannel.created = 1 ∧ r.pvaClientMonitor = some { started := false }) init es := by
  have hinit : Unstarted init := .inl ⟨rfl, rfl, rfl⟩
  have hkeep : ∀ r e t, Unstarted r → monitorLink.step r e = some t → Unstarted t := by
    intro r e t hr hrt
    rw [← effect_eq_of_step hrt]
    exact hr.effect e
  obtain ⟨t, hrun⟩ := EventMachine.exists_run (M := monitorLink)
    (fun r e => ⟨r.effect e, r.step_eq e⟩) init es
  constructor
  · have hsub : Subscribed init := hinit.subscribed_iff.mpr fun h => Bool.false_ne_true h.1
    refine EventMachine.visits_iff_meets (I := Unstarted) hkeep ?_ hinit hsub hrun
    intro r e t hr hsub hrt
    rw [← effect_eq_of_step hrt, (hr.effect e).subscribed_iff,
      both_effect_iff e (hr.subscribed_iff.mp hsub)]
  · refine EventMachine.visits_of_invariant hkeep (fun r hr hconnected => ?_) hinit es
    rcases hr with ⟨-, -, hfalse⟩ | ⟨hsome, hcreated⟩
    · simp [hconnected] at hfalse
    · exact ⟨hcreated, hsome⟩

/-- A link that connects is not subscribed. -/
theorem not_subscribed_of_connects : ∃ r, monitorLink.Reachable r ∧ ¬ Subscribed r := by
  obtain ⟨r, hr, h⟩ := monitorLink.exists_reachable_of_run
    [.channelStateChange true, .monitorConnect true]
    (fun r => r.channelConnected && r.isMonitorConnected &&
      decide (r.pvaClientMonitor = some { started := false })) (by decide +kernel)
  simp only [Bool.and_eq_true, decide_eq_true_eq] at h
  refine ⟨r, hr, fun hsub => ?_⟩
  obtain ⟨-, m, hm, hstarted⟩ := hsub h.1.1 h.1.2
  obtain rfl : { started := false } = m := Option.some.inj (h.2.symm.trans hm)
  simp at hstarted

end MonitorLinkRecord

end TestDatabase
