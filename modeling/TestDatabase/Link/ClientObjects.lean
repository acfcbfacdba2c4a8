import TestDatabase.Link.Get

/-!
# The client objects of the link records

Each link record makes one client object, a `PvaClientGet`, `PvaClientPut` or
`PvaClientMonitor`, when its channel connects first.  No flag says that the object is
there: `process()` looks at `channelConnected` and at the flag that the connect callback
of the object sets.

`channelStateChange` takes no lock while it makes the object.  It is therefore cut into
pieces here, and anything else may happen in between.  The connect callback may come
from inside `issueConnect`, and never before that.

## Main definitions

* `ObjectLink` — the pieces of a link record, and what they do to the object.
* `ObjectLink.machine` — the event machine of the pieces.
* `getObject`, `putObject`, `monitorObject` — the three link records.

## Main results

* `ObjectLink.Inv.step` — one invariant for all link records.
* `getObject_pieces`, `putObject_pieces`, `monitorObject_pieces` — put together, the
  pieces are the callbacks.
* `object_used_and_made_once` — no object is used before it is made, or made twice.
-/

namespace TestDatabase

/-- What matters about the client object. -/
structure ObjectView where
  /-- The flag set by the connect callback. -/
  connected : Bool
  /-- The pointer is not null. -/
  made : Bool
  /-- How many objects the channel has made. -/
  created : ℕ
  deriving DecidableEq, Repr

/-- The code of a link record, in pieces.  `ω` says how a call of `process()` goes, and `ε`
is what else can be called. -/
structure ObjectLink (ρ ω ε : Type) where
  init : ρ
  view : ρ → ObjectView
  /-- `channelStateChange`, before it looks at the object. -/
  setChannel : Bool → ρ → ρ
  /-- Make the object, unless there is one. -/
  create : ρ → ρ
  /-- The connect callback, before it processes the record. -/
  setConnect : Bool → ρ → ρ
  /-- `process()`.  There is no record after a null object is used. -/
  process : ω → ρ → Option ρ
  other : ε → ρ → Option ρ
  view_init : view init = { connected := false, made := false, created := 0 }
  view_setChannel : ∀ isConnected r, view (setChannel isConnected r) = view r
  view_create : ∀ r, view (create r) =
    if (view r).made then view r
    else { view r with made := true, created := (view r).created + 1 }
  view_setConnect : ∀ isOK r, view (setConnect isOK r) = { view r with connected := isOK }
  /-- `process()` uses the object only if the connect callback has set its flag. -/
  process_eq_none : ∀ outcome r, process outcome r = none →
    (view r).connected = true ∧ (view r).made = false
  view_process : ∀ outcome r t, process outcome r = some t → view t = view r
  other_eq_none : ∀ e r, other e r = none → (view r).connected = true ∧ (view r).made = false
  view_other : ∀ e r t, other e r = some t → view t = view r

/-- How far a call of `channelStateChange` has come. -/
inductive ChangePhase
  /-- There is no such call. -/
  | idle
  /-- The channel is connected; the object is looked at next. -/
  | connecting
  /-- The object has been made; `issueConnect` is called next. -/
  | made
  /-- It is inside `issueConnect`. -/
  | inIssueConnect
  /-- The channel is lost; the lock is taken next. -/
  | lost
  deriving DecidableEq, Repr

/-- A link record among its callbacks. -/
structure ObjectWorld (ρ : Type) where
  record : ρ
  phase : ChangePhase := .idle
  /-- `issueConnect` has been called for the object. -/
  issued : Bool := false
  /-- A null object has been used. -/
  usedNull : Bool := false
  deriving DecidableEq, Repr

/-- What can happen. -/
inductive ObjectEvent (ω ε : Type)
  /-- A client processes the record. -/
  | process (outcome : ω)
  /-- `channelStateChange`, its first piece. -/
  | channelStateChange (isConnected : Bool)
  | create
  | issueConnect
  | issueConnectReturns
  /-- The piece run under the lock, for a lost channel. -/
  | lostChannel (outcome : ω)
  /-- The connect callback of the object. -/
  | connect (isOK : Bool) (outcome : ω)
  | other (e : ε)
  deriving DecidableEq, Repr

namespace ObjectLink

variable {ρ ω ε : Type} (L : ObjectLink ρ ω ε)

/-- Carry on with what a call leaves. -/
def after (w : ObjectWorld ρ) : Option ρ → ObjectWorld ρ
  | some r => { w with record := r }
  | none => { w with usedNull := true }

/-- One event.  Calls of `channelStateChange` do not overlap, and the connect callback
comes after the call of `issueConnect`. -/
def step (w : ObjectWorld ρ) : ObjectEvent ω ε → Option (ObjectWorld ρ)
  | .process outcome => some (after w (L.process outcome w.record))
  | .channelStateChange isConnected =>
    if w.phase = .idle then
      some { w with
        record := L.setChannel isConnected w.record
        phase := if isConnected then .connecting else .lost }
    else none
  | .create =>
    if w.phase = .connecting then
      some { w with
        record := L.create w.record
        phase := if (L.view w.record).made then .idle else .made }
    else none
  | .issueConnect =>
    if w.phase = .made then some { w with issued := true, phase := .inIssueConnect } else none
  | .issueConnectReturns =>
    if w.phase = .inIssueConnect then some { w with phase := .idle } else none
  | .lostChannel outcome =>
    if w.phase = .lost then some (after { w with phase := .idle } (L.process outcome w.record))
    else none
  | .connect isOK outcome =>
    if w.issued then
      let w := { w with record := L.setConnect isOK w.record }
      some (if isOK then w else after w (L.process outcome w.record))
    else none
  | .other e => some (after w (L.other e w.record))

/-- The link record as an event machine. -/
def machine : EventMachine (ObjectWorld ρ) (ObjectEvent ω ε) where
  init := { record := L.init }
  step := L.step

variable {L}

/-- The invariant.  A connect callback has come only after `issueConnect`, which is called
only for an object that was made. -/
structure Inv (L : ObjectLink ρ ω ε) (w : ObjectWorld ρ) : Prop where
  connected : (L.view w.record).connected = true → w.issued = true
  issued : w.issued = true → (L.view w.record).made = true
  made : w.phase = .made → (L.view w.record).made = true
  created : (L.view w.record).created = if (L.view w.record).made then 1 else 0
  usedNull : w.usedNull = false

theorem inv_init : Inv L { record := L.init } := by
  constructor <;> simp [L.view_init]

/-- The object is there when the flag says that it is connected. -/
theorem Inv.made_of_connected {w : ObjectWorld ρ} (h : Inv L w)
    (hconnected : (L.view w.record).connected = true) : (L.view w.record).made = true :=
  h.issued (h.connected hconnected)

/-- A call that uses the object only when it is connected, and leaves it alone, keeps the
invariant. -/
theorem Inv.after {w : ObjectWorld ρ} {called : Option ρ} (h : Inv L w)
    (hnone : called = none →
      (L.view w.record).connected = true ∧ (L.view w.record).made = false)
    (hsome : ∀ t, called = some t → L.view t = L.view w.record) : Inv L (after w called) := by
  cases called with
  | none =>
    -- a null object would have to be connected
    obtain ⟨hconnected, hnull⟩ := hnone rfl
    exact absurd ((h.made_of_connected hconnected).symm.trans hnull) Bool.noConfusion
  | some t =>
    have hview : L.view t = L.view w.record := hsome t rfl
    constructor
    · simpa [ObjectLink.after, hview] using h.connected
    · simpa [ObjectLink.after, hview] using h.issued
    · simpa [ObjectLink.after, hview] using h.made
    · simpa [ObjectLink.after, hview] using h.created
    · exact h.usedNull

/-- **Every event keeps the invariant.** -/
theorem Inv.step {w w' : ObjectWorld ρ} {e : ObjectEvent ω ε} (h : Inv L w)
    (hs : L.step w e = some w') : Inv L w' := by
  cases e with
  | process outcome =>
    obtain rfl := Option.some.inj hs
    exact h.after (L.process_eq_none outcome _) (L.view_process outcome _)
  | other e =>
    obtain rfl := Option.some.inj hs
    exact h.after (L.other_eq_none e _) (L.view_other e _)
  | channelStateChange isConnected =>
    simp only [ObjectLink.step, Option.ite_none_right_eq_some, Option.some.injEq] at hs
    obtain ⟨-, rfl⟩ := hs
    have hview := L.view_setChannel isConnected w.record
    constructor
    · simpa [hview] using h.connected
    · simpa [hview] using h.issued
    · intro hphase
      cases isConnected <;> simp at hphase
    · simpa [hview] using h.created
    · exact h.usedNull
  | create =>
    simp only [ObjectLink.step, Option.ite_none_right_eq_some, Option.some.injEq] at hs
    obtain ⟨-, rfl⟩ := hs
    have hview := L.view_create w.record
    cases hmade : (L.view w.record).made with
    | true =>
      -- there is an object already
      rw [hmade, if_pos rfl] at hview
      constructor
      · simpa [hview] using h.connected
      · simpa [hview] using h.issued
      · simp
      · simpa [hview] using h.created
      · exact h.usedNull
    | false =>
      rw [hmade, if_neg Bool.false_ne_true] at hview
      have hcreated : (L.view w.record).created = 0 := by simpa [hmade] using h.created
      constructor
      · simpa [hview] using h.connected
      · simp [hview]
      · simp [hview]
      · simp [hview, hcreated]
      · exact h.usedNull
  | issueConnect =>
    simp only [ObjectLink.step, Option.ite_none_right_eq_some, Option.some.injEq] at hs
    obtain ⟨hphase, rfl⟩ := hs
    exact { h with
      connected := fun _ => rfl
      issued := fun _ => h.made hphase
      made := by simp }
  | issueConnectReturns =>
    simp only [ObjectLink.step, Option.ite_none_right_eq_some, Option.some.injEq] at hs
    obtain ⟨-, rfl⟩ := hs
    exact { h with made := by simp }
  | lostChannel outcome =>
    simp only [ObjectLink.step, Option.ite_none_right_eq_some, Option.some.injEq] at hs
    obtain ⟨-, rfl⟩ := hs
    have hidle : Inv L { w with phase := .idle } := { h with made := by simp }
    exact hidle.after (L.process_eq_none outcome _) (L.view_process outcome _)
  | connect isOK outcome =>
    simp only [ObjectLink.step, Option.ite_none_right_eq_some, Option.some.injEq] at hs
    obtain ⟨hissued, rfl⟩ := hs
    have hview := L.view_setConnect isOK w.record
    have hset : Inv L { w with record := L.setConnect isOK w.record } := by
      constructor
      · exact fun _ => hissued
      · simpa [hview] using h.issued
      · simpa [hview] using h.made
      · simpa [hview] using h.created
      · exact h.usedNull
    cases isOK with
    | true => exact hset
    | false => exact hset.after (L.process_eq_none outcome _) (L.view_process outcome _)

theorem inv_of_reachable {w : ObjectWorld ρ} (hw : L.machine.Reachable w) : Inv L w :=
  hw.invariant inv_init fun _ _ _ h _ hs => h.step hs

/-- No null object has been used, and at most one object made. -/
theorem used_and_made {w : ObjectWorld ρ} (hw : L.machine.Reachable w) :
    w.usedNull = false ∧ (L.view w.record).created ≤ 1 := by
  have h := inv_of_reachable hw
  refine ⟨h.usedNull, ?_⟩
  rw [h.created]
  split <;> omega

end ObjectLink

/-! ### The three link records -/

namespace GetLinkRecord

/-- `process()` uses a null object only if the get is connected. -/
theorem null_of_process {r : GetLinkRecord} {outcome : GetOutcome}
    (h : r.process outcome = none) :
    r.isGetConnected = true ∧ r.pvaClientGet.isSome = false := by
  rcases r.process_cases outcome with ⟨message, hproc⟩ |
    ⟨-, hget, ⟨hnone, -⟩ | ⟨value, alarm, -, hproc⟩⟩
  · simp [hproc] at h
  · exact ⟨hget, by rw [hnone]; rfl⟩
  · simp [hproc] at h

/-- `process()` leaves the get object alone. -/
theorem object_of_process {r t : GetLinkRecord} {outcome : GetOutcome}
    (h : r.process outcome = some t) : t.isGetConnected = r.isGetConnected ∧
      t.pvaClientGet = r.pvaClientGet ∧ t.pvaClientChannel = r.pvaClientChannel := by
  rcases r.process_cases outcome with ⟨message, hproc⟩ |
    ⟨-, -, ⟨-, hproc⟩ | ⟨value, alarm, -, hproc⟩⟩
  · obtain rfl := Option.some.inj (hproc.symm.trans h)
    exact ⟨rfl, rfl, rfl⟩
  · simp [hproc] at h
  · obtain rfl := Option.some.inj (hproc.symm.trans h)
    rw [copyAlarm_eq]
    exact ⟨rfl, rfl, rfl⟩

end GetLinkRecord

/-- `GetLinkRecord`.  A client may also write the value and the alarm. -/
def getObject : ObjectLink GetLinkRecord GetOutcome (Double × Option Alarm) where
  init := .init
  view r := {
    connected := r.isGetConnected
    made := r.pvaClientGet.isSome
    created := r.pvaClientChannel.created }
  setChannel isConnected r := { r with channelConnected := isConnected }
  create := GetLinkRecord.createGet
  setConnect isOK r := { r with isGetConnected := isOK }
  process outcome r := r.process outcome
  other e r := r.step (.write e.1 e.2)
  view_init := rfl
  view_setChannel _ _ := rfl
  view_create r := by
    unfold GetLinkRecord.createGet
    split
    · next hnone => simp [hnone]
    · next hsome => simp [hsome]
  view_setConnect _ _ := rfl
  process_eq_none _ _ h := GetLinkRecord.null_of_process h
  view_process _ _ _ h := by
    obtain ⟨hconnected, hobject, hchannel⟩ := GetLinkRecord.object_of_process h
    rw [hconnected, hobject, hchannel]
  other_eq_none _ _ h := by simp [GetLinkRecord.step] at h
  view_other _ _ _ h := by
    obtain rfl := Option.some.inj h
    rfl

/-- The callbacks of `GetLinkRecord`, from their pieces. -/
theorem getObject_pieces (r : GetLinkRecord) (outcome : GetOutcome) :
    r.channelStateChange true outcome = some (getObject.create (getObject.setChannel true r)) ∧
    r.channelStateChange false outcome =
      getObject.process outcome (getObject.setChannel false r) ∧
    r.channelGetConnect true outcome = some (getObject.setConnect true r) ∧
    r.channelGetConnect false outcome =
      getObject.process outcome (getObject.setConnect false r) :=
  ⟨rfl, rfl, rfl, rfl⟩

/-- What else is called of a `PutLinkRecord`. -/
inductive PutCall
  /-- A client writes the value. -/
  | write (value : Double)
  | putDone (isOK : Bool) (thrown : Option String)
  /-- `put()` ends, normally or by an exception. -/
  | putEnds (thrown : Option String)
  deriving DecidableEq, Repr

/-- The record when `process()` has returned or is inside `put()`. -/
def ProcessStep.record? : ProcessStep → Option PutLinkRecord
  | .returned r => some r
  | .inPut r => some r
  | .nullPut => none

namespace PutLinkRecord

/-- `process()` uses a null object only if the put is connected. -/
theorem null_of_process {r : PutLinkRecord} {thrown : Option String}
    (h : (r.process thrown).record? = none) :
    r.isPutConnected = true ∧ r.pvaClientPut.isSome = false := by
  rcases r.process_cases thrown with ⟨message, hproc⟩ | ⟨-, -, clientPut, -, hproc⟩ |
    ⟨hready, hnone, -⟩
  · simp [hproc, ProcessStep.record?] at h
  · simp [hproc, ProcessStep.record?] at h
  · exact ⟨hready.2.1, by rw [hnone]; rfl⟩

/-- `process()` leaves the put object where it is. -/
theorem object_of_process {r t : PutLinkRecord} {thrown : Option String}
    (h : (r.process thrown).record? = some t) : t.isPutConnected = r.isPutConnected ∧
      t.pvaClientPut.isSome = r.pvaClientPut.isSome ∧ t.pvaClientChannel = r.pvaClientChannel := by
  rcases r.process_cases thrown with ⟨message, hproc⟩ | ⟨-, -, clientPut, hput, hproc⟩ |
    ⟨-, -, hproc⟩
  · rw [hproc, ProcessStep.record?, Option.some.injEq] at h
    rw [← h]
    exact ⟨rfl, rfl, rfl⟩
  · -- only the value in the object changes
    rw [hproc, ProcessStep.record?, Option.some.injEq] at h
    rw [← h, hput]
    simp
  · simp [hproc, ProcessStep.record?] at h

/-- What a call does. -/
def call (r : PutLinkRecord) : PutCall → Option PutLinkRecord
  | .write value => some { r with pvValue := value }
  | .putDone isOK thrown =>
    let r := r.putDone isOK
    if isOK then some r else (r.process thrown).record?
  | .putEnds thrown => some (r.afterPut thrown)

end PutLinkRecord

/-- `PutLinkRecord`. -/
def putObject : ObjectLink PutLinkRecord (Option String) PutCall where
  init := {}
  view r := {
    connected := r.isPutConnected
    made := r.pvaClientPut.isSome
    created := r.pvaClientChannel.created }
  setChannel isConnected r :=
    { r with channelConnected := isConnected, setAlarmGood := isConnected || r.setAlarmGood }
  create r := if r.pvaClientPut = none then r.createPut else r
  setConnect isOK r := r.channelPutConnect isOK
  process thrown r := (r.process thrown).record?
  other e r := r.call e
  view_init := rfl
  view_setChannel _ _ := rfl
  view_create r := by
    cases hput : r.pvaClientPut with
    | none => simp [PutLinkRecord.createPut]
    | some clientPut => simp [hput]
  view_setConnect _ _ := rfl
  process_eq_none _ _ h := PutLinkRecord.null_of_process h
  view_process _ _ _ h := by
    obtain ⟨hconnected, hobject, hchannel⟩ := PutLinkRecord.object_of_process h
    rw [hconnected, hobject, hchannel]
  other_eq_none e r h := by
    cases e with
    | write value => simp [PutLinkRecord.call] at h
    | putDone isOK thrown =>
      cases isOK with
      | true => simp [PutLinkRecord.call] at h
      | false =>
        exact PutLinkRecord.null_of_process (r := r.putDone false) h
    | putEnds thrown => simp [PutLinkRecord.call] at h
  view_other e r t h := by
    cases e with
    | write value =>
      obtain rfl := Option.some.inj h
      rfl
    | putDone isOK thrown =>
      cases isOK with
      | true =>
        obtain rfl := Option.some.inj h
        rfl
      | false =>
        have hsome : ((r.putDone false).process thrown).record? = some t := h
        obtain ⟨hconnected, hobject, hchannel⟩ := PutLinkRecord.object_of_process hsome
        rw [hconnected, hobject, hchannel]
        rfl
    | putEnds thrown =>
      obtain rfl := Option.some.inj h
      cases thrown <;> rfl

/-- The callbacks of `PutLinkRecord`, from their pieces. -/
theorem putObject_pieces (r : PutLinkRecord) (isOK : Bool) :
    r.channelStateChange true = putObject.create (putObject.setChannel true r) ∧
    r.channelStateChange false = putObject.setChannel false r ∧
    r.channelPutConnect isOK = putObject.setConnect isOK r := by
  refine ⟨?_, rfl, rfl⟩
  cases hput : r.pvaClientPut <;> simp [PutLinkRecord.channelStateChange, putObject, hput]

/-- `MonitorLinkRecord`.  Its `process()` does not use the object; `event()` may be called as
well. -/
def monitorObject : ObjectLink MonitorLinkRecord Unit (List MonitorElement) where
  init := .init
  view r := {
    connected := r.isMonitorConnected
    made := r.pvaClientMonitor.isSome
    created := r.pvaClientChannel.created }
  setChannel isConnected r := { r with channelConnected := isConnected }
  create := MonitorLinkRecord.createMonitor
  setConnect isOK r := { r with isMonitorConnected := isOK }
  process _ r := r.step .process
  other queue r := r.step (.event queue)
  view_init := rfl
  view_setChannel _ _ := rfl
  view_create r := by
    unfold MonitorLinkRecord.createMonitor
    split
    · next hnone => simp [hnone]
    · next hsome => simp [hsome]
  view_setConnect _ _ := rfl
  process_eq_none _ _ h := by simp [MonitorLinkRecord.step] at h
  view_process _ r t h := by
    rw [MonitorLinkRecord.step_eq, Option.some.injEq] at h
    obtain ⟨-, hconnected, hchannel, hobject⟩ := MonitorLinkRecord.sameLink_processed r
    rw [← h, MonitorLinkRecord.effect, hconnected, hchannel, hobject]
  other_eq_none _ _ h := by simp [MonitorLinkRecord.step] at h
  view_other queue r t h := by
    rw [MonitorLinkRecord.step_eq, Option.some.injEq] at h
    obtain ⟨-, hconnected, hchannel, hobject⟩ := MonitorLinkRecord.sameLink_drained queue r
    rw [← h, MonitorLinkRecord.effect, hconnected, hchannel, hobject]

/-- The callbacks of `MonitorLinkRecord`, from their pieces. -/
theorem monitorObject_pieces (r : MonitorLinkRecord) :
    r.step (.channelStateChange true) =
      some (monitorObject.create (monitorObject.setChannel true r)) ∧
    r.step (.channelStateChange false) =
      monitorObject.process () (monitorObject.setChannel false r) ∧
    r.step (.monitorConnect true) = some (monitorObject.setConnect true r) ∧
    r.step (.monitorConnect false) =
      monitorObject.process () (monitorObject.setConnect false r) := by
  simp only [MonitorLinkRecord.step_eq, monitorObject]
  exact ⟨rfl, rfl, rfl, rfl⟩

/-- **The client objects of the link records.**  Whatever is called, in whatever order, and
however often the channel is lost and found: no link record uses a client object that it
has not made, and none makes a second one. -/
theorem object_used_and_made_once :
    (∀ w, getObject.machine.Reachable w →
      w.usedNull = false ∧ w.record.pvaClientChannel.created ≤ 1) ∧
    (∀ w, putObject.machine.Reachable w →
      w.usedNull = false ∧ w.record.pvaClientChannel.created ≤ 1) ∧
    ∀ w, monitorObject.machine.Reachable w →
      w.usedNull = false ∧ w.record.pvaClientChannel.created ≤ 1 :=
  ⟨fun _ hw => ObjectLink.used_and_made hw, fun _ hw => ObjectLink.used_and_made hw,
    fun _ hw => ObjectLink.used_and_made hw⟩

/-- A get that connects inside `issueConnect` and is used, and a channel that is lost and
found again. -/
theorem object_used_and_made_once_reconnect :
    ∃ w, getObject.machine.Reachable w ∧ w.record.pvValue = ⟨1⟩ ∧
      w.record.pvaClientChannel.created = 1 ∧ w.usedNull = false := by
  obtain ⟨w, hw, h⟩ := getObject.machine.exists_reachable_of_run
    [.channelStateChange true, .create, .issueConnect, .connect true (.threw ""),
      .issueConnectReturns, .process (.got ⟨1⟩ .missing), .channelStateChange false,
      .lostChannel (.threw ""), .channelStateChange true, .create]
    (fun w => decide (w.record.pvValue = ⟨1⟩ ∧ w.record.pvaClientChannel.created = 1))
    (by decide +kernel)
  obtain ⟨hvalue, hcreated⟩ := of_decide_eq_true h
  exact ⟨w, hw, hvalue, hcreated, (object_used_and_made_once.1 w hw).1⟩

end TestDatabase
