import TestDatabase.Link.MonitorRuns

/-!
# The monitor link record mirrors the last update

`event()` publishes the alarm of an element only where it differs from the private copy
of the record.  That is enough because the private copy is what is published, in every
state the record can reach.

## Main definitions

* `MonitorLinkRecord.Synced` — the private alarm is the published one.

## Main results

* `Synced.effect` — every event keeps them the same.
* `drained_append` — draining a queue in two parts.
* `event_mirrors_last` — after `event()` the record shows the last element.
-/

namespace TestDatabase

open Fallible

namespace MonitorLinkRecord

/-- The private alarm is the one published. -/
def Synced (r : MonitorLinkRecord) : Prop := r.pvAlarm = r.alarm

theorem synced_bad (r : MonitorLinkRecord) (message : String) : Synced (r.bad message) := rfl

theorem Synced.processed {r : MonitorLinkRecord} (hr : Synced r) : Synced r.processed := by
  unfold MonitorLinkRecord.processed
  split
  · exact r.synced_bad _
  · split
    · exact r.synced_bad _
    · exact hr

/-- Whether the alarm is published anew or not, it is that of the element. -/
theorem Synced.pvAlarm_mirrored {r : MonitorLinkRecord} (hr : Synced r) (value : Double)
    (alarm : AlarmField) : (r.mirrored value alarm).pvAlarm = alarm.linkAlarm := by
  rw [mirrored]
  simp only
  split
  · next heq =>
    -- nothing is published: the private alarm, and with it the published one, is that already
    rw [← heq]
    exact hr
  · rfl

theorem Synced.mirrored {r : MonitorLinkRecord} (hr : Synced r) (value : Double)
    (alarm : AlarmField) : Synced (r.mirrored value alarm) :=
  hr.pvAlarm_mirrored value alarm

theorem Synced.drained {r : MonitorLinkRecord} (hr : Synced r) (queue : List MonitorElement) :
    Synced (r.drained queue) := by
  induction queue generalizing r with
  | nil => exact hr
  | cons element queue ih =>
    rw [MonitorLinkRecord.drained]
    cases element.value with
    | none => exact hr
    | some value => exact ih (hr.mirrored value element.alarm).processed

/-- **Every event keeps the private alarm the one published.** -/
theorem Synced.effect {r : MonitorLinkRecord} (hr : Synced r) (e : MonitorEvent) :
    Synced (r.effect e) := by
  cases e with
  | channelStateChange isConnected =>
    cases isConnected with
    | true =>
      rw [MonitorLinkRecord.effect, createMonitor]
      split
      · exact hr
      · exact hr
    | false =>
      have hlost : Synced { r with channelConnected := false } := hr
      exact hlost.processed
  | monitorConnect isOK =>
    cases isOK with
    | true => exact hr
    | false =>
      have hfailed : Synced { r with isMonitorConnected := false } := hr
      exact hfailed.processed
  | process => exact hr.processed
  | event queue => exact hr.drained queue

theorem synced_of_reachable {r : MonitorLinkRecord} (hr : monitorLink.Reachable r) : Synced r := by
  refine hr.invariant (init.synced_bad "never connected") ?_
  intro s e t hs _ hst
  rw [← effect_eq_of_step hst]
  exact hs.effect e

/-- A queue whose first part has values is drained in two parts. -/
theorem drained_append {r : MonitorLinkRecord} {before : List MonitorElement}
    (hbefore : ∀ e ∈ before, e.value.isSome) (after : List MonitorElement) :
    r.drained (before ++ after) = (r.drained before).drained after := by
  induction before generalizing r with
  | nil => rfl
  | cons element before ih =>
    obtain ⟨value, hvalue⟩ := Option.isSome_iff_exists.mp (hbefore element List.mem_cons_self)
    have hrest : ∀ e ∈ before, e.value.isSome := fun e h => hbefore e (List.mem_cons_of_mem _ h)
    rw [List.cons_append, drained, drained, hvalue]
    exact ih hrest

/-- `process()` of a link both of whose connections are up changes nothing. -/
theorem processed_of_connected {r : MonitorLinkRecord} (hchannel : r.channelConnected = true)
    (hmonitor : r.isMonitorConnected = true) : r.processed = r := by
  simp [processed, hchannel, hmonitor]

@[simp] theorem pvValue_processed (r : MonitorLinkRecord) : r.processed.pvValue = r.pvValue := by
  unfold processed
  split
  · rfl
  · split <;> rfl

/-- If every element has a value and no call throws, `event()` returns, and has polled and
released each element once, in order. -/
theorem event_returns {queue : List MonitorElement} (hqueue : ∀ e ∈ queue, e.value.isSome)
    (s : Counted MonitorSession) :
    ∃ t, event never queue s = .ok () t ∧
      t.val.held.polled = s.val.held.polled ++ queue ∧
      t.val.held.released = s.val.held.released ++ queue := by
  have hrun : DrainsUpTo never queue s _ := event_spec queue s
  cases hresult : event never queue s with
  | ok u t =>
    rw [hresult] at hrun
    obtain ⟨hheld, -⟩ := hrun
    exact ⟨t, rfl, by rw [hheld], by rw [hheld]⟩
  | error e t =>
    -- there is nothing to throw
    rw [hresult] at hrun
    obtain ⟨-, hbad, -⟩ := hrun
    exact absurd ⟨hqueue, fun _ _ _ => rfl⟩ hbad

/-- **The record mirrors the last update.**  In every state the record can reach, and for
every queue that is not empty and whose elements all have a value, `event()` returns with
the queue polled and released in order.  The record then has the value of the last
element and, if both connections are up, publishes the alarm of the last element. -/
theorem event_mirrors_last {r : MonitorLinkRecord} (hr : monitorLink.Reachable r) (held : Held)
    (calls : ℕ) (before : List MonitorElement) (last : MonitorElement)
    (hqueue : ∀ e ∈ before ++ [last], e.value.isSome) :
    ∃ t, event never (before ++ [last]) ⟨⟨r, held⟩, calls⟩ = .ok () t ∧
      t.val.held.polled = held.polled ++ (before ++ [last]) ∧
      t.val.held.released = held.released ++ (before ++ [last]) ∧
      some t.val.record.pvValue = last.value ∧
      (r.channelConnected = true → r.isMonitorConnected = true →
        t.val.record.pvAlarm = last.alarm.linkAlarm) := by
  obtain ⟨t, hok, hpolled, hreleased⟩ := event_returns hqueue ⟨⟨r, held⟩, calls⟩
  refine ⟨t, hok, hpolled, hreleased, ?_⟩
  have hrecord : t.val.record = r.drained (before ++ [last]) := by
    have h := event_record (before ++ [last]) ⟨⟨r, held⟩, calls⟩
    rwa [hok] at h
  have hbefore : ∀ e ∈ before, e.value.isSome := fun e he => hqueue e (by simp [he])
  obtain ⟨value, hvalue⟩ := Option.isSome_iff_exists.mp (hqueue last (by simp))
  -- the last element is drained into the record the others leave
  have hdrained : t.val.record = ((r.drained before).mirrored value last.alarm).processed := by
    rw [hrecord, drained_append hbefore, drained, hvalue]
    rfl
  constructor
  · rw [hdrained, pvValue_processed, hvalue]
    rfl
  · intro hchannel hmonitor
    obtain ⟨hchannel', hmonitor', -⟩ := sameLink_drained before r
    have hsynced : Synced (r.drained before) := (synced_of_reachable hr).drained before
    have hup : ((r.drained before).mirrored value last.alarm).processed =
        (r.drained before).mirrored value last.alarm :=
      processed_of_connected (hchannel'.trans hchannel) (hmonitor'.trans hmonitor)
    rw [hdrained, hup]
    exact hsynced.pvAlarm_mirrored value last.alarm

/-- An element with an alarm and then one without, drained by a connected link. -/
theorem event_mirrors_last_without_alarm :
    ∃ r t, monitorLink.Reachable r ∧
      event never ([⟨some ⟨1⟩, .attached { message := "high" }⟩] ++ [⟨some ⟨2⟩, .missing⟩])
        ⟨⟨r, {}⟩, 0⟩ = .ok () t ∧
      some t.val.record.pvValue = some ⟨2⟩ ∧ t.val.record.pvAlarm = Alarm.connected := by
  obtain ⟨r, hr, h⟩ := monitorLink.exists_reachable_of_run
    [.channelStateChange true, .monitorConnect true]
    (fun r => decide (r.channelConnected = true ∧ r.isMonitorConnected = true)) (by decide +kernel)
  obtain ⟨hchannel, hmonitor⟩ := of_decide_eq_true h
  obtain ⟨t, hok, -, -, hvalue, halarm⟩ := event_mirrors_last hr {} 0
    [⟨some ⟨1⟩, .attached { message := "high" }⟩] ⟨some ⟨2⟩, .missing⟩ (by simp)
  exact ⟨r, t, hr, hok, hvalue, halarm hchannel hmonitor⟩

end MonitorLinkRecord

end TestDatabase
