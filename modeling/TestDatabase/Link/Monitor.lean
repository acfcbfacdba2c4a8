import TestDatabase.Lib.Fallible
import TestDatabase.Link.Put

/-!
# The monitor link record

`MonitorLinkRecord` mirrors the value and the alarm of a channel.  `event()` drains
the queue of a `PvaClientMonitor`: for each element it takes the record lock, opens
a group put, copies the value, copies the alarm component by component into the
private `alarm`, publishes that if a component changed, and calls `process()`.

The callbacks are written call by call, since any call made while the lock is held
may throw, and what is left unreleased then depends on where it does.

## Main definitions

* `MonitorLinkRecord` — the record.
* `Held` — what a callback has taken and given back: lock, group puts, elements.
* `MonitorLinkRecord.process`, `channelStateChange`, `monitorConnect`, `event` — the
  code, with `throws` saying which calls made under the lock throw.
* `Held.Balanced` — everything taken has been given back.

## Main results

* `balanced_event_iff`, `balanced_locked_iff` — what a callback has given back when it
  exits, decided by the elements and the calls alone.
* `resources_balanced_iff` — both for the callbacks of the record.
* `locked_lockReleased`, `event_lockReleased` — the lock is given back on every exit.
-/

namespace TestDatabase

/-- A `PvaClientMonitor`: it delivers events once it is started. -/
structure PvaClientMonitor where
  started : Bool := false
  deriving DecidableEq, Repr, Inhabited

/-- The `alarm` field of the data delivered over a link. -/
inductive AlarmField
  /-- There is none, or it is not a structure. -/
  | missing
  /-- It is a structure to which a `PVAlarm` does not attach. -/
  | unattachable
  /-- An alarm structure. -/
  | attached (alarm : Alarm)
  deriving DecidableEq, Repr, Inhabited

/-- The alarm a link record mirrors: the one delivered, or the one of a link without. -/
def AlarmField.linkAlarm : AlarmField → Alarm
  | .attached alarm => alarm
  | _ => Alarm.connected

/-- What one element of the monitor queue holds: a double field `value`, if there is
one, and an alarm field. -/
structure MonitorElement where
  value : Option Double
  alarm : AlarmField
  deriving DecidableEq, Repr, Inhabited

/-- The record.  The defaults are what the constructor leaves. -/
structure MonitorLinkRecord where
  channelConnected : Bool := false
  isMonitorConnected : Bool := false
  pvValue : Double := default
  /-- The published alarm field. -/
  pvAlarm : Alarm := {}
  /-- The private copy. -/
  alarm : Alarm := {}
  linkAlarm : Alarm := {}
  pvaClientChannel : PvaClientChannel := {}
  pvaClientMonitor : Option PvaClientMonitor := none
  deriving DecidableEq, Repr, Inhabited

/-- What has been taken and what has been given back. -/
structure Held where
  lockTaken : ℕ := 0
  lockReleased : ℕ := 0
  groupBegun : ℕ := 0
  groupEnded : ℕ := 0
  /-- The elements for which `poll()` returned true, in order. -/
  polled : List MonitorElement := []
  /-- The elements handed back by `releaseEvent()`, in order. -/
  released : List MonitorElement := []
  deriving DecidableEq, Repr

/-- The lock is released as often as taken, every group put is ended, and every
element polled is handed back once. -/
def Held.Balanced (h : Held) : Prop :=
  h.lockTaken = h.lockReleased ∧ h.groupBegun = h.groupEnded ∧ h.polled = h.released

instance (h : Held) : Decidable h.Balanced := inferInstanceAs (Decidable (_ ∧ _ ∧ _))

/-- A record while one of its callbacks runs. -/
structure MonitorSession where
  record : MonitorLinkRecord
  held : Held := {}
  deriving DecidableEq, Repr

/-- Code of a callback. -/
abbrev Callback := EStateM String (Counted MonitorSession)

namespace MonitorLinkRecord

open Fallible

variable (throws : ℕ → Option String)

/-- The next call made under the lock, with its effect on the record. -/
def call (f : MonitorLinkRecord → MonitorLinkRecord) : Callback Unit :=
  attempt throws fun s => { s with record := f s.record }

/-- An assignment to the record. -/
def assign (f : MonitorLinkRecord → MonitorLinkRecord) : Callback Unit :=
  quietly fun s => { s with record := f s.record }

/-- `setMessage`, `setSeverity`, `setStatus` and `pvAlarm.set`. -/
def publishInvalid (message : String) : Callback Unit := do
  call throws fun r => { r with alarm.message := message }
  call throws fun r => { r with alarm.severity := .invalidAlarm }
  call throws fun r => { r with alarm.status := .clientStatus }
  call throws fun r => { r with pvAlarm := r.alarm }

/-- `process()`; the last call is `PVRecord::process()`. -/
def process : Callback Unit := do
  let s ← current
  if s.record.channelConnected = false then
    publishInvalid throws "disconnected"
  else if s.record.isMonitorConnected = false then
    publishInvalid throws "monitor not connected"
  call throws id

/-- `lock()`, a body that is left by `unlock()` on either exit. -/
def locked (body : Callback Unit) : Callback Unit :=
  guarded (fun s => { s with held.lockTaken := s.held.lockTaken + 1 })
    (fun s => { s with held.lockReleased := s.held.lockReleased + 1 }) body

/-- `beginGroupPut()`, a body, `endGroupPut()`. -/
def grouped (body : Callback Unit) : Callback Unit := do
  attempt throws fun s => { s with held.groupBegun := s.held.groupBegun + 1 }
  body
  -- not reached when the body throws
  attempt throws fun s => { s with held.groupEnded := s.held.groupEnded + 1 }

/-- `createMonitor("value,alarm")`, `setRequester` and `issueConnect`, unless there is a
monitor already. -/
def createMonitor (r : MonitorLinkRecord) : MonitorLinkRecord :=
  match r.pvaClientMonitor with
  | none =>
    { r with
      pvaClientMonitor := some {}
      pvaClientChannel := { created := r.pvaClientChannel.created + 1 } }
  | some _ => r

/-- `channelStateChange`. -/
def channelStateChange (isConnected : Bool) : Callback Unit := do
  assign fun r => { r with channelConnected := isConnected }
  if isConnected then
    assign createMonitor
  else
    locked (grouped throws (process throws))

/-- `monitorConnect`. -/
def monitorConnect (isOK : Bool) : Callback Unit :=
  if isOK then
    assign fun r => { r with isMonitorConnected := true }
  else
    locked do
      assign fun r => { r with isMonitorConnected := false }
      grouped throws (process throws)

/-- The alarm of a link without alarms. -/
def connected : Callback Unit := do
  call throws fun r => { r with linkAlarm.message := "connected" }
  call throws fun r => { r with linkAlarm.severity := .noAlarm }
  call throws fun r => { r with linkAlarm.status := .clientStatus }

/-- Read the alarm of an element into `linkAlarm`.  The calls are `getSubField`, `attach`
and `get`. -/
def readAlarm (alarm : AlarmField) : Callback Unit := do
  call throws id
  match alarm with
  | .attached a =>
    call throws id
    call throws fun r => { r with linkAlarm := a }
  | .unattachable =>
    call throws id
    connected throws
  | .missing => connected throws

/-- Compare one component of `alarm` with `linkAlarm` and copy it if it differs.  The
result is whether it did. -/
def copyComponent {β : Type} [DecidableEq β] (get : Alarm → β) (set : Alarm → β → Alarm) :
    Callback Bool := do
  call throws id
  let s ← current
  if get s.record.alarm = get s.record.linkAlarm then
    return false
  else
    call throws fun r => { r with alarm := set r.alarm (get r.linkAlarm) }
    return true

/-- The body of `event()` between `beginGroupPut()` and `process()`. -/
def mirror (value : Double) (alarm : AlarmField) : Callback Unit := do
  call throws fun r => { r with pvValue := value }
  readAlarm throws alarm
  let setMessage ← copyComponent throws Alarm.message fun a m => { a with message := m }
  let setSeverity ← copyComponent throws Alarm.severity fun a s => { a with severity := s }
  let setStatus ← copyComponent throws Alarm.status fun a s => { a with status := s }
  if (setMessage || setSeverity || setStatus) = true then
    call throws fun r => { r with pvAlarm := r.alarm }

/-- `event()`, on the elements that `poll()` finds. -/
def event : List MonitorElement → Callback Unit
  | [] => pure ()
  | element :: queue => do
    quietly fun s => { s with held.polled := s.held.polled ++ [element] }
    match element.value with
    -- the lock is not taken yet, but the element is
    | none => throw "value is not a double"
    | some value =>
      locked (grouped throws do
        mirror throws value element.alarm
        process throws)
      quietly fun s => { s with held.released := s.held.released ++ [element] }
      event queue

/-! ### The calls made under the lock

Between `beginGroupPut()` and `endGroupPut()` nothing is taken or given back, so what
a callback holds when it exits depends on where the first call throws only through
`grouped` and `locked`. -/

/-- The calls of `p` take nothing and give nothing back. -/
abbrev Bare {α : Type} (p : Callback α) : Prop :=
  Honest throws (fun a b : MonitorSession => b.held = a.held) p

variable {throws}

theorem bare_call (f : MonitorLinkRecord → MonitorLinkRecord) : Bare throws (call throws f) :=
  honest_attempt (fun _ => rfl) fun _ => rfl

theorem bare_pure {α : Type} (x : α) : Bare throws (pure x) :=
  honest_pure (R := fun a b : MonitorSession => b.held = a.held) (fun _ => rfl) x

theorem bare_current : Bare throws current := honest_current fun _ => rfl

theorem bare_bind {α β : Type} {p : Callback α} {q : α → Callback β} (hp : Bare throws p)
    (hq : ∀ x, Bare throws (q x)) : Bare throws (p >>= q) :=
  honest_bind (fun _ _ _ h₁ h₂ => h₂.trans h₁) hp hq

theorem bare_publishInvalid (message : String) : Bare throws (publishInvalid throws message) :=
  bare_bind (bare_call _) fun _ => bare_bind (bare_call _) fun _ =>
    bare_bind (bare_call _) fun _ => bare_call _

theorem bare_process : Bare throws (process throws) := by
  refine bare_bind bare_current fun s => ?_
  split
  · exact bare_bind (bare_publishInvalid _) fun _ => bare_call _
  · split
    · exact bare_bind (bare_publishInvalid _) fun _ => bare_call _
    · exact bare_call _

theorem bare_connected : Bare throws (connected throws) :=
  bare_bind (bare_call _) fun _ => bare_bind (bare_call _) fun _ => bare_call _

theorem bare_readAlarm (alarm : AlarmField) : Bare throws (readAlarm throws alarm) := by
  refine bare_bind (bare_call _) fun _ => ?_
  cases alarm with
  | attached a => exact bare_bind (bare_call _) fun _ => bare_call _
  | unattachable => exact bare_bind (bare_call _) fun _ => bare_connected
  | missing => exact bare_connected

theorem bare_copyComponent {β : Type} [DecidableEq β] (get : Alarm → β)
    (set : Alarm → β → Alarm) : Bare throws (copyComponent throws get set) :=
  bare_bind (bare_call _) fun _ => bare_bind bare_current fun _ =>
    honest_ite (bare_pure _) (bare_bind (bare_call _) fun _ => bare_pure _)

theorem bare_mirror (value : Double) (alarm : AlarmField) :
    Bare throws (mirror throws value alarm) :=
  bare_bind (bare_call _) fun _ => bare_bind (bare_readAlarm _) fun _ =>
    bare_bind (bare_copyComponent _ _) fun _ => bare_bind (bare_copyComponent _ _) fun _ =>
      bare_bind (bare_copyComponent _ _) fun _ => honest_ite (bare_call _) (bare_pure _)

/-! ### What is given back -/

/-- On a normal exit `body` has begun and ended one group put; on an exception it has
begun one and not ended it, unless its first call, `beginGroupPut()`, threw. -/
def GroupsOnce (throws : ℕ → Option String) (body : Callback Unit) : Prop :=
  ∀ s, match body s with
    | .ok _ t =>
      t.val.held = { s.val.held with
        groupBegun := s.val.held.groupBegun + 1, groupEnded := s.val.held.groupEnded + 1 } ∧
      s.calls ≤ t.calls ∧ Clean throws s.calls t.calls
    | .error _ t =>
      s.calls ≤ t.calls ∧ ¬ Clean throws s.calls t.calls ∧
      (throws s.calls ≠ none ∧ t.val.held = s.val.held ∨
        throws s.calls = none ∧
          t.val.held = { s.val.held with groupBegun := s.val.held.groupBegun + 1 })

theorem groupsOnce_grouped {body : Callback Unit} (hbody : Bare throws body) :
    GroupsOnce throws (grouped throws body) := by
  intro s
  simp only [grouped, bind, EStateM.bind, attempt]
  cases hfirst : throws s.calls with
  | some e =>
    refine ⟨Nat.le_succ _, ?_, .inl ⟨by simp, rfl⟩⟩
    simp [clean_succ, hfirst]
  | none =>
    simp only
    have hrun := hbody { s with
      val.held.groupBegun := s.val.held.groupBegun + 1, calls := s.calls + 1 }
    have hclean : Clean throws s.calls (s.calls + 1) := clean_succ.mpr hfirst
    split at hrun
    · next t heq =>
      obtain ⟨hheld, hle, hcl⟩ := hrun
      simp only at hheld hle hcl
      have hle' : s.calls ≤ t.calls := (Nat.le_succ _).trans hle
      have hcl' : Clean throws s.calls t.calls :=
        (clean_trans (Nat.le_succ _) hle).mpr ⟨hclean, hcl⟩
      rw [heq]
      simp only
      cases hlast : throws t.calls with
      | none =>
        refine ⟨by simp [hheld], hle'.trans (Nat.le_succ _), ?_⟩
        exact (clean_trans hle' (Nat.le_succ _)).mpr ⟨hcl', clean_succ.mpr hlast⟩
      | some e =>
        -- `endGroupPut()` itself threw
        refine ⟨hle'.trans (Nat.le_succ _), fun h => ?_, .inr ⟨trivial, hheld⟩⟩
        simp [clean_succ.mp ((clean_trans hle' (Nat.le_succ _)).mp h).2] at hlast
    · next e t heq =>
      obtain ⟨hheld, hle, hthrew⟩ := hrun
      simp only at hheld hle hthrew
      rw [heq]
      exact ⟨(Nat.le_succ _).trans hle,
        fun h => hthrew ((clean_trans (Nat.le_succ _) hle).mp h).2, .inr ⟨trivial, hheld⟩⟩

theorem groupsOnce_assign {body : Callback Unit} (f : MonitorLinkRecord → MonitorLinkRecord)
    (hbody : GroupsOnce throws body) : GroupsOnce throws (do assign f; body) := fun s =>
  hbody { s with val.record := f s.val.record }

/-- What a locked section leaves: the lock given back on either exit, and the group put
as `GroupsOnce` says. -/
theorem locked_spec {body : Callback Unit} (hbody : GroupsOnce throws body)
    (s : Counted MonitorSession) :
    match locked body s with
    | .ok _ t =>
      t.val.held = { s.val.held with
        lockTaken := s.val.held.lockTaken + 1, lockReleased := s.val.held.lockReleased + 1
        groupBegun := s.val.held.groupBegun + 1, groupEnded := s.val.held.groupEnded + 1 } ∧
      s.calls ≤ t.calls ∧ Clean throws s.calls t.calls
    | .error _ t =>
      s.calls ≤ t.calls ∧ ¬ Clean throws s.calls t.calls ∧
      (throws s.calls ≠ none ∧ t.val.held = { s.val.held with
          lockTaken := s.val.held.lockTaken + 1, lockReleased := s.val.held.lockReleased + 1 } ∨
        throws s.calls = none ∧ t.val.held = { s.val.held with
          lockTaken := s.val.held.lockTaken + 1, lockReleased := s.val.held.lockReleased + 1
          groupBegun := s.val.held.groupBegun + 1 }) := by
  rw [locked, guarded_run]
  have hrun := hbody { s with val.held.lockTaken := s.val.held.lockTaken + 1 }
  split at hrun
  · next t heq =>
    obtain ⟨hheld, hle, hclean⟩ := hrun
    rw [heq]
    exact ⟨by simp [hheld], hle, hclean⟩
  · next e t heq =>
    obtain ⟨hle, hthrew, hheld⟩ := hrun
    rw [heq]
    refine ⟨hle, hthrew, ?_⟩
    rcases hheld with ⟨hfirst, hheld⟩ | ⟨hfirst, hheld⟩
    · exact .inl ⟨hfirst, by simp [hheld]⟩
    · exact .inr ⟨hfirst, by simp [hheld]⟩

/-- **A failing callback.**  It has given everything back exactly when no call threw, or
the very first one did. -/
theorem balanced_locked_iff {body : Callback Unit} (hbody : GroupsOnce throws body)
    {s : Counted MonitorSession} (hs : s.val.held.Balanced) :
    (locked body s).final.val.held.Balanced ↔
      throws s.calls ≠ none ∨ Clean throws s.calls (locked body s).final.calls := by
  obtain ⟨hlock, hgroup, hpoll⟩ := hs
  have hrun := locked_spec hbody s
  split at hrun
  · next t heq =>
    obtain ⟨hheld, -, hclean⟩ := hrun
    simp only [heq, EStateM.Result.final]
    refine iff_of_true ?_ (.inr hclean)
    rw [hheld]
    exact ⟨congrArg (· + 1) hlock, congrArg (· + 1) hgroup, hpoll⟩
  · next e t heq =>
    obtain ⟨-, hthrew, ⟨hfirst, hheld⟩ | ⟨hfirst, hheld⟩⟩ := hrun
    · simp only [heq, EStateM.Result.final]
      refine iff_of_true ?_ (.inl hfirst)
      rw [hheld]
      exact ⟨congrArg (· + 1) hlock, hgroup, hpoll⟩
    · simp only [heq, EStateM.Result.final]
      refine iff_of_false ?_ fun h => h.elim (fun h => h hfirst) hthrew
      rw [hheld]
      rintro ⟨-, h, -⟩
      simp only at h
      omega

/-- What `event()` leaves.  On a normal exit every element polled had a value, no call
threw, and each element was locked for, grouped and handed back once.  On an exception
the element polled last is the one not handed back. -/
def DrainsUpTo (throws : ℕ → Option String) (queue : List MonitorElement)
    (s : Counted MonitorSession) (result : EStateM.Result String (Counted MonitorSession) Unit) :
    Prop :=
  match result with
  | .ok _ t =>
    t.val.held = {
      lockTaken := s.val.held.lockTaken + queue.length
      lockReleased := s.val.held.lockReleased + queue.length
      groupBegun := s.val.held.groupBegun + queue.length
      groupEnded := s.val.held.groupEnded + queue.length
      polled := s.val.held.polled ++ queue
      released := s.val.held.released ++ queue } ∧
    s.calls ≤ t.calls ∧ Clean throws s.calls t.calls ∧ ∀ e ∈ queue, e.value.isSome
  | .error _ t =>
    s.calls ≤ t.calls ∧ ¬ ((∀ e ∈ queue, e.value.isSome) ∧ Clean throws s.calls t.calls) ∧
    (∃ n, t.val.held.lockTaken = s.val.held.lockTaken + n ∧
      t.val.held.lockReleased = s.val.held.lockReleased + n) ∧
    ∃ before element, t.val.held.polled = s.val.held.polled ++ before ++ [element] ∧
      t.val.held.released = s.val.held.released ++ before

/-- One element of `event()`. -/
theorem event_cons (element : MonitorElement) (queue : List MonitorElement)
    (s : Counted MonitorSession) :
    event throws (element :: queue) s =
      match element.value with
      | none => .error "value is not a double"
          { s with val.held.polled := s.val.held.polled ++ [element] }
      | some value =>
        match locked (grouped throws do mirror throws value element.alarm; process throws)
            { s with val.held.polled := s.val.held.polled ++ [element] } with
        | .ok _ t => event throws queue
            { t with val.held.released := t.val.held.released ++ [element] }
        | .error e t => .error e t := by
  cases hvalue : element.value with
  | none => simp only [event, hvalue]; rfl
  | some value =>
    simp only [event, hvalue, bind, EStateM.bind, quietly]
    split <;> simp_all

theorem event_spec (queue : List MonitorElement) (s : Counted MonitorSession) :
    DrainsUpTo throws queue s (event throws queue s) := by
  induction queue generalizing s with
  | nil => exact ⟨by simp, le_rfl, clean_self _, by simp⟩
  | cons element queue ih =>
    rw [event_cons]
    cases hvalue : element.value with
    | none =>
      -- thrown before the lock is taken, and after `poll()`
      exact ⟨le_rfl, by simp [hvalue], ⟨0, rfl, rfl⟩, [], element, by simp, by simp⟩
    | some value =>
      have hbody : Bare throws (do mirror throws value element.alarm; process throws) :=
        bare_bind (bare_mirror _ _) fun _ => bare_process
      have hrun := locked_spec (groupsOnce_grouped hbody)
        { s with val.held.polled := s.val.held.polled ++ [element] }
      simp only
      generalize locked _ _ = result at hrun
      cases result with
      | error e t =>
        -- the loop is left, and `releaseEvent()` skipped
        obtain ⟨hle, hthrew, hheld⟩ := hrun
        refine ⟨hle, fun h => hthrew h.2, ?_, [], element, ?_⟩
        · rcases hheld with ⟨-, hheld⟩ | ⟨-, hheld⟩ <;> exact ⟨1, by simp [hheld], by simp [hheld]⟩
        · rcases hheld with ⟨-, hheld⟩ | ⟨-, hheld⟩ <;> exact ⟨by simp [hheld], by simp [hheld]⟩
      | ok u t =>
        -- this element is done; the rest of the queue by induction
        obtain ⟨hheld, hle, hclean⟩ := hrun
        have hrest := ih { t with val.held.released := t.val.held.released ++ [element] }
        simp only at hle hclean ⊢
        generalize event throws queue _ = result at hrest
        cases result with
        | ok _ v =>
          obtain ⟨hv, hle', hclean', hall⟩ := hrest
          simp only [hheld] at hv hle' hclean'
          refine ⟨?_, hle.trans hle', (clean_trans hle hle').mpr ⟨hclean, hclean'⟩, ?_⟩
          · rw [hv]
            simp only [List.length_cons, List.append_assoc, List.cons_append, List.nil_append]
            congr 1 <;> omega
          · simpa [hvalue] using hall
        | error e v =>
          obtain ⟨hle', hbad, ⟨n, htaken, hreleased⟩, before, last, hpoll, hback⟩ := hrest
          simp only [hheld] at hle' hbad htaken hreleased hpoll hback
          refine ⟨hle.trans hle', ?_, ⟨n + 1, by omega, by omega⟩,
            element :: before, last, by simp [hpoll], by simp [hback]⟩
          rintro ⟨hall, h⟩
          exact hbad ⟨fun e he => hall e (.tail _ he), ((clean_trans hle hle').mp h).2⟩

/-- **`event()`.**  It has given everything back exactly when every element polled had a
double value and no call threw. -/
theorem balanced_event_iff (queue : List MonitorElement) {s : Counted MonitorSession}
    (hs : s.val.held.Balanced) :
    (event throws queue s).final.val.held.Balanced ↔
      (∀ e ∈ queue, e.value.isSome) ∧ Clean throws s.calls (event throws queue s).final.calls := by
  obtain ⟨hlock, hgroup, hpoll⟩ := hs
  have hrun : DrainsUpTo throws queue s _ := event_spec queue s
  generalize event throws queue s = result at hrun ⊢
  cases result with
  | ok u t =>
    obtain ⟨hheld, -, hclean, hall⟩ := hrun
    refine iff_of_true ?_ ⟨hall, hclean⟩
    simp only [EStateM.Result.final, hheld]
    exact ⟨congrArg (· + _) hlock, congrArg (· + _) hgroup, congrArg (· ++ _) hpoll⟩
  | error e t =>
    obtain ⟨-, hbad, -, before, last, hpolled, hreleased⟩ := hrun
    refine iff_of_false ?_ hbad
    rintro ⟨-, -, h⟩
    simp only [EStateM.Result.final] at h
    rw [hpolled, hreleased, hpoll] at h
    have hlen := congrArg List.length h
    simp at hlen

/-- The branch of a lost channel: one locked section. -/
theorem channelStateChange_false (s : Counted MonitorSession) :
    channelStateChange throws false s = locked (grouped throws (process throws))
      { s with val.record.channelConnected := false } := rfl

/-- The branch of a failed connect: one locked section. -/
theorem monitorConnect_false (s : Counted MonitorSession) :
    monitorConnect throws false s = locked (do
      assign fun r => { r with isMonitorConnected := false }
      grouped throws (process throws)) s := rfl

theorem groupsOnce_process : GroupsOnce throws (grouped throws (process throws)) :=
  groupsOnce_grouped bare_process

/-- The lock is given back on every exit from a locked section. -/
theorem locked_lockReleased {body : Callback Unit} (hbody : GroupsOnce throws body)
    {s : Counted MonitorSession} (hs : s.val.held.lockTaken = s.val.held.lockReleased) :
    (locked body s).final.val.held.lockTaken = (locked body s).final.val.held.lockReleased := by
  have hrun := locked_spec hbody s
  generalize locked body s = result at hrun ⊢
  cases result with
  | ok u t => simp [EStateM.Result.final, hrun.1, hs]
  | error e t =>
    obtain ⟨-, -, ⟨-, hheld⟩ | ⟨-, hheld⟩⟩ := hrun <;> simp [EStateM.Result.final, hheld, hs]

/-- The lock is given back on every exit from `event()`. -/
theorem event_lockReleased (queue : List MonitorElement) {s : Counted MonitorSession}
    (hs : s.val.held.lockTaken = s.val.held.lockReleased) :
    (event throws queue s).final.val.held.lockTaken =
      (event throws queue s).final.val.held.lockReleased := by
  have hrun : DrainsUpTo throws queue s _ := event_spec queue s
  generalize event throws queue s = result at hrun ⊢
  cases result with
  | ok u t => simp [EStateM.Result.final, hrun.1, hs]
  | error e t =>
    obtain ⟨-, -, ⟨n, htaken, hreleased⟩, -⟩ := hrun
    simp [EStateM.Result.final, htaken, hreleased, hs]

end MonitorLinkRecord

open Fallible MonitorLinkRecord

/-- **What is given back.**  `event()` and the two failure branches give the lock back on
every exit.  `event()` gives everything back exactly when every element it polls has a
double value and no call it makes under the lock throws; a failure branch exactly when
no call it makes throws, or `beginGroupPut()` does. -/
theorem resources_balanced_iff (throws : ℕ → Option String) (record : MonitorLinkRecord) :
    (∀ queue,
      let exit := (event throws queue { val := { record } }).final
      exit.val.held.lockTaken = exit.val.held.lockReleased ∧
      (exit.val.held.Balanced ↔
        (∀ e ∈ queue, e.value.isSome) ∧ ∀ k < exit.calls, throws k = none)) ∧
    ∀ callback ∈ [channelStateChange throws false, monitorConnect throws false],
      let exit := (callback { val := { record } }).final
      exit.val.held.lockTaken = exit.val.held.lockReleased ∧
      (exit.val.held.Balanced ↔ throws 0 ≠ none ∨ ∀ k < exit.calls, throws k = none) := by
  have hclean : ∀ n, Clean throws 0 n ↔ ∀ k < n, throws k = none := fun n =>
    ⟨fun h k hk => h k k.zero_le hk, fun h k _ hk => h k hk⟩
  refine ⟨fun queue => ⟨event_lockReleased queue rfl, ?_⟩, ?_⟩
  · rw [balanced_event_iff queue ⟨rfl, rfl, rfl⟩, hclean]
  · have hfailing : ∀ (record : MonitorLinkRecord) (body : Callback Unit), GroupsOnce throws body →
        let exit := (locked body { val := { record } }).final
        exit.val.held.lockTaken = exit.val.held.lockReleased ∧
        (exit.val.held.Balanced ↔ throws 0 ≠ none ∨ ∀ k < exit.calls, throws k = none) :=
      fun record body hbody => ⟨locked_lockReleased hbody rfl, by
        rw [balanced_locked_iff hbody ⟨rfl, rfl, rfl⟩, hclean]⟩
    intro callback hcallback
    simp only [List.mem_cons, List.not_mem_nil, or_false] at hcallback
    rcases hcallback with rfl | rfl
    · rw [channelStateChange_false]
      exact hfailing _ _ groupsOnce_process
    · rw [monitorConnect_false]
      exact hfailing _ _ (groupsOnce_assign _ groupsOnce_process)

/-- An element without a double value is polled and not handed back; an exception between
`beginGroupPut()` and `endGroupPut()` leaves the group open, and the element polled. -/
theorem resources_not_balanced :
    ¬ (event (fun _ => none) [⟨some ⟨1⟩, .missing⟩, ⟨none, .missing⟩]
        { val := { record := {} } }).final.val.held.Balanced ∧
    ¬ (event (fun k => if k = 1 then some "error" else none) [⟨some ⟨1⟩, .missing⟩]
        { val := { record := {} } }).final.val.held.Balanced ∧
    ¬ (channelStateChange (fun k => if k = 1 then some "error" else none) false
        { val := { record := {} } }).final.val.held.Balanced := by
  decide +kernel

end TestDatabase
