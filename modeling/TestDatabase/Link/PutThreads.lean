import TestDatabase.Link.Put

/-!
# The processing thread and the callback thread of a put

`process()` runs with the record lock held and waits inside `pvaClientPut->put()`
until `putDone` has returned.  `putDone` may be called by another thread.  Told
that the put succeeded, it stores a flag; told that the put failed, it takes the
record lock first.  This file puts the two threads and the lock side by side.

## Main definitions

* `PutThreads` — where the two threads are, who holds the lock, and the put.
* `putThreads` — the event machine of their steps, for any record to start from.
* `PutThreads.Deadlocked` — each thread waits for the other.
* `PutThreads.Effect` — what a step can do.

## Main results

* `PutThreads.Inv.blocked` — a deadlocked system takes no further step.
* `not_deadlocked_iff` — **a run stays clear of the deadlock exactly when no failed
  `putDone` is called by the callback thread.**
-/

namespace TestDatabase

/-- The two threads. -/
inductive Party
  | processing
  | callback
  deriving DecidableEq, Repr

/-- Where the processing thread is. -/
inductive ProcessingAt
  | idle
  /-- At the lock of the record. -/
  | wantsLock
  /-- Holding the lock, about to run `process()`. -/
  | locked
  /-- Waiting inside `pvaClientPut->put()`, lock held. -/
  | inPut
  /-- `process()` has returned, lock still held. -/
  | leaving
  deriving DecidableEq, Repr

/-- Where the callback thread is. -/
inductive CallbackAt
  | idle
  /-- In `putDone` with an OK status, about to store `isPutDone = true`. -/
  | storing
  /-- In `putDone` with a failed status, at `lock()`. -/
  | wantsLock
  /-- Past `lock()`, about to store `isPutDone = false` and to process. -/
  | locked
  /-- At `unlock()`. -/
  | leaving
  deriving DecidableEq, Repr

/-- How far the put of the processing thread has come. -/
inductive PutPhase
  | inFlight
  /-- `putDone` has been called and has not returned. -/
  | delivering (isOK : Bool)
  /-- `putDone` has returned. -/
  | delivered (isOK : Bool)
  deriving DecidableEq, Repr

/-- The two threads around one record. -/
structure PutThreads where
  record : PutLinkRecord
  /-- The holder of the record lock. -/
  owner : Option Party := none
  processing : ProcessingAt := .idle
  callback : CallbackAt := .idle
  put : Option PutPhase := none
  deriving DecidableEq, Repr

/-- The steps of the two threads. -/
inductive ThreadEvent
  /-- The processing thread wants to process the record. -/
  | start
  /-- It gets the lock. -/
  | lock
  /-- It runs `process()` to its end or into `put()`. -/
  | process (thrown : Option String)
  /-- pvaClient calls `putDone`, on either thread. -/
  | deliver (on : Party) (isOK : Bool)
  /-- The callback thread takes its next step. -/
  | callback
  /-- `put()` ends after its `putDone`: normally, or with an exception if the put failed. -/
  | putEnds (message : String)
  /-- `put()` throws before anything was sent. -/
  | putUnsent (message : String)
  /-- The processing thread releases the lock. -/
  | unlock
  deriving DecidableEq, Repr

namespace PutThreads

/-- `putDone` with a failed status, from the assignment to the end of its `process()`.
With `isPutDone` false that call cannot get into `put()`. -/
def failPut (s : PutThreads) : Option PutLinkRecord :=
  match (s.record.putDone false).process none with
  | .returned r => some r
  | _ => none

/-- One step of one thread. -/
def step (s : PutThreads) : ThreadEvent → Option PutThreads
  | .start => if s.processing = .idle then some { s with processing := .wantsLock } else none
  | .lock =>
    if s.processing = .wantsLock ∧ s.owner = none then
      some { s with processing := .locked, owner := some .processing }
    else none
  | .process thrown =>
    if s.processing = .locked then
      match s.record.process thrown with
      | .returned r => some { s with record := r, processing := .leaving }
      | .inPut r => some { s with record := r, processing := .inPut, put := some .inFlight }
      | .nullPut => none
    else none
  | .deliver .callback isOK =>
    if s.put = some .inFlight ∧ s.callback = .idle then
      some { s with
        put := some (.delivering isOK)
        callback := if isOK then .storing else .wantsLock }
    else none
  | .deliver .processing isOK =>
    -- the record lock is recursive, so the thread inside `put()` gets it again
    if s.put = some .inFlight ∧ s.processing = .inPut then
      if isOK then
        some { s with record := s.record.putDone true, put := some (.delivered true) }
      else
        s.failPut.map fun r => { s with record := r, put := some (.delivered false) }
    else none
  | .callback =>
    match s.callback with
    | .idle => none
    | .storing =>
      some { s with
        record := s.record.putDone true, callback := .idle, put := some (.delivered true) }
    | .wantsLock =>
      if s.owner = none then some { s with owner := some .callback, callback := .locked } else none
    | .locked => s.failPut.map fun r => { s with record := r, callback := .leaving }
    | .leaving => some { s with owner := none, callback := .idle, put := some (.delivered false) }
  | .putEnds message =>
    match s.put with
    | some (.delivered isOK) =>
      some { s with
        record := s.record.afterPut (if isOK then none else some message)
        processing := .leaving
        put := none }
    | _ => none
  | .putUnsent message =>
    if s.put = some .inFlight ∧ s.processing = .inPut then
      some { s with
        record := s.record.afterPut (some message), processing := .leaving, put := none }
    else none
  | .unlock =>
    if s.processing = .leaving then some { s with processing := .idle, owner := none } else none

/-- The processing thread holds the lock and waits for its put; the callback thread, which
is to end that put, waits for the lock. -/
def Deadlocked (s : PutThreads) : Prop :=
  s.processing = .inPut ∧ s.owner = some .processing ∧ s.callback = .wantsLock

/-- What the lock and the put say about the two threads. -/
structure Inv (s : PutThreads) : Prop where
  /-- The processing thread is inside `put()` as long as there is a put. -/
  inPut : s.put.isSome = true ↔ s.processing = .inPut
  holds : s.owner = some .processing ↔ s.processing ≠ .idle ∧ s.processing ≠ .wantsLock
  /-- The callback thread only works on a put that is being delivered, and it never gets
  the lock: the processing thread has it. -/
  callback : s.callback = .idle ∨
    s.callback = .storing ∧ s.put = some (.delivering true) ∨
    s.callback = .wantsLock ∧ s.put = some (.delivering false)

theorem inv_init (record : PutLinkRecord) : Inv { record } := by
  constructor <;> simp

/-- A callback thread that waits for the lock waits for the processing thread. -/
theorem Inv.deadlocked_iff {s : PutThreads} (h : s.Inv) :
    s.Deadlocked ↔ s.callback = .wantsLock := by
  refine ⟨fun hd => hd.2.2, fun hwants => ?_⟩
  have hput : s.put = some (.delivering false) := by simpa [hwants] using h.callback
  have hin : s.processing = .inPut := h.inPut.mp (by rw [hput]; rfl)
  exact ⟨hin, h.holds.mpr (by simp [hin]), hwants⟩

/-- What a step can do. -/
inductive Effect (s : PutThreads) : ThreadEvent → PutThreads → Prop
  | start (hidle : s.processing = .idle) : Effect s .start { s with processing := .wantsLock }
  | lock (hwants : s.processing = .wantsLock) (hfree : s.owner = none) :
    Effect s .lock { s with processing := .locked, owner := some .processing }
  | returned (thrown : Option String) (r : PutLinkRecord) (hlocked : s.processing = .locked)
      (hproc : s.record.process thrown = .returned r) :
    Effect s (.process thrown) { s with record := r, processing := .leaving }
  | entered (thrown : Option String) (r : PutLinkRecord) (hlocked : s.processing = .locked)
      (hproc : s.record.process thrown = .inPut r) :
    Effect s (.process thrown) { s with
      record := r, processing := .inPut, put := some .inFlight }
  | delivers (isOK : Bool) (hflight : s.put = some .inFlight) (hidle : s.callback = .idle) :
    Effect s (.deliver .callback isOK) { s with
      put := some (.delivering isOK), callback := if isOK then .storing else .wantsLock }
  /-- The thread inside `put()` runs `putDone` itself. -/
  | delivered (isOK : Bool) (r : PutLinkRecord) (hflight : s.put = some .inFlight)
      (hin : s.processing = .inPut)
      (hrecord : (if isOK then some (s.record.putDone true) else s.failPut) = some r) :
    Effect s (.deliver .processing isOK) { s with record := r, put := some (.delivered isOK) }
  | stored (hstoring : s.callback = .storing) :
    Effect s .callback { s with
      record := s.record.putDone true, callback := .idle, put := some (.delivered true) }
  | callbackLock (hwants : s.callback = .wantsLock) (hfree : s.owner = none) :
    Effect s .callback { s with owner := some .callback, callback := .locked }
  | callbackFailed (r : PutLinkRecord) (hlocked : s.callback = .locked)
      (hrecord : s.failPut = some r) :
    Effect s .callback { s with record := r, callback := .leaving }
  | callbackUnlock (hleaving : s.callback = .leaving) :
    Effect s .callback { s with
      owner := none, callback := .idle, put := some (.delivered false) }
  | putEnds (message : String) (isOK : Bool) (hput : s.put = some (.delivered isOK)) :
    Effect s (.putEnds message) { s with
      record := s.record.afterPut (if isOK then none else some message)
      processing := .leaving
      put := none }
  | putUnsent (message : String) (hflight : s.put = some .inFlight)
      (hin : s.processing = .inPut) :
    Effect s (.putUnsent message) { s with
      record := s.record.afterPut (some message), processing := .leaving, put := none }
  | unlock (hleaving : s.processing = .leaving) :
    Effect s .unlock { s with processing := .idle, owner := none }

theorem step_effect {s t : PutThreads} {e : ThreadEvent} (hs : s.step e = some t) :
    s.Effect e t := by
  cases e with
  | start =>
    simp only [step, Option.ite_none_right_eq_some, Option.some.injEq] at hs
    obtain ⟨hidle, rfl⟩ := hs
    exact .start hidle
  | lock =>
    simp only [step, Option.ite_none_right_eq_some, Option.some.injEq] at hs
    obtain ⟨⟨hwants, hfree⟩, rfl⟩ := hs
    exact .lock hwants hfree
  | process thrown =>
    simp only [step, Option.ite_none_right_eq_some] at hs
    obtain ⟨hlocked, hs⟩ := hs
    cases hproc : s.record.process thrown with
    | returned r =>
      rw [hproc] at hs
      obtain rfl := Option.some.inj hs
      exact .returned thrown r hlocked hproc
    | inPut r =>
      rw [hproc] at hs
      obtain rfl := Option.some.inj hs
      exact .entered thrown r hlocked hproc
    | nullPut => simp [hproc] at hs
  | deliver on isOK =>
    cases on with
    | callback =>
      simp only [step, Option.ite_none_right_eq_some, Option.some.injEq] at hs
      obtain ⟨⟨hflight, hidle⟩, rfl⟩ := hs
      exact .delivers isOK hflight hidle
    | processing =>
      simp only [step, Option.ite_none_right_eq_some] at hs
      obtain ⟨⟨hflight, hin⟩, hs⟩ := hs
      cases isOK with
      | true =>
        obtain rfl := Option.some.inj hs
        exact .delivered true _ hflight hin rfl
      | false =>
        obtain ⟨r, hrecord, rfl⟩ := Option.map_eq_some_iff.mp hs
        exact .delivered false r hflight hin hrecord
  | callback =>
    cases hcb : s.callback with
    | idle => simp [step, hcb] at hs
    | storing =>
      simp only [step, hcb, Option.some.injEq] at hs
      exact hs ▸ .stored hcb
    | wantsLock =>
      simp only [step, hcb, Option.ite_none_right_eq_some, Option.some.injEq] at hs
      obtain ⟨hfree, rfl⟩ := hs
      exact .callbackLock hcb hfree
    | locked =>
      simp only [step, hcb, Option.map_eq_some_iff] at hs
      obtain ⟨r, hrecord, rfl⟩ := hs
      exact .callbackFailed r hcb hrecord
    | leaving =>
      simp only [step, hcb, Option.some.injEq] at hs
      exact hs ▸ .callbackUnlock hcb
  | putEnds message =>
    simp only [step] at hs
    split at hs
    · next isOK hput =>
      obtain rfl := Option.some.inj hs
      exact .putEnds message isOK hput
    · exact absurd hs (by simp)
  | putUnsent message =>
    simp only [step, Option.ite_none_right_eq_some, Option.some.injEq] at hs
    obtain ⟨⟨hflight, hin⟩, rfl⟩ := hs
    exact .putUnsent message hflight hin
  | unlock =>
    simp only [step, Option.ite_none_right_eq_some, Option.some.injEq] at hs
    obtain ⟨hleaving, rfl⟩ := hs
    exact .unlock hleaving

/-- While there is a put, the processing thread is inside `put()` and holds the lock. -/
theorem Inv.owner_eq {s : PutThreads} (h : s.Inv) {phase : PutPhase} (hput : s.put = some phase) :
    s.owner = some .processing := by
  have hin : s.processing = .inPut := h.inPut.mp (by rw [hput]; rfl)
  exact h.holds.mpr (by simp [hin])

/-- **Every step keeps what the lock and the put say.** -/
theorem Inv.step {s t : PutThreads} {e : ThreadEvent} (h : s.Inv) (hs : s.step e = some t) :
    t.Inv := by
  have hput := h.inPut
  have hholds := h.holds
  have hcb := h.callback
  cases step_effect hs with
  | start hidle =>
    exact ⟨by simpa [hidle] using hput, by simpa [hidle] using hholds, hcb⟩
  | lock hwants hfree =>
    exact ⟨by simpa [hwants] using hput, by simp, hcb⟩
  | returned thrown r hlocked hproc =>
    -- no put is under way, so the callback thread is idle
    have hnone : s.put = none := by simpa [hlocked] using hput
    have howner : s.owner = some .processing := hholds.mpr (by simp [hlocked])
    have hidle : s.callback = .idle := by simpa [hnone] using hcb
    exact ⟨by simp [hnone], by simp [howner], .inl hidle⟩
  | entered thrown r hlocked hproc =>
    have hnone : s.put = none := by simpa [hlocked] using hput
    have howner : s.owner = some .processing := hholds.mpr (by simp [hlocked])
    have hidle : s.callback = .idle := by simpa [hnone] using hcb
    exact ⟨by simp, by simp [howner], .inl hidle⟩
  | delivers isOK hflight hidle =>
    refine ⟨by simpa [hflight] using hput, hholds, .inr ?_⟩
    cases isOK <;> simp
  | delivered isOK r hflight hin hrecord =>
    have hidle : s.callback = .idle := by simpa [hflight] using hcb
    exact ⟨by simp [hin], hholds, .inl hidle⟩
  | stored hstoring =>
    have hdel : s.put = some (.delivering true) := by simpa [hstoring] using hcb
    exact ⟨by simpa [hdel] using hput, hholds, .inl rfl⟩
  | callbackLock hwants hfree =>
    -- the lock is taken: the processing thread is inside `put()`
    have hdel : s.put = some (.delivering false) := by simpa [hwants] using hcb
    exact absurd (hfree.symm.trans (h.owner_eq hdel)) (by simp)
  | callbackFailed r hlocked hrecord => simp [hlocked] at hcb
  | callbackUnlock hleaving => simp [hleaving] at hcb
  | putEnds message isOK hdelivered =>
    have howner := h.owner_eq hdelivered
    exact ⟨by simp, by simp [howner], .inl (by simpa [hdelivered] using hcb)⟩
  | putUnsent message hflight hin =>
    have howner := h.owner_eq hflight
    exact ⟨by simp, by simp [howner], .inl (by simpa [hflight] using hcb)⟩
  | unlock hleaving =>
    exact ⟨by simpa [hleaving] using hput, by simp, hcb⟩

/-- **A deadlocked system takes no further step.** -/
theorem Inv.blocked {s : PutThreads} (h : s.Inv) (hd : s.Deadlocked) (e : ThreadEvent) :
    s.step e = none := by
  obtain ⟨hin, howner, hwants⟩ := hd
  have hput : s.put = some (.delivering false) := by simpa [hwants] using h.callback
  cases e with
  | deliver on isOK => cases on <;> simp [PutThreads.step, hput]
  | _ => simp [PutThreads.step, hin, howner, hwants, hput]

/-- The callback thread comes to wait for the lock by a failed `putDone` only. -/
theorem callback_step {s t : PutThreads} {e : ThreadEvent} (hs : s.step e = some t)
    (hwants : s.callback ≠ .wantsLock) :
    t.callback = .wantsLock ↔ e = .deliver .callback false := by
  cases step_effect hs with
  | delivers isOK hflight hidle => cases isOK <;> simp
  | callbackLock hwants' hfree => exact absurd hwants' hwants
  | stored | callbackFailed | callbackUnlock => exact iff_of_false (by simp) (by simp)
  | start | lock | returned | entered | delivered | putEnds | putUnsent | unlock =>
    -- the callback thread stays where it is
    exact iff_of_false hwants (by simp)

/-- One step leads into the deadlock: a failed `putDone` on the callback thread. -/
theorem Inv.not_deadlocked_step {s t : PutThreads} {e : ThreadEvent} (h : s.Inv)
    (hd : ¬ s.Deadlocked) (hs : s.step e = some t) :
    ¬ t.Deadlocked ↔ e ≠ .deliver .callback false := by
  rw [(h.step hs).deadlocked_iff]
  rw [h.deadlocked_iff] at hd
  exact not_congr (callback_step hs hd)

end PutThreads

/-- The two threads, started idle around a record in any state. -/
def putThreads (record : PutLinkRecord) : EventMachine PutThreads ThreadEvent where
  init := { record }
  step := PutThreads.step

namespace PutThreads

/-- **When a put cannot deadlock against its callback.**  A run of the two threads stays
clear of the deadlock exactly when the callback thread never delivers a failed `putDone`. -/
theorem not_deadlocked_iff (record : PutLinkRecord) {s : PutThreads} {es : List ThreadEvent}
    (hrun : (putThreads record).run (putThreads record).init es = some s) :
    (putThreads record).Visits (fun s => ¬ s.Deadlocked) (putThreads record).init es ↔
      (putThreads record).Meets (fun _ e => e ≠ .deliver .callback false)
        (putThreads record).init es :=
  EventMachine.visits_iff_meets (I := Inv) (fun _ _ _ h hs => h.step hs)
    (fun _ _ _ h hd hs => h.not_deadlocked_step hd hs) (inv_init record)
    (fun hd => nomatch hd.1) hrun

/-- A record with both connections up. -/
def connectedRecord : PutLinkRecord :=
  { channelConnected := true, isPutConnected := true, pvaClientPut := some {} }

/-- A put that succeeds, told by the callback thread, and one that fails, told by the
processing thread itself, end without a deadlock. -/
theorem not_deadlocked_two_puts :
    (putThreads connectedRecord).Visits (fun s => ¬ s.Deadlocked) (putThreads connectedRecord).init
      [.start, .lock, .process none, .deliver .callback true, .callback, .putEnds "", .unlock,
        .start, .lock, .process none, .deliver .processing false, .putEnds "put failed"] := by
  have hrun : ((putThreads connectedRecord).run (putThreads connectedRecord).init
      [.start, .lock, .process none, .deliver .callback true, .callback, .putEnds "", .unlock,
        .start, .lock, .process none, .deliver .processing false, .putEnds "put failed"]).isSome
      = true := by decide
  obtain ⟨s, hs⟩ := Option.isSome_iff_exists.mp hrun
  refine (not_deadlocked_iff connectedRecord hs).mpr ?_
  simp [EventMachine.Meets]

/-- The first put fails, and the callback thread is told to say so: deadlock. -/
theorem deadlocked_by_failed_put :
    ∃ s, (putThreads connectedRecord).Reachable s ∧ s.Deadlocked := by
  obtain ⟨s, hs, hp⟩ := (putThreads connectedRecord).exists_reachable_of_run
    [.start, .lock, .process none, .deliver .callback false]
    (fun s => s.processing = .inPut ∧ s.owner = some .processing ∧ s.callback = .wantsLock)
    (by decide)
  obtain ⟨hin, howner, hwants⟩ := of_decide_eq_true hp
  exact ⟨s, hs, hin, howner, hwants⟩

end PutThreads

end TestDatabase
