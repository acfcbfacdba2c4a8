import TestDatabase.Db.OutRecord
import TestDatabase.Db.SimpleBusy

/-!
# Put completion

A put-notify is completed by `recGblFwdLink`.  A record that goes idle without calling
it leaves the put-notify, and the client blocked in it, waiting for good.

simpleBusy never does so: it goes idle in `process` only, after `recGblFwdLink`.  The
output records never call `recGblFwdLink`.

## Main definitions

* `NotLost` — no put-notify waits for a record that is idle.
* `DbEvent.Blocking` — the event is a put by a put-notify.

## Main results

* `notLost_iff_not_blocking` — simpleBusy loses no completion, and an output record
  exactly those of its puts by a put-notify.
-/

namespace TestDatabase

variable {α β : Type}

/-- No put-notify waits for a record that is idle and has no processing queued. -/
def NotLost (s : RecordState α) : Prop := s.pact = false → s.queued = 0 → s.waiting = []

/-- The event is a put by a put-notify. -/
def DbEvent.Blocking : DbEvent β → Prop
  | .put _ notify _ _ => notify ≠ none
  | _ => False

/-! ### simpleBusy -/

namespace SimpleBusyRecord

variable {G : RecGbl} {s : RecordState SimpleBusyRecord}

theorem notLost_of_active (h : s.pact = true) : NotLost s := by
  intro hidle
  simp [h] at hidle

/-- `process` leaves the record active or has completed every put-notify. -/
theorem notLost_process (link : Chain Int32) :
    NotLost (process (recGblFwdLink (simpleBusyRSET G) link) s) := by
  by_cases hval : s.fields.val = 0
  · rw [process_of_eq_zero hval]
    intro _ _
    rfl
  · rw [process_of_ne_zero hval]
    exact notLost_of_active rfl

theorem notLost_dbProcess (link : Chain Int32) :
    NotLost (dbProcess (simpleBusyRSET G) link s) := by
  unfold dbProcess
  split
  · next hactive => exact notLost_of_active hactive
  · exact notLost_process link

/-- No operation on a simpleBusy record loses a completion. -/
theorem notLost_step {e : DbEvent Int32} {t : RecordState SimpleBusyRecord} (hs : NotLost s)
    (h : (simpleBusyRSET G).step s e = some t) : NotLost t := by
  cases e with
  | put value notify inSpecial afterwards =>
    obtain rfl := Option.some.inj h
    rw [putField_eq]
    split
    · next hactive => exact notLost_of_active hactive
    · exact notLost_process afterwards
  | special after link =>
    obtain rfl := Option.some.inj h
    show NotLost (special after _ s)
    unfold special
    split
    · exact hs
    · split
      · exact hs
      · exact notLost_process link
  | process link =>
    obtain rfl := Option.some.inj h
    exact notLost_dbProcess link
  | queued link =>
    simp only [Rset.step, Option.ite_none_left_eq_some, Option.some.injEq] at h
    obtain ⟨-, rfl⟩ := h
    exact notLost_dbProcess link

/-- simpleBusy loses no completion. -/
theorem visits_notLost (fields : SimpleBusyRecord) (es : List (DbEvent Int32)) :
    (database (simpleBusyRSET G) { fields }).Visits NotLost (initRecord G { fields }) es :=
  EventMachine.visits_of_invariant (I := NotLost) (fun _ _ _ hs hst => notLost_step hs hst)
    (fun _ h => h) (fun _ _ => rfl) es

end SimpleBusyRecord

/-! ### The output records -/

namespace OutRecord

variable {F : Type} [LT F] [DecidableLT F] [DecidableEq F] [FieldType F] {G : RecGbl}
  {s : RecordState (OutRecord F)}

/-- Two states of a record agree on what waits for it. -/
def SameQueues (s t : RecordState (OutRecord F)) : Prop :=
  t.waiting = s.waiting ∧ t.queued = s.queued

omit [LT F] [DecidableLT F] [DecidableEq F] in
theorem sameQueues_raise (stat : AlarmCondition) (asev : MenuAlarmSevr) (alev : Int32) :
    SameQueues s (raise G stat asev alev s) := by
  unfold raise
  simp only
  split <;> exact ⟨rfl, rfl⟩

omit [LT F] [DecidableLT F] [DecidableEq F] in
theorem sameQueues_checkAlarms : SameQueues s (checkAlarms G s) := by
  unfold checkAlarms
  split
  · exact ⟨rfl, rfl⟩
  · simp only
    split
    · exact sameQueues_raise _ _ _
    split
    · exact sameQueues_raise _ _ _
    split
    · exact sameQueues_raise _ _ _
    split
    · exact sameQueues_raise _ _ _
    · exact ⟨rfl, rfl⟩

/-- `process` goes idle and completes nothing. -/
theorem sameQueues_process (link : RecordState (OutRecord F) → RecordState (OutRecord F)) :
    SameQueues s (process G link s) :=
  sameQueues_checkAlarms (s := { s with fields := s.fields.clamped })

/-- The record is idle and no processing is queued, as between any two operations. -/
def Idle (s : RecordState (OutRecord F)) : Prop := s.pact = false ∧ s.queued = 0

theorem idle_process (hs : Idle s)
    (link : RecordState (OutRecord F) → RecordState (OutRecord F)) : Idle (process G link s) :=
  ⟨rfl, (sameQueues_process link).2.trans hs.2⟩

/-- An operation leaves an idle record idle.  Whoever waited still does, and so does the
put-notify that made the operation. -/
theorem idle_step {e : DbEvent F} {t : RecordState (OutRecord F)} (hs : Idle s)
    (h : (outRSET G F).step s e = some t) :
    Idle t ∧ (t.waiting = [] ↔ s.waiting = [] ∧ ¬ e.Blocking) := by
  cases e with
  | put value notify inSpecial afterwards =>
    obtain rfl := Option.some.inj h
    rw [putField_of_idle (s := { s with waiting := notify.toList ++ s.waiting }) hs.1]
    generalize hwritten : ({ s with
      fields.val := value, waiting := notify.toList ++ s.waiting } : RecordState (OutRecord F)) = w
    have hw : Idle w := by
      rw [← hwritten]
      exact hs
    refine ⟨idle_process hw _, ?_⟩
    rw [(sameQueues_process _).1, ← hwritten]
    cases notify <;> simp [DbEvent.Blocking]
  | special after link =>
    obtain rfl := Option.some.inj h
    exact ⟨hs, by simp [DbEvent.Blocking, outRSET]⟩
  | process link =>
    obtain rfl := Option.some.inj h
    have hprocess : dbProcess (outRSET G F) link s =
        process G (recGblFwdLink (outRSET G F) link) s := by
      simp [dbProcess, outRSET, hs.1]
    rw [hprocess, (sameQueues_process _).1]
    exact ⟨idle_process hs _, by simp [DbEvent.Blocking]⟩
  -- nothing is ever queued for an output record
  | queued link => simp [Rset.step, hs.2] at h

omit [LT F] [DecidableLT F] [DecidableEq F] [FieldType F] in
theorem notLost_iff_of_idle (hs : Idle s) : NotLost s ↔ s.waiting = [] :=
  ⟨fun h => h hs.1 hs.2, fun h _ _ => h⟩

/-- An output record loses a completion in a run exactly if a put of the run is by a
put-notify. -/
theorem visits_notLost_iff (r : OutRecord F) (common : DbCommon) (hpact : common.pact = false)
    (es : List (DbEvent F)) {t : RecordState (OutRecord F)}
    (hrun : (database (outRSET G F) { toDbCommon := common, fields := r }).run
      (initRecord G { toDbCommon := common, fields := r }) es = some t) :
    (database (outRSET G F) { toDbCommon := common, fields := r }).Visits NotLost
        (initRecord G { toDbCommon := common, fields := r }) es ↔
      (database (outRSET G F) { toDbCommon := common, fields := r }).Meets
        (fun _ e => ¬ e.Blocking) (initRecord G { toDbCommon := common, fields := r }) es := by
  have hidle : Idle (initRecord G { toDbCommon := common, fields := r }) := by
    unfold initRecord
    rw [G.resetAlarms_eq]
    exact ⟨hpact, rfl⟩
  refine EventMachine.visits_iff_meets (I := Idle) ?_ ?_ hidle (fun _ _ => rfl) hrun
  · intro s e t hs hst
    exact (idle_step hs hst).1
  · intro s e t hs hlost hst
    obtain ⟨ht, hwaiting⟩ := idle_step hs hst
    rw [notLost_iff_of_idle hs] at hlost
    rw [notLost_iff_of_idle ht, hwaiting]
    simp [hlost]

end OutRecord

/-- **When no completion is lost.**  A simpleBusy record never goes idle with a
put-notify waiting.  An output record is left so, in some state of a run, exactly when
the run has a put by a put-notify. -/
theorem notLost_iff_not_blocking (G : RecGbl) :
    (∀ (fields : SimpleBusyRecord) (es : List (DbEvent Int32)),
      (database (simpleBusyRSET G) { fields }).Visits NotLost
        (SimpleBusyRecord.initRecord G { fields }) es) ∧
    ∀ {F : Type} [LT F] [DecidableLT F] [DecidableEq F] [FieldType F] (r : OutRecord F)
      (common : DbCommon), common.pact = false →
      ∀ (es : List (DbEvent F)) {t : RecordState (OutRecord F)},
      (database (outRSET G F) { toDbCommon := common, fields := r }).run
        (OutRecord.initRecord G { toDbCommon := common, fields := r }) es = some t →
      ((database (outRSET G F) { toDbCommon := common, fields := r }).Visits NotLost
          (OutRecord.initRecord G { toDbCommon := common, fields := r }) es ↔
        (database (outRSET G F) { toDbCommon := common, fields := r }).Meets
          (fun _ e => ¬ e.Blocking)
          (OutRecord.initRecord G { toDbCommon := common, fields := r }) es) :=
  ⟨SimpleBusyRecord.visits_notLost, fun r common hpact es _ hrun =>
    OutRecord.visits_notLost_iff r common hpact es hrun⟩

/-- A put and a scan, by clients that do not wait. -/
theorem notLost_iff_not_blocking_put_scan :
    (database (outRSET .base Int8) { fields := int8 }).Visits NotLost
      (OutRecord.initRecord .base { fields := int8 }) [.put 5 none .nil .nil, .process .nil] := by
  refine ((notLost_iff_not_blocking .base).2 int8 {} rfl _
    (Option.eq_some_of_isSome (by decide +kernel))).mpr ?_
  exact ⟨fun h => h rfl, fun _ _ => ⟨id, fun _ _ => trivial⟩⟩

/-- The put-notify of a put to a charout record waits for good. -/
theorem lost_by_blocking_put :
    ∃ s, (database (outRSET .base Int8) { fields := int8 }).Reachable s ∧ ¬ NotLost s := by
  obtain ⟨s, hs, h⟩ := EventMachine.exists_reachable_of_run
    (database (outRSET .base Int8) { fields := int8 }) [.put 5 (some 0) .nil .nil]
    (fun s => decide (s.pact = false ∧ s.queued = 0 ∧ s.waiting = [0])) (by decide +kernel)
  obtain ⟨hpact, hqueued, hwaiting⟩ := of_decide_eq_true h
  refine ⟨s, hs, fun hlost => ?_⟩
  rw [hlost hpact hqueued] at hwaiting
  simp at hwaiting

end TestDatabase
