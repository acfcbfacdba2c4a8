import TestDatabase.Link.Put

/-!
# Runs of the put link record

One invariant, kept by every event, carries all that is proved here of the put link
record.  It says that the guard of `process()` sees every put that `putDone` has not
answered, that a published alarm is never stale, and what is known of the one call
that may be inside `put()`.

## Main definitions

* `PutWorld.Inv`, `PutWorld.FrameOk` — the invariant.
* `PutWorld.NeverWedged` — the guard is down only while a put is outstanding.
* `PutWorld.PutSucceeds` — the events after which no put has failed.

## Main results

* `inv_of_reachable` — **the invariant holds in every reachable state.**
* `alarm_of_ended` — the alarm tells what the last call of `process()` did.
* `neverWedged_iff_putSucceeds` — the record is kept from wedging exactly by puts that
  succeed; `wedged_forever` says that there is no way back.
-/

namespace TestDatabase

namespace PutWorld

/-- What is known of a call inside `put()`, by the status its put has got so far. -/
structure FrameOk (w : PutWorld) (f : PutFrame) : Prop where
  number : f.put < w.issued
  sent : f.sent = some w.record.pvValue
  waiting : f.status = none → w.unanswered = [f.put] ∧ w.record.isPutDone = false
  ok : f.status = some true → w.unanswered = [] ∧ w.record.isPutDone = true
  failed : f.status = some false → w.unanswered = [] ∧ w.record.isPutDone = false
  alarm : w.record.pvAlarm.severity = .noAlarm ↔ f.disturbed = false

/-- The invariant of the put link record. -/
structure Inv (w : PutWorld) : Prop where
  /-- A lost channel stays lost until its callback has processed the record. -/
  lost : w.changing = true → w.record.channelConnected = false
  /-- The put object is there before the channel counts as connected. -/
  created : w.record.channelConnected = true → w.record.pvaClientPut.isSome = true
  /-- The guard of `process()` sees every put that is still unanswered. -/
  answered : w.record.isPutDone = true → w.unanswered = []
  one : w.unanswered.length ≤ 1
  numbered : ∀ p ∈ w.threw, p < w.issued
  /-- No alarm is stale: without a request for a good alarm the published one is good. -/
  good : w.record.setAlarmGood = false → w.record.pvAlarm.severity = .noAlarm
  alarm : w.record.pvAlarm.severity = .noAlarm ∨ w.record.pvAlarm.severity = .invalidAlarm
  /-- At most one call is inside `put()`. -/
  frame : w.frames = [] ∨ ∃ f, w.frames = [f] ∧ w.FrameOk f

theorem inv_init : Inv {} := by
  constructor <;> simp

/-- A put that can still be answered is the only one. -/
theorem Inv.unanswered_eq {w : PutWorld} (h : w.Inv) {put : ℕ} (hput : put ∈ w.unanswered) :
    w.unanswered = [put] := by
  obtain ⟨p, hp⟩ := List.length_eq_one_iff.mp
    (le_antisymm h.one (List.length_pos_of_mem hput))
  rw [hp, List.mem_singleton] at hput
  rw [hp, hput]

/-- The call inside `put()` belongs to the put that is unanswered, if one is. -/
theorem FrameOk.put_eq {w : PutWorld} {f : PutFrame} (h : w.FrameOk f) {put : ℕ}
    (hone : w.unanswered = [put]) : f.put = put := by
  cases hstatus : f.status with
  | none => simpa [hone] using (h.waiting hstatus).1.symm
  | some isOK =>
    cases isOK with
    | true => exact absurd (h.ok hstatus).1 (by simp [hone])
    | false => exact absurd (h.failed hstatus).1 (by simp [hone])

/-- The frame on top is the only one. -/
theorem Inv.frame_eq {w : PutWorld} (h : w.Inv) {f : PutFrame} {fs : List PutFrame}
    (hframes : w.frames = f :: fs) : fs = [] ∧ w.FrameOk f := by
  rcases h.frame with hf | ⟨g, hg, hok⟩
  · simp [hf] at hframes
  · obtain ⟨rfl, rfl⟩ : g = f ∧ [] = fs := by simpa [hg] using hframes
    exact ⟨rfl, hok⟩

/-- An event that changes the frames one by one leaves at most one. -/
theorem Inv.frame_map {w w' : PutWorld} (h : w.Inv) (change : PutFrame → PutFrame)
    (hframes : w'.frames = w.frames.map change)
    (hok : ∀ f, w.FrameOk f → w'.FrameOk (change f)) :
    w'.frames = [] ∨ ∃ f, w'.frames = [f] ∧ w'.FrameOk f := by
  rcases h.frame with hf | ⟨f, hf, hfok⟩
  · exact .inl (by rw [hframes, hf, List.map_nil])
  · exact .inr ⟨change f, by rw [hframes, hf, List.map_singleton], hok f hfok⟩

/-- **Every event keeps the invariant.** -/
theorem Inv.step {w w' : PutWorld} {e : PutEvent} (h : w.Inv) (hs : w.step e = some w') :
    w'.Inv := by
  cases step_effect h.lost hs with
  | write value hlock =>
    exact { h with frame := .inl hlock }
  | refused thrown message hlock =>
    exact { h with
      good := by simp [failed]
      alarm := .inr rfl
      frame := .inl hlock }
  | issued clientPut hlock hready hput =>
    have hsev := w.record.severity_issue clientPut h.good
    -- the guard let `process()` pass, so the new put is the only one
    have hidle : w.unanswered = [] := h.answered hready.2.2
    exact {
      lost := by simpa [issue] using h.lost
      created := by simp [issue]
      answered := by simp [issue]
      one := by simp [issue, hidle]
      numbered := fun p hp => Nat.lt_succ_of_lt (h.numbered p hp)
      good := fun _ => hsev
      alarm := .inl hsev
      frame := .inr ⟨_, by rw [issue, hlock],
        { number := Nat.lt_succ_self _
          sent := by simp [issue]
          waiting := by simp [issue, hidle]
          ok := by simp
          failed := by simp
          alarm := by simpa [issue] using hsev }⟩ }
  | stateChange isConnected hchanging =>
    exact {
      lost := by simp
      created := by
        intro hc
        simp only [PutLinkRecord.channelConnected_channelStateChange] at hc
        subst hc
        exact w.record.pvaClientPut_channelStateChange_true
      answered := by simpa using h.answered
      one := h.one
      numbered := h.numbered
      good := fun hg => by
        simpa using h.good (w.record.setAlarmGood_channelStateChange isConnected hg)
      alarm := by simpa using h.alarm
      frame := h.frame_map id (List.map_id _).symm fun f hok => { hok with
        sent := by simpa using hok.sent
        waiting := by simpa using hok.waiting
        ok := by simpa using hok.ok
        failed := by simpa using hok.failed
        alarm := by simpa using hok.alarm } }
  | lost thrown message hchanging =>
    exact {
      lost := by simp [failed]
      created := by simpa [failed] using h.created
      answered := by simpa [failed, disturb] using h.answered
      one := h.one
      numbered := h.numbered
      good := by simp [failed]
      alarm := .inr rfl
      frame := h.frame_map _ rfl fun f hok => { hok with alarm := by simp [failed] } }
  | connected thrown =>
    exact { h with
      frame := h.frame_map id (List.map_id _).symm fun f hok => { hok with } }
  | notConnected thrown message =>
    exact {
      lost := h.lost
      created := h.created
      answered := h.answered
      one := h.one
      numbered := h.numbered
      good := by simp [failed]
      alarm := .inr rfl
      frame := h.frame_map _ rfl fun f hok => { hok with alarm := by simp [failed] } }
  | done put thrown hput =>
    -- the answer is for the call inside `put()`, if there is one
    have hone : w.unanswered = [put] := h.unanswered_eq hput
    exact { h with
      answered := fun _ => by simp [answer, hone]
      one := by simp [answer, hone]
      frame := h.frame_map _ rfl fun f hok => by
        rw [if_pos (hok.put_eq hone)]
        exact { hok with
          waiting := by simp
          ok := by simp [answer, hone, PutLinkRecord.putDone]
          failed := by simp } }
  | notDone put thrown message hput =>
    have hone : w.unanswered = [put] := h.unanswered_eq hput
    exact { h with
      answered := by simp [failed, PutLinkRecord.putDone]
      one := by simp [failed, disturb, answer, hone]
      good := by simp [failed]
      alarm := .inr rfl
      frame := h.frame_map _ (List.map_map ..) fun f hok => by
        rw [Function.comp_apply, if_pos (hok.put_eq hone)]
        exact { hok with
          waiting := by simp
          ok := by simp
          failed := by simp [PutWorld.failed, disturb, answer, hone, PutLinkRecord.putDone]
          alarm := by simp [PutWorld.failed] } }
  | returns f fs hframes hstatus =>
    obtain ⟨rfl, hok⟩ := h.frame_eq hframes
    exact { h with frame := .inl rfl }
  | throws f fs message hframes =>
    -- the catch block publishes an invalid alarm; the guard stays as it is
    obtain ⟨rfl, hok⟩ := h.frame_eq hframes
    exact { h with
      numbered := by
        simp only [leave, List.mem_cons, forall_eq_or_imp]
        exact ⟨hok.number, h.numbered⟩
      good := by simp [leave, PutLinkRecord.afterPut]
      alarm := .inr rfl
      frame := .inl rfl }

/-- **The invariant holds in every reachable state.** -/
theorem inv_of_reachable {w : PutWorld} (hw : putLink.Reachable w) : w.Inv :=
  hw.invariant inv_init fun _ _ _ h _ hs => h.step hs

/-! ### The alarm tells what the last `process()` did -/

/-- The guard of `process()` is down only while a put is outstanding, and a record
that is connected and has no put outstanding can put. -/
def NeverWedged (w : PutWorld) : Prop :=
  (w.record.isPutDone = false → w.outstanding ≠ []) ∧
  (w.record.channelConnected = true → w.record.isPutConnected = true → w.outstanding = [] →
    ∃ r, w.record.process none = .inPut r)

/-- The events after which a put has not failed: no `putDone` reports a failure, and
`put()` throws at most after its `putDone` reported success. -/
def PutSucceeds (w : PutWorld) : PutEvent → Prop
  | .putDone _ isOK _ => isOK = true
  | .putThrows _ => ∀ f ∈ w.frames.head?, f.status = some true
  | _ => True

/-- The second half of `NeverWedged` follows from the first. -/
theorem Inv.neverWedged_iff {w : PutWorld} (h : w.Inv) :
    w.NeverWedged ↔ (w.record.isPutDone = false → w.outstanding ≠ []) := by
  refine ⟨fun hw => hw.1, fun hdone => ⟨hdone, fun hc hp hnone => ?_⟩⟩
  have hready : w.record.Ready := ⟨hc, hp, by
    by_contra hd
    exact hdone (by simpa using hd) hnone⟩
  obtain ⟨clientPut, hput⟩ := Option.isSome_iff_exists.mp (h.created hc)
  exact ⟨_, PutLinkRecord.process_of_ready hready hput⟩

/-- **A step keeps the record from wedging exactly when its put has not failed.** -/
theorem Inv.neverWedged_step {w w' : PutWorld} {e : PutEvent} (h : w.Inv)
    (hw : w.NeverWedged) (hs : w.step e = some w') : w'.NeverWedged ↔ w.PutSucceeds e := by
  rw [(h.step hs).neverWedged_iff]
  have hdone := hw.1
  cases step_effect h.lost hs with
  | issued clientPut hlock hready hput =>
    -- the new put is outstanding: its number has not been used before
    have hfresh : w.issued ∉ w.threw := fun hmem => absurd (h.numbered _ hmem) (lt_irrefl _)
    exact iff_of_true (fun _ => by simp [issue, outstanding, hfresh]) trivial
  | done put thrown hput => exact iff_of_true (fun hd => by simp [PutLinkRecord.putDone] at hd) rfl
  | notDone put thrown message hput =>
    -- `putDone` stored false, and the put it answered is no longer outstanding
    refine iff_of_false (fun hne => hne rfl ?_) Bool.false_ne_true
    simp [failed, disturb, answer, outstanding, h.unanswered_eq hput]
  | throws f fs message hframes =>
    obtain ⟨rfl, hok⟩ := h.frame_eq hframes
    have hQ : w.PutSucceeds (.putThrows message) ↔ f.status = some true := by
      simp [PutSucceeds, hframes]
    rw [hQ]
    cases hstatus : f.status with
    | none =>
      -- the put is outstanding until the exception ends it
      obtain ⟨hone, hfalse⟩ := hok.waiting hstatus
      refine iff_of_false (fun hne => hne ?_ ?_) (by simp)
      · simpa [leave, PutLinkRecord.afterPut] using hfalse
      · simp [leave, outstanding, hone]
    | some isOK =>
      cases isOK with
      | true =>
        -- `putDone` had stored true before the exception
        refine iff_of_true (fun hd => ?_) rfl
        simp [leave, PutLinkRecord.afterPut, (hok.ok hstatus).2] at hd
      | false =>
        obtain ⟨hnone, hfalse⟩ := hok.failed hstatus
        exact absurd (by simp [outstanding, hnone]) (hdone hfalse)
  | stateChange isConnected hchanging =>
    exact iff_of_true (fun hd => hdone (by simpa using hd)) trivial
  | write | refused | lost | connected | notConnected | returns =>
    exact iff_of_true hdone trivial

/-- **When the put link record never wedges.**  Along a run the record stays clear of
wedging exactly when every step is one after which no put has failed. -/
theorem neverWedged_iff_putSucceeds {w : PutWorld} {es : List PutEvent}
    (hrun : putLink.run putLink.init es = some w) :
    putLink.Visits NeverWedged putLink.init es ↔ putLink.Meets PutSucceeds putLink.init es :=
  EventMachine.visits_iff_meets (I := Inv) (fun _ _ _ h hs => h.step hs)
    (fun _ _ _ h hw hs => h.neverWedged_step hw hs) inv_init
    (inv_init.neverWedged_iff.mpr fun hd => by simp at hd) hrun

/-- Two puts in a row that both succeed. -/
theorem neverWedged_iff_putSucceeds_twice :
    putLink.Visits NeverWedged putLink.init
      [.channelStateChange true, .channelPutConnect true none, .process none, .putDone 0 true none,
        .putReturns, .process none] := by
  have hrun : (putLink.run putLink.init [.channelStateChange true, .channelPutConnect true none,
      .process none, .putDone 0 true none, .putReturns, .process none]).isSome = true := by decide
  obtain ⟨w, hw⟩ := Option.isSome_iff_exists.mp hrun
  refine (neverWedged_iff_putSucceeds hw).mpr ?_
  simp [EventMachine.Meets, PutSucceeds]

/-- A put whose `putDone` reports a failure, for which `put()` then throws. -/
def failedPutRun : List PutEvent :=
  [.channelStateChange true, .channelPutConnect true none, .process none,
    .putDone 0 false none, .putThrows "put failed"]

/-- A put that throws before anything was sent. -/
def unsentPutRun : List PutEvent :=
  [.channelStateChange true, .channelPutConnect true none, .process none,
    .putThrows "put failed"]

/-- Either run wedges the record: no call is inside `put()`, no put is outstanding, and
`process()` only reports `previous put not done`. -/
theorem wedged_after_failed_put :
    (∃ w, putLink.run putLink.init failedPutRun = some w ∧ w.frames = [] ∧ w.outstanding = [] ∧
      w.record.process none = .returned (w.record.bad "previous put not done") ∧
      ¬ w.NeverWedged) ∧
    (∃ w, putLink.run putLink.init unsentPutRun = some w ∧ w.frames = [] ∧ w.outstanding = [] ∧
      w.record.process none = .returned (w.record.bad "previous put not done") ∧
      ¬ w.NeverWedged) := by
  have hwedged : ∀ es : List PutEvent,
      (putLink.run putLink.init es).any (fun w => w.frames = [] ∧ w.outstanding = [] ∧
        w.record.process none = .returned (w.record.bad "previous put not done") ∧
        w.record.isPutDone = false) = true →
      ∃ w, putLink.run putLink.init es = some w ∧ w.frames = [] ∧ w.outstanding = [] ∧
        w.record.process none = .returned (w.record.bad "previous put not done") ∧
        ¬ w.NeverWedged := by
    intro es htest
    obtain ⟨w, hw, hp⟩ := (Option.any_eq_true _ _).mp htest
    obtain ⟨hframes, hnone, hproc, hd⟩ := of_decide_eq_true hp
    exact ⟨w, hw, hframes, hnone, hproc, fun hn => hn.1 hd hnone⟩
  exact ⟨hwedged failedPutRun (by decide), hwedged unsentPutRun (by decide)⟩

/-- **A wedged record stays wedged.**  Once the guard is down with every put answered, no
event makes the record put again. -/
theorem wedged_forever {w w' : PutWorld} {es : List PutEvent} (h : w.Inv)
    (hdown : w.record.isPutDone = false) (hnone : w.unanswered = [])
    (hrun : putLink.run w es = some w') :
    w'.issued = w.issued ∧ w'.record.isPutDone = false := by
  have hkeep : w'.Inv ∧ w'.issued = w.issued ∧ w'.record.isPutDone = false ∧ w'.unanswered = [] := by
    refine EventMachine.run_invariant (I := fun v => v.Inv ∧ v.issued = w.issued ∧
      v.record.isPutDone = false ∧ v.unanswered = []) ?_ ⟨h, rfl, hdown, hnone⟩ hrun
    rintro v e v' ⟨hinv, hissued, hd, hn⟩ hs
    refine ⟨hinv.step hs, ?_⟩
    cases step_effect hinv.lost hs with
    -- only an answer to a put raises the guard, and there is none to be answered
    | issued clientPut hlock hready hput => simp [hready.2.2] at hd
    | done put thrown hput => simp [hn] at hput
    | notDone put thrown message hput => simp [hn] at hput
    | throws f fs message hframes => exact ⟨hissued, hd, hn⟩
    | stateChange isConnected hchanging => exact ⟨hissued, by simpa using hd, hn⟩
    | _ => exact ⟨hissued, hd, hn⟩
  exact ⟨hkeep.2.1, hkeep.2.2.1⟩

end PutWorld

end TestDatabase
