import TestDatabase.Clients.PutAnswers
import TestDatabase.Db.BusyPeriods
import TestDatabase.Db.Completion

/-!
# Blocking puts to the records

With `block` a PutThread puts by put-notify.  `block` is true from the beginning, and no option
makes it false.  Here the thread puts to records of this database, each channel to a record of
its own, whose SCAN is passive, so that a put processes it.

The server is not part of this repository.  What it is taken to do stands as a hypothesis,
`System.Answers`: it answers a put when it has made it and the put-notify is completed.  A put
that is refused, or fails, would be answered at once.

An output record never completes a put-notify, whatever else is done to it.  A simpleBusy record
that nobody else puts to completes one that puts zero.  A thread whose put is not completed
waits in `put()` for good, and does not look at `isStop` again.

## Main definitions

* `System`, `System.step` — the thread, the puts it has sent, and the records.
* `System.Answers` — the server answers puts that are completed, and no others.
* `Serving` — the puts that a record completes, and the state in which it does not.
* `OutRecord.serving`, `SimpleBusyRecord.serving` — those of the record types.

## Main results

* `Inv.step` — a put is completed, or its record keeps it waiting.
* `output_puts_block` — **the first put to an output record is the last.**
* `busy_puts_block` — **so is the first put of a value to a simpleBusy record.**
-/

namespace TestDatabase

/-- The put-notify that makes a put, if one does. -/
def DbEvent.putNotify {β : Type} : DbEvent β → Option ℕ
  | .put _ notify _ _ => notify
  | _ => none

namespace BlockingPuts

open PutRounds
open TimeMany (PVField)

variable {α β : Type}

/-- A PutThread, the puts it has sent that have not been made, and the records put to. -/
structure System (α : Type) where
  thread : PutThread := {}
  sent : ℕ → Option String := fun _ => none
  record : ℕ → RecordState α

inductive Event (β : Type)
  /-- A step of the thread, a callback of its clients, or `stop()`. -/
  | client (e : PutRounds.Event)
  /-- The server makes the put sent to a channel. -/
  | make (i : ℕ) (inSpecial afterwards : Chain β)
  /-- Something else is done to the record of a channel. -/
  | other (i : ℕ) (e : DbEvent β)

namespace System

/-- The puts sent, after a step of the client that leads to `thread`. -/
def sentAfter (w : System α) (thread : PutThread) : ℕ → Option String :=
  match w.thread.progress, thread.progress with
  | .connected i val, .waiting _ _ => Function.update w.sent i (some val)
  | _, _ => w.sent

/-- A step of the client. -/
def clientStep (n : ℕ) (pvStructure : ℕ → List (String × PVField)) (w : System α)
    (e : PutRounds.Event) : Option (System α) :=
  (w.thread.step n pvStructure e).map fun thread =>
    { w with thread, sent := w.sentAfter thread }

/-- One step.  The put-notifies of the thread have the number 0, and those of others have not. -/
def step (rset : Rset α β) (convert : String → β) (n : ℕ)
    (pvStructure : ℕ → List (String × PVField)) (w : System α) : Event β → Option (System α)
  | .client e => w.clientStep n pvStructure e
  | .make i inSpecial afterwards =>
    (w.sent i).bind fun val =>
      (rset.step (w.record i) (.put (convert val) (some 0) inSpecial afterwards)).map fun s =>
        { w with
          sent := Function.update w.sent i none
          record := Function.update w.record i s }
  | .other i e =>
    if e.putNotify = some 0 then none
    else (rset.step (w.record i) e).map fun s =>
      { w with record := Function.update w.record i s }

/-- What the server is taken to do: it answers a put only when it has made it, and its
put-notify has been completed. -/
def Answers (w : System α) : Event β → Prop
  | .client (.putDone i) => w.sent i = none ∧ 0 ∉ (w.record i).waiting
  | _ => True

instance (w : System α) : (e : Event β) → Decidable (w.Answers e)
  | .client (.putDone i) =>
    inferInstanceAs (Decidable (w.sent i = none ∧ 0 ∉ (w.record i).waiting))
  | .client .run | .client .throws | .client .stop | .client (.channelStateChange _ _)
  | .client (.channelPutConnect _) | .make _ _ _ | .other _ _ => .isTrue trivial

end System

/-- The system, with `n` channels and a record for each. -/
def system (rset : Rset α β) (convert : String → β) (n : ℕ)
    (pvStructure : ℕ → List (String × PVField)) (s₀ : ℕ → RecordState α) :
    EventMachine (System α) (Event β) where
  init := { record := fun i => rset.initRecord (s₀ i) }
  step := System.step rset convert n pvStructure

/-! ### Which puts are completed -/

/-- The puts that a record of some type accepts, in that it completes them: it is ready for the
next put then.  By another put it is stuck, and the put-notify waits. -/
structure Serving (rset : Rset α β) (Allowed : DbEvent β → Prop) (Accepts : β → Prop) where
  Ready : RecordState α → Prop
  Stuck : RecordState α → Prop
  waits : ∀ {s}, Stuck s → 0 ∈ s.waiting
  put : ∀ {s value inSpecial afterwards t}, Ready s →
    Allowed (.put value (some 0) inSpecial afterwards) →
    rset.step s (.put value (some 0) inSpecial afterwards) = some t →
      (Accepts value → Ready t) ∧ (¬ Accepts value → Stuck t)
  other : ∀ {s e t}, e.putNotify ≠ some 0 → Allowed e → rset.step s e = some t →
    (Ready s → Ready t) ∧ (Stuck s → Stuck t)

/-- What is done to the records is allowed. -/
def Event.Allowed (Allowed : DbEvent β → Prop) : Event β → Prop
  | .client _ => True
  | .make _ inSpecial afterwards => ∀ value, Allowed (.put value (some 0) inSpecial afterwards)
  | .other _ e => Allowed e

/-! ### The put that is not completed -/

/-- The call of `put()` that has not returned, as it is logged. -/
def current (t : PutThread) : List Call :=
  match t.progress with
  | .waiting i val => [⟨i, val, true⟩]
  | _ => []

section serving

variable {rset : Rset α β} {Allowed : DbEvent β → Prop} {Accepts : β → Prop}
  {V : Serving rset Allowed Accepts} {convert : String → β} {n : ℕ}
  {pvStructure : ℕ → List (String × PVField)} {w w' : System α} {i : ℕ} {val : String}

/-- How far a put is that the thread waits for. -/
inductive Underway (V : Serving rset Allowed Accepts) (convert : String → β) (w : System α)
    (i : ℕ) (val : String) : Prop
  | sent (hsent : w.sent i = some val) (houtstanding : (w.thread.clients i).outstanding = true)
      (hready : V.Ready (w.record i))
  | accepted (hsent : w.sent i = none) (haccepts : Accepts (convert val))
      (hready : V.Ready (w.record i))
  | stuck (hsent : w.sent i = none) (haccepts : ¬ Accepts (convert val))
      (houtstanding : (w.thread.clients i).outstanding = true) (hstuck : V.Stuck (w.record i))

/-- A record is ready but for the put waited for, and the calls of `put()` that have returned
put what is accepted. -/
structure Inv (V : Serving rset Allowed Accepts) (convert : String → β) (n : ℕ)
    (w : System α) : Prop where
  range : w.thread.InRange n
  waits : ∀ j, w.thread.Waits j
  ready : ∀ j, w.thread.progress.waits ≠ some j → w.sent j = none ∧ V.Ready (w.record j)
  underway : ∀ i val, w.thread.progress = .waiting i val → Underway V convert w i val
  calls : ∃ done, w.thread.calls = done ++ current w.thread ∧
    ∀ call ∈ done, call.issued = true → Accepts (convert call.val)

theorem inv_init {s₀ : ℕ → RecordState α} (hready : ∀ i, V.Ready (rset.initRecord (s₀ i))) :
    Inv V convert n (system rset convert n pvStructure s₀).init where
  range := trivial
  waits _ := ⟨fun h => absurd h (by simp [system, Progress.waits]), fun _ => ⟨rfl, rfl⟩⟩
  ready j _ := ⟨rfl, hready j⟩
  underway _ _ h := absurd h (by simp [system])
  calls := ⟨[], rfl, by simp⟩

/-- Outside `put()` no call is under way. -/
theorem current_of_waits {t : PutThread} (h : t.progress.waits = none) : current t = [] := by
  unfold current
  split
  · next hprogress =>
    rw [hprogress] at h
    exact absurd h (by simp [Progress.waits])
  · rfl

theorem sentAfter_of_waits {t : PutThread} (h : t.progress.waits = none) :
    w.sentAfter t = w.sent := by
  unfold System.sentAfter
  split
  · next hprogress =>
    rw [hprogress] at h
    exact absurd h (by simp [Progress.waits])
  · rfl

/-- A step outside `put()`, or one in which `put()` returns at once. -/
theorem Inv.outside (h : Inv V convert n w) {t : PutThread} (hrange : t.InRange n)
    (hwaits : ∀ j, t.Waits j) (hbefore : w.thread.progress.waits = none)
    (hafter : t.progress.waits = none) {skipped : List Call}
    (hcalls : t.calls = w.thread.calls ++ skipped) (hskipped : ∀ call ∈ skipped, call.issued = false) :
    Inv V convert n { w with thread := t, sent := w.sentAfter t } where
  range := hrange
  waits := hwaits
  ready j _ := by
    rw [sentAfter_of_waits hafter]
    exact h.ready j (by simp [hbefore])
  underway i val hprogress := by
    rw [hprogress] at hafter
    exact absurd hafter (by simp [Progress.waits])
  calls := by
    obtain ⟨done, hdone, haccepts⟩ := h.calls
    rw [current_of_waits hbefore, List.append_nil] at hdone
    refine ⟨done ++ skipped, ?_, fun call hcall hissued => ?_⟩
    · rw [current_of_waits hafter, List.append_nil, hcalls, hdone]
    · rcases List.mem_append.mp hcall with hcall | hcall
      · exact haccepts call hcall hissued
      · exact absurd hissued (by simp [hskipped call hcall])

/-- **A step of the thread leaves all records ready but that of the put it waits for.** -/
theorem Inv.runStep (h : Inv V convert n w) {t : PutThread}
    (hs : w.thread.RunEffect n pvStructure t) :
    Inv V convert n { w with thread := t, sent := w.sentAfter t } := by
  have hrange := h.range.runStep hs
  have hwaits := fun j => (h.waits j).runStep hs
  cases hs with
  | create _ hprogress | created _ hprogress | returns hprogress | round hprogress
  | connected _ _ hprogress | sleep _ _ hprogress | wake hprogress | createDies _ hprogress =>
    exact h.outside hrange hwaits (by rw [hprogress]; rfl) rfl
      (List.append_nil _).symm (by simp)
  | putDies i val hprogress =>
    exact h.outside hrange hwaits (by rw [hprogress]; rfl) rfl rfl (by simp)
  | skip i val hi hprogress =>
    refine h.outside hrange hwaits ?_ rfl rfl (by simp)
    rcases hprogress with hprogress | hprogress
    · rw [hprogress]
      rfl
    · rw [hprogress]
      rfl
  | issue i val hprogress =>
    have hbefore : w.thread.progress.waits = none := by
      rw [hprogress]
      rfl
    have hready := fun j => h.ready j (by simp [hbefore])
    have hsent : w.sentAfter { w.thread.setClient i
        { w.thread.clients i with outstanding := true } with
          progress := .waiting i val, calls := w.thread.calls ++ [⟨i, val, true⟩] } =
        Function.update w.sent i (some val) := by
      simp only [System.sentAfter, hprogress]
    refine ⟨hrange, hwaits, fun j hj => ?_, fun i' val' hprogress' => ?_, ?_⟩
    · have hji : j ≠ i := fun hji => hj (by rw [hji, Progress.waits])
      refine ⟨(congrFun hsent j).trans ?_, (hready j).2⟩
      rw [Function.update_of_ne hji]
      exact (hready j).1
    · obtain ⟨rfl, rfl⟩ := Progress.waiting.inj hprogress'
      refine .sent ?_ ?_ (hready i).2
      · exact (congrFun hsent i).trans (Function.update_self ..)
      · exact congrArg ClientPut.outstanding (PutThread.clients_setClient_self i _)
    · obtain ⟨done, hdone, haccepts⟩ := h.calls
      rw [current_of_waits hbefore, List.append_nil] at hdone
      exact ⟨done, by rw [hdone]; rfl, haccepts⟩
  | answered i val hprogress hsignal =>
    have houtstanding : (w.thread.clients i).outstanding = false := by
      have hown := (h.waits i).own (by rw [hprogress, Progress.waits])
      rw [hsignal] at hown
      simpa using hown.symm
    -- answered, so accepted
    obtain ⟨hsent, haccepts, hready⟩ :
        w.sent i = none ∧ Accepts (convert val) ∧ V.Ready (w.record i) := by
      cases h.underway i val hprogress with
      | sent _ houtstanding' => exact absurd houtstanding' (by simp [houtstanding])
      | accepted hsent haccepts hready => exact ⟨hsent, haccepts, hready⟩
      | stuck _ _ houtstanding' => exact absurd houtstanding' (by simp [houtstanding])
    refine ⟨hrange, hwaits, fun j _ => ?_, fun i' val' hprogress' => ?_, ?_⟩
    · rw [sentAfter_of_waits (by rfl)]
      by_cases hji : j = i
      · rw [hji]
        exact ⟨hsent, hready⟩
      · refine h.ready j ?_
        rw [hprogress, Progress.waits]
        simpa using Ne.symm hji
    · exact absurd hprogress' (by simp)
    · obtain ⟨done, hdone, hall⟩ := h.calls
      rw [current, hprogress] at hdone
      refine ⟨w.thread.calls, by simp [current, PutThread.setClient], fun call hcall hissued => ?_⟩
      rw [hdone] at hcall
      rcases List.mem_append.mp hcall with hcall | hcall
      · exact hall call hcall hissued
      · obtain rfl := List.mem_singleton.mp hcall
        exact haccepts

/-- The put waited for is as it was if its channel is. -/
theorem Underway.congr (h : Underway V convert w i val) (hsent : w'.sent i = w.sent i)
    (houtstanding : (w'.thread.clients i).outstanding = (w.thread.clients i).outstanding)
    (hrecord : w'.record i = w.record i) : Underway V convert w' i val := by
  cases h with
  | sent hval hout hready =>
    exact .sent (hsent.trans hval) (houtstanding.trans hout) (hrecord ▸ hready)
  | accepted hval haccepts hready => exact .accepted (hsent.trans hval) haccepts (hrecord ▸ hready)
  | stuck hval haccepts hout hstuck =>
    exact .stuck (hsent.trans hval) haccepts (houtstanding.trans hout) (hrecord ▸ hstuck)

/-- An event of the client that is no step of the thread sends nothing. -/
theorem sentAfter_of_progress {t : PutThread} (h : t.progress = w.thread.progress) :
    w.sentAfter t = w.sent := by
  unfold System.sentAfter
  rw [h]
  split
  · next hbefore hafter =>
    rw [hbefore] at hafter
    exact absurd hafter (by simp)
  · rfl

/-- A callback, or `stop()`.  The flags of the put waited for stay what they were, or its answer
comes, and then it is accepted. -/
theorem Inv.callback (h : Inv V convert n w) {t : PutThread} (hwaits : ∀ j, t.Waits j)
    (hprogress : t.progress = w.thread.progress) (hcalls : t.calls = w.thread.calls)
    (hanswer : ∀ i val, Underway V convert w i val →
      (t.clients i).outstanding = (w.thread.clients i).outstanding ∨
        w.sent i = none ∧ Accepts (convert val) ∧ V.Ready (w.record i)) :
    Inv V convert n { w with thread := t, sent := w.sentAfter t } where
  range := by
    have hrange := h.range
    unfold PutThread.InRange at hrange ⊢
    rw [hprogress]
    exact hrange
  waits := hwaits
  ready j hj := by
    rw [sentAfter_of_progress hprogress]
    exact h.ready j (hprogress ▸ hj)
  underway i val hwaiting := by
    have hunderway := h.underway i val (hprogress ▸ hwaiting)
    have hsent := congrFun (sentAfter_of_progress hprogress) i
    rcases hanswer i val hunderway with houtstanding | ⟨hnone, haccepts, hready⟩
    · exact hunderway.congr hsent houtstanding rfl
    · exact .accepted (hsent.trans hnone) haccepts hready
  calls := by
    have hcurrent : current t = current w.thread := by rw [current, current, hprogress]
    rw [hcurrent, hcalls]
    exact h.calls

/-- **An event of the client keeps the invariant.**  An answer comes only for a put that has been
made and completed. -/
theorem Inv.clientStep (h : Inv V convert n w) {e : PutRounds.Event}
    (hcompleted : ∀ i, e = .putDone i → w.sent i = none ∧ 0 ∉ (w.record i).waiting)
    (hs : w.clientStep n pvStructure e = some w') : Inv V convert n w' := by
  obtain ⟨t, ht, rfl⟩ := Option.map_eq_some_iff.mp hs
  have hwaits : ∀ j, t.Waits j := fun j => PutThread.Waits.step h.waits h.range ht
  cases PutThread.step_effect h.range ht with
  | run _ hrun | throws _ hrun => exact h.runStep hrun
  | stop => exact h.callback hwaits rfl rfl fun _ _ _ => .inl rfl
  | answer i =>
    obtain ⟨hnone, hcompleted⟩ := hcompleted i rfl
    refine h.callback hwaits rfl rfl fun j val hunderway => ?_
    by_cases hji : j = i
    · subst hji
      right
      cases hunderway with
      | sent hsent => exact absurd (hnone.symm.trans hsent) (by simp)
      | accepted hsent haccepts hready => exact ⟨hsent, haccepts, hready⟩
      | stuck _ _ _ hstuck => exact absurd (V.waits hstuck) hcompleted
    · left
      exact congrArg ClientPut.outstanding (PutThread.clients_setClient_of_ne _ hji)
  | connection _ i c _ _ houtstanding =>
    refine h.callback hwaits rfl rfl fun j val _ => .inl ?_
    by_cases hji : j = i
    · subst hji
      exact (congrArg _ (PutThread.clients_setClient_self _ _)).trans houtstanding
    · exact congrArg ClientPut.outstanding (PutThread.clients_setClient_of_ne _ hji)

/-- A put that has been sent is the one waited for. -/
theorem Inv.waiting_of_sent (h : Inv V convert n w) (hsent : w.sent i = some val) :
    w.thread.progress = .waiting i val ∧ (w.thread.clients i).outstanding = true ∧
      V.Ready (w.record i) := by
  have hwaits : w.thread.progress.waits = some i := by
    by_contra hnot
    exact absurd (hsent.symm.trans (h.ready i hnot).1) (by simp)
  obtain ⟨val', hprogress⟩ : ∃ val', w.thread.progress = .waiting i val' := by
    unfold Progress.waits at hwaits
    split at hwaits
    · next i' val' hprogress => exact ⟨val', Option.some.inj hwaits ▸ hprogress⟩
    · exact absurd hwaits (by simp)
  cases h.underway i val' hprogress with
  | sent hsent' houtstanding hready =>
    obtain rfl := Option.some.inj (hsent.symm.trans hsent')
    exact ⟨hprogress, houtstanding, hready⟩
  | accepted hnone => exact absurd (hsent.symm.trans hnone) (by simp)
  | stuck hnone => exact absurd (hsent.symm.trans hnone) (by simp)

/-- **Every event keeps the invariant.** -/
theorem Inv.step (h : Inv V convert n w) {e : Event β} (hanswers : w.Answers e)
    (he : e.Allowed Allowed) (hs : w.step rset convert n pvStructure e = some w') : Inv V convert n w' := by
  cases e with
  | client e =>
    refine h.clientStep (fun i hi => ?_) hs
    subst hi
    exact hanswers
  | make i inSpecial afterwards =>
    simp only [System.step, Option.bind_eq_some_iff, Option.map_eq_some_iff] at hs
    obtain ⟨val, hsent, s, hput, rfl⟩ := hs
    obtain ⟨hprogress, houtstanding, hready⟩ := h.waiting_of_sent hsent
    obtain ⟨haccepted, hstuck⟩ := V.put hready (he (convert val)) hput
    refine ⟨h.range, h.waits, fun j hj => ?_, fun i' val' hprogress' => ?_, h.calls⟩
    · have hji : j ≠ i := fun hji => hj (by rw [hji, hprogress, Progress.waits])
      simpa only [Function.update_of_ne hji] using h.ready j hj
    · obtain ⟨rfl, rfl⟩ := Progress.waiting.inj (hprogress.symm.trans hprogress')
      by_cases haccepts : Accepts (convert val)
      · refine .accepted (Function.update_self ..) haccepts ?_
        simpa only [Function.update_self] using haccepted haccepts
      · refine .stuck (Function.update_self ..) haccepts houtstanding ?_
        simpa only [Function.update_self] using hstuck haccepts
  | other i e =>
    simp only [System.step, Option.ite_none_left_eq_some, Option.map_eq_some_iff] at hs
    obtain ⟨hnotify, s, hother, rfl⟩ := hs
    obtain ⟨hready, hstuck⟩ := V.other hnotify he hother
    have hkeeps : ∀ j, (V.Ready (w.record j) → V.Ready (Function.update w.record i s j)) ∧
        (V.Stuck (w.record j) → V.Stuck (Function.update w.record i s j)) := by
      intro j
      by_cases hji : j = i
      · subst hji
        rw [Function.update_self]
        exact ⟨hready, hstuck⟩
      · rw [Function.update_of_ne hji]
        exact ⟨id, id⟩
    refine ⟨h.range, h.waits, fun j hj => ?_, fun i' val' hprogress => ?_, h.calls⟩
    · exact ⟨(h.ready j hj).1, (hkeeps j).1 (h.ready j hj).2⟩
    · cases h.underway i' val' hprogress with
      | sent hsent houtstanding hr => exact .sent hsent houtstanding ((hkeeps i').1 hr)
      | accepted hsent haccepts hr => exact .accepted hsent haccepts ((hkeeps i').1 hr)
      | stuck hsent haccepts houtstanding hst =>
        exact .stuck hsent haccepts houtstanding ((hkeeps i').2 hst)

/-- **A thread whose put is not completed waits on**, whatever comes. -/
theorem Inv.waits_on (h : Inv V convert n w) (hprogress : w.thread.progress = .waiting i val)
    (haccepts : ¬ Accepts (convert val)) {e : Event β}
    (hs : w.step rset convert n pvStructure e = some w') :
    w'.thread.progress = .waiting i val := by
  -- its event is not signalled
  have hsignal : (w.thread.clients i).waitForCallback = false := by
    rw [(h.waits i).own (by rw [hprogress, Progress.waits])]
    cases h.underway i val hprogress with
    | sent _ houtstanding => rw [houtstanding, Bool.not_true]
    | accepted _ haccepts' => exact absurd haccepts' haccepts
    | stuck _ _ houtstanding => rw [houtstanding, Bool.not_true]
  have hclient : ∀ {e}, w.clientStep n pvStructure e = some w' →
      w'.thread.progress = .waiting i val := by
    intro e hclient
    obtain ⟨t, ht, rfl⟩ := Option.map_eq_some_iff.mp hclient
    cases PutThread.step_effect h.range ht with
    | run _ hrun =>
      have hnone : w.thread.runStep n pvStructure = none := by
        simp only [PutThread.runStep, hprogress, hsignal, Bool.false_eq_true, if_false]
      exact absurd (ht.symm.trans hnone) (by simp)
    | throws _ hrun =>
      have hnone : w.thread.throws n = none := by simp only [PutThread.throws, hprogress]
      exact absurd (ht.symm.trans hnone) (by simp)
    | stop | answer | connection => exact hprogress
  cases e with
  | client e => exact hclient hs
  | make j inSpecial afterwards =>
    simp only [System.step, Option.bind_eq_some_iff, Option.map_eq_some_iff] at hs
    obtain ⟨_, _, _, _, rfl⟩ := hs
    exact hprogress
  | other j e =>
    simp only [System.step, Option.ite_none_left_eq_some, Option.map_eq_some_iff] at hs
    obtain ⟨_, _, _, rfl⟩ := hs
    exact hprogress

/-- **Which puts the thread gets over.**  It gets over those that put what the records accept. -/
theorem puts_block {s₀ : ℕ → RecordState α} (hready : ∀ i, V.Ready (rset.initRecord (s₀ i)))
    {es : List (Event β)} (hes : ∀ e ∈ es, e.Allowed Allowed)
    (hanswers : (system rset convert n pvStructure s₀).Meets System.Answers
      (system rset convert n pvStructure s₀).init es)
    (hrun : (system rset convert n pvStructure s₀).run
      (system rset convert n pvStructure s₀).init es = some w) :
    (∃ done, w.thread.calls = done ++ current w.thread ∧
      ∀ call ∈ done, call.issued = true → Accepts (convert call.val)) ∧
    ∀ i val, w.thread.progress = .waiting i val → ¬ Accepts (convert val) →
      ∀ es' w', (∀ e ∈ es', e.Allowed Allowed) →
        (system rset convert n pvStructure s₀).Meets System.Answers w es' →
        (system rset convert n pvStructure s₀).run w es' = some w' →
          w'.thread.progress = .waiting i val := by
  have hinv : Inv V convert n w :=
    (hanswers.and_forall hes).invariant (fun _ _ _ h he hs => h.step he.1 he.2 hs)
      (inv_init hready) hrun
  refine ⟨hinv.calls, fun i val hprogress haccepts es' w' hes' hanswers' hrun' => ?_⟩
  have hboth : Inv V convert n w' ∧ w'.thread.progress = .waiting i val := by
    refine (hanswers'.and_forall hes').invariant
      (I := fun w => Inv V convert n w ∧ w.thread.progress = .waiting i val) ?_
      ⟨hinv, hprogress⟩ hrun'
    intro w e w' h he hs
    exact ⟨h.1.step he.1 he.2 hs, h.1.waits_on h.2 haccepts hs⟩
  exact hboth.2

end serving

/-! ### The record types -/

section out

variable {F : Type} [LT F] [DecidableLT F] [DecidableEq F] [FieldType F] (G : RecGbl)

/-- No operation on an output record completes anything. -/
theorem waiting_step {s t : RecordState (OutRecord F)} {e : DbEvent F} (hs : OutRecord.Idle s)
    (h : (outRSET G F).step s e = some t) : t.waiting = e.putNotify.toList ++ s.waiting := by
  cases e with
  | put value notify inSpecial afterwards =>
    obtain rfl := Option.some.inj h
    rw [putField_of_idle (s := { s with waiting := notify.toList ++ s.waiting }) hs.1]
    exact (OutRecord.sameQueues_process _).1
  | special after link =>
    obtain rfl := Option.some.inj h
    rfl
  | process link =>
    obtain rfl := Option.some.inj h
    rw [dbProcess, if_neg (by simp [hs.1])]
    exact (OutRecord.sameQueues_process (recGblFwdLink (outRSET G F) link)).1
  | queued link => simp [Rset.step, hs.2] at h

/-- An output record accepts nothing. -/
def outServing : Serving (outRSET G F) (fun _ => True) (fun _ => False) where
  Ready := OutRecord.Idle
  Stuck s := OutRecord.Idle s ∧ 0 ∈ s.waiting
  waits h := h.2
  put hs _ hstep := by
    refine ⟨False.elim, fun _ => ⟨(OutRecord.idle_step hs hstep).1, ?_⟩⟩
    rw [waiting_step G hs hstep]
    simp [DbEvent.putNotify]
  other _ _ hstep := by
    refine ⟨fun hs => (OutRecord.idle_step hs hstep).1, fun ⟨hs, hwaiting⟩ => ?_⟩
    refine ⟨(OutRecord.idle_step hs hstep).1, ?_⟩
    rw [waiting_step G hs hstep]
    exact List.mem_append_right _ hwaiting

theorem ready_outServing {s : RecordState (OutRecord F)} (hs : OutRecord.Idle s) :
    (outServing G).Ready ((outRSET G F).initRecord s) := by
  show OutRecord.Idle (OutRecord.initRecord G s)
  rw [OutRecord.initRecord, G.resetAlarms_eq]
  exact hs

end out

section simpleBusy

open SimpleBusyRecord

variable (G : RecGbl)

/-- Nobody but the thread puts to the record. -/
def Undisturbed : DbEvent Int32 → Prop
  | .put _ notify inSpecial afterwards => notify = some 0 ∧ inSpecial = .nil ∧ afterwards = .nil
  | .special _ link => link = .nil
  | .process link => link = .nil
  | .queued link => link = .nil

/-- A scan keeps a record that is idle with the value zero, or busy. -/
theorem keeps_dbProcess {s t : RecordState SimpleBusyRecord}
    (h : dbProcess (simpleBusyRSET G) .nil s = t) :
    (s.pact = false ∧ s.fields.val = 0 → t.pact = false ∧ t.fields.val = 0) ∧
      (s.pact = true → t = s) := by
  subst h
  unfold dbProcess
  constructor
  · rintro ⟨hpact, hval⟩
    rw [if_neg (by simp [hpact])]
    show (process _ s).pact = false ∧ (process _ s).fields.val = 0
    rw [process_link_nil hval]
    exact ⟨rfl, hval⟩
  · intro hpact
    rw [if_pos hpact]

/-- A simpleBusy record that nobody else puts to accepts zero. -/
def busyServing : Serving (simpleBusyRSET G) Undisturbed (fun value => value = 0) where
  Ready s := s.pact = false ∧ s.fields.val = 0
  Stuck s := s.pact = true ∧ s.fields.val ≠ 0 ∧ 0 ∈ s.waiting
  waits h := h.2.2
  put := by
    rintro s value inSpecial afterwards t - ⟨-, rfl, rfl⟩ hstep
    refine ⟨fun hvalue => ?_, fun hvalue => ?_⟩
    · subst hvalue
      rw [step_put_zero] at hstep
      obtain rfl := Option.some.inj hstep
      exact ⟨rfl, rfl⟩
    · rw [step_put_value hvalue] at hstep
      obtain rfl := Option.some.inj hstep
      exact ⟨rfl, hvalue, by simp⟩
  other := by
    rintro s e t hnotify he hstep
    cases e with
    | put value notify => exact absurd he.1 hnotify
    | special after link =>
      obtain rfl : link = .nil := he
      obtain rfl := Option.some.inj hstep
      cases after with
      | false => exact ⟨id, id⟩
      | true =>
        have hspecial : (simpleBusyRSET G).special true (recGblFwdLink (simpleBusyRSET G) .nil) s =
            if s.pact = false then s else process (recGblFwdLink (simpleBusyRSET G) .nil) s := rfl
        rw [hspecial]
        refine ⟨fun ⟨hpact, hval⟩ => ?_, fun ⟨hpact, hval, hwaiting⟩ => ?_⟩
        · rw [if_pos hpact]
          exact ⟨hpact, hval⟩
        · rw [if_neg (by simp [hpact]), process_of_ne_zero hval]
          exact ⟨rfl, hval, hwaiting⟩
    | process link =>
      obtain rfl : link = .nil := he
      obtain ⟨hready, hactive⟩ := keeps_dbProcess G (Option.some.inj hstep)
      refine ⟨hready, fun ⟨hpact, hval, hwaiting⟩ => ?_⟩
      rw [hactive hpact]
      exact ⟨hpact, hval, hwaiting⟩
    | queued link =>
      obtain rfl : link = .nil := he
      simp only [Rset.step, Option.ite_none_left_eq_some, Option.some.injEq] at hstep
      obtain ⟨hready, hactive⟩ := keeps_dbProcess G hstep.2
      refine ⟨hready, fun ⟨hpact, hval, hwaiting⟩ => ?_⟩
      rw [hactive hpact]
      exact ⟨hpact, hval, hwaiting⟩

theorem ready_busyServing {s : RecordState SimpleBusyRecord} (hs : s.pact = false) :
    (busyServing G).Ready ((simpleBusyRSET G).initRecord s) := by
  show (SimpleBusyRecord.initRecord G s).pact = false ∧
    (SimpleBusyRecord.initRecord G s).fields.val = 0
  simp [SimpleBusyRecord.initRecord, G.resetAlarms_eq, hs]

end simpleBusy

/-- **The first put to an output record is the last.**  Whatever is done to the records, and
whatever the callbacks do: no call of `put()` that has issued a put to an output record has
returned.  A thread that has issued one waits for it, and still does after any further events. -/
theorem output_puts_block (G : RecGbl) {F : Type} [LT F] [DecidableLT F] [DecidableEq F]
    [FieldType F] {convert : String → F} {n : ℕ} {pvStructure : ℕ → List (String × PVField)}
    {s₀ : ℕ → RecordState (OutRecord F)} (hidle : ∀ i, OutRecord.Idle (s₀ i))
    {es : List (Event F)} {w : System (OutRecord F)}
    (hanswers : (system (outRSET G F) convert n pvStructure s₀).Meets System.Answers
      (system (outRSET G F) convert n pvStructure s₀).init es)
    (hrun : (system (outRSET G F) convert n pvStructure s₀).run
      (system (outRSET G F) convert n pvStructure s₀).init es = some w) :
    (∃ done, w.thread.calls = done ++ current w.thread ∧ ∀ call ∈ done, call.issued = false) ∧
    ∀ i val, w.thread.progress = .waiting i val → ∀ es' w',
      (system (outRSET G F) convert n pvStructure s₀).Meets System.Answers w es' →
      (system (outRSET G F) convert n pvStructure s₀).run w es' = some w' →
        w'.thread.progress = .waiting i val := by
  have hallowed : ∀ (es : List (Event F)), ∀ e ∈ es, e.Allowed fun _ => True := by
    rintro es (e | e | e) -
    · trivial
    · exact fun _ => trivial
    · trivial
  obtain ⟨⟨done, hcalls, hissued⟩, hwaits⟩ :=
    puts_block (V := outServing G) (fun i => ready_outServing G (hidle i)) (hallowed es) hanswers hrun
  refine ⟨⟨done, hcalls, fun call hcall => by simpa using hissued call hcall⟩, ?_⟩
  exact fun i val hprogress es' w' => hwaits i val hprogress id es' w' (hallowed es')

/-- The number a text of decimal digits stands for. -/
def fromString (val : String) : ℕ :=
  val.toList.foldl (fun n digit => 10 * n + (digit.toNat - '0'.toNat)) 0

/-- A thread with a channel to the record of int8.db. -/
abbrev int8System : EventMachine (System CharoutRecord) (Event Int8) :=
  system (charoutRSET .base) (fun val => Int8.ofNat (fromString val)) 1
    (fun _ => [("value", .scalar)]) fun _ => { fields := int8 }

/-- The events until the first put has been sent. -/
def untilPut {β : Type} : List (Event β) :=
  [.client .run, .client (.channelStateChange 0 true), .client (.channelPutConnect 0), .client .run,
    .client .run, .client .run, .client .run]

/-- The put of zero to a charout record, which is scanned then. -/
theorem output_puts_block_int8 :
    ∃ w, int8System.run int8System.init
        (untilPut ++ [.make 0 .nil .nil, .other 0 (.process .nil), .client .stop]) = some w ∧
      ∀ es' w', int8System.Meets System.Answers w es' → int8System.run w es' = some w' →
        w'.thread.progress = .waiting 0 "0" := by
  have hwaiting : ((int8System.restrict System.Answers).run int8System.init
      (untilPut ++ [.make 0 .nil .nil, .other 0 (.process .nil), .client .stop])).map
        (fun w => w.thread.progress) = some (.waiting 0 "0") := by decide +kernel
  obtain ⟨w, hrun, hwaiting⟩ := Option.map_eq_some_iff.mp hwaiting
  obtain ⟨hrun, hanswers⟩ := EventMachine.meets_of_restrict hrun
  exact ⟨w, hrun, (output_puts_block .base (fun _ => ⟨rfl, rfl⟩) hanswers hrun).2 0 "0" hwaiting⟩

/-- **So is the first put of a value to a simpleBusy record.**  If nobody else puts to the
records, a call of `put()` that has issued a put has returned only if it put zero.  A thread that
puts a value waits for the answer, and still does after any further events. -/
theorem busy_puts_block (G : RecGbl) {convert : String → Int32} {n : ℕ}
    {pvStructure : ℕ → List (String × PVField)} {s₀ : ℕ → RecordState SimpleBusyRecord}
    (hidle : ∀ i, (s₀ i).pact = false) {es : List (Event Int32)} {w : System SimpleBusyRecord}
    (hes : ∀ e ∈ es, e.Allowed Undisturbed)
    (hanswers : (system (simpleBusyRSET G) convert n pvStructure s₀).Meets System.Answers
      (system (simpleBusyRSET G) convert n pvStructure s₀).init es)
    (hrun : (system (simpleBusyRSET G) convert n pvStructure s₀).run
      (system (simpleBusyRSET G) convert n pvStructure s₀).init es = some w) :
    (∃ done, w.thread.calls = done ++ current w.thread ∧
      ∀ call ∈ done, call.issued = true → convert call.val = 0) ∧
    ∀ i val, w.thread.progress = .waiting i val → convert val ≠ 0 → ∀ es' w',
      (∀ e ∈ es', e.Allowed Undisturbed) →
        (system (simpleBusyRSET G) convert n pvStructure s₀).Meets System.Answers w es' →
        (system (simpleBusyRSET G) convert n pvStructure s₀).run w es' = some w' →
          w'.thread.progress = .waiting i val :=
  puts_block (V := busyServing G) (fun i => ready_busyServing G (hidle i)) hes hanswers hrun

/-- A thread with a channel to a simpleBusy record. -/
abbrev busySystem : EventMachine (System SimpleBusyRecord) (Event Int32) :=
  system (simpleBusyRSET .base) (fun val => Int32.ofNat (fromString val)) 1
    (fun _ => [("value", .scalar)]) fun _ => { fields := {} }

/-- The put of zero is answered, and that of one in the second round is not. -/
def secondRound : List (Event Int32) :=
  untilPut ++ [.make 0 .nil .nil, .client (.putDone 0), .client .run, .client .run, .client .run,
    .client .run, .client .run, .client .run, .make 0 .nil .nil]

theorem busy_puts_block_second :
    ∃ w, busySystem.run busySystem.init secondRound = some w ∧
      ∀ es' w', (∀ e ∈ es', e.Allowed Undisturbed) → busySystem.Meets System.Answers w es' →
        busySystem.run w es' = some w' → w'.thread.progress = .waiting 0 "1" := by
  have hwaiting : ((busySystem.restrict System.Answers).run busySystem.init secondRound).map
      (fun w => w.thread.progress) = some (.waiting 0 "1") := by decide +kernel
  obtain ⟨w, hrun, hwaiting⟩ := Option.map_eq_some_iff.mp hwaiting
  obtain ⟨hrun, hanswers⟩ := EventMachine.meets_of_restrict hrun
  have hes : ∀ e ∈ secondRound, e.Allowed Undisturbed := by
    simp [secondRound, untilPut, Event.Allowed, Undisturbed]
  have hvalue : Int32.ofNat (fromString "1") ≠ 0 := by decide +kernel
  exact ⟨w, hrun, (busy_puts_block .base (fun _ => rfl) hes hanswers hrun).2 0 "1" hwaiting hvalue⟩

end BlockingPuts

end TestDatabase
