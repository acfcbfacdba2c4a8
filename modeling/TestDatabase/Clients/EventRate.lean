import Mathlib.Algebra.Order.BigOperators.Group.List
import Mathlib.Algebra.Order.Ring.Nat
import Mathlib.Algebra.Order.Ring.Rat
import TestDatabase.Lib.EventMachine

/-!
# Event rates

A monitor client counts the events it polls, and `report()` says how many there were each
second.  It reads the clock, takes the difference to the time stamp of the last report,
takes the counter and clears it, and reads the clock again for the next report.  Events and
time pass between these steps, since only the counter is guarded by the mutex.  The
clients of `getputmonitorrate`, `monitorrate` and `monitormerate` have the same code.

An event is polled and counted in one step of the event thread: `report()` sees the count
only.  The clock is any number that does not fall.

## Main definitions

* `World` — the members of the client, how far `report()` has come, and the clock.
* `rateClient` — the event machine of the event thread, the reports and the clock.
* `Report` — what a call of `report()` did and when.
* `Contiguous`, `World.Faithful` — what the rates should be.

## Main results

* `Inv.step` — what a report counts is what came between two takes of the counter.
* `faithful_iff_quiet` — **the rates are right exactly if the reports are not disturbed.**
-/

namespace TestDatabase.EventRate

/-- The clock and how many events have been polled. -/
@[ext] structure Moment where
  time : ℕ
  polled : ℕ
  deriving DecidableEq, Repr

/-- A call of `report()` that has returned. -/
structure Report where
  /-- When `timeStampLast` was read. -/
  start : Moment
  /-- When `timeStamp` was read. -/
  stop : Moment
  /-- How many events had been polled when the counter was taken the last time before. -/
  before : ℕ
  /-- The same, when the counter was taken. -/
  taken : ℕ
  /-- When `timeStampLast` was read again. -/
  again : Moment
  diff : ℤ
  numnow : ℕ
  deriving DecidableEq, Repr

/-- The rate returned, which the code rounds to a double. -/
def Report.persecond (r : Report) : ℚ := if 0 < r.diff then r.numnow / r.diff else 0

/-- How many events enter the rate returned. -/
def Report.used (r : Report) : ℕ := if 0 < r.diff then r.numnow else 0

/-- The rate is that of the events that enter it. -/
theorem Report.persecond_mul_diff (r : Report) : r.persecond * r.diff = r.used := by
  unfold Report.persecond Report.used
  split
  · next hdiff =>
    have hne : (r.diff : ℚ) ≠ 0 := by exact_mod_cast hdiff.ne'
    exact div_mul_cancel₀ _ hne
  · simp

/-- How far a call of `report()` has come, with its local variables. -/
inductive ReportStep
  | idle
  /-- The clock has been read. -/
  | timed (diff : ℤ) (stop : Moment)
  /-- The counter has been taken. -/
  | counted (diff : ℤ) (stop : Moment) (numnow before : ℕ)
  deriving DecidableEq, Repr

/-- The members of the client and what goes on around them. -/
structure World where
  numMonitor : ℕ := 0
  timeStamp : ℕ := 0
  timeStampLast : ℕ
  /-- The clock. -/
  now : ℕ
  polled : ℕ := 0
  progress : ReportStep := .idle
  /-- When `timeStampLast` was read. -/
  lastRead : Moment
  /-- How many events had been polled when the counter was taken last. -/
  lastTaken : ℕ := 0
  /-- The calls of `report()` that have returned, the last first. -/
  reports : List Report := []
  deriving DecidableEq, Repr

inductive Event
  /-- Time passes. -/
  | advance (duration : ℕ)
  /-- The event thread polls an event and counts it. -/
  | poll
  /-- The next step of `report()`. -/
  | report
  deriving DecidableEq, Repr

namespace World

/-- What the constructor leaves. -/
def construct (time : ℕ) : World := { timeStampLast := time, now := time, lastRead := ⟨time, 0⟩ }

/-- `timeStamp.getCurrent()` and the difference. -/
def readClock (w : World) : World :=
  { w with
    timeStamp := w.now
    progress := .timed ((w.now : ℤ) - w.timeStampLast) ⟨w.now, w.polled⟩ }

/-- The section under the mutex. -/
def takeCount (w : World) (diff : ℤ) (stop : Moment) : World :=
  { w with
    numMonitor := 0
    lastTaken := w.polled
    progress := .counted diff stop w.numMonitor w.lastTaken }

/-- `timeStampLast.getCurrent()`, and the return. -/
def readClockAgain (w : World) (diff : ℤ) (stop : Moment) (numnow before : ℕ) : World :=
  { w with
    timeStampLast := w.now
    lastRead := ⟨w.now, w.polled⟩
    progress := .idle
    reports := {
      start := w.lastRead, stop := stop, before := before, taken := w.lastTaken,
      again := ⟨w.now, w.polled⟩, diff := diff, numnow := numnow } :: w.reports }

/-- One event.  The reports are made by one thread, one after the other. -/
def step (w : World) : Event → Option World
  | .advance duration => some { w with now := w.now + duration }
  | .poll => some { w with polled := w.polled + 1, numMonitor := w.numMonitor + 1 }
  | .report =>
    match w.progress with
    | .idle => some w.readClock
    | .timed diff stop => some (w.takeCount diff stop)
    | .counted diff stop numnow before => some (w.readClockAgain diff stop numnow before)

/-- The events counted and not reported yet, in the counter or in a call of `report()`. -/
def pending (w : World) : ℕ :=
  match w.progress with
  | .counted _ _ numnow _ => w.numMonitor + numnow
  | _ => w.numMonitor

end World

/-- A client constructed at some time, among its event thread and its reports. -/
def rateClient (time : ℕ) : EventMachine World Event where
  init := .construct time
  step := World.step

/-! ### What the rates should be -/

/-- What is divided by the interval was polled in it. -/
def Report.Counts (r : Report) : Prop :=
  0 < r.diff → r.start.polled + r.numnow = r.stop.polled

/-- The first interval starts at `time`, and each other one where the one before stopped. -/
def Contiguous (time : ℕ) : List Report → Prop
  | [] => True
  | [r] => r.start.time = time
  | r :: r' :: reports => r.start.time = r'.stop.time ∧ Contiguous time (r' :: reports)

/-- Each rate is that of its interval, the intervals cover the time, and no event is lost. -/
structure World.Faithful (time : ℕ) (w : World) : Prop where
  interval : ∀ r ∈ w.reports, r.diff = (r.stop.time : ℤ) - r.start.time
  counts : ∀ r ∈ w.reports, r.Counts
  contiguous : Contiguous time w.reports
  conserved : (w.reports.map Report.used).sum + w.pending = w.polled

/-- No event is polled between the first reading of the clock and the take of the counter;
in a report with another one after it neither an event is polled nor does the clock go on
until the second reading; and a report with an empty interval comes when no event was polled
since the take before. -/
structure Quiet (reports : List Report) : Prop where
  taken : ∀ r ∈ reports, r.taken = r.stop.polled
  again : ∀ r ∈ reports.tail, r.again = r.stop
  interval : ∀ r ∈ reports, r.start.time < r.stop.time ∨ r.before = r.taken

/-! ### The invariant -/

/-- What is known of a report in itself. -/
structure Report.Ordered (r : Report) : Prop where
  before_le : r.before ≤ r.start.polled
  start_le : r.start.polled ≤ r.stop.polled
  stop_le : r.stop.polled ≤ r.taken
  taken_le : r.taken ≤ r.again.polled
  numnow : r.before + r.numnow = r.taken
  diff : r.diff = (r.stop.time : ℤ) - r.start.time

/-- The reports follow each other, from the construction up to the moment `timeStampLast`
was read and the count at the take before. -/
def Logged (time : ℕ) : List Report → Moment → ℕ → Prop
  | [], start, before => start = ⟨time, 0⟩ ∧ before = 0
  | r :: reports, start, before =>
    start = r.again ∧ before = r.taken ∧ r.Ordered ∧ Logged time reports r.start r.before

/-- What is known of a call of `report()` that has not returned. -/
def World.ProgressOk (time : ℕ) (w : World) : Prop :=
  match w.progress with
  | .idle => w.lastTaken ≤ w.lastRead.polled ∧ Logged time w.reports w.lastRead w.lastTaken
  | .timed diff stop => w.lastTaken ≤ w.lastRead.polled ∧ w.lastRead.polled ≤ stop.polled ∧
      stop.polled ≤ w.polled ∧ diff = (stop.time : ℤ) - w.lastRead.time ∧
      Logged time w.reports w.lastRead w.lastTaken
  | .counted diff stop numnow before => before ≤ w.lastRead.polled ∧
      w.lastRead.polled ≤ stop.polled ∧ stop.polled ≤ w.lastTaken ∧
      before + numnow = w.lastTaken ∧ diff = (stop.time : ℤ) - w.lastRead.time ∧
      Logged time w.reports w.lastRead before

/-- The invariant of the client. -/
structure World.Inv (time : ℕ) (w : World) : Prop where
  last : w.timeStampLast = w.lastRead.time
  read_le : w.lastRead.polled ≤ w.polled
  counter : w.lastTaken + w.numMonitor = w.polled
  progress : w.ProgressOk time

/-- A report with an interval, or with nothing to count, by the moments of its steps. -/
theorem Report.Ordered.interval_iff {r : Report} (h : r.Ordered) :
    0 < r.diff ∨ r.numnow = 0 ↔ r.start.time < r.stop.time ∨ r.before = r.taken := by
  have hdiff := h.diff
  have hnumnow := h.numnow
  omega

theorem World.inv_construct (time : ℕ) : (World.construct time).Inv time where
  last := rfl
  read_le := le_rfl
  counter := rfl
  progress := ⟨le_rfl, rfl, rfl⟩

/-- **Every event keeps the invariant.** -/
theorem World.Inv.step {time : ℕ} {w w' : World} {e : Event} (h : w.Inv time)
    (hs : w.step e = some w') : w'.Inv time := by
  have hprogress := h.progress
  have hlast := h.last
  have hread := h.read_le
  have hcounter := h.counter
  cases e with
  | advance duration =>
    obtain rfl := Option.some.inj hs
    exact ⟨hlast, hread, hcounter, hprogress⟩
  | poll =>
    obtain rfl := Option.some.inj hs
    refine ⟨hlast, Nat.le_succ_of_le hread, congrArg (· + 1) hcounter, ?_⟩
    unfold ProgressOk at hprogress ⊢
    cases hp : w.progress with
    | idle => simpa [hp] using hprogress
    | timed diff stop =>
      simp only [hp] at hprogress ⊢
      obtain ⟨hbefore, hstart, hstop, hrest⟩ := hprogress
      exact ⟨hbefore, hstart, Nat.le_succ_of_le hstop, hrest⟩
    | counted diff stop numnow before => simpa [hp] using hprogress
  | report =>
    unfold ProgressOk at hprogress
    cases hp : w.progress with
    | idle =>
      simp only [hp, World.step] at hprogress hs
      obtain rfl := Option.some.inj hs
      refine ⟨hlast, hread, hcounter, hprogress.1, hread, le_rfl, ?_, hprogress.2⟩
      show (w.now : ℤ) - w.timeStampLast = (w.now : ℤ) - w.lastRead.time
      rw [hlast]
    | timed diff stop =>
      simp only [hp, World.step] at hprogress hs
      obtain ⟨hbefore, hstart, hstop, hrest⟩ := hprogress
      obtain rfl := Option.some.inj hs
      exact ⟨hlast, hread, rfl, hbefore, hstart, hstop, hcounter, hrest⟩
    | counted diff stop numnow before =>
      simp only [hp, World.step] at hprogress hs
      obtain ⟨hbefore, hstart, hstop, hnumnow, hdiff, hlogged⟩ := hprogress
      obtain rfl := Option.some.inj hs
      have htaken : w.lastTaken ≤ w.polled := by omega
      exact ⟨rfl, le_rfl, hcounter, htaken, rfl, rfl,
        ⟨hbefore, hstart, hstop, htaken, hnumnow, hdiff⟩, hlogged⟩

theorem World.inv_of_reachable {time : ℕ} {w : World} (hw : (rateClient time).Reachable w) :
    w.Inv time :=
  hw.invariant (World.inv_construct time) fun _ _ _ h _ hs => h.step hs

/-! ### What the log says -/

theorem Logged.ordered {time : ℕ} {reports : List Report} {start : Moment} {before : ℕ}
    (h : Logged time reports start before) : ∀ r ∈ reports, r.Ordered := by
  induction reports generalizing start before with
  | nil => simp
  | cons r reports ih =>
    obtain ⟨-, -, hr, hlogged⟩ := h
    intro r' hr'
    rcases List.mem_cons.mp hr' with rfl | hr'
    · exact hr
    · exact ih hlogged r' hr'

/-- What the reports have taken is what was polled up to the last take. -/
theorem Logged.sum_numnow {time : ℕ} {reports : List Report} {start : Moment} {before : ℕ}
    (h : Logged time reports start before) : (reports.map Report.numnow).sum = before := by
  induction reports generalizing start before with
  | nil => exact h.2.symm
  | cons r reports ih =>
    obtain ⟨-, htaken, hr, hlogged⟩ := h
    have hsum := ih hlogged
    have hnumnow := hr.numnow
    rw [List.map_cons, List.sum_cons]
    omega

/-- The events that enter the rates are all those taken if each report has an interval or
nothing to count. -/
theorem sum_used_eq_iff (reports : List Report) :
    (reports.map Report.used).sum = (reports.map Report.numnow).sum ↔
      ∀ r ∈ reports, 0 < r.diff ∨ r.numnow = 0 := by
  have hle : ∀ reports : List Report,
      (reports.map Report.used).sum ≤ (reports.map Report.numnow).sum := by
    intro reports
    refine List.sum_le_sum fun r _ => ?_
    unfold Report.used
    split <;> omega
  induction reports with
  | nil => simp
  | cons r reports ih =>
    have hrest := hle reports
    have hused : r.used ≤ r.numnow ∧ (r.used = r.numnow ↔ 0 < r.diff ∨ r.numnow = 0) := by
      unfold Report.used
      split <;> omega
    rw [List.forall_mem_cons, List.map_cons, List.sum_cons, List.map_cons, List.sum_cons]
    constructor
    · intro hsum
      exact ⟨hused.2.mp (by omega), ih.mp (by omega)⟩
    · rintro ⟨hr, hreports⟩
      rw [hused.2.mpr hr, ih.mpr hreports]

/-- The intervals follow each other and hold what is counted in them exactly if the reports
are not disturbed. -/
theorem Logged.counts_and_contiguous_iff {time : ℕ} {reports : List Report} {start : Moment}
    {before : ℕ} (h : Logged time reports start before)
    (hinterval : ∀ r ∈ reports, 0 < r.diff ∨ r.numnow = 0) :
    ((∀ r ∈ reports, r.Counts) ∧ Contiguous time reports) ↔
      (∀ r ∈ reports, r.taken = r.stop.polled) ∧ ∀ r ∈ reports.tail, r.again = r.stop := by
  -- a report counts what it should if nothing came in between either take and the clock
  have hcounts : ∀ r : Report, r.Ordered → 0 < r.diff ∨ r.numnow = 0 →
      (r.Counts ↔ r.before = r.start.polled ∧ r.taken = r.stop.polled) := by
    rintro r ⟨hbefore, hstart, hstop, -, hnumnow, -⟩ hr
    unfold Report.Counts
    omega
  induction reports generalizing start before with
  | nil => simp [Contiguous]
  | cons r reports ih =>
    obtain ⟨-, -, hr, hlogged⟩ := h
    have hr' := hcounts r hr (hinterval r (by simp))
    have hrest := ih hlogged fun r' hmem => hinterval r' (by simp [hmem])
    cases reports with
    | nil =>
      obtain ⟨hstart, hbefore⟩ := hlogged
      simp [hr', Contiguous, hstart, hbefore]
    | cons r' reports =>
      obtain ⟨hstart, hbefore, -, -⟩ := hlogged
      have hsplit : ∀ (p : Report → Prop), (∀ x ∈ r :: r' :: reports, p x) ↔
          p r ∧ ∀ x ∈ r' :: reports, p x := fun p => List.forall_mem_cons
      have htail : (∀ x ∈ (r :: r' :: reports).tail, x.again = x.stop) ↔
          r'.again = r'.stop ∧ ∀ x ∈ (r' :: reports).tail, x.again = x.stop :=
        List.forall_mem_cons
      rw [hsplit, hsplit, htail, hr', Contiguous, hstart, hbefore, Moment.ext_iff]
      constructor
      · rintro ⟨⟨⟨hbetween, htaken⟩, hrest'⟩, htime, hcontiguous⟩
        obtain ⟨htaken', hagain'⟩ := hrest.mp ⟨hrest', hcontiguous⟩
        have hfirst := htaken' r' (by simp)
        exact ⟨⟨htaken, htaken'⟩, ⟨htime, by omega⟩, hagain'⟩
      · rintro ⟨⟨htaken, htaken'⟩, ⟨htime, hpolled⟩, hagain'⟩
        obtain ⟨hrest', hcontiguous⟩ := hrest.mpr ⟨htaken', hagain'⟩
        have hfirst := htaken' r' (by simp)
        exact ⟨⟨⟨by omega, htaken⟩, hrest'⟩, htime, hcontiguous⟩

/-! ### When the rates are right -/

/-- What has been taken by reports that returned and what is pending is what was polled. -/
theorem World.Inv.sum_numnow_add_pending {time : ℕ} {w : World} (h : w.Inv time) :
    (w.reports.map Report.numnow).sum + w.pending = w.polled := by
  have hprogress := h.progress
  have hcounter := h.counter
  unfold ProgressOk at hprogress
  unfold pending
  cases hp : w.progress with
  | idle =>
    simp only [hp] at hprogress ⊢
    rw [hprogress.2.sum_numnow, hcounter]
  | timed diff stop =>
    simp only [hp] at hprogress ⊢
    obtain ⟨-, -, -, -, hlogged⟩ := hprogress
    rw [hlogged.sum_numnow, hcounter]
  | counted diff stop numnow before =>
    simp only [hp] at hprogress ⊢
    obtain ⟨-, -, -, hnumnow, -, hlogged⟩ := hprogress
    rw [hlogged.sum_numnow]
    omega

theorem World.Inv.logged {time : ℕ} {w : World} (h : w.Inv time) :
    ∃ before, Logged time w.reports w.lastRead before := by
  have hprogress := h.progress
  unfold ProgressOk at hprogress
  cases hp : w.progress with
  | idle =>
    simp only [hp] at hprogress
    exact ⟨_, hprogress.2⟩
  | timed diff stop =>
    simp only [hp] at hprogress
    obtain ⟨-, -, -, -, hlogged⟩ := hprogress
    exact ⟨_, hlogged⟩
  | counted diff stop numnow before =>
    simp only [hp] at hprogress
    obtain ⟨-, -, -, -, -, hlogged⟩ := hprogress
    exact ⟨_, hlogged⟩

/-- **When the rates are right.**  After any interleaving of the event thread, the reports
and the clock, each rate is that of its interval, the intervals cover the time since the
construction, and no event is lost, exactly if the reports were not disturbed. -/
theorem faithful_iff_quiet {time : ℕ} {w : World} (hw : (rateClient time).Reachable w) :
    w.Faithful time ↔ Quiet w.reports := by
  have hinv := World.inv_of_reachable hw
  obtain ⟨before, hlogged⟩ := hinv.logged
  have hsum := hinv.sum_numnow_add_pending
  have hconserved : (w.reports.map Report.used).sum + w.pending = w.polled ↔
      ∀ r ∈ w.reports, 0 < r.diff ∨ r.numnow = 0 := by
    rw [← sum_used_eq_iff]
    omega
  have hmoments : (∀ r ∈ w.reports, 0 < r.diff ∨ r.numnow = 0) ↔
      ∀ r ∈ w.reports, r.start.time < r.stop.time ∨ r.before = r.taken :=
    forall₂_congr fun r hr => (hlogged.ordered r hr).interval_iff
  constructor
  · rintro ⟨-, hcounts, hcontiguous, hused⟩
    have hinterval := hconserved.mp hused
    obtain ⟨htaken, hagain⟩ :=
      (hlogged.counts_and_contiguous_iff hinterval).mp ⟨hcounts, hcontiguous⟩
    exact ⟨htaken, hagain, hmoments.mp hinterval⟩
  · rintro ⟨htaken, hagain, hquiet⟩
    have hinterval := hmoments.mpr hquiet
    obtain ⟨hcounts, hcontiguous⟩ :=
      (hlogged.counts_and_contiguous_iff hinterval).mpr ⟨htaken, hagain⟩
    exact ⟨fun r hr => (hlogged.ordered r hr).diff, hcounts, hcontiguous, hconserved.mpr hinterval⟩

/-- Two reports with time between them, during which events are polled. -/
theorem faithful_two_reports : ∃ w, (rateClient 7).Reachable w ∧ w.reports.length = 2 ∧
    w.Faithful 7 := by
  obtain ⟨w, hw, hp⟩ := (rateClient 7).exists_reachable_of_run
    [.poll, .advance 1, .report, .report, .report, .advance 2, .poll, .poll, .report, .report,
      .report, .poll]
    (fun w => decide (w.reports.length = 2 ∧ (∀ r ∈ w.reports, r.taken = r.stop.polled) ∧
      (∀ r ∈ w.reports.tail, r.again = r.stop) ∧
      ∀ r ∈ w.reports, r.start.time < r.stop.time ∨ r.before = r.taken))
    (by decide)
  obtain ⟨hlength, htaken, hagain, hinterval⟩ := of_decide_eq_true hp
  exact ⟨w, hw, hlength, (faithful_iff_quiet hw).mpr ⟨htaken, hagain, hinterval⟩⟩

/-- The clock goes on between the two readings of the first report, and an event is polled
there: the second report counts an event from before its interval. -/
theorem not_faithful_of_disturbed :
    ¬ ∀ time w, (rateClient time).Reachable w → w.Faithful time := by
  intro h
  obtain ⟨w, hw, hp⟩ := (rateClient 0).exists_reachable_of_run
    [.advance 1, .report, .report, .poll, .advance 1, .report, .advance 1, .report, .report,
      .report]
    (fun w => decide (∃ r ∈ w.reports, 0 < r.diff ∧ r.start.polled + r.numnow ≠ r.stop.polled))
    (by decide)
  obtain ⟨r, hr, hdiff, hwrong⟩ := of_decide_eq_true hp
  exact hwrong ((h 0 w hw).counts r hr hdiff)

end TestDatabase.EventRate
