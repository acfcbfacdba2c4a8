import TestDatabase.Lib.FirstMatch
import TestDatabase.Db.DriveLimits

/-!
# Hysteresis

LALM holds an alarm until the value has left its limit by more than HYST.  This file asks
what LALM may do besides, for the four output records with fields of 8 and 16 bits.

Processing a record again does not change what it remembers, so that nothing changes.
But LALM is zero before the first value is put, as if an alarm with the limit zero had
been active, and the first value may be held in an alarm that it has never reached.

## Main definitions

* `initialised` — the record as its first put finds it.
* `OutRecord.SidesDiffer` — no enabled high limit is an enabled low limit.

## Main results

* `OutRecord.process_of_udf` — what `process` does to an undefined record.
* `OutRecord.process_process` — processing twice is processing once.
* `first_alarm_reached_iff` — when a first alarm is one whose limit was reached.
-/

namespace TestDatabase

open FieldType NarrowField

namespace OutRecord

/-- Clamping does not look at LALM. -/
theorem clamped_lalm {F : Type} [LT F] [DecidableLT F] [DecidableEq F] (r : OutRecord F) (lalm : F) :
    { r with lalm }.clamped = { r.clamped with lalm } := by
  unfold clamped
  simp only
  split
  · split <;> split <;> rfl
  · rfl

variable {F : Type} [FieldType F] {G : RecGbl} {s : RecordState (OutRecord F)}
  {link : RecordState (OutRecord F) → RecordState (OutRecord F)}

/-- Some alarm is raised exactly when the condition of one holds. -/
theorem alarm_ne_noAlarm_iff (r : OutRecord F) :
    r.alarm.2 ≠ .noAlarm ↔ ∃ k, r.Holds k := by
  unfold alarm
  cases hactive : r.activeAlarm with
  | some k =>
    have hk : r.Holds k := holds_of_activeAlarm hactive
    exact iff_of_true hk.1 ⟨k, hk⟩
  | none =>
    refine iff_of_false (not_not_intro rfl) ?_
    rintro ⟨k, hk⟩
    exact not_holds_of_activeAlarm hactive k hk

/-- A record that finds the same alarm with another LALM raises and remembers the same. -/
theorem alarm_memory_of_activeAlarm {r : OutRecord F} {lalm : F}
    (h : { r with lalm }.activeAlarm = r.activeAlarm) :
    { r with lalm }.alarm = r.alarm ∧ { r with lalm }.memory = r.memory := by
  constructor
  · rw [alarm, alarm, h]
    rfl
  · rw [memory, memory, h]
    rfl

/-- No enabled limit of the high side is also one of the low side. -/
def SidesDiffer (r : OutRecord F) : Prop :=
  ∀ k k', r.config.Enabled k → r.config.Enabled k' → k.isHigh = true → k'.isHigh = false →
    r.config.limit k ≠ r.config.limit k'

/-- Enabled alarms with one limit are on one side. -/
theorem SidesDiffer.isHigh_eq {r : OutRecord F} (h : r.SidesDiffer) {k k' : AlarmKind}
    (hk : r.config.Enabled k) (hk' : r.config.Enabled k')
    (hlimit : r.config.limit k = r.config.limit k') : k.isHigh = k'.isHigh := by
  cases hside : k.isHigh <;> cases hside' : k'.isHigh
  · rfl
  · exact absurd hlimit.symm (h k' k hk' hk hside' hside)
  · exact absurd hlimit (h k k' hk hk' hside hside')
  · rfl

section again
variable [LT F] [NarrowField F]

/-- Alarms with one limit on one side have the same condition. -/
theorem holds_congr {r : OutRecord F} {k k' : AlarmKind} (hk : r.config.Enabled k)
    (hk' : r.config.Enabled k') (hlimit : r.config.limit k = r.config.limit k')
    (hside : k.isHigh = k'.isHigh) : r.Holds k ↔ r.Holds k' := by
  rw [holds_iff, holds_iff, AlarmConfig.Reached, AlarmConfig.Reached, AlarmConfig.Within,
    AlarmConfig.Within, hlimit, hside]
  exact and_congr_left fun _ => iff_of_true hk hk'

/-- **What LALM remembers finds the same alarm again.** -/
theorem activeAlarm_memory {r : OutRecord F} (hsides : r.SidesDiffer) :
    { r with lalm := r.memory }.activeAlarm = r.activeAlarm := by
  have hiff : ∀ k, { r with lalm := r.memory }.Holds k ↔ r.config.Enabled k ∧
      (r.config.Reached (toInt r.val) k ∨
        toInt r.memory = r.config.limit k ∧ r.config.Within (toInt r.val) k) :=
    fun k => holds_iff { r with lalm := r.memory } k
  refine List.find?_eq_of_imp ?_ ?_
  · -- what holds again held before
    intro k _ hk
    obtain ⟨henabled, hk⟩ := (hiff k).mp (of_decide_eq_true hk)
    refine decide_eq_true ?_
    rcases hk with hreached | ⟨hmemory, -⟩
    · exact (holds_iff r k).mpr ⟨henabled, .inl hreached⟩
    · unfold memory at hmemory
      cases hactive : r.activeAlarm with
      | some m =>
        rw [hactive] at hmemory
        simp only [ofInt32_toInt32] at hmemory
        have hm : r.Holds m := holds_of_activeAlarm hactive
        exact (holds_congr hm.1 henabled hmemory (hsides.isHigh_eq hm.1 henabled hmemory)).mp hm
      | none =>
        -- LALM is the value, which has then reached the limit
        rw [hactive] at hmemory
        simp only [ofInt32_toInt32] at hmemory
        refine (holds_iff r k).mpr ⟨henabled, .inl ?_⟩
        unfold AlarmConfig.Reached
        split
        · exact hmemory.ge
        · exact hmemory.le
  · -- the alarm found holds again
    intro m hactive
    have hm : r.Holds m := holds_of_activeAlarm hactive
    obtain ⟨henabled, hm⟩ := (holds_iff r m).mp hm
    have hmemory : toInt r.memory = r.config.limit m := by
      unfold memory
      rw [show r.activeAlarm = some m from hactive]
      simp only [ofInt32_toInt32]
      rfl
    refine decide_eq_true ((hiff m).mpr ⟨henabled, ?_⟩)
    exact hm.imp_right fun h => ⟨hmemory, h.2⟩

end again

variable [LT F] [DecidableLT F] [DecidableEq F]

theorem clamped_clamped [IntegerField F] (r : OutRecord F) : r.clamped.clamped = r.clamped := by
  have hval : r.clamped.clamped.val = r.clamped.val := by
    rw [← IntegerField.toInt_inj, toInt_val_clamped, toInt_val_clamped, config_clamped,
      AlarmConfig.clamp_clamp]
  rw [clamped_eq r.clamped, hval]

/-- **What `process` does** to an undefined record without a new alarm. -/
theorem process_of_udf (hudf : s.udf = true) (hnsta : s.nsta = .noAlarm)
    (hnsev : s.nsev = .noAlarm) :
    process G link s = { s with
      pact := false
      stat := if s.udfs = .noAlarm then .noAlarm else .udf
      sevr := s.udfs
      nsta := .noAlarm
      nsev := .noAlarm
      fields := s.fields.clamped } := by
  unfold process checkAlarms
  rw [if_pos hudf]
  simp only
  by_cases hudfs : s.udfs = .noAlarm
  · have hnlt : ¬ s.nsev < s.udfs := by
      rw [hnsev, MenuAlarmSevr.noAlarm_lt_iff]
      exact not_not_intro hudfs
    rw [G.setSevr_of_not_lt _ _ _ hnlt, G.resetAlarms_eq, if_pos hudfs, hnsta, hnsev, hudfs]
  · have hlt : s.nsev < s.udfs := by
      rw [hnsev]
      exact MenuAlarmSevr.noAlarm_lt_iff.mpr hudfs
    rw [G.setSevr_of_lt _ _ _ hlt, G.resetAlarms_eq, if_neg hudfs]

/-- **Processing twice is processing once.**  A record without a new alarm, neither severity
nor condition, and without a limit that is enabled on both sides, is left by `process` as
`process` leaves it. -/
theorem process_process [NarrowField F] (hnsev : s.nsev = .noAlarm)
    (hpaired : s.toDbCommon.Paired) (hsides : s.fields.SidesDiffer) :
    process G link (process G link s) = process G link s := by
  have hnsta : s.nsta = .noAlarm := hpaired hnsev
  cases hudf : s.udf with
  | true =>
    have honce : process G link s = _ := process_of_udf hudf hnsta hnsev
    have htwice : process G link (process G link s) = _ :=
      process_of_udf (by rw [honce]; exact hudf) (by rw [honce]) (by rw [honce])
    rw [htwice, honce]
    simp only [clamped_clamped]
  | false =>
    have honce : process G link s = _ := process_eq hudf hnsta hnsev
    have htwice : process G link (process G link s) = _ :=
      process_eq (by rw [honce]; exact hudf) (by rw [honce]) (by rw [honce])
    generalize hr : s.fields.clamped = r at honce
    -- the record left is clamped, and LALM finds its alarm again
    have hclamped : { r with lalm := r.memory }.clamped = { r with lalm := r.memory } := by
      rw [clamped_lalm, ← hr, clamped_clamped]
    have hsides' : r.SidesDiffer := by
      rw [SidesDiffer, ← hr, config_clamped]
      exact hsides
    obtain ⟨halarm, hmemory⟩ := alarm_memory_of_activeAlarm (activeAlarm_memory hsides')
    rw [htwice, honce]
    simp only [hclamped, halarm, hmemory]

/-- The high limits of int8.db are not its low limits. -/
theorem sidesDiffer_int8 : int8.SidesDiffer := by
  intro k k' _ _ hk hk'
  cases k <;> cases k' <;> first | exact absurd hk (by decide) | exact absurd hk' (by decide) | decide

/-- The high alarm held at 95 by a hysteresis of ten is held when the record is processed
again. -/
theorem process_process_held :
    process .base id (process .base id { udf := false, fields := { int8 with
        val := 95, hyst := 10, lalm := 100 } }) =
      process .base id { udf := false, fields := { int8 with val := 95, hyst := 10, lalm := 100 } } ∧
    (process .base id { udf := false, fields := { int8 with
        val := 95, hyst := 10, lalm := 100 } }).stat = .high := by
  exact ⟨process_process rfl (fun _ => rfl) sidesDiffer_int8, by decide +kernel⟩

/-- A condition without a severity, left in NSTA by a client: `process` moves it to STAT, and
processing again clears it. -/
theorem not_process_process : ¬ ∀ s : RecordState CharoutRecord, s.nsev = .noAlarm →
    s.fields.SidesDiffer →
    (process .base id (process .base id s)).stat = (process .base id s).stat := by
  intro hall
  have hstat := hall { udf := false, nsta := .hihi, fields := int8 } rfl sidesDiffer_int8
  exact absurd hstat (by decide +kernel)

/-- A record that was initialised has a new alarm only together with its severity. -/
theorem paired_of_reachable {s₀ : RecordState (OutRecord F)}
    (hs : (database (outRSET G F) s₀).Reachable s) : s.toDbCommon.Paired := by
  have hprocess : ∀ (link : RecordState (OutRecord F) → RecordState (OutRecord F)) s,
      (process G link s).toDbCommon.Paired := by
    intro link s
    exact G.paired_resetAlarms _
  have hdb : ∀ (link : Chain F) (s : RecordState (OutRecord F)), s.toDbCommon.Paired →
      (dbProcess (outRSET G F) link s).toDbCommon.Paired := by
    intro link s hs
    unfold dbProcess
    split
    · exact hs
    · exact hprocess (recGblFwdLink (outRSET G F) link) s
  refine hs.invariant (I := fun s => s.toDbCommon.Paired) (G.paired_resetAlarms _) ?_
  intro s e t hs _ hst
  cases e with
  | put value notify inSpecial afterwards =>
    obtain rfl := Option.some.inj hst
    cases hpact : s.pact with
    | true =>
      rw [putField_of_active (s := { s with waiting := notify.toList ++ s.waiting }) hpact]
      exact hs
    | false =>
      rw [putField_of_idle (s := { s with waiting := notify.toList ++ s.waiting }) hpact]
      exact hprocess _ _
  | special after link =>
    obtain rfl := Option.some.inj hst
    exact hs
  | process link =>
    obtain rfl := Option.some.inj hst
    exact hdb link s hs
  | queued link =>
    simp only [database, Rset.step, Option.ite_none_left_eq_some, Option.some.injEq] at hst
    obtain ⟨-, rfl⟩ := hst
    exact hdb link { s with queued := s.queued - 1 } hs

end OutRecord

/-! ### The first value -/

section first

variable {F : Type} [LT F] [DecidableLT F] [DecidableEq F] [FieldType F]

/-- A record with the fields `r` after `init_record`, when its first put has cleared UDF. -/
def initialised (G : RecGbl) (common : DbCommon) (r : OutRecord F) : RecordState (OutRecord F) :=
  { OutRecord.initRecord G { toDbCommon := common, fields := r } with udf := false }

/-- **When a first alarm is one whose limit was reached.**  The first value put raises an
alarm only if it has reached an enabled limit, exactly if it has reached one or is not
within HYST of an enabled limit that is zero, as LALM still is. -/
theorem first_alarm_reached_iff [NarrowField F] (G : RecGbl) (common : DbCommon)
    (r : OutRecord F) (hpact : common.pact = false) (hlalm : toInt r.lalm = 0) (value : F) :
    ((putAndProcess G (initialised G common r) value).2.2 ≠ .noAlarm →
        ∃ k, r.config.Enabled k ∧ r.config.Reached (r.config.clamp (toInt value)) k) ↔
      (∃ k, r.config.Enabled k ∧ r.config.Reached (r.config.clamp (toInt value)) k) ∨
        ∀ k, r.config.Enabled k → r.config.limit k = 0 →
          ¬ r.config.Within (r.config.clamp (toInt value)) k := by
  have hinit : initialised G common r = {
      pact := common.pact, rpro := common.rpro, udf := false, udfs := common.udfs
      stat := common.nsta, sevr := common.nsev, nsta := .noAlarm, nsev := .noAlarm
      fields := r } := by
    rw [initialised, OutRecord.initRecord, G.resetAlarms_eq]
  generalize hclamped : ({ r with val := value } : OutRecord F).clamped = v
  have hleft : (putAndProcess G (initialised G common r) value).2 = v.alarm := by
    rw [hinit, putAndProcess_alarm hpact rfl rfl rfl, hclamped]
  -- what the code tests for the first value
  have hholds : ∀ k, v.Holds k ↔ r.config.Enabled k ∧
      (r.config.Reached (r.config.clamp (toInt value)) k ∨
        r.config.limit k = 0 ∧ r.config.Within (r.config.clamp (toInt value)) k) := by
    intro k
    have hconfig : v.config = r.config := by
      rw [← hclamped, OutRecord.config_clamped]
      rfl
    have hval : toInt v.val = r.config.clamp (toInt value) := by
      rw [← hclamped, OutRecord.toInt_val_clamped]
      rfl
    have hv : toInt v.lalm = 0 := by
      rw [← hclamped, OutRecord.clamped_eq]
      exact hlalm
    rw [OutRecord.holds_iff, hconfig, hval, hv, eq_comm (a := (0 : ℤ))]
  rw [hleft, OutRecord.alarm_ne_noAlarm_iff]
  constructor
  · intro h
    by_cases hraised : ∃ k, v.Holds k
    · exact .inl (h hraised)
    · refine .inr fun k henabled hzero hwithin => ?_
      exact hraised ⟨k, (hholds k).mpr ⟨henabled, .inr ⟨hzero, hwithin⟩⟩⟩
  · rintro (hreached | hnone) ⟨k, hk⟩
    · exact hreached
    · obtain ⟨henabled, hreached | ⟨hzero, hwithin⟩⟩ := (hholds k).mp hk
      · exact ⟨k, henabled, hreached⟩
      · exact absurd hwithin (hnone k henabled hzero)

/-- The value 105 raises the high alarm of int8.db, whose limit 100 it has reached. -/
theorem first_alarm_reached_int8 :
    (putAndProcess .base (initialised .base {} int8) 105).2 = (.high, .minor) ∧
      ∃ k, int8.config.Enabled k ∧ int8.config.Reached (int8.config.clamp 105) k := by
  have halarm : (putAndProcess .base (initialised .base {} int8) 105).2 = (.high, .minor) := by
    decide +kernel
  have hreached := (first_alarm_reached_iff .base {} int8 rfl rfl 105).mpr
    (.inl ⟨.high, (by decide : MenuAlarmSevr.minor ≠ .noAlarm), by decide⟩)
  refine ⟨halarm, hreached ?_⟩
  rw [halarm]
  decide

/-- With the low limit at zero and a hysteresis of ten the first value 5 raises the low
alarm, and has reached no limit. -/
theorem first_alarm_not_reached :
    { int8 with low := 0, hyst := 10 }.config.LimitsDistinct ∧
    (putAndProcess .base (initialised .base {} { int8 with low := 0, hyst := 10 }) 5).2 =
      (.low, .minor) ∧
    ¬ ∃ k, { int8 with low := 0, hyst := 10 }.config.Enabled k ∧
      { int8 with low := 0, hyst := 10 }.config.Reached
        ({ int8 with low := 0, hyst := 10 }.config.clamp 5) k := by
  refine ⟨?_, by decide +kernel, ?_⟩
  · intro k k' _ _ h
    cases k <;> cases k' <;> first | rfl | exact absurd h (by decide)
  · rintro ⟨k, -, hk⟩
    revert hk
    cases k <;> decide

end first

end TestDatabase
