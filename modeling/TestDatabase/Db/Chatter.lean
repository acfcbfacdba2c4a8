import TestDatabase.Lib.Deadband
import TestDatabase.Db.AlarmLevels

/-!
# Hysteresis keeps alarms from chattering

HYST is there to keep a value that moves about a limit from raising an alarm each time.  This
file says how often a record raises an alarm all the same, for the four output records with
fields of 8 and 16 bits and for every configuration with the limits told apart by LALM.

An alarm may be raised again without its limit having been left by more than HYST, after one
that is checked earlier has taken its place.  The bound holds all the same: some limit has been
left by more than HYST, and come back to.

## Main definitions

* `AlarmConfig.triggers` — the enabled alarms, as triggers with a gap.

## Main results

* `AlarmConfig.next_eq` — the active alarm is the trigger that is on.
* `alarms_seldom` — **an alarm is raised once, and once more for each time that the clamped
  values vary by more than HYST.**
-/

namespace TestDatabase

open FieldType Deadband

namespace AlarmConfig

instance (c : AlarmConfig) (k : AlarmKind) : Decidable (c.Enabled k) :=
  inferInstanceAs (Decidable (¬ _))

/-- The enabled alarms.  A value holds an alarm that is short of its limit by HYST, and gives it
up when one short by more. -/
def triggers (c : AlarmConfig) : Triggers AlarmKind ℤ where
  order := AlarmKind.order.filter fun k => decide (c.Enabled k)
  short k v := if k.isHigh then c.limit k - v else v - c.limit k
  gap := c.hyst + 1
  short_le k u v := by
    have hup := le_abs_self (v - u)
    have hdown := neg_abs_le (v - u)
    split
    · omega
    · omega

variable {c : AlarmConfig} {v : ℤ} {k : AlarmKind}

theorem short_le_zero_iff : c.triggers.short k v ≤ 0 ↔ c.Reached v k := by
  unfold Reached triggers
  simp only
  split
  · omega
  · omega

theorem short_lt_gap_iff : c.triggers.short k v < c.triggers.gap ↔ c.Within v k := by
  unfold Within triggers
  simp only
  split
  · omega
  · omega

/-- The active alarm is the trigger that is on. -/
theorem next_eq (active : Option AlarmKind) (v : ℤ) :
    c.next active v = c.triggers.next active (c.clamp v) := by
  have horder : c.triggers.order = AlarmKind.order.filter fun k => decide (c.Enabled k) := rfl
  rw [next, Triggers.next, horder, List.find?_filter]
  congr 1
  funext k
  rw [decide_eq_decide, decide_eq_true_iff, decide_eq_true_iff, Raises, Triggers.Holds,
    short_le_zero_iff, short_lt_gap_iff]

/-- The reference machine raises the alarms of the triggers that are on. -/
theorem outputs_step_eq (active : Option AlarmKind) (vs : List ℤ) :
    EventMachine.outputs c.step active vs =
      (c.triggers.states active (vs.map c.clamp)).map c.alarm := by
  induction vs generalizing active with
  | nil => rfl
  | cons v vs ih =>
    rw [List.map_cons, EventMachine.outputs, Triggers.states, List.map_cons, ← next_eq, ← ih]
    rfl

/-- **The reference machine raises an alarm** once, and once more for each time that the clamped
values vary by more than the hysteresis. -/
theorem timesEntered_outputs_mul_le (hhyst : 0 ≤ c.hyst) (k : AlarmKind) (vs : List ℤ) :
    timesEntered (c.alarm (some k)) (c.alarm none) (EventMachine.outputs c.step none vs) *
        (c.hyst + 1) ≤
      variation (vs.map c.clamp) + (c.hyst + 1) := by
  rw [outputs_step_eq, timesEntered_map fun _ _ => alarm_inj.mp]
  refine c.triggers.timesEntered_mul_le ?_ k _
  exact Int.le_add_one hhyst

end AlarmConfig

variable {F : Type} [LT F] [DecidableLT F] [DecidableEq F] [FieldType F] [NarrowField F]

/-- **An alarm is seldom raised.**  Along every run of puts a record raises an alarm at most
once, and once more for each time that the clamped values vary by more than HYST. -/
theorem alarms_seldom (G : RecGbl) (r : OutRecord F) (common : DbCommon)
    (hpact : common.pact = false) (hudf : common.udf = false) (hlalm : toInt r.lalm = 0)
    (hdistinct : r.config.LimitsDistinct)
    (hzero : ∀ k, r.config.Enabled k → r.config.limit k ≠ 0) (hhyst : 0 ≤ toInt r.hyst)
    (k : AlarmKind) (puts : List F) :
    timesEntered (k.condition, r.severity k) (.noAlarm, .noAlarm)
          (EventMachine.outputs (putAndProcess G)
            (OutRecord.initRecord G { toDbCommon := common, fields := r }) puts) *
        (toInt r.hyst + 1) ≤
      variation (puts.map fun value => r.config.clamp (toInt value)) + (toInt r.hyst + 1) := by
  have houtputs := EventMachine.outputs_eq (R := Simulates r.config)
    (fun s active value (hs : Simulates r.config s active) => hs.step (G := G) hdistinct value)
    (simulates_initRecord (G := G) hpact hudf hlalm hzero) puts
  have hle := AlarmConfig.timesEntered_outputs_mul_le (c := r.config) hhyst k (puts.map toInt)
  rw [List.map_map] at hle
  rw [houtputs]
  exact hle

/-- With a hysteresis of ten the high alarm of int8.db, whose limit is 100, is raised once for
values that vary by nine. -/
theorem alarms_seldom_int8 :
    timesEntered (.high, .minor) (.noAlarm, .noAlarm)
      (EventMachine.outputs (putAndProcess .base)
        (OutRecord.initRecord .base
          { toDbCommon := { udf := false }, fields := { int8 with hyst := 10 } })
        [100, 99, 100, 95, 97]) ≤ 1 := by
  have hle := alarms_seldom .base { int8 with hyst := 10 } { udf := false } rfl rfl rfl
    (by intro k k' _ _ h; cases k <;> cases k' <;> first | rfl | exact absurd h (by decide))
    (by intro k _; cases k <;> decide) (by decide) .high [100, 99, 100, 95, 97]
  have hvariation : variation (([100, 99, 100, 95, 97] : List Int8).map fun value =>
      { int8 with hyst := 10 }.config.clamp (toInt value)) = 9 := by decide +kernel
  have hhyst : toInt ({ int8 with hyst := 10 } : OutRecord Int8).hyst = 10 := by decide
  rw [hvariation, hhyst] at hle
  have honce : ∀ n : ℕ, (n : ℤ) * (10 + 1) ≤ 9 + (10 + 1) → n ≤ 1 := fun n h => by omega
  exact honce _ hle

end TestDatabase
