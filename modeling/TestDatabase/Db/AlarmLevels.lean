import Mathlib.Data.UInt
import TestDatabase.Lib.FirstMatch
import TestDatabase.Db.DriveLimits

/-!
# Alarm levels of the wide output records

The fields of ulongout and uint64 are unsigned and have 32 and 64 bits, and those of
floatout are floats.  `checkAlarms` copies value and limits to `epicsInt32` all the same,
and compares the copies.  This file says, without hysteresis, when the copies compare as
the fields do.

An `epicsInt32` keeps the lowest 32 bits of an unsigned number and takes the uppermost of
these for a sign.  A float is truncated, towards zero; one that is out of range becomes the
smallest `epicsInt32`.

## Main definitions

* `FieldType.lost` — what a copy is less than the number.
* `OutRecord.Memoryless` — a record whose alarm depends on value and limits only.
* `OutRecord.Reached`, `OutRecord.Reached32` — a limit is reached, as fields and as copies.
* `OutRecord.levelAlarm` — the first enabled alarm whose limit is reached.
* `OutRecord.Consulted` — the enabled alarms up to that one.

## Main results

* `toInt32_le_iff`, `toInt32_le_iff_uint32`, `limit_le_iff_float` — when copies compare as
  the fields do.
* `process_alarm_iff` — `process` leaves that alarm exactly if the copies of the limits
  consulted compare as the limits do, and no condition is left over.
* `unsigned_alarm_iff` — what this comes to for ulongout and uint64.
* `float_alarm_iff` — what this comes to for floatout.
-/

namespace TestDatabase

open FieldType

/-! ### The copies -/

namespace FieldType

/-- What the copy of a number is less than the number, in units of 2 ^ 32. -/
def lost {F : Type} [FieldType F] (x : F) : ℤ := (toInt x + 2 ^ 31) / 2 ^ 32

variable {F : Type} [FieldType F]

theorem toInt_eq (x : F) : toInt x = (toInt32 x).toInt + 2 ^ 32 * lost x := by
  have hcopy : (toInt32 x).toInt = (toInt x).bmod (2 ^ 32) := Int32.toInt_ofInt
  rw [hcopy, Int.bmod_def, lost]
  split <;> omega

/-- Copies compare as the numbers do exactly if they have lost the same, or are in the order
of what they have lost. -/
theorem toInt32_le_iff (x y : F) :
    (toInt32 x ≤ toInt32 y ↔ toInt x ≤ toInt y) ↔
      lost x = lost y ∨ (toInt32 x ≤ toInt32 y ↔ lost x < lost y) := by
  have hx := toInt_eq x
  have hy := toInt_eq y
  have hxlow := (toInt32 x).le_toInt
  have hxhigh := (toInt32 x).toInt_lt
  have hylow := (toInt32 y).le_toInt
  have hyhigh := (toInt32 y).toInt_lt
  rw [Int32.le_iff_toInt_le]
  omega

/-- A number of 32 bits loses something exactly in the upper half. -/
theorem lost_uint32 (x : UInt32) : lost x = if x.toNat < 2 ^ 31 then 0 else 1 := by
  have hlt := x.toNat_lt
  have hcopy : toInt x = (x.toNat : ℤ) := rfl
  rw [lost, hcopy]
  split <;> omega

theorem toInt32_le_iff_uint32 (x y : UInt32) :
    (toInt32 x ≤ toInt32 y ↔ toInt x ≤ toInt y) ↔ (x.toNat < 2 ^ 31 ↔ y.toNat < 2 ^ 31) := by
  have hx := toInt_eq x
  have hy := toInt_eq y
  have hxlt : (x.toNat : ℤ) = toInt x := rfl
  have hylt : (y.toNat : ℤ) = toInt y := rfl
  have hxlow := x.toNat_lt
  have hylow := y.toNat_lt
  rw [lost_uint32] at hx hy
  rw [Int32.le_iff_toInt_le]
  split at hx <;> split at hy <;> omega

/-- Truncation keeps the order. -/
theorem truncated_mono {x y : ℚ} (h : x ≤ y) : truncated x ≤ truncated y := by
  unfold truncated
  split
  · next hx =>
    split
    · exact Int.ceil_mono h
    · next hy =>
      have hceil : ⌈x⌉ ≤ 0 := Int.ceil_le.mpr (by exact_mod_cast hx.le)
      have hfloor : 0 ≤ ⌊y⌋ := Int.floor_nonneg.mpr (not_lt.mp hy)
      exact hceil.trans hfloor
  · next hx =>
    have hy : ¬ y < 0 := not_lt.mpr ((not_lt.mp hx).trans h)
    rw [if_neg hy]
    exact Int.floor_mono h

/-- A float within the range is truncated to a number within it. -/
theorem truncated_of_abs_lt {x : ℚ} (h : |x| < 2 ^ 31) :
    -2 ^ 31 < truncated x ∧ truncated x < 2 ^ 31 := by
  obtain ⟨hlow, hhigh⟩ := abs_lt.mp h
  unfold truncated
  split
  · next hx =>
    have hceil : ⌈x⌉ ≤ 0 := Int.ceil_le.mpr (by exact_mod_cast hx.le)
    exact ⟨Int.lt_ceil.mpr (by exact_mod_cast hlow), by omega⟩
  · next hx =>
    have hfloor : 0 ≤ ⌊x⌋ := Int.floor_nonneg.mpr (not_lt.mp hx)
    exact ⟨by omega, Int.floor_lt.mpr (by exact_mod_cast hhigh)⟩

theorem toInt_of_abs_lt {x : ℚ} (h : |x| < 2 ^ 31) : toInt x = truncated x := by
  obtain ⟨hlow, hhigh⟩ := truncated_of_abs_lt h
  exact if_pos ⟨hlow.le, hhigh⟩

/-- Any other float becomes the smallest `epicsInt32`. -/
theorem toInt_of_not_abs_lt {x : ℚ} (h : ¬ |x| < 2 ^ 31) : toInt x = -2 ^ 31 := by
  show (if -2 ^ 31 ≤ truncated x ∧ truncated x < 2 ^ 31 then truncated x else -2 ^ 31) = -2 ^ 31
  rcases le_abs'.mp (not_lt.mp h) with hlow | hhigh
  · have hle : truncated x ≤ truncated (-2 ^ 31) := truncated_mono hlow
    have hbound : truncated (-2 ^ 31) = -2 ^ 31 := by decide +kernel
    split <;> omega
  · have hle : truncated (2 ^ 31) ≤ truncated x := truncated_mono hhigh
    have hbound : truncated (2 ^ 31) = 2 ^ 31 := by decide +kernel
    split <;> omega

/-- A float is converted to what an `epicsInt32` can hold. -/
theorem toInt_toInt32_float (x : ℚ) : (toInt32 x).toInt = toInt x := by
  have hrange : -2 ^ 31 ≤ toInt x ∧ toInt x < 2 ^ 31 := by
    show -2 ^ 31 ≤ ite _ _ _ ∧ ite _ _ _ < _
    split
    · assumption
    · decide
  exact Int32.toInt_ofInt_of_le hrange.1 hrange.2

/-- Truncated floats compare as the floats do, up to those that are truncated alike. -/
theorem toInt_le_iff_of_abs_lt {x y : ℚ} (hx : |x| < 2 ^ 31) (hy : |y| < 2 ^ 31) :
    (toInt x ≤ toInt y ↔ x ≤ y) ↔ x ≤ y ∨ toInt x ≠ toInt y := by
  rw [toInt_of_abs_lt hx, toInt_of_abs_lt hy]
  by_cases hle : x ≤ y
  · exact iff_of_true (iff_of_true (truncated_mono hle) hle) (.inl hle)
  · have hge : truncated y ≤ truncated x := truncated_mono (not_le.mp hle).le
    simp only [hle, iff_false, false_or]
    omega

/-- The copy of a value out of range is below that of any limit within it, whether the value is
small or large. -/
theorem toInt_lt_of_not_abs_lt {limit val : ℚ} (hlimit : |limit| < 2 ^ 31)
    (hval : ¬ |val| < 2 ^ 31) : toInt val < toInt limit := by
  rw [toInt_of_not_abs_lt hval, toInt_of_abs_lt hlimit]
  exact (truncated_of_abs_lt hlimit).1

/-- A copy of any value compares with that of a high limit as the value does, unless it is too
large, or truncated to what the limit is and has not reached it. -/
theorem limit_le_iff_float {limit val : ℚ} (hlimit : |limit| < 2 ^ 31) :
    (toInt32 limit ≤ toInt32 val ↔ limit ≤ val) ↔
      val < 2 ^ 31 ∧ (limit ≤ val ∨ toInt val ≠ toInt limit) := by
  rw [Int32.le_iff_toInt_le, toInt_toInt32_float, toInt_toInt32_float]
  by_cases hval : |val| < 2 ^ 31
  · rw [toInt_le_iff_of_abs_lt hlimit hval, ne_comm, and_iff_right (abs_lt.mp hval).2]
  obtain ⟨hlow, hhigh⟩ := abs_lt.mp hlimit
  have hcopy : ¬ toInt limit ≤ toInt val := not_le.mpr (toInt_lt_of_not_abs_lt hlimit hval)
  rcases le_abs'.mp (not_lt.mp hval) with hsmall | hlarge
  · refine iff_of_true (iff_of_false hcopy (by linarith)) ⟨by linarith, .inr fun heq => ?_⟩
    exact hcopy heq.ge
  · refine iff_of_false (fun h => hcopy (h.mpr (by linarith))) fun h => ?_
    exact absurd h.1 (not_lt.mpr hlarge)

/-- The same for a low limit. -/
theorem le_limit_iff_float {limit val : ℚ} (hlimit : |limit| < 2 ^ 31) :
    (toInt32 val ≤ toInt32 limit ↔ val ≤ limit) ↔
      val < 2 ^ 31 ∧ (val ≤ limit ∨ toInt val ≠ toInt limit) := by
  rw [Int32.le_iff_toInt_le, toInt_toInt32_float, toInt_toInt32_float]
  by_cases hval : |val| < 2 ^ 31
  · rw [toInt_le_iff_of_abs_lt hval hlimit, and_iff_right (abs_lt.mp hval).2]
  obtain ⟨hlow, hhigh⟩ := abs_lt.mp hlimit
  have hcopy : toInt val ≤ toInt limit := (toInt_lt_of_not_abs_lt hlimit hval).le
  rcases le_abs'.mp (not_lt.mp hval) with hsmall | hlarge
  · have hle : val ≤ limit := by linarith
    exact iff_of_true (iff_of_true hcopy hle) ⟨by linarith, .inl hle⟩
  · refine iff_of_false (fun h => ?_) fun h => absurd h.1 (not_lt.mpr hlarge)
    exact absurd (h.mp hcopy) (by linarith)

end FieldType

/-! ### The alarm of a level -/

/-- The alarms checked before an alarm. -/
def AlarmKind.earlier : AlarmKind → List AlarmKind
  | hihi => []
  | lolo => [hihi]
  | high => [hihi, lolo]
  | low => [hihi, lolo, high]

theorem AlarmKind.earlier_eq {k : AlarmKind} {before after : List AlarmKind}
    (h : order = before ++ k :: after) : before = k.earlier := by
  rcases before with _ | ⟨a, _ | ⟨b, _ | ⟨c, _ | ⟨d, before⟩⟩⟩⟩ <;> simp [order] at h
  · obtain ⟨rfl, -⟩ := h
    rfl
  · obtain ⟨rfl, rfl, -⟩ := h
    rfl
  · obtain ⟨rfl, rfl, rfl, -⟩ := h
    rfl
  · obtain ⟨rfl, rfl, rfl, rfl, -⟩ := h
    rfl

theorem AlarmKind.order_eq (k : AlarmKind) : ∃ after, order = k.earlier ++ k :: after := by
  cases k with
  | hihi => exact ⟨_, rfl⟩
  | lolo => exact ⟨_, rfl⟩
  | high => exact ⟨_, rfl⟩
  | low => exact ⟨_, rfl⟩

/-- Alarms differ in their conditions. -/
theorem AlarmConfig.alarm_inj {c : AlarmConfig} {a b : Option AlarmKind} :
    c.alarm a = c.alarm b ↔ a = b := by
  refine ⟨fun h => ?_, congrArg c.alarm⟩
  have hcondition := congrArg Prod.fst h
  cases a with
  | none =>
    cases b with
    | none => rfl
    | some k => cases k <;> simp [AlarmConfig.alarm, AlarmKind.condition] at hcondition
  | some j =>
    cases b with
    | none => cases j <;> simp [AlarmConfig.alarm, AlarmKind.condition] at hcondition
    | some k =>
      cases j <;> cases k <;> first
        | rfl
        | simp [AlarmConfig.alarm, AlarmKind.condition] at hcondition

namespace OutRecord

section levels
variable {F : Type} [LE F]

/-- The value has reached the limit of the alarm. -/
def Reached (r : OutRecord F) (k : AlarmKind) : Prop :=
  if k.isHigh then r.limit k ≤ r.val else r.val ≤ r.limit k

instance [DecidableLE F] (r : OutRecord F) (k : AlarmKind) : Decidable (r.Reached k) :=
  inferInstanceAs (Decidable (ite _ _ _))

/-- The first enabled alarm whose limit the value has reached. -/
def levelAlarm [DecidableLE F] (r : OutRecord F) : Option AlarmKind :=
  AlarmKind.order.find? fun k => decide (r.severity k ≠ .noAlarm ∧ r.Reached k)

/-- The alarm is enabled, and the limit of no enabled alarm before it has been reached. -/
def Consulted (r : OutRecord F) (k : AlarmKind) : Prop :=
  r.severity k ≠ .noAlarm ∧ ∀ j ∈ k.earlier, r.severity j ≠ .noAlarm → ¬ r.Reached j

/-- The alarm of a level is enabled. -/
theorem severity_of_levelAlarm [DecidableLE F] {r : OutRecord F} {k : AlarmKind}
    (h : r.levelAlarm = some k) : r.severity k ≠ .noAlarm := by
  have hk := List.find?_some (p := fun k => decide (r.severity k ≠ .noAlarm ∧ r.Reached k)) h
  exact (of_decide_eq_true hk).1

end levels

variable {F : Type} [FieldType F]

/-- The copy of the value has reached the copy of the limit. -/
def Reached32 (r : OutRecord F) (k : AlarmKind) : Prop :=
  if k.isHigh then toInt32 (r.limit k) ≤ toInt32 r.val else toInt32 r.val ≤ toInt32 (r.limit k)

/-- Without hysteresis the code tests the copies. -/
theorem holds_iff_reached32 {r : OutRecord F} (hhyst : toInt32 r.hyst = 0) (k : AlarmKind) :
    r.Holds k ↔ r.severity k ≠ .noAlarm ∧ r.Reached32 k := by
  unfold Holds Reached32 HighSide LowSide
  rw [hhyst, Int32.sub_zero, Int32.add_zero]
  refine and_congr_right fun _ => ?_
  split
  · exact or_iff_left_of_imp And.right
  · exact or_iff_left_of_imp And.right

/-- A defined record without the severity of a new alarm and without hysteresis. -/
structure Memoryless (s : RecordState (OutRecord F)) : Prop where
  udf : s.udf = false
  nsev : s.nsev = .noAlarm
  hyst : toInt32 s.fields.hyst = 0

/-- What `process` leaves: the alarm found, or else a condition that was there before. -/
theorem alarm_process [LT F] [DecidableLT F] [DecidableEq F] {G : RecGbl}
    {link : RecordState (OutRecord F) → RecordState (OutRecord F)} {s : RecordState (OutRecord F)}
    (h : Memoryless s) :
    ((process G link s).stat, (process G link s).sevr) =
      match s.fields.clamped.activeAlarm with
      | some k => s.fields.config.alarm (some k)
      | none => (s.nsta, .noAlarm) := by
  have hcheck := checkAlarms_eq (G := G) (s := { s with fields := s.fields.clamped }) h.udf h.nsev
  rw [← config_clamped]
  unfold process
  rw [hcheck]
  cases s.fields.clamped.activeAlarm with
  | some k => simp only [G.resetAlarms_eq, AlarmConfig.alarm, config]
  | none => simp only [G.resetAlarms_eq, h.nsev]

variable [LE F] [DecidableLE F]

/-- The code finds the alarm it should exactly if it compares the limits consulted as it
should. -/
theorem activeAlarm_eq_levelAlarm_iff {r : OutRecord F} (hhyst : toInt32 r.hyst = 0) :
    r.activeAlarm = r.levelAlarm ↔ ∀ k, r.Consulted k → (r.Reached32 k ↔ r.Reached k) := by
  rw [eq_comm, activeAlarm, levelAlarm, List.find?_eq_find?_iff]
  constructor
  · rintro h k ⟨henabled, hearlier⟩
    obtain ⟨after, horder⟩ := k.order_eq
    have hk := h k.earlier k after horder ?_
    · rw [decide_eq_decide, holds_iff_reached32 hhyst] at hk
      simpa [henabled] using hk.symm
    · intro j hj
      exact decide_eq_false fun hreached => hearlier j hj hreached.1 hreached.2
  · intro h before k after horder hbefore
    obtain rfl := AlarmKind.earlier_eq horder
    rw [decide_eq_decide, holds_iff_reached32 hhyst]
    refine and_congr_right fun henabled => (h k ⟨henabled, ?_⟩).symm
    intro j hj hjenabled hreached
    exact of_decide_eq_false (hbefore j hj) ⟨hjenabled, hreached⟩

section process
variable [LT F] [DecidableLT F] [DecidableEq F] {G : RecGbl}
  {link : RecordState (OutRecord F) → RecordState (OutRecord F)} {s : RecordState (OutRecord F)}

/-- **When `process` leaves the alarm it should**: the first enabled alarm whose limit the
clamped value has reached.  It does so exactly if the copies of the limits consulted compare
as the limits do, and no condition is left over where no limit has been reached. -/
theorem process_alarm_iff (h : Memoryless s) :
    ((process G link s).stat, (process G link s).sevr) =
        s.fields.config.alarm s.fields.clamped.levelAlarm ↔
      (s.fields.clamped.levelAlarm = none → s.nsta = .noAlarm) ∧
      ∀ k, s.fields.clamped.Consulted k →
        (s.fields.clamped.Reached32 k ↔ s.fields.clamped.Reached k) := by
  have hclamped : s.fields.clamped.hyst = s.fields.hyst := by rw [clamped_eq]
  rw [alarm_process h, ← activeAlarm_eq_levelAlarm_iff (by rw [hclamped, h.hyst])]
  cases hactive : s.fields.clamped.activeAlarm with
  | some k =>
    refine (AlarmConfig.alarm_inj (c := s.fields.config)).trans ?_
    exact ⟨fun heq => ⟨fun hnone => by simp [hnone] at heq, heq⟩, And.right⟩
  | none =>
    cases hlevel : s.fields.clamped.levelAlarm with
    | none => simp [AlarmConfig.alarm]
    | some k =>
      -- the alarm missed has a severity
      have henabled : s.fields.clamped.severity k ≠ .noAlarm := severity_of_levelAlarm hlevel
      have hseverity : s.fields.config.severity k = s.fields.clamped.severity k := by
        rw [← config_clamped]
        rfl
      simp [AlarmConfig.alarm, hseverity, henabled.symm]

end process

/-! ### ulongout and uint64 -/

/-- The copies of value and limit have lost the same, or are in the order of what they have
lost. -/
def LostInOrder (r : OutRecord F) (k : AlarmKind) : Prop :=
  lost (r.limit k) = lost r.val ∨
    if k.isHigh then toInt32 (r.limit k) ≤ toInt32 r.val ↔ lost (r.limit k) < lost r.val
    else toInt32 r.val ≤ toInt32 (r.limit k) ↔ lost r.val < lost (r.limit k)

theorem reached32_iff_uint64 (r : Uint64Record) (k : AlarmKind) :
    (r.Reached32 k ↔ r.Reached k) ↔ r.LostInOrder k := by
  have hle : ∀ x y : UInt64, x ≤ y ↔ toInt x ≤ toInt y :=
    fun _ _ => UInt64.le_iff_toNat_le.trans Int.ofNat_le.symm
  unfold Reached32 Reached LostInOrder
  split
  · rw [hle, toInt32_le_iff]
  · rw [hle, toInt32_le_iff, eq_comm]

theorem reached32_iff_uint32 (r : UlongoutRecord) (k : AlarmKind) :
    (r.Reached32 k ↔ r.Reached k) ↔ ((r.limit k).toNat < 2 ^ 31 ↔ r.val.toNat < 2 ^ 31) := by
  have hle : ∀ x y : UInt32, x ≤ y ↔ toInt x ≤ toInt y :=
    fun _ _ => UInt32.le_iff_toNat_le.trans Int.ofNat_le.symm
  unfold Reached32 Reached
  split
  · rw [hle, toInt32_le_iff_uint32]
  · rw [hle, toInt32_le_iff_uint32]
    exact iff_comm

/-- **When unsigned records leave the alarm they should.**  A ulongout record does so exactly
if the clamped value and every limit consulted are in one half of the range, a uint64 record
exactly if their copies have lost the same or are in the order of what they have lost; and
either record only if no condition is left over where no limit has been reached. -/
theorem unsigned_alarm_iff (G : RecGbl) :
    (∀ (link : RecordState UlongoutRecord → RecordState UlongoutRecord)
        (s : RecordState UlongoutRecord), Memoryless s →
      (((process G link s).stat, (process G link s).sevr) =
          s.fields.config.alarm s.fields.clamped.levelAlarm ↔
        (s.fields.clamped.levelAlarm = none → s.nsta = .noAlarm) ∧
        ∀ k, s.fields.clamped.Consulted k →
          ((s.fields.clamped.limit k).toNat < 2 ^ 31 ↔ s.fields.clamped.val.toNat < 2 ^ 31))) ∧
    ∀ (link : RecordState Uint64Record → RecordState Uint64Record)
        (s : RecordState Uint64Record), Memoryless s →
      (((process G link s).stat, (process G link s).sevr) =
          s.fields.config.alarm s.fields.clamped.levelAlarm ↔
        (s.fields.clamped.levelAlarm = none → s.nsta = .noAlarm) ∧
        ∀ k, s.fields.clamped.Consulted k → s.fields.clamped.LostInOrder k) := by
  constructor
  · intro link s h
    rw [process_alarm_iff h]
    simp only [reached32_iff_uint32]
  · intro link s h
    rw [process_alarm_iff h]
    simp only [reached32_iff_uint64]

/-- A defined record of uint32.db or uint64.db, with a HIHI limit. -/
def withHihi {F : Type} [Inhabited F] (val hihi : F) : RecordState (OutRecord F) :=
  { udf := false, fields := { (default : OutRecord F) with val, hihi, hhsv := .major } }

/-- A ulongout record with a limit of 100 raises the alarm for 200, and a uint64 record with
a limit of 2 ^ 40 for 2 ^ 40. -/
theorem unsigned_alarm_small :
    (process .base id (withHihi (200 : UInt32) 100)).stat = .hihi ∧
    (process .base id (withHihi (2 ^ 40 : UInt64) (2 ^ 40))).stat = .hihi := by
  obtain ⟨hulongout, huint64⟩ := unsigned_alarm_iff .base
  constructor
  · have halarm := (hulongout id (withHihi 200 100) ⟨rfl, rfl, rfl⟩).mpr ⟨fun _ => rfl, ?_⟩
    · exact (congrArg Prod.fst halarm).trans (by decide +kernel)
    · rintro k ⟨hk, -⟩
      cases k <;> first | exact absurd rfl hk | decide
  · have halarm := (huint64 id (withHihi (2 ^ 40) (2 ^ 40)) ⟨rfl, rfl, rfl⟩).mpr ⟨fun _ => rfl, ?_⟩
    · exact (congrArg Prod.fst halarm).trans (by decide +kernel)
    · rintro k ⟨hk, -⟩
      cases k <;> first | exact absurd rfl hk | exact .inl rfl

/-- A ulongout record with a limit of 100 misses the alarm for 3000000000, and with a limit
of 3000000000 raises one for 5.  A uint64 record misses the alarm for 2 ^ 32. -/
theorem unsigned_alarm_wrong :
    ((withHihi (3000000000 : UInt32) 100).fields.clamped.levelAlarm = some .hihi ∧
      (process .base id (withHihi (3000000000 : UInt32) 100)).stat = .noAlarm) ∧
    ((withHihi (5 : UInt32) 3000000000).fields.clamped.levelAlarm = none ∧
      (process .base id (withHihi (5 : UInt32) 3000000000)).stat = .hihi) ∧
    (withHihi (2 ^ 32 : UInt64) 100).fields.clamped.levelAlarm = some .hihi ∧
      (process .base id (withHihi (2 ^ 32 : UInt64) 100)).stat = .noAlarm := by
  refine ⟨⟨?_, ?_⟩, ⟨?_, ?_⟩, ?_, ?_⟩ <;> decide +kernel

/-! ### floatout -/

/-- The floatout record of float.db, with the float closest to 9.9. -/
def float : FloatoutRecord where
  val := 0
  drvh := 10380902 / 2 ^ 20
  drvl := -(10380902 / 2 ^ 20)
  hopr := 10
  lopr := 0
  hihi := 8
  high := 6
  low := -6
  lolo := -8
  hhsv := .major
  hsv := .minor
  lsv := .minor
  llsv := .major
  hyst := 0
  lalm := 0

/-- **When a floatout record leaves the alarm it should.**  It does so exactly if no
condition is left over where no limit has been reached, the clamped value is below 2 ^ 31
where a limit is consulted, and no limit consulted that it has not reached is truncated to
what the value is. -/
theorem float_alarm_iff (G : RecGbl)
    (link : RecordState FloatoutRecord → RecordState FloatoutRecord)
    {s : RecordState FloatoutRecord} (h : Memoryless s)
    (hlimit : ∀ k, |s.fields.limit k| < 2 ^ 31) :
    ((process G link s).stat, (process G link s).sevr) =
        s.fields.config.alarm s.fields.clamped.levelAlarm ↔
      (s.fields.clamped.levelAlarm = none → s.nsta = .noAlarm) ∧
      ∀ k, s.fields.clamped.Consulted k → s.fields.clamped.val < 2 ^ 31 ∧
        (s.fields.clamped.Reached k ∨ toInt s.fields.clamped.val ≠ toInt (s.fields.limit k)) := by
  rw [process_alarm_iff h]
  have hclamped : ∀ k, s.fields.clamped.limit k = s.fields.limit k := by
    intro k
    rw [clamped_eq]
    cases k <;> rfl
  refine and_congr_right fun _ => forall₂_congr fun k _ => ?_
  unfold Reached32 Reached
  rw [hclamped]
  split
  · exact limit_le_iff_float (hlimit k)
  · exact le_limit_iff_float (hlimit k)

/-- The value 7.5 raises the high alarm of float.db. -/
theorem float_alarm_high :
    (process .base id { udf := false, fields := { float with val := 7.5 } }).stat = .high := by
  have hmemoryless : Memoryless ({ udf := false, fields := { float with val := 7.5 } } :
      RecordState FloatoutRecord) := ⟨rfl, rfl, by decide +kernel⟩
  have halarm := (float_alarm_iff .base id hmemoryless ?_).mpr ⟨fun _ => rfl, ?_⟩
  · exact (congrArg Prod.fst halarm).trans (by decide +kernel)
  · intro k
    cases k <;> decide +kernel
  · intro k _
    cases k <;> decide +kernel

/-- With the high limit at 6.5 the value 6.25 raises the high alarm. -/
theorem float_alarm_wrong :
    ({ float with val := 6.25, high := 6.5 } : FloatoutRecord).clamped.levelAlarm = none ∧
    (process .base id { udf := false, fields := { float with val := 6.25, high := 6.5 } }).stat =
      .high := by
  constructor <;> decide +kernel

end OutRecord

end TestDatabase
