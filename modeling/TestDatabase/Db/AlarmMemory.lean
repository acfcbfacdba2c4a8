import TestDatabase.Db.OutRecord

/-!
# LALM remembers the active alarm

The four output records with fields of 8 and 16 bits are compared with a reference
machine over the integers that remembers which alarm is active.  The code has no such
memory: it stores the limit of the active alarm in LALM, and the value when there is
none, and takes an alarm to be held when LALM equals its limit.

## Main definitions

* `AlarmConfig` — drive limits, alarm limits, severities and hysteresis, as integers.
* `AlarmConfig.next`, `AlarmConfig.step` — the reference machine.
* `IntegerField` — field types of integers.
* `NarrowField` — field types whose values and their sums fit into an `epicsInt32`.
* `OutRecord.Remembers` — the simulation relation.

## Main results

* `OutRecord.holds_iff` — the condition the code tests is that of the reference machine.
* `OutRecord.alarms_eq_reference` — both raise the same alarms along every run.
-/

namespace TestDatabase

open FieldType

/-! ### The reference machine -/

/-- The configuration of an output record. -/
structure AlarmConfig where
  drvh : ℤ
  drvl : ℤ
  hyst : ℤ
  limit : AlarmKind → ℤ
  severity : AlarmKind → MenuAlarmSevr

namespace AlarmConfig

/-- The alarm is enabled. -/
def Enabled (c : AlarmConfig) (k : AlarmKind) : Prop := c.severity k ≠ .noAlarm

/-- The value has reached the limit of the alarm. -/
def Reached (c : AlarmConfig) (v : ℤ) (k : AlarmKind) : Prop :=
  if k.isHigh then c.limit k ≤ v else v ≤ c.limit k

/-- The value is within the hysteresis of the limit, or beyond the limit. -/
def Within (c : AlarmConfig) (v : ℤ) (k : AlarmKind) : Prop :=
  if k.isHigh then c.limit k - c.hyst ≤ v else v ≤ c.limit k + c.hyst

/-- The alarm is to be raised, `active` being the one raised before. -/
def Raises (c : AlarmConfig) (active : Option AlarmKind) (v : ℤ) (k : AlarmKind) : Prop :=
  c.Enabled k ∧ (c.Reached v k ∨ active = some k ∧ c.Within v k)

instance (c : AlarmConfig) (v : ℤ) (k : AlarmKind) : Decidable (c.Reached v k) :=
  inferInstanceAs (Decidable (ite _ _ _))

instance (c : AlarmConfig) (v : ℤ) (k : AlarmKind) : Decidable (c.Within v k) :=
  inferInstanceAs (Decidable (ite _ _ _))

instance (c : AlarmConfig) (active : Option AlarmKind) (v : ℤ) (k : AlarmKind) :
    Decidable (c.Raises active v k) :=
  inferInstanceAs (Decidable (¬ _ ∧ _))

/-- A value within the drive limits, if they differ. -/
def clamp (c : AlarmConfig) (v : ℤ) : ℤ :=
  if c.drvh = c.drvl then v
  else
    let v := if c.drvh < v then c.drvh else v
    if v < c.drvl then c.drvl else v

/-- The alarm active after a value was put. -/
def next (c : AlarmConfig) (active : Option AlarmKind) (v : ℤ) : Option AlarmKind :=
  AlarmKind.order.find? fun k => decide (c.Raises active (c.clamp v) k)

/-- The status and the severity of the active alarm. -/
def alarm (c : AlarmConfig) : Option AlarmKind → AlarmCondition × MenuAlarmSevr
  | some k => (k.condition, c.severity k)
  | none => (.noAlarm, .noAlarm)

/-- **The reference machine.**  Its state is the active alarm. -/
def step (c : AlarmConfig) (active : Option AlarmKind) (v : ℤ) :
    Option AlarmKind × (AlarmCondition × MenuAlarmSevr) :=
  (c.next active v, c.alarm (c.next active v))

/-- The limits of the enabled alarms are pairwise distinct. -/
def LimitsDistinct (c : AlarmConfig) : Prop :=
  ∀ k k', c.Enabled k → c.Enabled k' → c.limit k = c.limit k' → k = k'

end AlarmConfig

/-! ### Integer field types -/

/-- A field type whose values are the integers they are converted to. -/
class IntegerField (F : Type) [LT F] [FieldType F] : Prop where
  lt_iff : ∀ x y : F, x < y ↔ toInt x < toInt y
  ofInt_toInt : ∀ x : F, ofInt (toInt x) = x

theorem IntegerField.toInt_inj {F : Type} [LT F] [FieldType F] [IntegerField F] {x y : F} :
    toInt x = toInt y ↔ x = y := by
  constructor
  · intro h
    rw [← ofInt_toInt x, ← ofInt_toInt y, h]
  · rintro rfl
    rfl

/-- A number of `k` bits is stored in `k` bits as it is. -/
theorem toNat_emod_of_lt {n k : ℕ} (h : n < 2 ^ k) : ((n : ℤ) % 2 ^ k).toNat = n := by
  have hlt : (n : ℤ) < 2 ^ k := by exact_mod_cast h
  rw [Int.emod_eq_of_lt (Int.natCast_nonneg n) hlt, Int.toNat_natCast]

/-- A field type whose values are integers small enough for `epicsInt32` arithmetic. -/
class NarrowField (F : Type) [LT F] [FieldType F] : Prop where
  lt_iff : ∀ x y : F, x < y ↔ toInt x < toInt y
  ofInt_toInt : ∀ x : F, ofInt (toInt x) = x
  neg_lt : ∀ x : F, -2 ^ 16 < toInt x
  lt_pow : ∀ x : F, toInt x < 2 ^ 16

instance : NarrowField Int8 where
  lt_iff _ _ := Int8.lt_iff_toInt_lt
  ofInt_toInt := Int8.ofInt_toInt
  neg_lt x := lt_of_lt_of_le (by decide) x.le_toInt
  lt_pow x := x.toInt_lt.trans (by decide)

instance : NarrowField Int16 where
  lt_iff _ _ := Int16.lt_iff_toInt_lt
  ofInt_toInt := Int16.ofInt_toInt
  neg_lt x := lt_of_lt_of_le (by decide) x.le_toInt
  lt_pow x := x.toInt_lt.trans (by decide)

instance : NarrowField UInt8 where
  lt_iff _ _ := UInt8.lt_iff_toNat_lt.trans Int.ofNat_lt.symm
  ofInt_toInt x := (congrArg UInt8.ofNat (toNat_emod_of_lt x.toNat_lt)).trans x.ofNat_toNat
  neg_lt x := lt_of_lt_of_le (by decide) (Int.natCast_nonneg x.toNat)
  lt_pow x := (Int.ofNat_lt.mpr x.toNat_lt).trans (by decide)

instance : NarrowField UInt16 where
  lt_iff _ _ := UInt16.lt_iff_toNat_lt.trans Int.ofNat_lt.symm
  ofInt_toInt x := (congrArg UInt16.ofNat (toNat_emod_of_lt x.toNat_lt)).trans x.ofNat_toNat
  neg_lt x := lt_of_lt_of_le (by decide) (Int.natCast_nonneg x.toNat)
  lt_pow x := Int.ofNat_lt.mpr x.toNat_lt

namespace NarrowField

variable {F : Type} [LT F] [FieldType F] [NarrowField F]

instance : IntegerField F := ⟨lt_iff, ofInt_toInt⟩

/-- The copy in an `epicsInt32` is exact. -/
theorem toInt_toInt32 (x : F) : (toInt32 x).toInt = toInt x := by
  have hlow := neg_lt x
  have hhigh := lt_pow x
  exact Int32.toInt_ofInt_of_le (by omega) (by omega)

/-- A value stored back loses nothing. -/
theorem ofInt32_toInt32 (x : F) : ofInt32 (toInt32 x) = x := by
  rw [ofInt32, toInt_toInt32, ofInt_toInt]

theorem bmod_eq {n : ℤ} (hlow : -2 ^ 31 ≤ n) (hhigh : n < 2 ^ 31) : n.bmod (2 ^ 32) = n := by
  rw [Int.bmod_eq_of_le] <;> omega

/-- `alev - hyst` does not overflow. -/
theorem toInt_sub_toInt32 (x y : F) : (toInt32 x - toInt32 y).toInt = toInt x - toInt y := by
  have hx := neg_lt x
  have hx' := lt_pow x
  have hy := neg_lt y
  have hy' := lt_pow y
  rw [Int32.toInt_sub, toInt_toInt32, toInt_toInt32, bmod_eq] <;> omega

/-- `alev + hyst` does not overflow. -/
theorem toInt_add_toInt32 (x y : F) : (toInt32 x + toInt32 y).toInt = toInt x + toInt y := by
  have hx := neg_lt x
  have hx' := lt_pow x
  have hy := neg_lt y
  have hy' := lt_pow y
  rw [Int32.toInt_add, toInt_toInt32, toInt_toInt32, bmod_eq] <;> omega

theorem toInt32_inj {x y : F} : toInt32 x = toInt32 y ↔ toInt x = toInt y := by
  rw [← Int32.toInt_inj, toInt_toInt32, toInt_toInt32]

end NarrowField

namespace OutRecord

open NarrowField

variable {F : Type} [FieldType F]

/-- The configuration, as integers. -/
def config (r : OutRecord F) : AlarmConfig where
  drvh := toInt r.drvh
  drvl := toInt r.drvl
  hyst := toInt r.hyst
  limit k := toInt (r.limit k)
  severity := r.severity

/-- Clamping does not look at the alarms. -/
theorem config_clamped [LT F] [DecidableLT F] [DecidableEq F] (r : OutRecord F) :
    r.clamped.config = r.config := by
  rw [clamped_eq]
  rfl

/-- LALM remembers the active alarm: of the enabled limits it is equal to that of the
active alarm only. -/
def Remembers (r : OutRecord F) (active : Option AlarmKind) : Prop :=
  ∀ k, r.config.Enabled k → (toInt r.lalm = r.config.limit k ↔ active = some k)

/-- The code clamps the value as the reference machine does. -/
theorem toInt_val_clamped [LT F] [IntegerField F] [DecidableLT F] [DecidableEq F]
    (r : OutRecord F) : toInt r.clamped.val = r.config.clamp (toInt r.val) := by
  -- the test `drvh!=drvl` and the comparisons agree with those of the integers
  have hiff : r.config.drvh = r.config.drvl ↔ r.drvh = r.drvl := IntegerField.toInt_inj
  unfold clamped AlarmConfig.clamp
  by_cases hdrive : r.drvh = r.drvl
  · rw [if_neg (not_not_intro hdrive), if_pos (hiff.mpr hdrive)]
  · rw [if_pos hdrive, if_neg (mt hiff.mp hdrive)]
    simp only [gt_iff_lt, IntegerField.lt_iff, config]
    by_cases hhigh : toInt r.drvh < toInt r.val
    · simp only [hhigh, if_true]
      split <;> rfl
    · simp only [hhigh, if_false]
      split <;> rfl

variable [LT F] [NarrowField F]

/-- What the code tests, in terms of integers. -/
theorem holds_iff (r : OutRecord F) (k : AlarmKind) :
    r.Holds k ↔ r.config.Enabled k ∧ (r.config.Reached (toInt r.val) k ∨
      toInt r.lalm = r.config.limit k ∧ r.config.Within (toInt r.val) k) := by
  unfold Holds AlarmConfig.Reached AlarmConfig.Within
  cases k.isHigh with
  | true =>
    simp only [if_true, HighSide, ge_iff_le, Int32.le_iff_toInt_le, toInt_sub_toInt32,
      toInt_toInt32, toInt32_inj]
    rfl
  | false =>
    simp only [Bool.false_eq_true, if_false, LowSide, Int32.le_iff_toInt_le, toInt_add_toInt32,
      toInt_toInt32, toInt32_inj]
    rfl

/-- As long as LALM remembers the active alarm, the code tests what the reference
machine does. -/
theorem Remembers.holds_iff_raises {r : OutRecord F} {active : Option AlarmKind}
    (h : r.Remembers active) (k : AlarmKind) :
    r.Holds k ↔ r.config.Raises active (toInt r.val) k := by
  rw [holds_iff, AlarmConfig.Raises]
  refine and_congr_right fun hk => ?_
  rw [h k hk]

/-- As long as LALM remembers the active alarm, the code finds the alarm the reference
machine does. -/
theorem Remembers.activeAlarm_eq {r : OutRecord F} {active : Option AlarmKind}
    (h : r.Remembers active) :
    r.activeAlarm =
      AlarmKind.order.find? fun k => decide (r.config.Raises active (toInt r.val) k) := by
  unfold activeAlarm
  congr 1
  funext k
  exact decide_eq_decide.mpr (h.holds_iff_raises k)

/-- What is stored in LALM remembers the alarm found, if the limits tell alarms apart. -/
theorem remembers_memory {r : OutRecord F} (hdistinct : r.config.LimitsDistinct) :
    { r with lalm := r.memory }.Remembers r.activeAlarm := by
  intro k hk
  show toInt r.memory = r.config.limit k ↔ _
  unfold memory
  cases hactive : r.activeAlarm with
  | some k' =>
    have henabled : r.config.Enabled k' := (holds_of_activeAlarm hactive).1
    simp only [ofInt32_toInt32, Option.some.injEq]
    constructor
    · intro hlimit
      exact hdistinct k' k henabled hk hlimit
    · rintro rfl
      rfl
  | none =>
    -- a value equal to an enabled limit has reached it
    have hnone := not_holds_of_activeAlarm hactive k
    rw [holds_iff] at hnone
    simp only [ofInt32_toInt32, reduceCtorEq, iff_false]
    intro hval
    refine hnone ⟨hk, .inl ?_⟩
    unfold AlarmConfig.Reached
    split
    · exact hval.ge
    · exact hval.le

end OutRecord

/-! ### The simulation -/

section simulation

variable {F : Type} [LT F] [DecidableLT F] [DecidableEq F] [FieldType F]

/-- Put a value to a record and process it; the alarm it is left with. -/
def putAndProcess (G : RecGbl) (s : RecordState (OutRecord F)) (value : F) :
    RecordState (OutRecord F) × (AlarmCondition × MenuAlarmSevr) :=
  let link := recGblFwdLink (outRSET G F) .nil
  let t := putField (outRSET G F) value link link s
  (t, (t.stat, t.sevr))

/-- What a put makes of an idle, defined record without a new alarm. -/
theorem putAndProcess_eq {G : RecGbl} {s : RecordState (OutRecord F)} (hpact : s.pact = false)
    (hudf : s.udf = false) (hnsta : s.nsta = .noAlarm) (hnsev : s.nsev = .noAlarm) (value : F) :
    (putAndProcess G s value).1 =
      let r := ({ s.fields with val := value } : OutRecord F).clamped
      { s with
        pact := false
        stat := r.alarm.1
        sevr := r.alarm.2
        nsta := .noAlarm
        nsev := .noAlarm
        fields := { r with lalm := r.memory } } :=
  (putField_of_idle hpact value _ _).trans
    (OutRecord.process_eq (s := { s with fields.val := value }) hudf hnsta hnsev)

/-- The alarm a put leaves. -/
theorem putAndProcess_alarm {G : RecGbl} {s : RecordState (OutRecord F)} (hpact : s.pact = false)
    (hudf : s.udf = false) (hnsta : s.nsta = .noAlarm) (hnsev : s.nsev = .noAlarm) (value : F) :
    (putAndProcess G s value).2 = ({ s.fields with val := value } : OutRecord F).clamped.alarm := by
  have hleft : (putAndProcess G s value).2 =
      ((putAndProcess G s value).1.stat, (putAndProcess G s value).1.sevr) := rfl
  rw [hleft, putAndProcess_eq hpact hudf hnsta hnsev]

/-- A record between two puts, and the active alarm of the reference machine. -/
structure Simulates (c : AlarmConfig) (s : RecordState (OutRecord F))
    (active : Option AlarmKind) : Prop where
  pact : s.pact = false
  udf : s.udf = false
  nsta : s.nsta = .noAlarm
  nsev : s.nsev = .noAlarm
  config : s.fields.config = c
  remembers : s.fields.Remembers active

variable [NarrowField F]

/-- **One put.**  The code leaves the alarm of the reference machine, and remembers it. -/
theorem Simulates.step {G : RecGbl} {c : AlarmConfig} {s : RecordState (OutRecord F)}
    {active : Option AlarmKind} (h : Simulates c s active) (hdistinct : c.LimitsDistinct)
    (value : F) :
    (putAndProcess G s value).2 = (c.step active (toInt value)).2 ∧
      Simulates c (putAndProcess G s value).1 (c.step active (toInt value)).1 := by
  rw [putAndProcess_alarm h.pact h.udf h.nsta h.nsev, putAndProcess_eq h.pact h.udf h.nsta h.nsev]
  generalize hr : ({ s.fields with val := value } : OutRecord F).clamped = r
  -- the clamped record has the configuration and the memory of the record before
  have hconfig : r.config = c := by
    rw [← hr, OutRecord.clamped_eq]
    exact h.config
  have hremembers : r.Remembers active := by
    rw [← hr, OutRecord.clamped_eq]
    exact h.remembers
  have hval : toInt r.val = c.clamp (toInt value) := by
    rw [← hr, OutRecord.toInt_val_clamped, ← h.config]
    rfl
  have hnext : r.activeAlarm = c.next active (toInt value) := by
    rw [hremembers.activeAlarm_eq, hconfig, hval]
    rfl
  constructor
  · show r.alarm = c.alarm (c.next active (toInt value))
    rw [← hnext, ← hconfig]
    rfl
  · refine ⟨rfl, h.udf, rfl, rfl, hconfig, ?_⟩
    show OutRecord.Remembers _ (c.next active (toInt value))
    rw [← hnext]
    exact OutRecord.remembers_memory (hconfig ▸ hdistinct)

omit [DecidableLT F] [DecidableEq F] [NarrowField F] [LT F] in
/-- After `init_record` no alarm is active, and LALM is none of the limits. -/
theorem simulates_initRecord {G : RecGbl} {r : OutRecord F} {common : DbCommon}
    (hpact : common.pact = false) (hudf : common.udf = false) (hlalm : toInt r.lalm = 0)
    (hzero : ∀ k, r.config.Enabled k → r.config.limit k ≠ 0) :
    Simulates r.config (OutRecord.initRecord G { toDbCommon := common, fields := r }) none := by
  unfold OutRecord.initRecord
  rw [G.resetAlarms_eq]
  refine ⟨hpact, hudf, rfl, rfl, rfl, fun k hk => iff_of_false ?_ (by simp)⟩
  intro hlimit
  exact hzero k hk (hlimit.symm.trans hlalm)

/-- **LALM remembers the active alarm.**  Along every run of puts the record is left with
the alarms of the reference machine, if the enabled limits are pairwise distinct and
none of them is the zero that LALM starts with.  The copies in `epicsInt32` and the sums
formed from them are exact, and so is what is stored back. -/
theorem alarms_eq_reference (G : RecGbl) (r : OutRecord F) (common : DbCommon)
    (hpact : common.pact = false) (hudf : common.udf = false) (hlalm : toInt r.lalm = 0)
    (hdistinct : r.config.LimitsDistinct)
    (hzero : ∀ k, r.config.Enabled k → r.config.limit k ≠ 0) (puts : List F) :
    EventMachine.outputs (putAndProcess G)
        (OutRecord.initRecord G { toDbCommon := common, fields := r }) puts =
      EventMachine.outputs r.config.step none (puts.map toInt) ∧
    ∀ x y : F, (toInt32 x).toInt = toInt x ∧ (toInt32 x - toInt32 y).toInt = toInt x - toInt y ∧
      (toInt32 x + toInt32 y).toInt = toInt x + toInt y ∧ ofInt32 (toInt32 x) = x := by
  constructor
  · refine EventMachine.outputs_eq (R := Simulates r.config) ?_
      (simulates_initRecord hpact hudf hlalm hzero) puts
    intro s active value hs
    exact hs.step hdistinct value
  · intro x y
    exact ⟨NarrowField.toInt_toInt32 x, NarrowField.toInt_sub_toInt32 x y,
      NarrowField.toInt_add_toInt32 x y, NarrowField.ofInt32_toInt32 x⟩

/-- With a hysteresis of ten the high alarm is held at 95 and given up at 80. -/
theorem alarms_eq_reference_int8 :
    EventMachine.outputs (putAndProcess .base)
      (OutRecord.initRecord .base
        { toDbCommon := { udf := false }, fields := { int8 with hyst := 10 } })
      [105, 95, 80, -125] =
    [(.high, .minor), (.high, .minor), (.noAlarm, .noAlarm), (.lolo, .major)] := by
  have hreference := alarms_eq_reference .base { int8 with hyst := 10 } { udf := false } rfl rfl
    rfl (by intro k k' _ _ h; cases k <;> cases k' <;> first | rfl | exact absurd h (by decide))
    (by intro k _; cases k <;> decide) [105, 95, 80, -125]
  exact hreference.1.trans (by decide +kernel)

end simulation

end TestDatabase
