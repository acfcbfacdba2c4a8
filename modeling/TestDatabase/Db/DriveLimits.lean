import TestDatabase.Db.AlarmMemory

/-!
# Drive limits

Processing clamps a value put to an output record to the drive limits if DRVH and DRVL
differ.  `get_control_double` reports the drive limits if DRVH is larger than DRVL, and
the operating range otherwise.  The two tests disagree when DRVH is smaller.

## Main definitions

* `ReportsDriveLimits`, `ReportsOperatingRange` — what the control limits reported are.

## Main results

* `toInt_val_process` — the value `process` leaves.
* `clamp_of_lt`, `clamp_of_eq`, `clamp_of_gt` — clamping, by the order of the limits.
* `control_limits_enforced_iff` — when the limits reported are those enforced.
-/

namespace TestDatabase

open FieldType

instance : IntegerField UInt32 where
  lt_iff _ _ := UInt32.lt_iff_toNat_lt.trans Int.ofNat_lt.symm
  ofInt_toInt x := (congrArg UInt32.ofNat (toNat_emod_of_lt x.toNat_lt)).trans x.ofNat_toNat

instance : IntegerField UInt64 where
  lt_iff _ _ := UInt64.lt_iff_toNat_lt.trans Int.ofNat_lt.symm
  ofInt_toInt x := (congrArg UInt64.ofNat (toNat_emod_of_lt x.toNat_lt)).trans x.ofNat_toNat

/-! ### Clamping -/

namespace AlarmConfig

variable {c : AlarmConfig}

theorem clamp_of_lt (h : c.drvl < c.drvh) (v : ℤ) : c.clamp v = max c.drvl (min c.drvh v) := by
  have hne : c.drvh ≠ c.drvl := h.ne'
  unfold clamp
  rw [if_neg hne]
  simp only
  split
  · split <;> omega
  · split <;> omega

theorem clamp_of_eq (h : c.drvh = c.drvl) (v : ℤ) : c.clamp v = v := if_pos h

/-- Limits the wrong way round leave the lower one. -/
theorem clamp_of_gt (h : c.drvh < c.drvl) (v : ℤ) : c.clamp v = c.drvl := by
  unfold clamp
  rw [if_neg h.ne]
  by_cases hv : c.drvh < v
  · simp only [if_pos hv]
    exact if_pos h
  · simp only [if_neg hv]
    split <;> omega

/-- Clamping twice is clamping once. -/
theorem clamp_clamp (v : ℤ) : c.clamp (c.clamp v) = c.clamp v := by
  rcases lt_trichotomy c.drvl c.drvh with h | h | h
  · rw [clamp_of_lt h, clamp_of_lt h]
    omega
  · rw [clamp_of_eq h.symm, clamp_of_eq h.symm]
  · rw [clamp_of_gt h, clamp_of_gt h]

end AlarmConfig

/-! ### What is enforced and what is reported -/

namespace OutRecord

section reports
variable {F : Type} [LT F] [DecidableLT F]

/-- The control limits reported are DRVH and DRVL, whatever HOPR and LOPR are. -/
def ReportsDriveLimits (r : OutRecord F) : Prop :=
  ∀ hopr lopr, { r with hopr, lopr }.getControlDouble = (r.drvh, r.drvl)

/-- The control limits reported are HOPR and LOPR, whatever these are. -/
def ReportsOperatingRange (r : OutRecord F) : Prop :=
  ∀ hopr lopr, { r with hopr, lopr }.getControlDouble = (hopr, lopr)

theorem reportsDriveLimits_of_gt {r : OutRecord F} (h : r.drvh > r.drvl) :
    r.ReportsDriveLimits := fun _ _ => if_pos h

theorem reportsOperatingRange_of_not_gt {r : OutRecord F} (h : ¬ r.drvh > r.drvl) :
    r.ReportsOperatingRange := fun _ _ => if_neg h

/-- What reports two limits whatever two others are does not report these. -/
theorem not_reportsOperatingRange_of_gt [FieldType F] [IntegerField F] {r : OutRecord F}
    (h : r.drvh > r.drvl) : ¬ r.ReportsOperatingRange := by
  intro hreports
  have heq : (r.drvh, r.drvl) = (r.drvl, r.drvl) :=
    (reportsDriveLimits_of_gt h r.drvl r.drvl).symm.trans (hreports r.drvl r.drvl)
  have hlt : toInt r.drvl < toInt r.drvh := (IntegerField.lt_iff _ _).mp h
  rw [(Prod.mk.inj heq).1] at hlt
  exact lt_irrefl _ hlt

end reports

variable {F : Type} [FieldType F] {G : RecGbl} {s : RecordState (OutRecord F)}

/-- Raising an alarm leaves the value alone. -/
theorem val_raise (stat : AlarmCondition) (asev : MenuAlarmSevr) (alev : Int32) :
    (raise G stat asev alev s).fields.val = s.fields.val := by
  unfold raise
  simp only
  split <;> rfl

theorem val_checkAlarms : (checkAlarms G s).fields.val = s.fields.val := by
  unfold checkAlarms
  split
  · rfl
  simp only
  split
  · exact val_raise _ _ _
  split
  · exact val_raise _ _ _
  split
  · exact val_raise _ _ _
  split
  · exact val_raise _ _ _
  · rfl

variable [LT F] [DecidableLT F] [DecidableEq F]

/-- The value that `process` leaves is the clamped one, whatever alarms there are. -/
theorem val_process {link : RecordState (OutRecord F) → RecordState (OutRecord F)} :
    (process G link s).fields.val = s.fields.clamped.val := by
  unfold process
  exact val_checkAlarms

theorem toInt_val_process [IntegerField F]
    {link : RecordState (OutRecord F) → RecordState (OutRecord F)} :
    toInt (process G link s).fields.val = s.fields.config.clamp (toInt s.fields.val) := by
  rw [val_process, toInt_val_clamped]

/-- **When the control limits reported are those enforced.**  A record that reports its
drive limits clamps the value put to them, and one that reports the operating range
leaves the value alone, exactly if DRVH is not smaller than DRVL or the value put is
DRVL. -/
theorem control_limits_enforced_iff [IntegerField F] (G : RecGbl)
    (link : RecordState (OutRecord F) → RecordState (OutRecord F))
    (s : RecordState (OutRecord F)) (value : F) :
    ((s.fields.ReportsDriveLimits →
        toInt (process G link { s with fields.val := value }).fields.val =
          max (toInt s.fields.drvl) (min (toInt s.fields.drvh) (toInt value))) ∧
      (s.fields.ReportsOperatingRange →
        (process G link { s with fields.val := value }).fields.val = value)) ↔
      ¬ s.fields.drvh < s.fields.drvl ∨ value = s.fields.drvl := by
  generalize hleft : (process G link { s with fields.val := value }).fields.val = left
  have hclamp : toInt left = s.fields.config.clamp (toInt value) := by
    rw [← hleft, toInt_val_process]
    rfl
  have hdrvh : s.fields.config.drvh = toInt s.fields.drvh := rfl
  have hdrvl : s.fields.config.drvl = toInt s.fields.drvl := rfl
  rw [IntegerField.lt_iff, ← IntegerField.toInt_inj (x := left),
    ← IntegerField.toInt_inj (x := value)]
  rcases lt_trichotomy (toInt s.fields.drvl) (toInt s.fields.drvh) with h | h | h
  · -- the drive limits are reported and enforced
    have hgt : s.fields.drvh > s.fields.drvl := (IntegerField.lt_iff _ _).mpr h
    rw [AlarmConfig.clamp_of_lt h] at hclamp
    refine iff_of_true ⟨fun _ => hclamp, fun hoperating => ?_⟩ (.inl h.not_gt)
    exact absurd hoperating (not_reportsOperatingRange_of_gt hgt)
  · -- there are no drive limits
    have hngt : ¬ s.fields.drvh > s.fields.drvl := by
      rw [gt_iff_lt, IntegerField.lt_iff]
      exact h.not_lt
    rw [AlarmConfig.clamp_of_eq h.symm] at hclamp
    refine iff_of_true ⟨fun hdrive => ?_, fun _ => hclamp⟩ (.inl h.not_gt)
    have hboth := (hdrive value value).symm.trans
      (reportsOperatingRange_of_not_gt hngt value value)
    rw [hclamp, (Prod.mk.inj hboth).1, (Prod.mk.inj hboth).2]
    simp
  · -- the operating range is reported, and DRVL enforced
    have hngt : ¬ s.fields.drvh > s.fields.drvl := by
      rw [gt_iff_lt, IntegerField.lt_iff]
      exact h.not_gt
    have hoperating := reportsOperatingRange_of_not_gt hngt
    rw [AlarmConfig.clamp_of_gt h, hdrvl] at hclamp
    constructor
    · rintro ⟨-, hkeeps⟩
      exact .inr ((hkeeps hoperating).symm.trans hclamp)
    · rintro (hle | hvalue)
      · exact absurd h hle
      · refine ⟨fun hdrive => ?_, fun _ => hclamp.trans hvalue.symm⟩
        have hboth := (hdrive s.fields.drvl s.fields.drvl).symm.trans (hoperating _ _)
        rw [(Prod.mk.inj hboth).1] at h
        exact absurd h (lt_irrefl _)

/-- Drive limits in order: the value 110 put to the record becomes 100, the limit reported. -/
theorem control_limits_enforced_charout :
    { int8 with drvh := 100, drvl := -100 }.getControlDouble = (100, -100) ∧
    toInt (process .base id
      { fields := { int8 with drvh := 100, drvl := -100, val := 110 } }).fields.val = 100 := by
  refine ⟨by decide +kernel, ?_⟩
  have henforced := (control_limits_enforced_iff .base id
    { fields := { int8 with drvh := 100, drvl := -100 } } 110).mpr (.inl (by decide))
  exact henforced.1 (reportsDriveLimits_of_gt (by decide))

/-- Drive limits the wrong way round: the operating range is reported, and the value 5 put
to the record becomes 10. -/
theorem control_limits_not_enforced :
    { int8 with drvh := 0, drvl := 10 }.ReportsOperatingRange ∧
    (process .base id { fields := { int8 with drvh := 0, drvl := 10, val := 5 } }).fields.val = 10 :=
  ⟨reportsOperatingRange_of_not_gt (by decide), by decide +kernel⟩

end OutRecord

end TestDatabase
