import Mathlib.Data.Rat.Floor
import TestDatabase.Db.Common

/-!
# The output records

The record types charout, ucharout, shortout, ushortout, ulongout, uint64 and floatout
have the same support but for the type of their fields.  Processing clamps the value
to the drive limits, checks it against four alarm limits and posts it.

Time stamps and posted events are left out, since nothing reads them.

`checkAlarms` copies values and limits of every field type to `epicsInt32`.  An alarm
that was raised is remembered in LALM, as its limit, and given up only when the value
has left the limit by more than HYST.

## Main definitions

* `FieldType` — what C does with a field type: order and conversions.
* `OutRecord F` — the record with fields of the type `F`, one abbreviation for each
  record type.
* `OutRecord.checkAlarms`, `OutRecord.process`, `outRSET` — the record support.
* `AlarmKind`, `OutRecord.Holds`, `OutRecord.activeAlarm` — the alarm that
  `checkAlarms` finds.

## Main results

* `OutRecord.checkAlarms_eq` — `checkAlarms` raises that alarm and remembers it.
* `OutRecord.process_eq` — the record that `process` leaves.
-/

namespace TestDatabase

/-- A field type: what it is converted to as an integer, and what an integer is
converted to as a value of it. -/
class FieldType (F : Type) where
  toInt : F → ℤ
  ofInt : ℤ → F

namespace FieldType

instance : FieldType Int8 := ⟨Int8.toInt, Int8.ofInt⟩
instance : FieldType UInt8 := ⟨fun x => x.toNat, UInt8.ofInt⟩
instance : FieldType Int16 := ⟨Int16.toInt, Int16.ofInt⟩
instance : FieldType UInt16 := ⟨fun x => x.toNat, UInt16.ofInt⟩
instance : FieldType UInt32 := ⟨fun x => x.toNat, UInt32.ofInt⟩
instance : FieldType UInt64 := ⟨fun x => x.toNat, UInt64.ofInt⟩

/-- A natural number to 24 significant bits: to the nearest, to even in the middle. -/
def round24 (n : ℕ) : ℕ :=
  let ulp := 2 ^ (n.log2 - 23)
  let up := ulp < 2 * (n % ulp) ∨ ulp = 2 * (n % ulp) ∧ n / ulp % 2 = 1
  (if up then n / ulp + 1 else n / ulp) * ulp

example : round24 (2 ^ 24 + 1) = 2 ^ 24 ∧ round24 (2 ^ 24 + 3) = 2 ^ 24 + 4 := by decide

/-- A float truncated to an integer. -/
def truncated (q : ℚ) : ℤ := if q < 0 then ⌈q⌉ else ⌊q⌋

/-- The finite floats, as the rationals they denote.  They are truncated to integers.  C does
not say what becomes of one that is then no `epicsInt32`; on x86 it is the smallest. -/
instance : FieldType ℚ where
  toInt q := if -2 ^ 31 ≤ truncated q ∧ truncated q < 2 ^ 31 then truncated q else -2 ^ 31
  ofInt n := if n < 0 then -(round24 n.natAbs : ℚ) else round24 n.natAbs

variable {F : Type} [FieldType F]

/-- Assignment to an `epicsInt32`. -/
def toInt32 (x : F) : Int32 := Int32.ofInt (toInt x)

/-- Assignment of an `epicsInt32`. -/
def ofInt32 (n : Int32) : F := ofInt n.toInt

end FieldType

open FieldType

/-- The fields of an output record. -/
structure OutRecord (F : Type) where
  val : F
  drvh : F
  drvl : F
  hopr : F
  lopr : F
  hihi : F
  lolo : F
  high : F
  low : F
  hhsv : MenuAlarmSevr := .noAlarm
  llsv : MenuAlarmSevr := .noAlarm
  hsv : MenuAlarmSevr := .noAlarm
  lsv : MenuAlarmSevr := .noAlarm
  hyst : F
  lalm : F
  deriving DecidableEq, Repr, Inhabited

namespace OutRecord

variable {F : Type} [LT F] [DecidableLT F] [DecidableEq F] [FieldType F]

/-- `init_record`, in its second pass. -/
def initRecord (G : RecGbl) (s : RecordState (OutRecord F)) : RecordState (OutRecord F) :=
  { s with toDbCommon := G.recGblResetAlarms s.toDbCommon }

/-- The condition of a high alarm: reached, or held and not left by more than `hyst`. -/
def HighSide (val alev lalm hyst : Int32) : Prop := val ≥ alev ∨ lalm = alev ∧ val ≥ alev - hyst

/-- The condition of a low alarm. -/
def LowSide (val alev lalm hyst : Int32) : Prop := val ≤ alev ∨ lalm = alev ∧ val ≤ alev + hyst

instance (val alev lalm hyst : Int32) : Decidable (HighSide val alev lalm hyst) :=
  inferInstanceAs (Decidable (_ ∨ _))

instance (val alev lalm hyst : Int32) : Decidable (LowSide val alev lalm hyst) :=
  inferInstanceAs (Decidable (_ ∨ _))

/-- `if (recGblSetSevr(prec, stat, asev)) prec->lalm = alev;` -/
def raise (G : RecGbl) (stat : AlarmCondition) (asev : MenuAlarmSevr) (alev : Int32)
    (s : RecordState (OutRecord F)) : RecordState (OutRecord F) :=
  let (raised, common) := G.recGblSetSevr s.toDbCommon stat asev
  let s := { s with toDbCommon := common }
  if raised then { s with fields.lalm := ofInt32 alev } else s

/-- `checkAlarms`. -/
def checkAlarms (G : RecGbl) (s : RecordState (OutRecord F)) : RecordState (OutRecord F) :=
  if s.udf then { s with toDbCommon := (G.recGblSetSevr s.toDbCommon .udf s.udfs).2 }
  else
    let val := toInt32 s.fields.val
    let hyst := toInt32 s.fields.hyst
    let lalm := toInt32 s.fields.lalm
    if s.fields.hhsv ≠ .noAlarm ∧ HighSide val (toInt32 s.fields.hihi) lalm hyst then
      raise G .hihi s.fields.hhsv (toInt32 s.fields.hihi) s
    else if s.fields.llsv ≠ .noAlarm ∧ LowSide val (toInt32 s.fields.lolo) lalm hyst then
      raise G .lolo s.fields.llsv (toInt32 s.fields.lolo) s
    else if s.fields.hsv ≠ .noAlarm ∧ HighSide val (toInt32 s.fields.high) lalm hyst then
      raise G .high s.fields.hsv (toInt32 s.fields.high) s
    else if s.fields.lsv ≠ .noAlarm ∧ LowSide val (toInt32 s.fields.low) lalm hyst then
      raise G .low s.fields.lsv (toInt32 s.fields.low) s
    else { s with fields.lalm := ofInt32 val }

/-- The value within the drive limits, if they differ. -/
def clamped (r : OutRecord F) : OutRecord F :=
  if r.drvh ≠ r.drvl then
    let r := if r.val > r.drvh then { r with val := r.drvh } else r
    if r.val < r.drvl then { r with val := r.drvl } else r
  else r

/-- `process`.  It does not drive the forward link. -/
def process (G : RecGbl) (_link : RecordState (OutRecord F) → RecordState (OutRecord F))
    (s : RecordState (OutRecord F)) : RecordState (OutRecord F) :=
  let s := checkAlarms G { s with fields := s.fields.clamped }
  { s with toDbCommon := { G.recGblResetAlarms s.toDbCommon with pact := false } }

/-- `get_control_double`, for VAL and the alarm limits: the upper and the lower limit. -/
def getControlDouble (r : OutRecord F) : F × F :=
  if r.drvh > r.drvl then (r.drvh, r.drvl) else (r.hopr, r.lopr)

end OutRecord

/-- The record support entry table.  There is no `special`. -/
def outRSET (G : RecGbl) (F : Type) [LT F] [DecidableLT F] [DecidableEq F] [FieldType F] :
    Rset (OutRecord F) F where
  initRecord := OutRecord.initRecord G
  process := OutRecord.process G
  putVal r value := { r with val := value }

/-! The record types, by the type of their fields. -/

abbrev CharoutRecord := OutRecord Int8
abbrev UcharoutRecord := OutRecord UInt8
abbrev ShortoutRecord := OutRecord Int16
abbrev UshortoutRecord := OutRecord UInt16
abbrev UlongoutRecord := OutRecord UInt32
abbrev Uint64Record := OutRecord UInt64
abbrev FloatoutRecord := OutRecord ℚ

abbrev charoutRSET (G : RecGbl) : Rset CharoutRecord Int8 := outRSET G Int8
abbrev ucharoutRSET (G : RecGbl) : Rset UcharoutRecord UInt8 := outRSET G UInt8
abbrev shortoutRSET (G : RecGbl) : Rset ShortoutRecord Int16 := outRSET G Int16
abbrev ushortoutRSET (G : RecGbl) : Rset UshortoutRecord UInt16 := outRSET G UInt16
abbrev ulongoutRSET (G : RecGbl) : Rset UlongoutRecord UInt32 := outRSET G UInt32
abbrev uint64RSET (G : RecGbl) : Rset Uint64Record UInt64 := outRSET G UInt64
abbrev floatoutRSET (G : RecGbl) : Rset FloatoutRecord ℚ := outRSET G ℚ

/-- A put to an idle record processes it. -/
theorem putField_of_idle {F : Type} [LT F] [DecidableLT F] [DecidableEq F] [FieldType F]
    {G : RecGbl} {s : RecordState (OutRecord F)} (hpact : s.pact = false) (value : F)
    (link link' : RecordState (OutRecord F) → RecordState (OutRecord F)) :
    putField (outRSET G F) value link link' s =
      OutRecord.process G link' { s with fields.val := value } := by
  unfold putField
  simp only [outRSET, hpact, Bool.false_eq_true, if_false]

/-- A put to an active record marks it. -/
theorem putField_of_active {F : Type} [LT F] [DecidableLT F] [DecidableEq F] [FieldType F]
    {G : RecGbl} {s : RecordState (OutRecord F)} (hpact : s.pact = true) (value : F)
    (link link' : RecordState (OutRecord F) → RecordState (OutRecord F)) :
    putField (outRSET G F) value link link' s = { s with rpro := true, fields.val := value } := by
  unfold putField
  simp only [outRSET, hpact, if_true]

/-- The charout record of int8.db. -/
def int8 : CharoutRecord where
  val := 0
  drvh := 127
  drvl := -128
  hopr := 127
  lopr := -128
  hihi := 120
  high := 100
  low := -100
  lolo := -120
  hhsv := .major
  hsv := .minor
  lsv := .minor
  llsv := .major
  hyst := 0
  lalm := 0

/-! ### The alarm found -/

/-- The four alarms. -/
inductive AlarmKind
  | hihi
  | lolo
  | high
  | low
  deriving DecidableEq, Repr

namespace AlarmKind

/-- The alarms in the order in which they are checked. -/
def order : List AlarmKind := [hihi, lolo, high, low]

theorem mem_order (k : AlarmKind) : k ∈ order := by cases k <;> decide

/-- Whether the alarm is on the high side. -/
def isHigh : AlarmKind → Bool
  | hihi => true
  | lolo => false
  | high => true
  | low => false

/-- The condition the alarm raises. -/
def condition : AlarmKind → AlarmCondition
  | hihi => .hihi
  | lolo => .lolo
  | high => .high
  | low => .low

end AlarmKind

namespace OutRecord

variable {F : Type}

/-- The limit of an alarm. -/
def limit (r : OutRecord F) : AlarmKind → F
  | .hihi => r.hihi
  | .lolo => r.lolo
  | .high => r.high
  | .low => r.low

/-- The severity of an alarm. -/
def severity (r : OutRecord F) : AlarmKind → MenuAlarmSevr
  | .hihi => r.hhsv
  | .lolo => r.llsv
  | .high => r.hsv
  | .low => r.lsv

/-- Clamping changes nothing but the value. -/
theorem clamped_eq [LT F] [DecidableLT F] [DecidableEq F] (r : OutRecord F) :
    r.clamped = { r with val := r.clamped.val } := by
  unfold clamped
  split
  · simp only
    split <;> split <;> rfl
  · rfl

variable [FieldType F]

/-- The condition `checkAlarms` tests for an alarm. -/
def Holds (r : OutRecord F) (k : AlarmKind) : Prop :=
  r.severity k ≠ .noAlarm ∧
    if k.isHigh then HighSide (toInt32 r.val) (toInt32 (r.limit k)) (toInt32 r.lalm) (toInt32 r.hyst)
    else LowSide (toInt32 r.val) (toInt32 (r.limit k)) (toInt32 r.lalm) (toInt32 r.hyst)

instance (r : OutRecord F) (k : AlarmKind) : Decidable (r.Holds k) :=
  inferInstanceAs (Decidable (_ ∧ _))

section holds
variable {r : OutRecord F}

theorem holds_hihi : r.Holds .hihi ↔ r.hhsv ≠ .noAlarm ∧
    HighSide (toInt32 r.val) (toInt32 r.hihi) (toInt32 r.lalm) (toInt32 r.hyst) := Iff.rfl

theorem holds_lolo : r.Holds .lolo ↔ r.llsv ≠ .noAlarm ∧
    LowSide (toInt32 r.val) (toInt32 r.lolo) (toInt32 r.lalm) (toInt32 r.hyst) := Iff.rfl

theorem holds_high : r.Holds .high ↔ r.hsv ≠ .noAlarm ∧
    HighSide (toInt32 r.val) (toInt32 r.high) (toInt32 r.lalm) (toInt32 r.hyst) := Iff.rfl

theorem holds_low : r.Holds .low ↔ r.lsv ≠ .noAlarm ∧
    LowSide (toInt32 r.val) (toInt32 r.low) (toInt32 r.lalm) (toInt32 r.hyst) := Iff.rfl

end holds

/-- The first alarm whose condition holds. -/
def activeAlarm (r : OutRecord F) : Option AlarmKind :=
  AlarmKind.order.find? fun k => decide (r.Holds k)

theorem holds_of_activeAlarm {r : OutRecord F} {k : AlarmKind} (h : r.activeAlarm = some k) :
    r.Holds k := by
  have hk := List.find?_some (p := fun k => decide (r.Holds k)) h
  exact of_decide_eq_true hk

theorem not_holds_of_activeAlarm {r : OutRecord F} (h : r.activeAlarm = none) (k : AlarmKind) :
    ¬ r.Holds k := by
  have hk := List.find?_eq_none.mp h k k.mem_order
  simpa using hk

/-- With no new alarm yet, any severity is raised. -/
theorem raise_eq {G : RecGbl} {stat : AlarmCondition} {asev : MenuAlarmSevr} {alev : Int32}
    {s : RecordState (OutRecord F)} (hnsev : s.nsev = .noAlarm) (hasev : asev ≠ .noAlarm) :
    raise G stat asev alev s =
      { s with nsta := stat, nsev := asev, fields.lalm := ofInt32 alev } := by
  -- any enabled severity is larger than none
  have hlt : s.nsev < asev := by
    rw [hnsev]
    exact MenuAlarmSevr.noAlarm_lt_iff.mpr hasev
  rw [raise, G.setSevr_of_lt _ _ _ hlt]
  rfl

/-- **What `checkAlarms` does** to a defined record without a new alarm: it raises the
first alarm whose condition holds and remembers its limit, or else the value. -/
theorem checkAlarms_eq {G : RecGbl} {s : RecordState (OutRecord F)} (hudf : s.udf = false)
    (hnsev : s.nsev = .noAlarm) :
    checkAlarms G s =
      match s.fields.activeAlarm with
      | some k => { s with
          nsta := k.condition
          nsev := s.fields.severity k
          fields.lalm := ofInt32 (toInt32 (s.fields.limit k)) }
      | none => { s with fields.lalm := ofInt32 (toInt32 s.fields.val) } := by
  have hraise : ∀ k, s.fields.Holds k →
      raise G k.condition (s.fields.severity k) (toInt32 (s.fields.limit k)) s =
        { s with
          nsta := k.condition
          nsev := s.fields.severity k
          fields.lalm := ofInt32 (toInt32 (s.fields.limit k)) } :=
    fun k hk => raise_eq hnsev hk.1
  unfold checkAlarms activeAlarm AlarmKind.order
  rw [if_neg (by rw [hudf]; exact Bool.false_ne_true)]
  simp only [List.find?_cons, List.find?_nil]
  -- the blocks of the source, in their order
  by_cases hhihi : s.fields.Holds .hihi
  · rw [if_pos (holds_hihi.mp hhihi), decide_eq_true hhihi]
    exact hraise .hihi hhihi
  rw [if_neg (mt holds_hihi.mpr hhihi), decide_eq_false hhihi]
  by_cases hlolo : s.fields.Holds .lolo
  · rw [if_pos (holds_lolo.mp hlolo), decide_eq_true hlolo]
    exact hraise .lolo hlolo
  rw [if_neg (mt holds_lolo.mpr hlolo), decide_eq_false hlolo]
  by_cases hhigh : s.fields.Holds .high
  · rw [if_pos (holds_high.mp hhigh), decide_eq_true hhigh]
    exact hraise .high hhigh
  rw [if_neg (mt holds_high.mpr hhigh), decide_eq_false hhigh]
  by_cases hlow : s.fields.Holds .low
  · rw [if_pos (holds_low.mp hlow), decide_eq_true hlow]
    exact hraise .low hlow
  rw [if_neg (mt holds_low.mpr hlow), decide_eq_false hlow]

/-- The status and the severity of the alarm found. -/
def alarm (r : OutRecord F) : AlarmCondition × MenuAlarmSevr :=
  match r.activeAlarm with
  | some k => (k.condition, r.severity k)
  | none => (.noAlarm, .noAlarm)

/-- What LALM remembers of it. -/
def memory (r : OutRecord F) : F :=
  match r.activeAlarm with
  | some k => ofInt32 (toInt32 (r.limit k))
  | none => ofInt32 (toInt32 r.val)

variable [LT F] [DecidableLT F] [DecidableEq F]

/-- **What `process` does** to a defined record without a new alarm. -/
theorem process_eq {G : RecGbl} {link : RecordState (OutRecord F) → RecordState (OutRecord F)}
    {s : RecordState (OutRecord F)} (hudf : s.udf = false) (hnsta : s.nsta = .noAlarm)
    (hnsev : s.nsev = .noAlarm) :
    process G link s = { s with
      pact := false
      stat := s.fields.clamped.alarm.1
      sevr := s.fields.clamped.alarm.2
      nsta := .noAlarm
      nsev := .noAlarm
      fields := { s.fields.clamped with lalm := s.fields.clamped.memory } } := by
  have hcheck := checkAlarms_eq (G := G) (s := { s with fields := s.fields.clamped }) hudf hnsev
  unfold process alarm memory
  rw [hcheck]
  -- the alarm raised, or its absence, moves to STAT and SEVR
  cases s.fields.clamped.activeAlarm with
  | some k => simp only [G.resetAlarms_eq]
  | none => simp only [G.resetAlarms_eq, hnsta, hnsev]

end OutRecord

end TestDatabase
