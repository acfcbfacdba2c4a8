import TestDatabase.Lib.EventMachine

/-!
# Records, puts and forward links

A record is the fields every record has (`dbCommon`) and those of its type.  A record
type comes with its support: routines for initialising and processing a record and
for a put to one of its fields.  A client puts to a record, a scan processes it, and
a record that is done processing drives its forward link by `recGblFwdLink`.

What the forward link drives may put to the record again before `recGblFwdLink`
returns.  A `Chain` lists these puts; processing they cause drives forward links of
its own.

## Main definitions

* `DbCommon` — the common fields; `RecGbl` — the alarm routines working on them.
* `RecordState` — a record with the put-notifies waiting for it and the processing
  queued for it.
* `Rset` — the support of a record type.
* `recGblFwdLink`, `putField`, `dbProcess` — forward links, puts and scans.
* `DbEvent`, `database` — the event machine of one record.
-/

namespace TestDatabase

/-- `menuAlarmSevr`. -/
inductive MenuAlarmSevr
  | noAlarm
  | minor
  | major
  | invalid
  deriving DecidableEq, Repr, Inhabited

/-- The number of a severity. -/
def MenuAlarmSevr.toNat : MenuAlarmSevr → ℕ
  | .noAlarm => 0
  | .minor => 1
  | .major => 2
  | .invalid => 3

instance : LT MenuAlarmSevr := ⟨fun a b => a.toNat < b.toNat⟩

instance (a b : MenuAlarmSevr) : Decidable (a < b) :=
  inferInstanceAs (Decidable (a.toNat < b.toNat))

theorem MenuAlarmSevr.noAlarm_lt_iff {a : MenuAlarmSevr} : noAlarm < a ↔ a ≠ noAlarm := by
  cases a <;> decide

/-- The alarm conditions raised by the record types of this database. -/
inductive AlarmCondition
  | noAlarm
  | hihi
  | high
  | lolo
  | low
  | udf
  deriving DecidableEq, Repr, Inhabited

/-- The fields every record has. -/
structure DbCommon where
  pact : Bool := false
  /-- Processing has been asked for while the record was active. -/
  rpro : Bool := false
  udf : Bool := true
  udfs : MenuAlarmSevr := .invalid
  stat : AlarmCondition := .udf
  sevr : MenuAlarmSevr := .invalid
  nsta : AlarmCondition := .noAlarm
  nsev : MenuAlarmSevr := .noAlarm
  deriving DecidableEq, Repr, Inhabited

/-- The alarm routines, and what record support relies on. -/
structure RecGbl where
  recGblSetSevr : DbCommon → AlarmCondition → MenuAlarmSevr → Bool × DbCommon
  recGblResetAlarms : DbCommon → DbCommon
  /-- A larger severity is stored, with its condition. -/
  setSevr_of_lt : ∀ c stat sevr, c.nsev < sevr →
    recGblSetSevr c stat sevr = (true, { c with nsta := stat, nsev := sevr })
  /-- Any other severity is ignored. -/
  setSevr_of_not_lt : ∀ c stat sevr, ¬ c.nsev < sevr → recGblSetSevr c stat sevr = (false, c)
  /-- The new alarm becomes the alarm, and is cleared. -/
  resetAlarms_eq : ∀ c, recGblResetAlarms c =
    { c with stat := c.nsta, sevr := c.nsev, nsta := .noAlarm, nsev := .noAlarm }

/-- The alarm routines as functions of the modelled fields. -/
def RecGbl.base : RecGbl where
  recGblSetSevr c stat sevr :=
    if c.nsev < sevr then (true, { c with nsta := stat, nsev := sevr }) else (false, c)
  recGblResetAlarms c :=
    { c with stat := c.nsta, sevr := c.nsev, nsta := .noAlarm, nsev := .noAlarm }
  setSevr_of_lt _ _ _ h := if_pos h
  setSevr_of_not_lt _ _ _ h := if_neg h
  resetAlarms_eq _ := rfl

/-- A new alarm has a severity if it has a condition. -/
def DbCommon.Paired (c : DbCommon) : Prop := c.nsev = .noAlarm → c.nsta = .noAlarm

/-- The alarm routines clear severity and condition together. -/
theorem RecGbl.paired_resetAlarms (G : RecGbl) (c : DbCommon) :
    (G.recGblResetAlarms c).Paired := by
  intro _
  rw [G.resetAlarms_eq]

/-- A record with the type-specific fields `α`, and what waits for it. -/
structure RecordState (α : Type) extends DbCommon where
  fields : α
  /-- The put-notifies not completed yet. -/
  waiting : List ℕ := []
  /-- How often processing is queued. -/
  queued : ℕ := 0
  /-- How often the forward link was driven. -/
  fwdLinks : ℕ := 0
  deriving DecidableEq, Repr

/-- The support of a record type with the fields `α` and values `β` put to VAL.
`process` and `special` get what `recGblFwdLink` does as an argument. -/
structure Rset (α β : Type) where
  initRecord : RecordState α → RecordState α
  process : (RecordState α → RecordState α) → RecordState α → RecordState α
  /-- Called before (`false`) and after (`true`) a put to VAL. -/
  special : Bool → (RecordState α → RecordState α) → RecordState α → RecordState α := fun _ _ s => s
  /-- Store a value in VAL. -/
  putVal : α → β → α

/-- The puts to a record made while its forward link is driven, in order.  Each comes
with what is driven by the processing that it causes, in `special` and after it. -/
inductive Chain (β : Type)
  | nil
  | put (value : β) (inSpecial afterwards rest : Chain β)
  deriving DecidableEq, Repr

variable {α β : Type}

/-- A put to VAL: write the value between two calls of `special`, then process the record
if it is idle, and otherwise mark it for reprocessing. -/
def putField (rset : Rset α β) (value : β) (inSpecial afterwards : RecordState α → RecordState α)
    (s : RecordState α) : RecordState α :=
  let s := rset.special false inSpecial s
  let s := { s with fields := rset.putVal s.fields value }
  let s := rset.special true inSpecial s
  if s.pact then { s with rpro := true } else rset.process afterwards s

/-- The end of `recGblFwdLink`: complete the put-notifies and queue the reprocessing
that was asked for. -/
def RecordState.complete (s : RecordState α) : RecordState α :=
  { s with
    waiting := []
    queued := if s.rpro then s.queued + 1 else s.queued
    rpro := false
    fwdLinks := s.fwdLinks + 1 }

/-- Make the puts of a chain. -/
def Chain.drive (rset : Rset α β) : Chain β → RecordState α → RecordState α
  | .nil, s => s
  | .put value inSpecial afterwards rest, s =>
    rest.drive rset (putField rset value (fun s => (inSpecial.drive rset s).complete)
      (fun s => (afterwards.drive rset s).complete) s)

/-- `recGblFwdLink`. -/
def recGblFwdLink (rset : Rset α β) (link : Chain β) (s : RecordState α) : RecordState α :=
  (link.drive rset s).complete

/-- Process a record, unless it is active. -/
def dbProcess (rset : Rset α β) (link : Chain β) (s : RecordState α) : RecordState α :=
  if s.pact then s else rset.process (recGblFwdLink rset link) s

/-- What can be done to a record.  A chain is what a forward link drives, should one be
driven. -/
inductive DbEvent (β : Type)
  /-- A put, by a put-notify if `notify` is its number. -/
  | put (value : β) (notify : Option ℕ) (inSpecial afterwards : Chain β)
  /-- A call of `special`. -/
  | special (after : Bool) (link : Chain β)
  /-- A scan. -/
  | process (link : Chain β)
  /-- Processing that was queued. -/
  | queued (link : Chain β)
  deriving DecidableEq, Repr

/-- One operation, from the call to its return. -/
def Rset.step (rset : Rset α β) (s : RecordState α) : DbEvent β → Option (RecordState α)
  | .put value notify inSpecial afterwards =>
    some (putField rset value (recGblFwdLink rset inSpecial) (recGblFwdLink rset afterwards)
      { s with waiting := notify.toList ++ s.waiting })
  | .special after link => some (rset.special after (recGblFwdLink rset link) s)
  | .process link => some (dbProcess rset link s)
  | .queued link =>
    if s.queued = 0 then none else some (dbProcess rset link { s with queued := s.queued - 1 })

/-- A record of some type, initialised, among its clients. -/
def database (rset : Rset α β) (s : RecordState α) : EventMachine (RecordState α) (DbEvent β) where
  init := rset.initRecord s
  step := rset.step

end TestDatabase
