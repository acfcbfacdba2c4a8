import Mathlib.Data.BitVec

/-!
# Values and alarms of a link record

A link record is a `PVRecord` with a double `value`, an `alarm` structure and a
time stamp.  The record keeps a private `Alarm` next to the published alarm
field and copies the one to the other with `PVAlarm::set`.

* `Double` — the 64 bits of a double; the link records only copy it.
* `AlarmSeverity`, `AlarmStatus`, `Alarm` — the alarm data type.
* `Alarm.invalid` — the two assignments every failure branch starts with.
* `Alarm.connected` — the alarm published for a link that delivers none.
-/

namespace TestDatabase

/-- A double, as the bits that are copied. -/
structure Double where
  /-- The representation. -/
  bits : BitVec 64
  deriving DecidableEq, Repr, Inhabited

/-- Alarm severities. -/
inductive AlarmSeverity
  | noAlarm
  | minorAlarm
  | majorAlarm
  | invalidAlarm
  | undefinedAlarm
  deriving DecidableEq, Repr, Inhabited

/-- Alarm statuses. -/
inductive AlarmStatus
  | noStatus
  | deviceStatus
  | driverStatus
  | recordStatus
  | dbStatus
  | confStatus
  | undefinedStatus
  | clientStatus
  deriving DecidableEq, Repr, Inhabited

/-- An alarm: the three fields of the `alarm` structure.  A new alarm has an empty
message, no severity and no status. -/
structure Alarm where
  message : String := ""
  severity : AlarmSeverity := .noAlarm
  status : AlarmStatus := .noStatus
  deriving DecidableEq, Repr, Inhabited

namespace Alarm

/-- `setMessage(message)` followed by `setSeverity(invalidAlarm)`: the status stays. -/
def invalid (a : Alarm) (message : String) : Alarm :=
  { a with message := message, severity := .invalidAlarm }

@[simp] theorem severity_invalid (a : Alarm) (message : String) :
    (a.invalid message).severity = .invalidAlarm := rfl

@[simp] theorem message_invalid (a : Alarm) (message : String) :
    (a.invalid message).message = message := rfl

@[simp] theorem status_invalid (a : Alarm) (message : String) :
    (a.invalid message).status = a.status := rfl

/-- The alarm a link record shows when the linked channel delivers none. -/
def connected : Alarm :=
  { message := "connected", severity := .noAlarm, status := .clientStatus }

end Alarm

end TestDatabase
