import Mathlib.Data.List.Basic
import Mathlib.Logic.Function.Basic
import TestDatabase.Clients.TimeMany

/-!
# The rounds of a PutThread

`PutThread::run()` of the program `getputmonitorrate` makes a client for each channel and
then puts, round after round, the numbers from 0 to 9 to all channels in order.  Before each
round it looks whether it is to stop.

`put()` of a client returns at once if the channel or its put is not connected, or if it finds
no field to convert the number into.  Otherwise it issues the put and waits for the event that
`putDone` signals.  The channels may connect and disconnect at any time.  pvaClient answers
each put issued at most once.

Here `put()` is cut into the steps between which the callbacks may come.  `run()` catches
nothing: an exception of pvaClient or of the conversion leaves it and ends the program, and
so may a search that takes element 0 of a structure without fields.

## Main definitions

* `ClientPut` — the flags and the event of a client, and its callbacks.
* `PutThread`, `PutThread.runStep` — the thread and the steps of `run()`.
* `putThread` — the event machine of the thread, `stop()`, and the callbacks.
* `rounds` — the puts of whole rounds, in order.

## Main results

* `PutThread.runStep_effect`, `PutThread.step_effect` — what a step can do.
* `puts_are_rounds` — **the thread puts whole rounds, whatever the callbacks do.**
-/

namespace TestDatabase.PutRounds

open TimeMany (PVField search)

/-! ### The clients -/

/-- The client of a channel. -/
structure ClientPut where
  channelConnected : Bool := false
  putConnected : Bool := false
  /-- `pvaClientPut` has been made, and its connect issued. -/
  pvaClientPut : Bool := false
  /-- The put issued last has not been answered. -/
  outstanding : Bool := false
  /-- The event is signalled. -/
  waitForCallback : Bool := false
  deriving DecidableEq, Repr

namespace ClientPut

def channelStateChange (c : ClientPut) (isConnected : Bool) : ClientPut :=
  if isConnected then { c with channelConnected := true, pvaClientPut := true }
  else { c with channelConnected := false }

/-- `channelPutConnect`, once there is an object to connect. -/
def channelPutConnect (c : ClientPut) : Option ClientPut :=
  if c.pvaClientPut then some { c with putConnected := true } else none

/-- `putDone`, the answer to the put issued. -/
def putDone (c : ClientPut) : Option ClientPut :=
  if c.outstanding then some { c with outstanding := false, waitForCallback := true } else none

end ClientPut

/-! ### The thread -/

/-- How far `run()` has come.  A round goes on with the number to put, as a text. -/
inductive Progress
  /-- It makes the client `i`. -/
  | creating (i : ℕ)
  /-- It is about to look at `isStop`. -/
  | checking
  /-- It is about to call `put()` of client `i`. -/
  | calling (i : ℕ) (val : String)
  /-- In `put()`, having found the channel connected. -/
  | connected (i : ℕ) (val : String)
  /-- In `put()`, waiting for the answer. -/
  | waiting (i : ℕ) (val : String)
  | sleeping
  | returned
  /-- The program has died, in a call of `put()` or while the clients were made. -/
  | died (call : Option (ℕ × String))
  deriving DecidableEq, Repr

/-- The program has not died. -/
def Progress.lives : Progress → Bool
  | died _ => false
  | _ => true

/-- A call of `put()`, and whether it has issued a put. -/
structure Call where
  channel : ℕ
  val : String
  issued : Bool
  deriving DecidableEq, Repr

/-- A PutThread with its clients, those not yet made as they will be. -/
structure PutThread where
  isStop : Bool := false
  /-- The event is signalled. -/
  waitForStop : Bool := false
  progress : Progress := .creating 0
  value : ℕ := 0
  clients : ℕ → ClientPut := fun _ => {}
  calls : List Call := []

inductive Event
  /-- The thread takes its next step. -/
  | run
  /-- Instead of it an exception leaves `run()`. -/
  | throws
  /-- `stop()` sets `isStop`. -/
  | stop
  | channelStateChange (i : ℕ) (isConnected : Bool)
  | channelPutConnect (i : ℕ)
  | putDone (i : ℕ)
  deriving DecidableEq, Repr

/-- `value = value + 1.0; if(value>=10) value = 0.0;` -/
def nextValue (value : ℕ) : ℕ :=
  let value := value + 1
  if value ≥ 10 then 0 else value

namespace PutThread

/-- A client changes. -/
def setClient (t : PutThread) (i : ℕ) (c : ClientPut) : PutThread :=
  { t with clients := Function.update t.clients i c }

/-- A call of `put()` returns without having issued a put. -/
def skip (t : PutThread) (i : ℕ) (val : String) : PutThread :=
  { t with progress := .calling (i + 1) val, calls := t.calls ++ [⟨i, val, false⟩] }

/-- The program dies in a call of `put()`. -/
def die (t : PutThread) (i : ℕ) (val : String) : PutThread :=
  { t with progress := .died (some (i, val)), calls := t.calls ++ [⟨i, val, false⟩] }

/-- The next step of `run()`, with `n` channels, `pvStructure i` being the structure put to
channel `i`. -/
def runStep (n : ℕ) (pvStructure : ℕ → List (String × PVField)) (t : PutThread) :
    Option PutThread :=
  match t.progress with
  | .creating i =>
    if i < n then some { t with progress := .creating (i + 1) }
    else some { t with progress := .checking }
  | .checking =>
    if t.isStop then some { t with waitForStop := true, progress := .returned }
    else some { t with value := nextValue t.value, progress := .calling 0 (toString t.value) }
  | .calling i val =>
    if i < n then
      if (t.clients i).channelConnected then some { t with progress := .connected i val }
      else some (t.skip i val)
    else some { t with progress := .sleeping }
  | .connected i val =>
    if (t.clients i).putConnected then
      if search (pvStructure i) = .outOfRange then some (t.die i val)
      else if (search (pvStructure i)).found then
        some { t.setClient i { t.clients i with outstanding := true } with
          progress := .waiting i val
          calls := t.calls ++ [⟨i, val, true⟩] }
      else some (t.skip i val)
    else some (t.skip i val)
  | .waiting i val =>
    if (t.clients i).waitForCallback then
      some { t.setClient i { t.clients i with waitForCallback := false } with
        progress := .calling (i + 1) val }
    else none
  | .sleeping => some { t with progress := .checking }
  | .returned => none
  | .died _ => none

/-- An exception leaves `run()`: one of `ClientPut::create`, or in `put()` of `getData()`, of the
conversion or of `issuePut()`. -/
def throws (n : ℕ) (t : PutThread) : Option PutThread :=
  match t.progress with
  | .creating i => if i < n then some { t with progress := .died none } else none
  | .connected i val => if (t.clients i).putConnected then some (t.die i val) else none
  | _ => none

/-- The number of clients made. -/
def created (n : ℕ) (t : PutThread) : ℕ :=
  match t.progress with
  | .creating i => i
  | _ => n

/-- A callback of a client that has been made. -/
def callback (n : ℕ) (t : PutThread) (i : ℕ) (c : Option ClientPut) : Option PutThread :=
  if i < t.created n then c.map (t.setClient i) else none

/-- One step. -/
def step (n : ℕ) (pvStructure : ℕ → List (String × PVField)) (t : PutThread) :
    Event → Option PutThread
  | .run => t.runStep n pvStructure
  | .throws => t.throws n
  | .stop => some { t with isStop := true }
  | .channelStateChange i isConnected =>
    t.callback n i (some ((t.clients i).channelStateChange isConnected))
  | .channelPutConnect i => t.callback n i (t.clients i).channelPutConnect
  | .putDone i => t.callback n i (t.clients i).putDone

end PutThread

/-- A PutThread for `n` channels. -/
def putThread (n : ℕ) (pvStructure : ℕ → List (String × PVField)) :
    EventMachine PutThread Event where
  init := {}
  step := PutThread.step n pvStructure

/-! ### What a step does -/

namespace PutThread

variable {n : ℕ} {pvStructure : ℕ → List (String × PVField)} {t t' : PutThread} {e : Event}

/-- What a step of the thread can do. -/
inductive RunEffect (n : ℕ) (pvStructure : ℕ → List (String × PVField)) (t : PutThread) :
    PutThread → Prop
  | create (i : ℕ) (hprogress : t.progress = .creating i) (hi : i < n) :
    RunEffect n pvStructure t { t with progress := .creating (i + 1) }
  | created (i : ℕ) (hprogress : t.progress = .creating i) (hi : ¬ i < n) :
    RunEffect n pvStructure t { t with progress := .checking }
  | returns (hprogress : t.progress = .checking) (hstop : t.isStop = true) :
    RunEffect n pvStructure t { t with waitForStop := true, progress := .returned }
  | round (hprogress : t.progress = .checking) (hstop : t.isStop = false) :
    RunEffect n pvStructure t { t with
      value := nextValue t.value, progress := .calling 0 (toString t.value) }
  | connected (i : ℕ) (val : String) (hprogress : t.progress = .calling i val) (hi : i < n)
      (hconnected : (t.clients i).channelConnected = true) :
    RunEffect n pvStructure t { t with progress := .connected i val }
  | skip (i : ℕ) (val : String) (hi : i < n)
      (hprogress : t.progress = .calling i val ∨ t.progress = .connected i val) :
    RunEffect n pvStructure t (t.skip i val)
  | issue (i : ℕ) (val : String) (hprogress : t.progress = .connected i val) (hi : i < n)
      (hput : (t.clients i).putConnected = true) (hfound : (search (pvStructure i)).found = true) :
    RunEffect n pvStructure t { t.setClient i { t.clients i with outstanding := true } with
      progress := .waiting i val
      calls := t.calls ++ [⟨i, val, true⟩] }
  | answered (i : ℕ) (val : String) (hprogress : t.progress = .waiting i val)
      (hsignal : (t.clients i).waitForCallback = true) :
    RunEffect n pvStructure t { t.setClient i { t.clients i with waitForCallback := false } with
      progress := .calling (i + 1) val }
  | sleep (i : ℕ) (val : String) (hprogress : t.progress = .calling i val) (hi : ¬ i < n) :
    RunEffect n pvStructure t { t with progress := .sleeping }
  | wake (hprogress : t.progress = .sleeping) :
    RunEffect n pvStructure t { t with progress := .checking }
  | createDies (i : ℕ) (hprogress : t.progress = .creating i) (hi : i < n) :
    RunEffect n pvStructure t { t with progress := .died none }
  | putDies (i : ℕ) (val : String) (hprogress : t.progress = .connected i val) (hi : i < n) :
    RunEffect n pvStructure t (t.die i val)

/-- The client `run()` has come to exists. -/
def InRange (n : ℕ) (t : PutThread) : Prop :=
  match t.progress with
  | .calling i _ => i ≤ n
  | .connected i _ => i < n
  | .waiting i _ => i < n
  | _ => True

theorem runStep_effect (hrange : t.InRange n) (hs : t.runStep n pvStructure = some t') :
    t.RunEffect n pvStructure t' := by
  unfold runStep at hs
  split at hs
  · next i hprogress =>
    split at hs
    · next hi => exact Option.some.inj hs ▸ .create i hprogress hi
    · next hi => exact Option.some.inj hs ▸ .created i hprogress hi
  · next hprogress =>
    split at hs
    · next hstop => exact Option.some.inj hs ▸ .returns hprogress hstop
    · next hstop => exact Option.some.inj hs ▸ .round hprogress (by simpa using hstop)
  · next i val hprogress =>
    split at hs
    · next hi =>
      split at hs
      · next hconnected => exact Option.some.inj hs ▸ .connected i val hprogress hi hconnected
      · exact Option.some.inj hs ▸ .skip i val hi (.inl hprogress)
    · next hi => exact Option.some.inj hs ▸ .sleep i val hprogress hi
  · next i val hprogress =>
    have hi : i < n := by simpa [InRange, hprogress] using hrange
    split at hs
    · next hput =>
      split at hs
      · exact Option.some.inj hs ▸ .putDies i val hprogress hi
      · split at hs
        · next hfound => exact Option.some.inj hs ▸ .issue i val hprogress hi hput hfound
        · exact Option.some.inj hs ▸ .skip i val hi (.inr hprogress)
    · exact Option.some.inj hs ▸ .skip i val hi (.inr hprogress)
  · next i val hprogress =>
    split at hs
    · next hsignal => exact Option.some.inj hs ▸ .answered i val hprogress hsignal
    · exact absurd hs (by simp)
  · next hprogress => exact Option.some.inj hs ▸ .wake hprogress
  · exact absurd hs (by simp)
  · exact absurd hs (by simp)

theorem throws_effect (hrange : t.InRange n) (hs : t.throws n = some t') :
    t.RunEffect n pvStructure t' := by
  unfold throws at hs
  split at hs
  · next i hprogress =>
    simp only [Option.ite_none_right_eq_some, Option.some.injEq] at hs
    exact hs.2 ▸ .createDies i hprogress hs.1
  · next i val hprogress =>
    have hi : i < n := by simpa [InRange, hprogress] using hrange
    simp only [Option.ite_none_right_eq_some, Option.some.injEq] at hs
    exact hs.2 ▸ .putDies i val hprogress hi
  · exact absurd hs (by simp)

/-- What an event can do. -/
inductive Effect (n : ℕ) (pvStructure : ℕ → List (String × PVField)) (t : PutThread) :
    Event → PutThread → Prop
  | run (t' : PutThread) (hrun : t.RunEffect n pvStructure t') : Effect n pvStructure t .run t'
  | throws (t' : PutThread) (hrun : t.RunEffect n pvStructure t') :
    Effect n pvStructure t .throws t'
  | stop : Effect n pvStructure t .stop { t with isStop := true }
  | answer (i : ℕ) (houtstanding : (t.clients i).outstanding = true) :
    Effect n pvStructure t (.putDone i)
      (t.setClient i { t.clients i with outstanding := false, waitForCallback := true })
  /-- A connection callback changes flags that no put waits for. -/
  | connection (e : Event) (i : ℕ) (c : ClientPut) (hrun : e ≠ .run) (hanswer : ∀ j, e ≠ .putDone j)
      (houtstanding : c.outstanding = (t.clients i).outstanding)
      (hsignal : c.waitForCallback = (t.clients i).waitForCallback) :
    Effect n pvStructure t e (t.setClient i c)

theorem step_effect (hrange : t.InRange n) (hs : t.step n pvStructure e = some t') :
    t.Effect n pvStructure e t' := by
  cases e with
  | run => exact .run t' (runStep_effect hrange hs)
  | throws => exact .throws t' (throws_effect hrange hs)
  | stop =>
    obtain rfl := Option.some.inj hs
    exact .stop
  | channelStateChange i isConnected =>
    simp only [step, callback, Option.map_some, Option.ite_none_right_eq_some,
      Option.some.injEq] at hs
    obtain ⟨-, rfl⟩ := hs
    refine .connection _ i _ Event.noConfusion (fun j => Event.noConfusion) ?_ ?_
    · cases isConnected <;> rfl
    · cases isConnected <;> rfl
  | channelPutConnect i =>
    simp only [step, callback, Option.ite_none_right_eq_some, Option.map_eq_some_iff,
      ClientPut.channelPutConnect, Option.some.injEq] at hs
    obtain ⟨-, c, ⟨-, rfl⟩, rfl⟩ := hs
    exact .connection _ i _ Event.noConfusion (fun j => Event.noConfusion) rfl rfl
  | putDone i =>
    simp only [step, callback, Option.ite_none_right_eq_some, Option.map_eq_some_iff,
      ClientPut.putDone, Option.some.injEq] at hs
    obtain ⟨-, c, ⟨houtstanding, rfl⟩, rfl⟩ := hs
    exact .answer i houtstanding

end PutThread

/-! ### The rounds -/

/-- The puts of round `r`. -/
def round (n r : ℕ) : List (ℕ × String) :=
  (List.range n).map fun i => (i, toString (r % 10))

/-- The puts of the first `r` rounds. -/
def rounds (n r : ℕ) : List (ℕ × String) := (List.range r).flatMap (round n)

example : rounds 2 2 = [(0, "0"), (1, "0"), (0, "1"), (1, "1")] := by decide

theorem rounds_succ (n r : ℕ) : rounds n (r + 1) = rounds n r ++ round n r := by
  simp [rounds, List.range_succ]

theorem length_round (n r : ℕ) : (round n r).length = n := by simp [round]

/-- One more put of a round. -/
theorem take_round_succ {n r i : ℕ} (hi : i < n) :
    (round n r).take (i + 1) = (round n r).take i ++ [(i, toString (r % 10))] := by
  rw [List.take_add_one]
  congr 1
  simp [round, hi]

theorem nextValue_mod (r : ℕ) : nextValue (r % 10) = (r + 1) % 10 := by
  unfold nextValue
  simp only
  split <;> omega

/-- How many puts of a round have been called, and with which text. -/
def Progress.called : Progress → Option (ℕ × String)
  | calling i val => some (i, val)
  | connected i val => some (i, val)
  | waiting i val => some (i + 1, val)
  | died (some (i, val)) => some (i + 1, val)
  | _ => none

namespace PutThread

variable {n : ℕ} {pvStructure : ℕ → List (String × PVField)} {t t' : PutThread} {e : Event} {r : ℕ}

/-- The calls of `put()`, by channel and text. -/
def puts (t : PutThread) : List (ℕ × String) := t.calls.map fun call => (call.channel, call.val)

/-- The thread has put `r` whole rounds, and in a round the first clients of the next. -/
def Logged (n r : ℕ) (t : PutThread) : Prop :=
  match t.progress.called with
  | none => t.value = r % 10 ∧ t.puts = rounds n r
  | some (i, val) => i ≤ n ∧ val = toString (r % 10) ∧ t.value = (r + 1) % 10 ∧
      t.puts = rounds n r ++ (round n r).take i

/-- Nothing but value, progress and calls counts for the rounds. -/
theorem Logged.congr (h : t.Logged n r) (hprogress : t'.progress.called = t.progress.called)
    (hvalue : t'.value = t.value) (hputs : t'.puts = t.puts) : t'.Logged n r := by
  unfold Logged at h ⊢
  rw [hprogress, hvalue, hputs]
  exact h

/-- A call of `put()` is the next of the round. -/
theorem Logged.call (h : t.Logged n r) {i : ℕ} {val : String}
    (hcalled : t.progress.called = some (i, val)) (hi : i < n) {issued : Bool}
    (hprogress : t'.progress.called = some (i + 1, val)) (hvalue : t'.value = t.value)
    (hcalls : t'.calls = t.calls ++ [⟨i, val, issued⟩]) : t'.Logged n r := by
  unfold Logged at h ⊢
  rw [hcalled] at h
  rw [hprogress, hvalue]
  obtain ⟨-, hval, hnext, hputs⟩ := h
  refine ⟨hi, hval, hnext, ?_⟩
  rw [take_round_succ hi, ← List.append_assoc, ← hputs, puts, hcalls, List.map_append, ← hval]
  rfl

/-- **A step of the thread goes on in its round, or begins the next.** -/
theorem Logged.runStep (h : t.Logged n r) (hs : t.RunEffect n pvStructure t') :
    ∃ r', t'.Logged n r' := by
  cases hs with
  | create i hprogress | created i hprogress | returns hprogress | wake hprogress
  | createDies i hprogress =>
    exact ⟨r, h.congr (by rw [hprogress]; rfl) rfl rfl⟩
  | round hprogress hstop =>
    refine ⟨r, ?_⟩
    unfold Logged at h ⊢
    rw [hprogress] at h
    obtain ⟨hvalue, hputs⟩ := h
    refine ⟨Nat.zero_le n, by rw [hvalue], by rw [hvalue, nextValue_mod], ?_⟩
    rw [List.take_zero, List.append_nil]
    exact hputs
  | connected i val hprogress =>
    exact ⟨r, h.congr (by rw [hprogress]; rfl) rfl rfl⟩
  | skip i val hi hprogress =>
    refine ⟨r, h.call (i := i) ?_ hi rfl rfl rfl⟩
    rcases hprogress with hprogress | hprogress
    · rw [hprogress, Progress.called]
    · rw [hprogress, Progress.called]
  | issue i val hprogress hi | putDies i val hprogress hi =>
    exact ⟨r, h.call (i := i) (by rw [hprogress, Progress.called]) hi rfl rfl rfl⟩
  | answered i val hprogress =>
    exact ⟨r, h.congr (by rw [hprogress]; rfl) rfl rfl⟩
  | sleep i val hprogress hi =>
    -- the round is over
    refine ⟨r + 1, ?_⟩
    unfold Logged at h ⊢
    rw [hprogress] at h
    obtain ⟨hle, -, hvalue, hputs⟩ := h
    obtain rfl : i = n := by omega
    refine ⟨hvalue, ?_⟩
    rw [rounds_succ, ← List.take_of_length_le (length_round i r).le]
    exact hputs

theorem InRange.runStep (h : t.InRange n) (hs : t.RunEffect n pvStructure t') : t'.InRange n := by
  cases hs with
  | create | created | returns | sleep | wake | createDies | putDies => exact trivial
  | round => exact Nat.zero_le n
  | connected i val hprogress hi => exact hi
  | skip i val hi => exact hi
  | issue i val hprogress hi => exact hi
  | answered i val hprogress =>
    unfold InRange at h
    rw [hprogress] at h
    exact h

/-- The clients are in range, and the puts are those of rounds. -/
structure Inv (n : ℕ) (t : PutThread) : Prop where
  range : t.InRange n
  logged : ∃ r, t.Logged n r

theorem inv_init : Inv n {} := ⟨trivial, 0, rfl, rfl⟩

/-- **Every event keeps the puts those of rounds.** -/
theorem Inv.step (h : t.Inv n) (hs : t.step n pvStructure e = some t') : t'.Inv n := by
  obtain ⟨r, hlogged⟩ := h.logged
  cases step_effect h.range hs with
  | run t' hrun | throws t' hrun => exact ⟨h.range.runStep hrun, hlogged.runStep hrun⟩
  | stop => exact ⟨h.range, r, hlogged⟩
  | answer => exact ⟨h.range, r, hlogged⟩
  | connection => exact ⟨h.range, r, hlogged⟩

/-- No round is left half done by a thread that has returned. -/
theorem Inv.whole (h : t.Inv n) (hreturned : t.progress = .returned) :
    ∃ r, t.puts = rounds n r := by
  obtain ⟨r, hlogged⟩ := h.logged
  rw [Logged, hreturned] at hlogged
  exact ⟨r, hlogged.2⟩

/-- **The thread puts whole rounds.**  Whatever the callbacks do and whenever `stop()` is
called, the calls of `put()` are those of whole rounds, each of which puts the next of the
numbers from 0 to 9 to all channels in order, and of the beginning of one more.  The thread
returns only between two rounds. -/
theorem puts_are_rounds {es : List Event} (hrun : (putThread n pvStructure).run {} es = some t) :
    ∃ r i, i ≤ n ∧ t.puts = rounds n r ++ (round n r).take i ∧
      (t.progress = .returned → t.puts = rounds n r) := by
  have hinv : t.Inv n := EventMachine.run_invariant (M := putThread n pvStructure)
    (fun _ _ _ h hs => h.step hs) inv_init hrun
  obtain ⟨r, hlogged⟩ := hinv.logged
  unfold Logged at hlogged
  split at hlogged
  · refine ⟨r, 0, Nat.zero_le n, ?_, fun _ => hlogged.2⟩
    rw [List.take_zero, List.append_nil]
    exact hlogged.2
  · next i val hcalled =>
    obtain ⟨hi, -, -, hputs⟩ := hlogged
    refine ⟨r, i, hi, hputs, fun hreturned => ?_⟩
    rw [hreturned] at hcalled
    exact absurd hcalled (by simp [Progress.called])

end PutThread

/-- Two channels with scalar values. -/
abbrev twoChannels : EventMachine PutThread Event := putThread 2 fun _ => [("value", .scalar)]

/-- A run in which the second channel is not connected before the second round. -/
def roundsRun : List Event :=
  [.run, .channelStateChange 0 true, .channelPutConnect 0, .run, .run, .run, .run, .run, .putDone 0,
    .run, .run, .channelStateChange 1 true, .channelPutConnect 1, .run, .run, .run, .run, .run,
    .stop, .putDone 0, .run, .run, .run, .putDone 1, .run, .run, .run, .run]

/-- The thread is told to stop in the second round, and finishes it. -/
theorem puts_are_rounds_stopped :
    ∃ t, twoChannels.run {} roundsRun = some t ∧
      t.progress = .returned ∧ ∃ r, t.puts = rounds 2 r := by
  have hreturned : (twoChannels.run {} roundsRun).map
      PutThread.progress = some .returned := by decide
  obtain ⟨t, hrun, hreturned⟩ := Option.map_eq_some_iff.mp hreturned
  obtain ⟨r, -, -, -, hwhole⟩ := PutThread.puts_are_rounds hrun
  exact ⟨t, hrun, hreturned, r, hwhole hreturned⟩

end TestDatabase.PutRounds
