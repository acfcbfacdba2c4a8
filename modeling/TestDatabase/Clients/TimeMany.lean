import Mathlib.Data.List.Range
import Mathlib.Logic.Function.Basic
import TestDatabase.Lib.EventMachine

/-!
# timeManyChannelGet, timeManyChannelPut and timeManyChannelGPM

The three programs connect many channels, wait, and time a loop of gets or puts over all
of them.  The wait loop waits for the flag that `channelStateChange` sets.  `get()` and
`put()` also look at the flag of their own connect callback, which may still be to come:
then they print a line and return.

`put()` converts the string `1.0` into the field it finds before it issues its put.  pvData
throws if the field does not take that string, and `main` then leaves by its `catch`.

`main` is one thread, and the callbacks come in any order while it runs.  Connects succeed
and no channel disconnects.  Texts and time stamps are left out, and a number of channels
below zero, with which the wait loop does not end.

## Main definitions

* `search` — the field that `put` converts its string into.
* `Target` — the structure put to a channel, and whether the field found takes `1.0`.
* `Program` — the three programs: the client objects made and the loops timed.
* `Client` — the flags of a client and its callbacks.
* `timeMany` — the event machine of `main` and the callbacks.
* `ConnectedFirst` — `main` calls `get()` or `put()` only after the connect callback.

## Main results

* `World.step_effect`, `World.mainStep_effect` — what a step does, and what that of `main`.
* `Inv.step` — how far `main` is, what it has called, and which callbacks the flags stand for.
* `timed_calls_issued_iff` — **the timed loops issue all operations exactly if each of their
  calls comes after its connect callback, and `put` finds a field that takes `1.0`.**
-/

namespace TestDatabase

namespace TimeMany

/-! ### The field put to -/

/-- A field of a structure, as `put` sees it. -/
inductive PVField
  | scalar
  | scalarArray
  | struct (pvFields : List (String × PVField))
  | other

/-- How the search for a field ends. -/
inductive SearchResult
  | pvScalar (path : List String)
  | pvScalarArray (path : List String)
  /-- `did not find a pvScalar field` -/
  | notFound
  /-- Element 0 of a structure without fields. -/
  | outOfRange
  deriving DecidableEq, Repr

def SearchResult.found : SearchResult → Bool
  | pvScalar _ => true
  | pvScalarArray _ => true
  | notFound => false
  | outOfRange => false

/-- The loop of the search, at the field with the given path. -/
def PVField.searchFrom (path : List String) : PVField → SearchResult
  | scalar => .pvScalar path
  | scalarArray => .pvScalarArray path
  | struct ((name, pvField) :: _) => pvField.searchFrom (path ++ [name])
  | struct [] => .outOfRange
  | other => .notFound

/-- The field that `put` converts its string into: `value`, or else the first field that is
not a structure along the first fields. -/
def search (pvStructure : List (String × PVField)) : SearchResult :=
  match pvStructure.lookup "value" with
  | some .scalar => .pvScalar ["value"]
  | some .scalarArray => .pvScalarArray ["value"]
  | _ => (PVField.struct pvStructure).searchFrom []

example : search [("index", .struct [("choice", .scalar)])] = .pvScalar ["index", "choice"] := by
  decide

/-- The structure put to a channel, and what pvData converts. -/
structure Target where
  pvStructure : List (String × PVField)
  /-- The scalar, or the scalar array, with this path takes the string `1.0`. -/
  takes : List String → Bool

/-- The field found takes the string. -/
def Target.converts (target : Target) : Bool :=
  match search target.pvStructure with
  | .pvScalar path => target.takes path
  | .pvScalarArray path => target.takes path
  | .notFound => false
  | .outOfRange => false

/-! ### The programs -/

/-- The client objects of a channel. -/
inductive ClientObject
  | pvaClientGet
  | pvaClientPut
  | pvaClientMonitor
  deriving DecidableEq, Repr

/-- The operations timed. -/
inductive Operation
  | get
  | put
  deriving DecidableEq, Repr

/-- The programs. -/
inductive Program
  | timeManyChannelGet
  | timeManyChannelPut
  | timeManyChannelGPM
  deriving DecidableEq, Repr

/-- The objects `channelStateChange` makes, in order. -/
def Program.objects : Program → List ClientObject
  | timeManyChannelGet => [.pvaClientGet]
  | timeManyChannelPut => [.pvaClientPut]
  | timeManyChannelGPM => [.pvaClientGet, .pvaClientPut, .pvaClientMonitor]

/-- The loops `main` times, in order. -/
def Program.loops : Program → List Operation
  | timeManyChannelGet => [.get, .get]
  | timeManyChannelPut => [.put]
  | timeManyChannelGPM => [.get, .put, .get]

/-- How a call of `get()` or `put()` goes. -/
inductive CallEnd
  | issued
  /-- It prints a line and returns. -/
  | returned
  /-- The conversion of the string throws. -/
  | threw
  /-- It takes element 0 of a structure without fields. -/
  | outOfRange
  deriving DecidableEq, Repr

/-! ### The client of a channel -/

/-- The client of a channel. -/
structure Client where
  channelConnected : Bool := false
  getConnected : Bool := false
  putConnected : Bool := false
  /-- `pvaClientGet` has been made, and its connect issued. -/
  pvaClientGet : Bool := false
  pvaClientPut : Bool := false
  pvaClientMonitor : Bool := false
  /-- What a call of `channelStateChange` under way has still to make. -/
  changing : Option (List ClientObject) := none
  deriving DecidableEq, Repr

namespace Client

/-- `isConnected` -/
def isConnected (c : Client) : Bool := c.channelConnected

/-- Make an object and issue its connect, if there is none. -/
def make (c : Client) : ClientObject → Client
  | .pvaClientGet => if c.pvaClientGet then c else { c with pvaClientGet := true }
  | .pvaClientPut => if c.pvaClientPut then c else { c with pvaClientPut := true }
  | .pvaClientMonitor => if c.pvaClientMonitor then c else { c with pvaClientMonitor := true }

/-- `channelStateChange` is called, with a channel that is connected. -/
def channelStateChange (p : Program) (c : Client) : Option Client :=
  if c.changing = none then some { c with changing := some p.objects } else none

/-- A call of `channelStateChange` makes its next object, or sets its flag and returns. -/
def goOn (c : Client) : Option Client :=
  match c.changing with
  | some (object :: objects) => some { c.make object with changing := some objects }
  | some [] => some { c with channelConnected := true, changing := none }
  | none => none

/-- `channelGetConnect`, once there is an object to connect. -/
def channelGetConnect (c : Client) : Option Client :=
  if c.pvaClientGet then some { c with getConnected := true } else none

/-- `channelPutConnect` -/
def channelPutConnect (c : Client) : Option Client :=
  if c.pvaClientPut then some { c with putConnected := true } else none

/-- The flag of the connect callback that an operation needs. -/
def operationConnected (c : Client) : Operation → Bool
  | .get => c.getConnected
  | .put => c.putConnected

/-- `get()` or `put()`, up to the operation it issues. -/
def call (c : Client) (target : Target) : Operation → CallEnd
  | .get => if c.channelConnected && c.getConnected then .issued else .returned
  | .put =>
    if c.channelConnected && c.putConnected then
      match search target.pvStructure with
      | .pvScalar path => if target.takes path then .issued else .threw
      | .pvScalarArray path => if target.takes path then .issued else .threw
      | .notFound => .returned
      | .outOfRange => .outOfRange
    else .returned

end Client

/-! ### The event machine -/

/-- Where `main` is.  `loops` are the timed loops from the one under way on. -/
inductive MainAt
  /-- Creating the client `i`. -/
  | creating (i : ℕ)
  /-- In the wait loop, asking client `i`. -/
  | waiting (i numConnect : ℕ)
  | sleeping
  /-- Calling client `i`. -/
  | timing (loops : List Operation) (i : ℕ)
  /-- Waiting for the operation that client `i` has issued. -/
  | answering (loops : List Operation) (i : ℕ)
  /-- Left by `catch`, from the call of client `i`. -/
  | left (loops : List Operation) (i : ℕ)
  /-- Out of range in the call of client `i`. -/
  | crashed (loops : List Operation) (i : ℕ)
  deriving DecidableEq, Repr

/-- A timed call, and whether it has issued its operation. -/
structure Call where
  operation : Operation
  channel : ℕ
  issued : Bool
  deriving DecidableEq, Repr

/-- `main` and the clients, those not yet created as they will be. -/
structure World where
  clients : ℕ → Client := fun _ => {}
  main : MainAt := .creating 0
  calls : List Call := []

inductive Event
  /-- `main` takes its next step. -/
  | main
  | channelStateChange (i : ℕ)
  /-- `channelStateChange` of channel `i` goes on. -/
  | goOn (i : ℕ)
  | channelGetConnect (i : ℕ)
  | channelPutConnect (i : ℕ)
  /-- The operation that `main` waits for is done. -/
  | done
  deriving DecidableEq, Repr

/-- The connect callback that an operation needs. -/
def Operation.connect : Operation → ℕ → Event
  | get => .channelGetConnect
  | put => .channelPutConnect

/-- Where `main` is after a call of client `i`. -/
def MainAt.afterCall (loops : List Operation) (i : ℕ) : CallEnd → MainAt
  | .issued => .answering loops i
  | .returned => .timing loops (i + 1)
  | .threw => .left loops i
  | .outOfRange => .crashed loops i

namespace World

/-- The client of a channel, if it has been created, takes a step. -/
def onClient (n : ℕ) (w : World) (i : ℕ) (f : Client → Option Client) : Option World :=
  let created := match w.main with
    | .creating i => i
    | _ => n
  if i < created then
    (f (w.clients i)).map fun c => { w with clients := Function.update w.clients i c }
  else none

/-- The next step of `main`, with `n` channels. -/
def mainStep (p : Program) (n : ℕ) (target : ℕ → Target) (w : World) : Option World :=
  match w.main with
  | .creating i =>
    if i < n then some { w with main := .creating (i + 1) }
    else some { w with main := .waiting 0 0 }
  | .waiting i numConnect =>
    if i < n then
      let numConnect := if (w.clients i).isConnected then numConnect + 1 else numConnect
      some { w with main := .waiting (i + 1) numConnect }
    else if numConnect = n then some { w with main := .timing p.loops 0 }
    else some { w with main := .sleeping }
  | .sleeping => some { w with main := .waiting 0 0 }
  | .timing [] _ => none
  | .timing (operation :: loops) i =>
    if i < n then
      let result := (w.clients i).call (target i) operation
      some { w with
        main := .afterCall (operation :: loops) i result
        calls := w.calls ++ [⟨operation, i, result = .issued⟩] }
    else some { w with main := .timing loops 0 }
  | .answering _ _ => none
  | .left _ _ => none
  | .crashed _ _ => none

/-- One step. -/
def step (p : Program) (n : ℕ) (target : ℕ → Target) (w : World) : Event → Option World
  | .main => w.mainStep p n target
  | .channelStateChange i => w.onClient n i (Client.channelStateChange p)
  | .goOn i => w.onClient n i Client.goOn
  -- the connect callback may come from inside `issueConnect`, or at any time after
  | .channelGetConnect i => w.onClient n i Client.channelGetConnect
  | .channelPutConnect i => w.onClient n i Client.channelPutConnect
  | .done =>
    match w.main with
    | .answering loops i => some { w with main := .timing loops (i + 1) }
    | _ => none

end World

/-- A program with `n` channels, `target i` being what is put to on channel `i`. -/
def timeMany (p : Program) (n : ℕ) (target : ℕ → Target) : EventMachine World Event where
  init := {}
  step := World.step p n target

/-! ### What a step does -/

namespace Client

variable {c c' : Client}

@[simp] theorem channelConnected_make (object : ClientObject) :
    (c.make object).channelConnected = c.channelConnected := by
  cases object <;> simp only [make] <;> split <;> rfl

@[simp] theorem operationConnected_make (object : ClientObject) (operation : Operation) :
    (c.make object).operationConnected operation = c.operationConnected operation := by
  cases object <;> simp only [make] <;> split <;> cases operation <;> rfl

/-- A callback keeps the flags that are set, and sets none but that of the operations whose
connect callback it is. -/
def Keeps (connects : Operation → Prop) (c c' : Client) : Prop :=
  (c.channelConnected = true → c'.channelConnected = true) ∧
    ∀ operation, c'.operationConnected operation = true ↔
      c.operationConnected operation = true ∨ connects operation

theorem keeps_channelStateChange {p : Program} (h : c.channelStateChange p = some c') :
    c.Keeps (fun _ => False) c' := by
  unfold channelStateChange at h
  rw [Option.ite_none_right_eq_some, Option.some.injEq] at h
  obtain ⟨-, rfl⟩ := h
  refine ⟨id, fun operation => ?_⟩
  rw [or_false]
  rfl

theorem keeps_goOn (h : c.goOn = some c') : c.Keeps (fun _ => False) c' := by
  unfold goOn at h
  split at h
  · next object objects _ =>
    obtain rfl := Option.some.inj h
    refine ⟨fun hc => (channelConnected_make object).trans hc, fun operation => ?_⟩
    have hmake : (c.make object).operationConnected operation = _ := operationConnected_make _ _
    rw [or_false, ← hmake]
    rfl
  · obtain rfl := Option.some.inj h
    refine ⟨fun _ => rfl, fun operation => ?_⟩
    rw [or_false]
    rfl
  · simp at h

theorem keeps_channelGetConnect (h : c.channelGetConnect = some c') :
    c.Keeps (· = .get) c' := by
  unfold channelGetConnect at h
  rw [Option.ite_none_right_eq_some, Option.some.injEq] at h
  obtain ⟨-, rfl⟩ := h
  refine ⟨id, fun operation => ?_⟩
  cases operation <;> simp [operationConnected]

theorem keeps_channelPutConnect (h : c.channelPutConnect = some c') :
    c.Keeps (· = .put) c' := by
  unfold channelPutConnect at h
  rw [Option.ite_none_right_eq_some, Option.some.injEq] at h
  obtain ⟨-, rfl⟩ := h
  refine ⟨id, fun operation => ?_⟩
  cases operation <;> simp [operationConnected]

end Client

namespace World

variable {p : Program} {n : ℕ} {target : ℕ → Target} {w w' : World} {e : Event}

/-- What a callback does: `main` stays where it is, and the flags of the clients are kept but
for those of the connect callback. -/
structure Callback (e : Event) (w w' : World) : Prop where
  event : e ≠ .main
  main : w'.main = w.main
  calls : w'.calls = w.calls
  keeps : ∀ i, (w.clients i).Keeps (fun operation => e = operation.connect i) (w'.clients i)

theorem callback_onClient {i : ℕ} {f : Client → Option Client} {connects : Operation → Prop}
    (hf : ∀ c c', f c = some c' → c.Keeps connects c') (hevent : e ≠ .main)
    (hconnects : ∀ operation j, e = operation.connect j ↔ connects operation ∧ j = i)
    (h : w.onClient n i f = some w') : Callback e w w' := by
  unfold onClient at h
  simp only [Option.ite_none_right_eq_some, Option.map_eq_some_iff] at h
  obtain ⟨-, c, hc, rfl⟩ := h
  refine ⟨hevent, rfl, rfl, fun j => ?_⟩
  simp only [hconnects]
  by_cases hj : j = i
  · subst hj
    rw [Function.update_self]
    simpa using hf _ _ hc
  · rw [Function.update_of_ne hj]
    refine ⟨id, fun operation => ?_⟩
    simp [hj]

/-- **What a step does**, that of `main` apart. -/
theorem step_effect (h : w.step p n target e = some w') :
    (e = .main ∧ w.mainStep p n target = some w') ∨
    (∃ loops i, e = .done ∧ w.main = .answering loops i ∧
      w' = { w with main := .timing loops (i + 1) }) ∨
    Callback e w w' := by
  cases e with
  | main => exact .inl ⟨rfl, h⟩
  | done =>
    refine .inr (.inl ?_)
    simp only [step] at h
    split at h
    · next loops i hmain => exact ⟨loops, i, rfl, hmain, (Option.some.inj h).symm⟩
    · simp at h
  | channelStateChange i =>
    refine .inr (.inr (callback_onClient (fun _ _ => Client.keeps_channelStateChange) ?_ ?_ h))
    · simp
    · intro operation j
      cases operation <;> simp [Operation.connect]
  | goOn i =>
    refine .inr (.inr (callback_onClient (fun _ _ => Client.keeps_goOn) ?_ ?_ h))
    · simp
    · intro operation j
      cases operation <;> simp [Operation.connect]
  | channelGetConnect i =>
    refine .inr (.inr (callback_onClient (fun _ _ => Client.keeps_channelGetConnect) ?_ ?_ h))
    · simp
    · intro operation j
      cases operation <;> simp [Operation.connect, eq_comm]
  | channelPutConnect i =>
    refine .inr (.inr (callback_onClient (fun _ _ => Client.keeps_channelPutConnect) ?_ ?_ h))
    · simp
    · intro operation j
      cases operation <;> simp [Operation.connect, eq_comm]

/-- What the step of `main` does. -/
inductive MainEffect (p : Program) (n : ℕ) (target : ℕ → Target) (w : World) : World → Prop
  | create (i : ℕ) (hmain : w.main = .creating i) (hi : i < n) :
    MainEffect p n target w { w with main := .creating (i + 1) }
  | created (i : ℕ) (hmain : w.main = .creating i) (hi : ¬ i < n) :
    MainEffect p n target w { w with main := .waiting 0 0 }
  | ask (i numConnect : ℕ) (hmain : w.main = .waiting i numConnect) (hi : i < n) :
    MainEffect p n target w { w with
      main := .waiting (i + 1) (if (w.clients i).isConnected then numConnect + 1 else numConnect) }
  | connected (i : ℕ) (hmain : w.main = .waiting i n) (hi : ¬ i < n) :
    MainEffect p n target w { w with main := .timing p.loops 0 }
  | sleep (i numConnect : ℕ) (hmain : w.main = .waiting i numConnect) (hi : ¬ i < n)
      (hcount : numConnect ≠ n) :
    MainEffect p n target w { w with main := .sleeping }
  | wake (hmain : w.main = .sleeping) :
    MainEffect p n target w { w with main := .waiting 0 0 }
  | call (operation : Operation) (loops : List Operation) (i : ℕ)
      (hmain : w.main = .timing (operation :: loops) i) (hi : i < n) :
    MainEffect p n target w { w with
      main := .afterCall (operation :: loops) i ((w.clients i).call (target i) operation)
      calls := w.calls ++
        [⟨operation, i, (w.clients i).call (target i) operation = .issued⟩] }
  | nextLoop (operation : Operation) (loops : List Operation) (i : ℕ)
      (hmain : w.main = .timing (operation :: loops) i) (hi : ¬ i < n) :
    MainEffect p n target w { w with main := .timing loops 0 }

theorem mainStep_effect (h : w.mainStep p n target = some w') :
    w.MainEffect p n target w' := by
  unfold mainStep at h
  split at h
  · next i hmain =>
    split at h
    · next hi => exact Option.some.inj h ▸ .create i hmain hi
    · next hi => exact Option.some.inj h ▸ .created i hmain hi
  · next i numConnect hmain =>
    split at h
    · next hi => exact Option.some.inj h ▸ .ask i numConnect hmain hi
    · next hi =>
      split at h
      · next hcount =>
        subst hcount
        exact Option.some.inj h ▸ .connected i hmain hi
      · next hcount => exact Option.some.inj h ▸ .sleep i numConnect hmain hi hcount
  · next hmain => exact Option.some.inj h ▸ .wake hmain
  · exact absurd h (by simp)
  · next operation loops i hmain =>
    split at h
    · next hi => exact Option.some.inj h ▸ .call operation loops i hmain hi
    · next hi => exact Option.some.inj h ▸ .nextLoop operation loops i hmain hi
  · exact absurd h (by simp)
  · exact absurd h (by simp)
  · exact absurd h (by simp)

/-- `main` changes no client. -/
theorem clients_mainStep (h : w.mainStep p n target = some w') : w'.clients = w.clients := by
  cases mainStep_effect h <;> rfl

end World

/-! ### The invariant -/

/-- The calls of the timed loops, of which the first has come to channel `i`. -/
def callsFrom (n : ℕ) : List Operation → ℕ → List (Operation × ℕ)
  | [], _ => []
  | operation :: loops, i =>
    (List.range' i (n - i)).map (fun j => (operation, j)) ++ callsFrom n loops 0

theorem callsFrom_of_lt {n i : ℕ} {operation : Operation} {loops : List Operation} (h : i < n) :
    callsFrom n (operation :: loops) i =
      (operation, i) :: callsFrom n (operation :: loops) (i + 1) := by
  have hlength : n - i = n - (i + 1) + 1 := by omega
  rw [callsFrom, hlength, List.range'_succ]
  rfl

theorem callsFrom_of_not_lt {n i : ℕ} {operation : Operation} {loops : List Operation}
    (h : ¬ i < n) : callsFrom n (operation :: loops) i = callsFrom n loops 0 := by
  have hlength : n - i = 0 := by omega
  rw [callsFrom, hlength]
  rfl

/-- All calls of the timed loops. -/
theorem callsFrom_zero (n : ℕ) (loops : List Operation) :
    callsFrom n loops 0 =
      loops.flatMap fun operation => (List.range n).map fun i => (operation, i) := by
  induction loops with
  | nil => rfl
  | cons operation loops ih =>
    rw [callsFrom, ih, Nat.sub_zero, ← List.range_eq_range', List.flatMap_cons]

namespace MainAt

/-- What `main` knows of the clients: in the wait loop it has counted those connected, and
behind it all are. -/
def Scanned (n : ℕ) (clients : ℕ → Client) : MainAt → Prop
  | creating _ => True
  | waiting i numConnect => i ≤ n ∧ numConnect ≤ i ∧
      (numConnect = i → ∀ j < i, (clients j).channelConnected = true)
  | sleeping => True
  | timing _ _ => ∀ j < n, (clients j).channelConnected = true
  | answering _ _ => ∀ j < n, (clients j).channelConnected = true
  | left _ _ => True
  | crashed _ _ => True

/-- The timed calls `main` has still to make. -/
def remaining (p : Program) (n : ℕ) : MainAt → List (Operation × ℕ)
  | creating _ => callsFrom n p.loops 0
  | waiting _ _ => callsFrom n p.loops 0
  | sleeping => callsFrom n p.loops 0
  | timing loops i => callsFrom n loops i
  | answering loops i => callsFrom n loops (i + 1)
  | left loops i => callsFrom n loops (i + 1)
  | crashed loops i => callsFrom n loops (i + 1)

/-- Channels stay connected. -/
theorem Scanned.mono {n : ℕ} {clients clients' : ℕ → Client} {main : MainAt}
    (h : main.Scanned n clients)
    (hkeeps : ∀ i, (clients i).channelConnected = true → (clients' i).channelConnected = true) :
    main.Scanned n clients' := by
  cases main with
  | creating i => exact trivial
  | waiting i numConnect =>
    obtain ⟨hi, hle, hall⟩ := h
    exact ⟨hi, hle, fun heq j hj => hkeeps j (hall heq j hj)⟩
  | sleeping => exact trivial
  | timing loops i => exact fun j hj => hkeeps j (h j hj)
  | answering loops i => exact fun j hj => hkeeps j (h j hj)
  | left loops i => exact trivial
  | crashed loops i => exact trivial

end MainAt

namespace World

variable {p : Program} {n : ℕ} {target : ℕ → Target} {w w' : World} {e : Event}
  {es : List Event}

/-- The invariant: which callbacks there were, what `main` knows and what it has called. -/
structure Inv (p : Program) (n : ℕ) (es : List Event) (w : World) : Prop where
  connected : ∀ operation i,
    (w.clients i).operationConnected operation = true ↔ operation.connect i ∈ es
  scanned : w.main.Scanned n w.clients
  called : w.calls.map (fun call => (call.operation, call.channel)) ++ w.main.remaining p n =
    callsFrom n p.loops 0

theorem inv_init : Inv p n [] {} := by
  refine ⟨fun operation i => ?_, trivial, rfl⟩
  cases operation <;> simp [Client.operationConnected]

/-- The step of `main`, as far as the wait loop is concerned. -/
theorem scanned_mainStep (h : w.main.Scanned n w.clients)
    (hs : w.mainStep p n target = some w') : w'.main.Scanned n w.clients := by
  cases mainStep_effect hs with
  | create i hmain hi => exact trivial
  | created | wake =>
    exact ⟨Nat.zero_le n, le_rfl, fun _ j hj => absurd hj (Nat.not_lt_zero j)⟩
  | ask i numConnect hmain hi =>
    rw [hmain] at h
    obtain ⟨-, hle, hall⟩ := h
    by_cases hconnected : (w.clients i).isConnected = true
    · simp only [hconnected, if_true]
      refine ⟨hi, by omega, fun heq j hj => ?_⟩
      rcases Nat.lt_succ_iff_lt_or_eq.mp hj with hj | rfl
      · exact hall (by omega) j hj
      · exact hconnected
    · -- a channel that is not connected keeps the count behind
      simp only [hconnected, Bool.false_eq_true, if_false]
      exact ⟨hi, by omega, fun heq => absurd heq (by omega)⟩
  | connected i hmain hi =>
    rw [hmain] at h
    obtain ⟨hle, hcount, hall⟩ := h
    -- all channels have been asked, and all have been counted
    have hin : i = n := by omega
    intro j hj
    exact hall hin.symm j (by omega)
  | sleep i numConnect hmain hi hcount => exact trivial
  | call operation loops i hmain hi =>
    rw [hmain] at h
    simp only
    cases (w.clients i).call (target i) operation with
    | issued | returned => exact h
    | threw | outOfRange => exact trivial
  | nextLoop operation loops i hmain hi =>
    rw [hmain] at h
    exact h

/-- The step of `main` makes the next of the calls that remain, or none. -/
theorem calls_mainStep (hs : w.mainStep p n target = some w') :
    (∃ operation loops i, w.main = .timing (operation :: loops) i ∧ i < n ∧
      w'.calls = w.calls ++
        [⟨operation, i, (w.clients i).call (target i) operation = .issued⟩] ∧
      w.main.remaining p n = (operation, i) :: w'.main.remaining p n) ∨
    (∀ operation loops i, w.main = .timing (operation :: loops) i → ¬ i < n) ∧
      w'.calls = w.calls ∧ w.main.remaining p n = w'.main.remaining p n := by
  cases mainStep_effect hs with
  | call operation loops i hmain hi =>
    left
    refine ⟨operation, loops, i, hmain, hi, rfl, ?_⟩
    -- however it goes, the call is made
    rw [hmain, MainAt.remaining, callsFrom_of_lt hi]
    simp only
    cases (w.clients i).call (target i) operation <;> rfl
  | nextLoop operation loops i hmain hi =>
    right
    rw [hmain]
    refine ⟨fun _ _ _ heq => ?_, rfl, ?_⟩
    · obtain ⟨-, rfl⟩ := MainAt.timing.inj heq
      exact hi
    · exact callsFrom_of_not_lt hi
  | create | created | ask | connected | sleep | wake =>
    right
    rw [‹w.main = _›]
    exact ⟨by simp, rfl, rfl⟩

/-- **One step keeps the invariant.** -/
theorem Inv.step (h : Inv p n es w) (hs : w.step p n target e = some w') :
    Inv p n (es ++ [e]) w' := by
  rcases step_effect hs with ⟨rfl, hmain⟩ | ⟨loops, i, rfl, hmain, rfl⟩ | hcallback
  · have hclients := clients_mainStep hmain
    refine ⟨fun operation i => ?_, ?_, ?_⟩
    · rw [hclients, h.connected]
      cases operation <;> simp [Operation.connect]
    · rw [hclients]
      exact scanned_mainStep h.scanned hmain
    · rcases calls_mainStep hmain with ⟨operation, loops, i, -, -, hcalls, hrest⟩ | ⟨-, hcalls, hrest⟩
      · rw [hcalls, List.map_append, List.append_assoc, ← h.called, hrest]
        rfl
      · rw [hcalls, ← hrest, h.called]
  · refine ⟨fun operation j => ?_, ?_, ?_⟩
    · rw [h.connected]
      cases operation <;> simp [Operation.connect]
    · have hscanned := h.scanned
      rw [hmain] at hscanned
      exact hscanned
    · have hcalled := h.called
      rw [hmain] at hcalled
      exact hcalled
  · refine ⟨fun operation i => ?_, ?_, ?_⟩
    · rw [(hcallback.keeps i).2, h.connected, List.mem_append, List.mem_singleton]
      exact or_congr_right eq_comm
    · rw [hcallback.main]
      exact h.scanned.mono fun i => (hcallback.keeps i).1
    · rw [hcallback.main, hcallback.calls]
      exact h.called

theorem inv_of_run (hrun : (timeMany p n target).run {} es = some w) : Inv p n es w :=
  EventMachine.run_history (M := timeMany p n target) inv_init (fun _ _ _ _ h hs => h.step hs)
    hrun

/-! ### The timed operations -/

/-- If `main` calls `get()` or `put()` of a client in this step, the connect callback is
among the events before, and `put()` finds a field that takes its string. -/
def ConnectedFirst (n : ℕ) (target : ℕ → Target) (before : List Event) (w : World)
    (e : Event) : Prop :=
  e = .main → ∀ operation loops i, w.main = .timing (operation :: loops) i → i < n →
    operation.connect i ∈ before ∧ (operation = .put → (target i).converts = true)

/-- A call behind the wait loop issues its operation if the connect callback was called, and
`put()` finds a field that takes its string. -/
theorem Inv.issues_iff (h : Inv p n es w) {operation : Operation} {loops : List Operation} {i : ℕ}
    (hmain : w.main = .timing (operation :: loops) i) (hi : i < n) :
    (w.clients i).call (target i) operation = .issued ↔
      operation.connect i ∈ es ∧ (operation = .put → (target i).converts = true) := by
  have hchannel : (w.clients i).channelConnected = true := by
    have hscanned := h.scanned
    rw [hmain] at hscanned
    exact hscanned i hi
  rw [← h.connected]
  cases operation with
  | get => simp [Client.call, Client.operationConnected, hchannel]
  | put =>
    rw [Client.call, hchannel, Bool.true_and, Client.operationConnected, Target.converts]
    cases (w.clients i).putConnected <;> cases search (target i).pvStructure <;> simp

/-- A step keeps all calls issued exactly if it calls after the connect callback. -/
theorem Inv.issued_step (h : Inv p n es w) (hs : w.step p n target e = some w') :
    (∀ call ∈ w'.calls, call.issued = true) ↔
      (∀ call ∈ w.calls, call.issued = true) ∧ ConnectedFirst n target es w e := by
  rcases step_effect hs with ⟨rfl, hmain⟩ | ⟨loops, i, rfl, hmain, rfl⟩ | hcallback
  · rcases calls_mainStep hmain with ⟨operation, loops, i, hat, hi, hcalls, -⟩ | ⟨hnone, hcalls, -⟩
    · have hissues : (w.clients i).call (target i) operation = .issued ↔ _ :=
        h.issues_iff hat hi
      rw [hcalls]
      simp only [List.forall_mem_append, List.forall_mem_singleton, decide_eq_true_eq, hissues]
      refine and_congr_right fun _ => ⟨fun hfirst _ operation' loops' j hat' hj => ?_, ?_⟩
      · obtain ⟨hloops, rfl⟩ := MainAt.timing.inj (hat.symm.trans hat')
        obtain ⟨rfl, -⟩ := List.cons.inj hloops
        exact hfirst
      · intro hfirst
        exact hfirst rfl operation loops i hat hi
    · rw [hcalls]
      refine (and_iff_left ?_).symm
      intro _ operation loops i hat hi
      exact absurd hi (hnone operation loops i hat)
  · refine (and_iff_left ?_).symm
    intro heq
    simp at heq
  · rw [hcallback.calls]
    refine (and_iff_left ?_).symm
    intro heq
    exact absurd heq hcallback.event

/-- **When the timed operations are performed.**  All `get()` and `put()` calls of the timed
loops issue their operations, so that each loop performs one on every channel, exactly if
each is called after the connect callback it needs and each `put()` finds a field. -/
theorem timed_calls_issued_iff (p : Program) (n : ℕ) (target : ℕ → Target) {es : List Event}
    {w : World} (hrun : (timeMany p n target).run {} es = some w) :
    ((∀ call ∈ w.calls, call.issued = true) ∧
      (w.main = .timing [] 0 →
        w.calls = p.loops.flatMap fun operation => (List.range n).map fun i => ⟨operation, i, true⟩)) ↔
      (timeMany p n target).Follows (ConnectedFirst n target) es := by
  have hissued : (∀ call ∈ w.calls, call.issued = true) ↔
      (timeMany p n target).Follows (ConnectedFirst n target) es := by
    refine EventMachine.history_iff (M := timeMany p n target)
      (P := fun w => ∀ call ∈ w.calls, call.issued = true) ?_ ?_ hrun
    · intro call hcall
      simp [timeMany] at hcall
    · intro es w e w' hw hs
      exact (inv_of_run hw).issued_step hs
  rw [← hissued]
  refine and_iff_left_of_imp fun hall hmain => ?_
  have hcalled := (inv_of_run hrun).called
  rw [hmain, MainAt.remaining, callsFrom, List.append_nil, callsFrom_zero] at hcalled
  -- a call that issued its operation is known by operation and channel
  have hcalls : w.calls =
      (w.calls.map fun call => (call.operation, call.channel)).map fun (operation, i) =>
        (⟨operation, i, true⟩ : Call) := by
    rw [List.map_map]
    refine (List.map_id _).symm.trans (List.map_congr_left fun call hcall => ?_)
    have htrue := hall call hcall
    cases call
    simp only [Function.comp_apply, id_eq] at htrue ⊢
    rw [htrue]
  rw [hcalls, hcalled, List.map_flatMap]
  simp only [List.map_map]
  rfl

/-- A structure whose value field takes the string. -/
def scalarTarget : Target where
  pvStructure := [("value", .scalar)]
  takes _ := true

/-- One channel of timeManyChannelGPM, whose connect callbacks come while `main` sleeps. -/
def connectedRun : List Event :=
  [.main, .main, .main, .main, .channelStateChange 0, .goOn 0, .channelGetConnect 0, .goOn 0,
    .channelPutConnect 0, .goOn 0, .goOn 0, .main, .main, .main, .main, .done, .main, .main, .done,
    .main, .main, .done, .main]

/-- The loops of that run perform their operations, and each call came after its callback. -/
theorem timed_calls_issued_connectedRun :
    ∃ w, (timeMany .timeManyChannelGPM 1 fun _ => scalarTarget).run {} connectedRun =
        some w ∧
      w.calls = [⟨.get, 0, true⟩, ⟨.put, 0, true⟩, ⟨.get, 0, true⟩] ∧
      (timeMany .timeManyChannelGPM 1 fun _ => scalarTarget).Follows
        (ConnectedFirst 1 fun _ => scalarTarget) connectedRun := by
  have hcalls : ((timeMany .timeManyChannelGPM 1 fun _ => scalarTarget).run {}
      connectedRun).map World.calls =
      some [⟨.get, 0, true⟩, ⟨.put, 0, true⟩, ⟨.get, 0, true⟩] := by decide
  obtain ⟨w, hw, hcalls⟩ := Option.map_eq_some_iff.mp hcalls
  refine ⟨w, hw, hcalls, (timed_calls_issued_iff _ _ _ hw).mp ⟨?_, fun _ => hcalls⟩⟩
  rw [hcalls]
  decide

/-- `channelStateChange` has returned for the only channel, and `main` goes through its wait
loop and its timed loops before any connect callback. -/
theorem timed_calls_skipped :
    (((timeMany .timeManyChannelGet 1 fun _ => scalarTarget).run {}
      [.main, .channelStateChange 0, .goOn 0, .goOn 0, .main, .main, .main, .main, .main, .main,
        .main]).map fun w => (w.main, w.calls)) =
      some (.timing [] 0, [⟨.get, 0, false⟩, ⟨.get, 0, false⟩]) ∧
    (((timeMany .timeManyChannelPut 1 fun _ => scalarTarget).run {}
      [.main, .channelStateChange 0, .goOn 0, .goOn 0, .main, .main, .main, .main,
        .main]).map fun w => (w.main, w.calls)) =
      some (.timing [] 0, [⟨.put, 0, false⟩]) := by
  decide

end World

end TimeMany

end TestDatabase
