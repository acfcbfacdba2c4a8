import Mathlib.Data.List.Basic
import Mathlib.Logic.Function.Basic
import TestDatabase.Lib.FairSchedule
import TestDatabase.Clients.TimeMany
import TestDatabase.Clients.ChannelNames

/-!
# timeManyChannel

The program connects many channels, waits until they are connected, and times gets, puts and
gets over all of them.  Its clients make no objects of their own: `get()` and `put()` look at
`channelConnected` and leave the rest to the channel.  That flag is set when the channel
connects and never cleared, whether it disconnects or not.

`main` is one thread, and the callbacks come in any order while it runs.  It builds the names of
the channels as `getmany` does, from an offset that is always 1, for a number of channels that
is any `int`.  A call of a channel returns or throws, and the client goes on in either case; an
exception from `PvaClient::get` or while a client is created ends `main`.  The time stamps and
what is printed are left out, but for the last count.

## Main definitions

* `ClientChannel` — the flag of a client and its callback.
* `World.mainStep`, `timeManyChannel` — the steps of `main`, and the event machine.
* `plan` — the timed calls, all of which go through to their channel.
* `endRanking` — what leads `main` to its end.

## Main results

* `World.mainStep_effect`, `World.step_effect` — what a step can do.
* `timed_calls_are_planned` — **the timed calls are as planned, whatever the channels do.**
* `main_ends_iff` — **`main` comes to its last count if each channel connects once, exactly if
  their number is not below zero and the bound of the names fits an `int`.**
-/

namespace TestDatabase.TimeManyChannel

open TimeMany (Operation Call)
open IntLoop (add exists_add_iff)
open ChannelNames (Arguments)

/-! ### The program -/

/-- The client of a channel. -/
structure ClientChannel where
  channelConnected : Bool := false
  deriving DecidableEq, Repr

namespace ClientChannel

def channelStateChange (c : ClientChannel) (isConnected : Bool) : ClientChannel :=
  if isConnected then { c with channelConnected := isConnected } else c

def isConnected (c : ClientChannel) : Bool := c.channelConnected

end ClientChannel

/-- What `main` makes the names from: no option sets `offset`. -/
def arguments (nchannels : Int32) : Arguments := { nchannels, offset := 1 }

/-- The loops `main` times, in order. -/
def loops : List Operation := [.get, .put, .get]

/-- Where `main` is. -/
inductive MainAt
  /-- Building the names. -/
  | naming
  /-- In `PvaClient::get`. -/
  | opening
  /-- Creating the client `i`. -/
  | creating (i : ℕ)
  /-- In the wait loop, asking client `i`. -/
  | waiting (i numConnect : ℕ)
  | sleeping
  /-- Calling client `i`, `loops` being the loops from the one under way on. -/
  | timing (loops : List Operation) (i : ℕ)
  /-- In a call of channel `i`, with more loops to come. -/
  | calling (operation : Operation) (loops : List Operation) (i : ℕ)
  /-- `enter something` -/
  | entering
  /-- Asking client `i` for the last count. -/
  | counting (i numConnect : ℕ)
  /-- The last count has been printed. -/
  | done (numConnect : ℕ)
  /-- An exception has been caught, and `main` returns 1. -/
  | failed
  deriving DecidableEq, Repr

/-- `main` and the clients, those not yet created as they will be. -/
structure World where
  clients : ℕ → ClientChannel := fun _ => {}
  main : MainAt := .naming
  channelNames : List String := []
  calls : List Call := []

inductive Event
  /-- `main` takes its next step. -/
  | main
  | channelStateChange (i : ℕ) (isConnected : Bool)
  /-- The call of a channel returns or throws. -/
  | returns
  /-- `PvaClient::get` or `ClientChannel::create` throws. -/
  | throws
  /-- A line is entered. -/
  | getline
  deriving DecidableEq, Repr

namespace World

/-- Ask a client whether it is connected. -/
def count (w : World) (i numConnect : ℕ) : ℕ :=
  if (w.clients i).isConnected then numConnect + 1 else numConnect

/-- The next step of `main`.  There is none if the bound of the names does not fit an `int`,
or behind the end of the names. -/
def mainStep (nchannels : Int32) (w : World) : Option World :=
  match w.main with
  | .naming =>
    (arguments nchannels).buildNames.map fun names =>
      { w with main := .opening, channelNames := names }
  | .opening => some { w with main := .creating 0 }
  | .creating i =>
    if i < nchannels.toInt then
      w.channelNames[i]?.map fun _ => { w with main := .creating (i + 1) }
    else some { w with main := .waiting 0 0 }
  | .waiting i numConnect =>
    if i < nchannels.toInt then some { w with main := .waiting (i + 1) (w.count i numConnect) }
    else if numConnect = nchannels.toInt then some { w with main := .timing loops 0 }
    else some { w with main := .sleeping }
  | .sleeping => some { w with main := .waiting 0 0 }
  | .timing [] _ => some { w with main := .entering }
  | .timing (operation :: loops) i =>
    if i < nchannels.toInt then
      -- a client that is not connected prints a line and returns
      let issued := (w.clients i).isConnected
      some { w with
        main := if issued then .calling operation loops i else .timing (operation :: loops) (i + 1)
        calls := w.calls ++ [⟨operation, i, issued⟩] }
    else some { w with main := .timing loops 0 }
  | .calling _ _ _ => none
  | .entering => none
  | .counting i numConnect =>
    if i < nchannels.toInt then some { w with main := .counting (i + 1) (w.count i numConnect) }
    else some { w with main := .done numConnect }
  | .done _ => none
  | .failed => none

/-- The number of clients created. -/
def created (nchannels : Int32) (w : World) : ℕ :=
  match w.main with
  | .naming => 0
  | .opening => 0
  | .creating i => i
  | _ => nchannels.toInt.toNat

/-- One step. -/
def step (nchannels : Int32) (w : World) : Event → Option World
  | .main => w.mainStep nchannels
  | .channelStateChange i isConnected =>
    if i < w.created nchannels then
      let c := (w.clients i).channelStateChange isConnected
      some { w with clients := Function.update w.clients i c }
    else none
  | .returns =>
    match w.main with
    | .calling operation loops i => some { w with main := .timing (operation :: loops) (i + 1) }
    | _ => none
  | .throws =>
    match w.main with
    | .opening => some { w with main := .failed }
    | .creating i => if i < nchannels.toInt then some { w with main := .failed } else none
    | _ => none
  | .getline => if w.main = .entering then some { w with main := .counting 0 0 } else none

end World

/-- The program with `nchannels` channels. -/
def timeManyChannel (nchannels : Int32) : EventMachine World Event where
  init := {}
  step := World.step nchannels

/-! ### What a step does -/

namespace World

variable {nchannels : Int32} {w w' : World} {e : Event}

/-- What a step of `main` can do, with `n` channels or fewer than none. -/
inductive MainEffect (nchannels : Int32) (w : World) : World → Prop
  | name (names : List String) (hmain : w.main = .naming)
      (hnames : (arguments nchannels).buildNames = some names) :
    MainEffect nchannels w { w with main := .opening, channelNames := names }
  | opened (hmain : w.main = .opening) : MainEffect nchannels w { w with main := .creating 0 }
  | create (i : ℕ) (hmain : w.main = .creating i) (hi : i < nchannels.toInt.toNat) :
    MainEffect nchannels w { w with main := .creating (i + 1) }
  | created (i : ℕ) (hmain : w.main = .creating i) (hi : ¬ i < nchannels.toInt.toNat) :
    MainEffect nchannels w { w with main := .waiting 0 0 }
  | ask (i numConnect : ℕ) (hmain : w.main = .waiting i numConnect) (hi : i < nchannels.toInt.toNat) :
    MainEffect nchannels w { w with main := .waiting (i + 1) (w.count i numConnect) }
  | connected (i numConnect : ℕ) (hmain : w.main = .waiting i numConnect)
      (hi : ¬ i < nchannels.toInt.toNat) (hcount : numConnect = nchannels.toInt) :
    MainEffect nchannels w { w with main := .timing loops 0 }
  | sleep (i numConnect : ℕ) (hmain : w.main = .waiting i numConnect)
      (hi : ¬ i < nchannels.toInt.toNat) (hcount : (numConnect : ℤ) ≠ nchannels.toInt) :
    MainEffect nchannels w { w with main := .sleeping }
  | wake (hmain : w.main = .sleeping) :
    MainEffect nchannels w { w with main := .waiting 0 0 }
  | timed (i : ℕ) (hmain : w.main = .timing [] i) :
    MainEffect nchannels w { w with main := .entering }
  | call (operation : Operation) (loops : List Operation) (i : ℕ)
      (hmain : w.main = .timing (operation :: loops) i) (hi : i < nchannels.toInt.toNat)
      (hconnected : (w.clients i).channelConnected = true) :
    MainEffect nchannels w { w with
      main := .calling operation loops i, calls := w.calls ++ [⟨operation, i, true⟩] }
  | skip (operation : Operation) (loops : List Operation) (i : ℕ)
      (hmain : w.main = .timing (operation :: loops) i) (hi : i < nchannels.toInt.toNat)
      (hconnected : (w.clients i).channelConnected = false) :
    MainEffect nchannels w { w with
      main := .timing (operation :: loops) (i + 1), calls := w.calls ++ [⟨operation, i, false⟩] }
  | next (operation : Operation) (loops : List Operation) (i : ℕ)
      (hmain : w.main = .timing (operation :: loops) i) (hi : ¬ i < nchannels.toInt.toNat) :
    MainEffect nchannels w { w with main := .timing loops 0 }
  | count (i numConnect : ℕ) (hmain : w.main = .counting i numConnect) (hi : i < nchannels.toInt.toNat) :
    MainEffect nchannels w { w with main := .counting (i + 1) (w.count i numConnect) }
  | finish (i numConnect : ℕ) (hmain : w.main = .counting i numConnect)
      (hi : ¬ i < nchannels.toInt.toNat) :
    MainEffect nchannels w { w with main := .done numConnect }

theorem mainStep_effect (h : w.mainStep nchannels = some w') : w.MainEffect nchannels w' := by
  unfold mainStep at h
  simp only [← Int.lt_toNat] at h
  split at h
  · next hmain =>
    obtain ⟨names, hnames, rfl⟩ := Option.map_eq_some_iff.mp h
    exact .name names hmain hnames
  · next hmain => exact Option.some.inj h ▸ .opened hmain
  · next i hmain =>
    split at h
    · next hi =>
      obtain ⟨-, -, rfl⟩ := Option.map_eq_some_iff.mp h
      exact .create i hmain hi
    · next hi => exact Option.some.inj h ▸ .created i hmain hi
  · next i numConnect hmain =>
    split at h
    · next hi => exact Option.some.inj h ▸ .ask i numConnect hmain hi
    · next hi =>
      split at h
      · next hcount => exact Option.some.inj h ▸ .connected i numConnect hmain hi hcount
      · next hcount => exact Option.some.inj h ▸ .sleep i numConnect hmain hi hcount
  · next hmain => exact Option.some.inj h ▸ .wake hmain
  · next i hmain => exact Option.some.inj h ▸ .timed i hmain
  · next operation loops i hmain =>
    split at h
    · next hi =>
      cases hconnected : (w.clients i).channelConnected with
      | true =>
        simp only [ClientChannel.isConnected, hconnected, if_true] at h
        exact Option.some.inj h ▸ .call operation loops i hmain hi hconnected
      | false =>
        simp only [ClientChannel.isConnected, hconnected, Bool.false_eq_true, if_false] at h
        exact Option.some.inj h ▸ .skip operation loops i hmain hi hconnected
    · next hi => exact Option.some.inj h ▸ .next operation loops i hmain hi
  · exact absurd h (by simp)
  · exact absurd h (by simp)
  · next i numConnect hmain =>
    split at h
    · next hi => exact Option.some.inj h ▸ .count i numConnect hmain hi
    · next hi => exact Option.some.inj h ▸ .finish i numConnect hmain hi
  · exact absurd h (by simp)
  · exact absurd h (by simp)

/-- What an event can do. -/
inductive Effect (nchannels : Int32) (w : World) : Event → World → Prop
  | main (w' : World) (hmain : w.MainEffect nchannels w') : Effect nchannels w .main w'
  /-- A channel that connects sets its flag. -/
  | connect (i : ℕ) (hi : i < w.created nchannels) :
    Effect nchannels w (.channelStateChange i true)
      { w with clients := Function.update w.clients i { channelConnected := true } }
  /-- A channel that disconnects changes nothing. -/
  | disconnect (i : ℕ) : Effect nchannels w (.channelStateChange i false) w
  | returns (operation : Operation) (loops : List Operation) (i : ℕ)
      (hmain : w.main = .calling operation loops i) :
    Effect nchannels w .returns { w with main := .timing (operation :: loops) (i + 1) }
  | throws (hmain : w.main = .opening ∨ ∃ i, w.main = .creating i) :
    Effect nchannels w .throws { w with main := .failed }
  | getline (hmain : w.main = .entering) :
    Effect nchannels w .getline { w with main := .counting 0 0 }

theorem step_effect (h : w.step nchannels e = some w') : w.Effect nchannels e w' := by
  cases e with
  | main => exact .main w' (mainStep_effect h)
  | channelStateChange i isConnected =>
    simp only [step, Option.ite_none_right_eq_some, Option.some.injEq] at h
    obtain ⟨hi, rfl⟩ := h
    cases isConnected with
    | true => exact .connect i hi
    | false =>
      have hsame : Function.update w.clients i (w.clients i) = w.clients := by simp
      simp only [ClientChannel.channelStateChange, Bool.false_eq_true, if_false, hsame]
      exact .disconnect i
  | returns =>
    simp only [step] at h
    split at h
    · next operation loops i hmain => exact Option.some.inj h ▸ .returns operation loops i hmain
    · exact absurd h (by simp)
  | throws =>
    simp only [step] at h
    split at h
    · next hmain => exact Option.some.inj h ▸ .throws (.inl hmain)
    · next i hmain =>
      simp only [Option.ite_none_right_eq_some, Option.some.injEq] at h
      obtain ⟨-, rfl⟩ := h
      exact .throws (.inr ⟨i, hmain⟩)
    · exact absurd h (by simp)
  | getline =>
    simp only [step, Option.ite_none_right_eq_some, Option.some.injEq] at h
    obtain ⟨hmain, rfl⟩ := h
    exact .getline hmain

end World

/-! ### The calls -/

/-- The calls of one loop over `n` channels, all of which go through. -/
def round (n : ℕ) (operation : Operation) : List Call :=
  (List.range n).map fun i => ⟨operation, i, true⟩

/-- The timed calls of `n` channels. -/
def plan (n : ℕ) : List Call := loops.flatMap (round n)

example : (plan 2).length = 6 := by decide

theorem length_round (n : ℕ) (operation : Operation) : (round n operation).length = n := by
  simp [round]

/-- The next call of a loop. -/
theorem drop_round {n i : ℕ} (hi : i < n) (operation : Operation) :
    (round n operation).drop i = ⟨operation, i, true⟩ :: (round n operation).drop (i + 1) := by
  rw [List.drop_eq_getElem_cons (by rw [length_round]; exact hi)]
  simp [round]

/-- The calls `main` has still to make. -/
def MainAt.remaining (n : ℕ) : MainAt → List Call
  | naming => plan n
  | opening => plan n
  | creating _ => plan n
  | waiting _ _ => plan n
  | sleeping => plan n
  | timing [] _ => []
  | timing (operation :: loops) i => (round n operation).drop i ++ loops.flatMap (round n)
  | calling operation loops i => (round n operation).drop (i + 1) ++ loops.flatMap (round n)
  | entering => []
  | counting _ _ => []
  | done _ => []
  | failed => plan n

/-- A loop that begins. -/
theorem remaining_timing_zero (n : ℕ) (loops : List Operation) :
    (MainAt.timing loops 0).remaining n = loops.flatMap (round n) := by
  cases loops with
  | nil => rfl
  | cons operation loops => rfl

namespace World

variable {nchannels : Int32} {w w' : World} {e : Event}

/-- All channels have connected, and there are not fewer than none. -/
structure AllConnected (nchannels : Int32) (clients : ℕ → ClientChannel) : Prop where
  nonneg : 0 ≤ nchannels.toInt
  connected : ∀ j < nchannels.toInt.toNat, (clients j).channelConnected = true

/-- What the counts of `main` stand for. -/
def Ok (nchannels : Int32) (w : World) : Prop :=
  match w.main with
  | .naming => True
  | .opening => True
  | .creating i => i ≤ nchannels.toInt.toNat
  | .waiting i numConnect => i ≤ nchannels.toInt.toNat ∧ numConnect ≤ i ∧
      (numConnect = i → ∀ j < i, (w.clients j).channelConnected = true)
  | .sleeping => True
  | .timing _ _ => AllConnected nchannels w.clients
  | .calling _ _ i => AllConnected nchannels w.clients ∧ i < nchannels.toInt.toNat
  | .entering => AllConnected nchannels w.clients
  | .counting i numConnect => AllConnected nchannels w.clients ∧ i ≤ nchannels.toInt.toNat ∧ numConnect = i
  | .done numConnect => AllConnected nchannels w.clients ∧ numConnect = nchannels.toInt.toNat
  | .failed => True

/-- The bound of the names fits an `int`, and there is one for each channel. -/
structure Named (nchannels : Int32) (channelNames : List String) : Prop where
  fits : nchannels.toInt + 1 < 2 ^ 31
  length : channelNames.length = nchannels.toInt.toNat

/-- The counts are right, and the calls made and those still to make are those planned. -/
structure Inv (nchannels : Int32) (w : World) : Prop where
  named : w.main ≠ .naming → Named nchannels w.channelNames
  ok : w.Ok nchannels
  calls : w.calls ++ w.main.remaining nchannels.toInt.toNat = plan nchannels.toInt.toNat

theorem inv_init : Inv nchannels {} := ⟨fun hmain => absurd rfl hmain, trivial, rfl⟩

/-- What has been counted stays connected. -/
theorem Ok.mono (h : w.Ok nchannels) (hmain : w'.main = w.main)
    (hclients : ∀ j, (w.clients j).channelConnected = true →
      (w'.clients j).channelConnected = true) : w'.Ok nchannels := by
  have hall : AllConnected nchannels w.clients → AllConnected nchannels w'.clients :=
    fun hall => ⟨hall.nonneg, fun j hj => hclients j (hall.connected j hj)⟩
  unfold Ok at h ⊢
  rw [hmain]
  split at h
  · trivial
  · trivial
  · exact h
  · exact ⟨h.1, h.2.1, fun hcount j hj => hclients j (h.2.2 hcount j hj)⟩
  · trivial
  · exact hall h
  · exact ⟨hall h.1, h.2⟩
  · exact hall h
  · exact ⟨hall h.1, h.2⟩
  · exact ⟨hall h.1, h.2⟩
  · trivial

/-- **What `main` counts**, whenever the channels connect meanwhile. -/
theorem Ok.mainStep (h : w.Ok nchannels) (hs : w.MainEffect nchannels w') : w'.Ok nchannels := by
  unfold Ok at h
  cases hs with
  | name => trivial
  | opened => exact Nat.zero_le _
  | create i hmain hi => exact hi
  | created | wake => exact ⟨Nat.zero_le _, le_rfl, fun _ j hj => absurd hj (Nat.not_lt_zero j)⟩
  | ask i numConnect hmain hi =>
    rw [hmain] at h
    obtain ⟨-, hle, hcount⟩ := h
    refine ⟨hi, ?_, ?_⟩
    · unfold World.count
      split <;> omega
    · intro hnext j hj
      unfold World.count at hnext
      split at hnext
      · next hconnected =>
        rcases Nat.lt_succ_iff_lt_or_eq.mp hj with hj | rfl
        · exact hcount (Nat.succ.inj hnext) j hj
        · exact hconnected
      · omega
  | connected i numConnect hmain hi hcount =>
    rw [hmain] at h
    obtain ⟨hle, -, hall⟩ := h
    refine ⟨by omega, fun j hj => hall (by omega) j (by omega)⟩
  | sleep => exact trivial
  | timed i hmain =>
    rw [hmain] at h
    exact h
  | call operation loops i hmain hi =>
    rw [hmain] at h
    exact ⟨h, hi⟩
  | skip operation loops i hmain =>
    rw [hmain] at h
    exact h
  | next operation loops i hmain =>
    rw [hmain] at h
    exact h
  | count i numConnect hmain hi =>
    rw [hmain] at h
    obtain ⟨hall, -, rfl⟩ := h
    refine ⟨hall, hi, ?_⟩
    unfold World.count
    exact if_pos (hall.connected _ hi)
  | finish i numConnect hmain hi =>
    rw [hmain] at h
    obtain ⟨hall, hle, rfl⟩ := h
    exact ⟨hall, by omega⟩

/-- There is a name for each channel if the bound of the loop fits. -/
theorem named_of_buildNames {names : List String}
    (hnames : (arguments nchannels).buildNames = some names) : Named nchannels names := by
  obtain ⟨bound, hbound, -⟩ := Option.bind_eq_some_iff.mp hnames
  refine ⟨(exists_add_iff.mp ⟨bound, hbound⟩).2, ?_⟩
  rw [Option.some.inj (hnames.symm.trans (Arguments.buildNames_eq hbound))]
  exact (arguments nchannels).length_names

theorem Inv.named_mainStep (h : w.Inv nchannels) (hs : w.MainEffect nchannels w') :
    Named nchannels w'.channelNames := by
  cases hs with
  | name names hmain hnames => exact named_of_buildNames hnames
  | _ => exact h.named (by simp [*])

/-- **`main` goes on with the plan**: none of the calls is skipped. -/
theorem Inv.mainStep (h : w.Inv nchannels) (hs : w.MainEffect nchannels w') : w'.Inv nchannels := by
  refine ⟨fun _ => h.named_mainStep hs, h.ok.mainStep hs, ?_⟩
  have hcalls := h.calls
  have hok := h.ok
  unfold Ok at hok
  cases hs with
  | name names hmain | opened hmain | create i hmain | created i hmain | ask i numConnect hmain
  | sleep i numConnect hmain | wake hmain =>
    rw [hmain] at hcalls
    exact hcalls
  | connected i numConnect hmain =>
    rw [hmain] at hcalls
    rw [remaining_timing_zero]
    exact hcalls
  | timed i hmain | count i numConnect hmain | finish i numConnect hmain =>
    rw [hmain] at hcalls
    exact hcalls
  | call operation loops i hmain hi =>
    rw [hmain, MainAt.remaining, drop_round hi, List.cons_append, List.append_cons] at hcalls
    exact hcalls
  | skip operation loops i hmain hi hconnected =>
    rw [hmain] at hok
    exact absurd (hconnected.symm.trans (hok.connected i hi)) Bool.noConfusion
  | next operation loops i hmain hi =>
    rw [hmain, MainAt.remaining,
      List.drop_eq_nil_of_le (by rw [length_round]; omega), List.nil_append] at hcalls
    rw [remaining_timing_zero]
    exact hcalls

/-- **Every event keeps to the plan.** -/
theorem Inv.step (h : w.Inv nchannels) (hs : w.step nchannels e = some w') : w'.Inv nchannels := by
  cases step_effect hs with
  | main w' hmain => exact h.mainStep hmain
  | connect i hi =>
    refine ⟨h.named, h.ok.mono rfl fun j hj => ?_, h.calls⟩
    by_cases hji : j = i
    · subst hji
      simp
    · simpa [hji] using hj
  | disconnect i => exact h
  | returns operation loops i hmain =>
    have hok := h.ok
    have hcalls := h.calls
    rw [Ok, hmain] at hok
    rw [hmain] at hcalls
    exact ⟨fun _ => h.named (by simp [hmain]), hok.1, hcalls⟩
  | throws hmain =>
    have hnamed : Named nchannels w.channelNames := by
      rcases hmain with hmain | ⟨i, hmain⟩ <;> exact h.named (by simp [hmain])
    refine ⟨fun _ => hnamed, trivial, ?_⟩
    have hcalls := h.calls
    rcases hmain with hmain | ⟨i, hmain⟩
    · rw [hmain] at hcalls
      exact hcalls
    · rw [hmain] at hcalls
      exact hcalls
  | getline hmain =>
    have hok := h.ok
    have hcalls := h.calls
    rw [Ok, hmain] at hok
    rw [hmain] at hcalls
    exact ⟨fun _ => h.named (by simp [hmain]), ⟨hok, Nat.zero_le _, rfl⟩, hcalls⟩

theorem inv_of_run {es : List Event} (hrun : (timeManyChannel nchannels).run {} es = some w) :
    w.Inv nchannels :=
  EventMachine.run_invariant (M := timeManyChannel nchannels) (fun _ _ _ h hs => h.step hs)
    inv_init hrun

/-- **The timed calls are as planned.**  However channels connect and disconnect, the timed calls
made are the first of those planned, each of which goes through to its channel; when the last
count is printed they are all of them, and the count is the number of channels. -/
theorem timed_calls_are_planned {es : List Event}
    (hrun : (timeManyChannel nchannels).run {} es = some w) :
    w.calls <+: plan nchannels.toInt.toNat ∧ (∀ call ∈ w.calls, call.issued = true) ∧
      ∀ numConnect, w.main = .done numConnect →
        w.calls = plan nchannels.toInt.toNat ∧ (numConnect : ℤ) = nchannels.toInt := by
  have h := inv_of_run hrun
  have hplanned : w.calls <+: plan nchannels.toInt.toNat := ⟨_, h.calls⟩
  refine ⟨hplanned, fun call hcall => ?_, fun numConnect hmain => ?_⟩
  · have hmem := hplanned.subset hcall
    simp only [plan, round, List.mem_flatMap, List.mem_map] at hmem
    obtain ⟨operation, -, i, -, rfl⟩ := hmem
    rfl
  · have hok := h.ok
    have hcalls := h.calls
    rw [Ok, hmain] at hok
    rw [hmain, MainAt.remaining, List.append_nil] at hcalls
    obtain ⟨hall, rfl⟩ := hok
    exact ⟨hcalls, Int.toNat_of_nonneg hall.nonneg⟩

end World

/-- The run of one channel, which connects, disconnects and is called all the same. -/
def channelRun : List Event :=
  [.main, .main, .main, .main, .channelStateChange 0 true, .main, .channelStateChange 0 false,
    .main, .main, .returns, .main, .main, .returns, .main, .main, .returns, .main, .main, .getline,
    .main, .main]

theorem timed_calls_are_planned_channelRun :
    ∃ w, (timeManyChannel 1).run {} channelRun = some w ∧ w.calls = plan 1 := by
  have hdone : ((timeManyChannel 1).run {} channelRun).map World.main = some (.done 1) := by
    decide +kernel
  obtain ⟨w, hrun, hmain⟩ := Option.map_eq_some_iff.mp hdone
  obtain ⟨-, -, hlast⟩ := World.timed_calls_are_planned hrun
  exact ⟨w, hrun, (hlast 1 hmain).1⟩

/-! ### The end -/

/-- Whom `main` waits for: itself, the server that answers its calls, and the user that enters a
line. -/
inductive Actor
  | main
  | server
  | user
  deriving DecidableEq, Repr

/-- The steps of an actor. -/
inductive Acts : Actor → Event → Prop
  | main : Acts .main .main
  | server : Acts .server .returns
  | user : Acts .user .getline

/-- The steps to the end, all channels being connected. -/
def MainAt.toGo (n : ℕ) : MainAt → ℕ
  | naming => n + 3 + (8 * n + 10)
  | opening => n + 2 + (8 * n + 10)
  | creating i => n + 1 - i + (8 * n + 10)
  -- a count that has missed a channel is made once more
  | waiting i numConnect => if numConnect = i then n - i + (7 * n + 10) else n - i + (8 * n + 12)
  | sleeping => 8 * n + 11
  | timing [] _ => n + 4
  | timing (_ :: loops) i => loops.length * (2 * n + 2) + 2 * (n - i) + 1 + (n + 4)
  | calling _ loops i => loops.length * (2 * n + 2) + 2 * (n - i) + (n + 4)
  | entering => n + 3
  | counting i _ => n - i + 1
  | done _ => 0
  | failed => 0

/-- `main` has not created all its clients. -/
def MainAt.Creating : MainAt → Prop
  | naming => True
  | opening => True
  | creating _ => True
  | _ => False

/-- `main` has printed the last count, or caught an exception. -/
def MainAt.Ended : MainAt → Prop
  | done _ => True
  | failed => True
  | _ => False

/-- Whom `main` waits for. -/
def MainAt.helpful : MainAt → Actor
  | calling _ _ _ => .server
  | entering => .user
  | _ => .main

theorem toGo_timing_zero (n : ℕ) (operation : Operation) (loops : List Operation) (i : ℕ) :
    (MainAt.timing loops 0).toGo n < (MainAt.timing (operation :: loops) i).toGo n := by
  cases loops with
  | nil =>
    simp only [MainAt.toGo]
    omega
  | cons operation loops =>
    simp only [MainAt.toGo, List.length_cons, Nat.succ_mul]
    omega

namespace World

variable {nchannels : Int32} {w w' : World} {e : Event}

/-- `main` has names for its channels, or will have them. -/
structure Fitting (nchannels : Int32) (w : World) : Prop where
  inv : w.Inv nchannels
  fits : nchannels.toInt + 1 < 2 ^ 31

/-- All channels have connected, and `main` may not know yet. -/
structure Running (nchannels : Int32) (w : World) : Prop extends w.Fitting nchannels where
  all : AllConnected nchannels w.clients

/-- Until the clients are created `main` comes closer to its end in any case. -/
theorem Inv.toGo_of_creating (h : w.Inv nchannels) (hs : w.MainEffect nchannels w')
    (hcreating : w.main.Creating) :
    w'.main.toGo nchannels.toInt.toNat < w.main.toGo nchannels.toInt.toNat := by
  have hok := h.ok
  unfold Ok at hok
  cases hs with
  | name names hmain | opened hmain | create i hmain hi =>
    rw [hmain]
    simp only [MainAt.toGo]
    omega
  | created i hmain hi =>
    rw [hmain] at hok ⊢
    simp only [MainAt.toGo, if_true]
    omega
  | _ => simp [*, MainAt.Creating] at hcreating

/-- **`main` comes closer to its end by every step.** -/
theorem Running.toGo_mainStep (h : w.Running nchannels) (hs : w.MainEffect nchannels w') :
    w'.main.toGo nchannels.toInt.toNat < w.main.toGo nchannels.toInt.toNat := by
  have hok := h.inv.ok
  have hcreating := h.inv.toGo_of_creating hs
  unfold Ok at hok
  cases hs with
  | name names hmain | opened hmain | create i hmain | created i hmain =>
    exact hcreating (by simp [hmain, MainAt.Creating])
  | ask i numConnect hmain hi =>
    have hcount : w.count i numConnect = numConnect + 1 := if_pos (h.all.connected i hi)
    rw [hmain, hcount]
    simp only [MainAt.toGo, Nat.add_right_cancel_iff]
    split <;> omega
  | connected i numConnect hmain hi =>
    rw [hmain]
    simp only [MainAt.toGo, loops, List.length_cons, List.length_nil]
    split <;> omega
  | sleep i numConnect hmain hi hcount =>
    rw [hmain] at hok ⊢
    obtain ⟨hle, -⟩ := hok
    -- the count has missed a channel
    have hne : numConnect ≠ i := by
      have hnonneg := h.all.nonneg
      omega
    simp only [MainAt.toGo, if_neg hne]
    omega
  | wake hmain =>
    rw [hmain]
    simp only [MainAt.toGo, if_true]
    omega
  | timed i hmain | call operation loops i hmain | count i numConnect hmain
  | finish i numConnect hmain =>
    rw [hmain]
    simp only [MainAt.toGo]
    omega
  | skip operation loops i hmain hi hconnected =>
    exact absurd (hconnected.symm.trans (h.all.connected i hi)) Bool.noConfusion
  | next operation loops i hmain =>
    rw [hmain]
    exact toGo_timing_zero _ operation loops i

/-- `main` goes on by itself, unless it waits for somebody. -/
theorem Fitting.exists_mainStep (h : w.Fitting nchannels) (hhelpful : w.main.helpful = .main)
    (hended : ¬ w.main.Ended) : ∃ w', w.mainStep nchannels = some w' := by
  unfold mainStep
  split
  · -- the bound of the names fits
    have hle := nchannels.le_toInt
    have hfits := h.fits
    obtain ⟨bound, hbound⟩ : ∃ bound, add nchannels 1 = some bound := by
      rw [exists_add_iff, Int32.toInt_one]
      omega
    have hbound : add (arguments nchannels).nchannels (arguments nchannels).offset = some bound :=
      hbound
    exact ⟨_, by rw [Arguments.buildNames_eq hbound, Option.map_some]⟩
  · exact ⟨_, rfl⟩
  · next i hmain =>
    split
    · next hi =>
      -- and there is a name for each channel
      have hlength := (h.inv.named (by simp [hmain])).length
      have hlt : i < w.channelNames.length := by omega
      exact ⟨_, by rw [List.getElem?_eq_getElem hlt, Option.map_some]⟩
    · exact ⟨_, rfl⟩
  · split
    · exact ⟨_, rfl⟩
    · split <;> exact ⟨_, rfl⟩
  · exact ⟨_, rfl⟩
  · exact ⟨_, rfl⟩
  · split <;> exact ⟨_, rfl⟩
  · next hmain => simp [hmain, MainAt.helpful] at hhelpful
  · next hmain => simp [hmain, MainAt.helpful] at hhelpful
  · split <;> exact ⟨_, rfl⟩
  · next hmain => simp [hmain, MainAt.Ended] at hended
  · next hmain => simp [hmain, MainAt.Ended] at hended

/-- Whom `main` waits for can make a step, unless it has come to its end. -/
theorem Fitting.canAct_helpful (h : w.Fitting nchannels) (hended : ¬ w.main.Ended) :
    (timeManyChannel nchannels).CanAct Acts w.main.helpful w := by
  have hself : w.main.helpful = .main →
      (timeManyChannel nchannels).CanAct Acts w.main.helpful w := by
    intro hhelpful
    obtain ⟨w', hs⟩ := h.exists_mainStep hhelpful hended
    exact ⟨.main, w', hhelpful ▸ Acts.main, hs⟩
  cases hmain : w.main with
  | calling operation loops i =>
    refine ⟨.returns, { w with main := .timing (operation :: loops) (i + 1) }, .server, ?_⟩
    show w.step nchannels .returns = _
    rw [step, hmain]
  | entering => exact ⟨.getline, _, .user, if_pos hmain⟩
  | _ => exact hmain ▸ hself (by rw [hmain]; rfl)

/-- A flag that is set stays set. -/
theorem connected_step (hs : w.step nchannels e = some w') {i : ℕ}
    (h : (w.clients i).channelConnected = true) : (w'.clients i).channelConnected = true := by
  cases step_effect hs with
  | main w' hmain => cases hmain <;> exact h
  | connect j =>
    by_cases hij : i = j
    · subst hij
      simp
    · simpa [hij] using h
  | disconnect | returns | throws | getline => exact h

end World

/-- What leads `main` through the creation of its clients. -/
def createRanking (nchannels : Int32) :
    (timeManyChannel nchannels).Ranking Acts (World.Fitting nchannels)
      fun w => ¬ w.main.Creating where
  rank w := w.main.toGo nchannels.toInt.toNat
  helpful w := w.main.helpful
  canAct w h hnot := by
    refine h.canAct_helpful fun hended => ?_
    rw [not_not] at hnot
    cases hmain : w.main <;> simp [hmain, MainAt.Creating, MainAt.Ended] at hnot hended
  step w e w' h hnot hs := by
    rw [not_not] at hnot
    have hnext : World.Fitting nchannels w' := ⟨h.inv.step hs, h.fits⟩
    cases World.step_effect hs with
    | main w' hmain => exact .inr ⟨hnext, .inl (h.inv.toGo_of_creating hmain hnot)⟩
    | connect i | disconnect i =>
      refine .inr ⟨hnext, .inr ⟨rfl, rfl, fun hacts => ?_⟩⟩
      generalize w.main.helpful = actor at hacts
      cases hacts
    | throws => exact .inl id
    | returns operation loops i hmain | getline hmain => simp [hmain, MainAt.Creating] at hnot

/-- What leads `main` to its end. -/
def endRanking (nchannels : Int32) :
    (timeManyChannel nchannels).Ranking Acts (World.Running nchannels) fun w => w.main.Ended where
  rank w := w.main.toGo nchannels.toInt.toNat
  helpful w := w.main.helpful
  canAct _ h hnot := h.canAct_helpful hnot
  step w e w' h _ hs := by
    have hnext : World.Running nchannels w' := ⟨⟨h.inv.step hs, h.fits⟩, h.all.nonneg, fun j hj =>
      World.connected_step hs (h.all.connected j hj)⟩
    have hok := h.inv.ok
    cases World.step_effect hs with
    | main w' hmain => exact .inr ⟨hnext, .inl (h.toGo_mainStep hmain)⟩
    | connect i | disconnect i =>
      refine .inr ⟨hnext, .inr ⟨rfl, rfl, fun hacts => ?_⟩⟩
      generalize w.main.helpful = actor at hacts
      cases hacts
    | throws => exact .inl trivial
    | returns operation loops i hmain =>
      refine .inr ⟨hnext, .inl ?_⟩
      rw [World.Ok, hmain] at hok
      rw [hmain]
      simp only [MainAt.toGo]
      omega
    | getline hmain =>
      refine .inr ⟨hnext, .inl ?_⟩
      rw [hmain]
      simp only [MainAt.toGo]
      omega

section schedule

variable {nchannels : Int32} {S : (timeManyChannel nchannels).Schedule}

/-- A channel that has connected has set its flag for good. -/
theorem connected_of_event {i m l : ℕ} (hevent : S.event m = some (.channelStateChange i true))
    (hl : m + 1 ≤ l) : ((S.state l).clients i).channelConnected = true := by
  induction l, hl using Nat.le_induction with
  | base =>
    have hs : (S.state m).step nchannels (.channelStateChange i true) = some (S.state (m + 1)) :=
      EventMachine.Schedule.step_of_event hevent
    generalize S.state (m + 1) = w' at hs
    cases World.step_effect hs with
    | connect => simp
  | succ l hl ih =>
    cases hnext : S.event l with
    | none => rwa [EventMachine.Schedule.state_of_pause hnext]
    | some e => exact World.connected_step (EventMachine.Schedule.step_of_event hnext) ih

/-- There is a time by which all channels have connected. -/
theorem exists_connected (n : ℕ)
    (hconnect : ∀ i < n, ∃ m, S.event m = some (.channelStateChange i true)) :
    ∃ m, ∀ i < n, ∀ l, m ≤ l → ((S.state l).clients i).channelConnected = true := by
  induction n with
  | zero => exact ⟨0, fun i hi => absurd hi (Nat.not_lt_zero i)⟩
  | succ n ih =>
    obtain ⟨m, hm⟩ := ih fun i hi => hconnect i (Nat.lt_succ_of_lt hi)
    obtain ⟨k, hk⟩ := hconnect n (Nat.lt_succ_self n)
    refine ⟨max m (k + 1), fun i hi l hl => ?_⟩
    rcases Nat.lt_succ_iff_lt_or_eq.mp hi with hi | rfl
    · exact hm i hi l ((le_max_left _ _).trans hl)
    · exact connected_of_event hk ((le_max_right _ _).trans hl)

/-- Only an exception makes `main` fail. -/
theorem exists_throws {m : ℕ} (hmain : (S.state m).main = .failed) :
    ∃ k, S.event k = some .throws := by
  induction m with
  | zero =>
    rw [S.init] at hmain
    exact absurd hmain MainAt.noConfusion
  | succ m ih =>
    cases hevent : S.event m with
    | none => exact ih ((EventMachine.Schedule.state_of_pause hevent) ▸ hmain)
    | some e =>
      have hs : (S.state m).step nchannels e = some (S.state (m + 1)) :=
        EventMachine.Schedule.step_of_event hevent
      generalize S.state (m + 1) = w' at hs hmain
      cases World.step_effect hs with
      | main w' heffect => cases heffect <;> simp at hmain
      | connect i hi => exact ih hmain
      | disconnect i => exact ih hmain
      | throws => exact ⟨m, hevent⟩
      | returns | getline => simp at hmain

end schedule

/-- **`main` comes to its last count if each channel it creates connects once, exactly if there are
not fewer than zero and the bound of the names fits an `int`.**  The channels may have disconnected
again by then.  With a number below zero `main` waits for ever, and with the greatest it has no
names. -/
theorem main_ends_iff (nchannels : Int32) (S : (timeManyChannel nchannels).Schedule)
    (hfair : ∀ actor, S.Fair Acts actor) (hquiet : ∀ m, S.event m ≠ some .throws)
    (hconnect : ∀ i < nchannels.toInt.toNat, (∃ m, i < (S.state m).created nchannels) →
      ∃ m, S.event m = some (.channelStateChange i true)) :
    (∃ m numConnect, (S.state m).main = .done numConnect) ↔
      0 ≤ nchannels.toInt ∧ nchannels.toInt + 1 < 2 ^ 31 := by
  have hinv : ∀ m, (S.state m).Inv nchannels := by
    intro m
    obtain ⟨es, hrun⟩ := (S.reachable m).exists_run
    exact World.inv_of_run hrun
  have hfailed : ∀ m, (S.state m).main ≠ .failed := by
    intro m hmain
    obtain ⟨k, hk⟩ := exists_throws hmain
    exact hquiet k hk
  constructor
  · rintro ⟨m, numConnect, hmain⟩
    have hok := (hinv m).ok
    rw [World.Ok, hmain] at hok
    exact ⟨hok.1.nonneg, ((hinv m).named (by simp [hmain])).fits⟩
  · rintro ⟨hnonneg, hfits⟩
    -- first all clients are created, so all channels connect
    have hinit : (S.state 0).Fitting nchannels := ⟨hinv 0, hfits⟩
    obtain ⟨k, -, hk⟩ := (createRanking nchannels).eventually hfair hinit
    have hcreated : (S.state k).created nchannels = nchannels.toInt.toNat := by
      unfold World.created
      cases hmain : (S.state k).main <;> simp [hmain, MainAt.Creating] at hk ⊢
    obtain ⟨m, hm⟩ := exists_connected nchannels.toInt.toNat fun i hi =>
      hconnect i hi ⟨k, hcreated ▸ hi⟩
    -- then `main` goes on to its end
    have hrunning : (S.state m).Running nchannels :=
      ⟨⟨hinv m, hfits⟩, hnonneg, fun i hi => hm i hi m le_rfl⟩
    obtain ⟨l, -, hended⟩ := (endRanking nchannels).eventually hfair hrunning
    cases hmain : (S.state l).main with
    | done numConnect => exact ⟨l, numConnect, hmain⟩
    | failed => exact absurd hmain (hfailed l)
    | _ => simp [hmain, MainAt.Ended] at hended

theorem main_ends_channelRun :
    ∃ m numConnect, ((EventMachine.Schedule.replay (timeManyChannel 1) channelRun).state m).main =
      .done numConnect := by
  have hnone : ∀ e ∈ [Event.main, .returns, .getline],
      ((timeManyChannel 1).step (EventMachine.Schedule.replayState (timeManyChannel 1) channelRun
        channelRun.length) e).isNone = true := by decide +kernel
  refine (main_ends_iff 1 _ (fun actor => ?_) (fun m hthrows => ?_) fun i hi _ => ⟨4, ?_⟩).mpr
    (by decide)
  · apply EventMachine.Schedule.fair_replay
    rintro ⟨e, w, hacts, hs⟩
    cases hacts with
    | main => simpa [hs] using hnone .main (by simp)
    | server => simpa [hs] using hnone .returns (by simp)
    | user => simpa [hs] using hnone .getline (by simp)
  · have hmem : Event.throws ∈ channelRun :=
      List.mem_of_getElem? (Option.filter_eq_some_iff.mp hthrows).1
    exact absurd hmem (by decide)
  · obtain rfl : i = 0 := by simpa using hi
    decide +kernel

end TestDatabase.TimeManyChannel
