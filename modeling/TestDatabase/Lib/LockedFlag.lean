import Mathlib.Logic.Function.Basic
import TestDatabase.Lib.EventMachine

/-!
# A flag stored without the lock

Callbacks tell an object that something it depends on has been lost or found again.  They
store a flag without taking the lock of the object.  A callback of a loss then takes the lock
and lets the object show the loss; so does any other thread that works on the object, if it
finds the flag down.  A thread that has found the flag up goes on as if it still were.

Any number of threads take turns between the store, the lock, the look at the flag, and what
is shown.

## Main definitions

* `FlaggedObject` — an object with its flag, what shows the loss, and what threads do to it.
* `LockedFlag`, `FlaggedObject.machine` — the threads around the object, and their steps.
* `LockedFlag.Inv` — the loss is shown, or is still to be.

## Main results

* `LockedFlag.Inv.step` — every step keeps the invariant.
* `LockedFlag.shown_of_free` — **between two sections a loss whose callback has returned is
  shown.**
-/

/-- An object with a flag that is stored without its lock.  `ι` are the stores and sections
that leave flag and loss alone, `κ` the sections that look at the flag, `ω` how they end. -/
structure FlaggedObject (R ι κ ω : Type*) where
  init : R
  flag : R → Bool
  /-- The loss is shown. -/
  shown : R → Prop
  /-- Store that what the object depends on is lost. -/
  lose : R → R
  /-- Store that it is found again. -/
  find : R → R
  /-- What changes neither the flag nor what is shown. -/
  other : ι → R → Option R
  /-- What a section does before it looks at the flag. -/
  enter : κ → R → R
  /-- What it does once it has, with the value found. -/
  finish : κ → ω → Bool → R → Option R
  /-- The section of a callback of a loss. -/
  lossSection : κ
  flag_lose : ∀ r, flag (lose r) = false
  flag_find : ∀ r, flag (find r) = true
  flag_other : ∀ {i r r'}, other i r = some r' → flag r' = flag r
  flag_enter : ∀ k r, flag (enter k r) = flag r
  flag_finish : ∀ {k o saw r r'}, finish k o saw r = some r' → flag r' = flag r
  shown_init : shown init
  shown_other : ∀ {i r r'}, other i r = some r' → shown r → shown r'
  /-- A section that finds the flag down shows the loss. -/
  shown_finish : ∀ {k o r r'}, finish k o false r = some r' → shown r'

/-- Where a thread is. -/
inductive SectionPhase (κ : Type*)
  | idle
  /-- At the lock.  `lost` is set in a callback of a loss, whose store has been made. -/
  | wanting (lost : Bool) (k : κ)
  /-- Holding the lock, before the look at the flag. -/
  | locked (lost : Bool) (k : κ)
  /-- Holding the lock, having looked at the flag. -/
  | looked (k : κ) (saw : Bool)
  /-- Holding the lock, at the end of the section. -/
  | leaving

namespace SectionPhase

variable {κ : Type*}

/-- The thread holds the lock. -/
def Holds : SectionPhase κ → Prop
  | idle => False
  | wanting _ _ => False
  | locked _ _ => True
  | looked _ _ => True
  | leaving => True

/-- The thread is in a callback of a loss and has not looked at the flag. -/
def Losing : SectionPhase κ → Prop
  | wanting lost _ => lost = true
  | locked lost _ => lost = true
  | _ => False

end SectionPhase

/-- The object among its threads. -/
structure LockedFlag (R κ : Type*) where
  object : R
  /-- The thread that holds the lock. -/
  owner : Option ℕ := none
  phase : ℕ → SectionPhase κ := fun _ => .idle

/-- The steps of the threads. -/
inductive SectionEvent (ι κ ω : Type*)
  | find (t : ℕ)
  | other (t : ℕ) (i : ι)
  | lose (t : ℕ)
  /-- A thread is about to enter a section. -/
  | call (t : ℕ) (k : κ)
  | lock (t : ℕ)
  | look (t : ℕ)
  | finish (t : ℕ) (o : ω)
  | unlock (t : ℕ)

namespace LockedFlag

variable {R ι κ ω : Type*}

/-- A thread goes on to another phase. -/
def goTo (s : LockedFlag R κ) (t : ℕ) (phase : SectionPhase κ) : LockedFlag R κ :=
  { s with phase := Function.update s.phase t phase }

/-- One step of one thread. -/
def step (F : FlaggedObject R ι κ ω) (s : LockedFlag R κ) :
    SectionEvent ι κ ω → Option (LockedFlag R κ)
  | .find t =>
    match s.phase t with
    | .idle => some { s with object := F.find s.object }
    | _ => none
  | .other t i =>
    match s.phase t with
    | .idle => (F.other i s.object).map fun r => { s with object := r }
    | _ => none
  | .lose t =>
    match s.phase t with
    | .idle =>
      some { s.goTo t (.wanting true F.lossSection) with object := F.lose s.object }
    | _ => none
  | .call t k =>
    match s.phase t with
    | .idle => some (s.goTo t (.wanting false k))
    | _ => none
  | .lock t =>
    match s.phase t, s.owner with
    | .wanting lost k, none => some { s.goTo t (.locked lost k) with owner := some t }
    | _, _ => none
  | .look t =>
    match s.phase t with
    | .locked _ k =>
      some { s.goTo t (.looked k (F.flag s.object)) with object := F.enter k s.object }
    | _ => none
  | .finish t o =>
    match s.phase t with
    | .looked k saw =>
      (F.finish k o saw s.object).map fun r => { s.goTo t .leaving with object := r }
    | _ => none
  | .unlock t =>
    match s.phase t with
    | .leaving => some { s.goTo t .idle with owner := none }
    | _ => none

end LockedFlag

/-- The threads around an object. -/
def FlaggedObject.machine {R ι κ ω : Type*} (F : FlaggedObject R ι κ ω) :
    EventMachine (LockedFlag R κ) (SectionEvent ι κ ω) where
  init := { object := F.init }
  step := LockedFlag.step F

namespace LockedFlag

variable {R ι κ ω : Type*} {F : FlaggedObject R ι κ ω} {s s' : LockedFlag R κ}
  {e : SectionEvent ι κ ω}

/-- What a step can do. -/
inductive Effect (F : FlaggedObject R ι κ ω) (s : LockedFlag R κ) : LockedFlag R κ → Prop
  | find : Effect F s { s with object := F.find s.object }
  | other (i : ι) (r : R) (hother : F.other i s.object = some r) :
    Effect F s { s with object := r }
  | lose (t : ℕ) (hidle : s.phase t = .idle) :
    Effect F s { s.goTo t (.wanting true F.lossSection) with object := F.lose s.object }
  | call (t : ℕ) (k : κ) (hidle : s.phase t = .idle) : Effect F s (s.goTo t (.wanting false k))
  | lock (t : ℕ) (lost : Bool) (k : κ) (hwanting : s.phase t = .wanting lost k)
      (hfree : s.owner = none) :
    Effect F s { s.goTo t (.locked lost k) with owner := some t }
  | look (t : ℕ) (lost : Bool) (k : κ) (hlocked : s.phase t = .locked lost k) :
    Effect F s { s.goTo t (.looked k (F.flag s.object)) with object := F.enter k s.object }
  | finish (t : ℕ) (k : κ) (o : ω) (saw : Bool) (r : R) (hlooked : s.phase t = .looked k saw)
      (hfinish : F.finish k o saw s.object = some r) :
    Effect F s { s.goTo t .leaving with object := r }
  | unlock (t : ℕ) (hleaving : s.phase t = .leaving) :
    Effect F s { s.goTo t .idle with owner := none }

theorem step_effect (hs : s.step F e = some s') : s.Effect F s' := by
  cases e with
  | find t =>
    simp only [step] at hs
    split at hs
    · exact Option.some.inj hs ▸ .find
    · exact absurd hs (by simp)
  | other t i =>
    simp only [step] at hs
    split at hs
    · obtain ⟨r, hother, rfl⟩ := Option.map_eq_some_iff.mp hs
      exact .other i r hother
    · exact absurd hs (by simp)
  | lose t =>
    simp only [step] at hs
    split at hs
    · next hidle => exact Option.some.inj hs ▸ .lose t hidle
    · exact absurd hs (by simp)
  | call t k =>
    simp only [step] at hs
    split at hs
    · next hidle => exact Option.some.inj hs ▸ .call t k hidle
    · exact absurd hs (by simp)
  | lock t =>
    simp only [step] at hs
    split at hs
    · next lost k hwanting hfree => exact Option.some.inj hs ▸ .lock t lost k hwanting hfree
    · exact absurd hs (by simp)
  | look t =>
    simp only [step] at hs
    split at hs
    · next lost k hlocked => exact Option.some.inj hs ▸ .look t lost k hlocked
    · exact absurd hs (by simp)
  | finish t o =>
    simp only [step] at hs
    split at hs
    · next k saw hlooked =>
      obtain ⟨r, hfinish, rfl⟩ := Option.map_eq_some_iff.mp hs
      exact .finish t k o saw r hlooked hfinish
    · exact absurd hs (by simp)
  | unlock t =>
    simp only [step] at hs
    split at hs
    · next hleaving => exact Option.some.inj hs ▸ .unlock t hleaving
    · exact absurd hs (by simp)

/-- The loss is shown and nobody works on the object as if it were not lost, or a callback of
a loss, or whoever has found the flag down, will show it. -/
def WillShow (F : FlaggedObject R ι κ ω) (s : LockedFlag R κ) : Prop :=
  (F.shown s.object ∧ ∀ t k, s.phase t ≠ .looked k true) ∨
    (∃ t, (s.phase t).Losing) ∨ ∃ t k, s.phase t = .looked k false

/-- The owner of the lock is in a section, and a loss is shown or will be. -/
structure Inv (F : FlaggedObject R ι κ ω) (s : LockedFlag R κ) : Prop where
  owner : ∀ t, s.owner = some t ↔ (s.phase t).Holds
  loss : F.flag s.object = false → s.WillShow F

theorem inv_init : Inv F { object := F.init } where
  owner t := by simp [SectionPhase.Holds]
  loss _ := .inl ⟨F.shown_init, fun _ _ => by simp⟩

/-- Of two threads that hold the lock the one is the other. -/
theorem Inv.unique (h : s.Inv F) {t t' : ℕ} (ht : (s.phase t).Holds) (ht' : (s.phase t').Holds) :
    t = t' :=
  Option.some.inj (((h.owner t).mpr ht).symm.trans ((h.owner t').mpr ht'))

theorem phase_goTo_self (s : LockedFlag R κ) (t : ℕ) (phase : SectionPhase κ) :
    (s.goTo t phase).phase t = phase := Function.update_self ..

theorem phase_goTo_of_ne {t t' : ℕ} (phase : SectionPhase κ) (h : t' ≠ t) :
    (s.goTo t phase).phase t' = s.phase t' := Function.update_of_ne h ..

/-- A thread that comes to a phase where it holds the lock if it did before. -/
theorem Inv.owner_goTo (h : s.Inv F) {t : ℕ} {phase : SectionPhase κ}
    (hholds : phase.Holds ↔ (s.phase t).Holds) (t' : ℕ) :
    s.owner = some t' ↔ ((s.goTo t phase).phase t').Holds := by
  by_cases ht : t' = t
  · subst ht
    rw [phase_goTo_self, hholds]
    exact h.owner t'
  · rw [phase_goTo_of_ne phase ht]
    exact h.owner t'

/-- A thread goes on without the object being changed.  It keeps losing if it was, and it has
neither looked at the flag nor looks at it now. -/
theorem WillShow.goTo (h : s.WillShow F) {t : ℕ} {phase : SectionPhase κ}
    (hlosing : (s.phase t).Losing → phase.Losing) (hbefore : ∀ k, s.phase t ≠ .looked k false)
    (hafter : ∀ k, phase ≠ .looked k true) : (s.goTo t phase).WillShow F := by
  rcases h with ⟨hshown, hnone⟩ | ⟨t', ht'⟩ | ⟨t', k, ht'⟩
  · refine .inl ⟨hshown, fun t' k => ?_⟩
    by_cases ht : t' = t
    · subst ht
      rw [phase_goTo_self]
      exact hafter k
    · rw [phase_goTo_of_ne phase ht]
      exact hnone t' k
  · refine .inr (.inl ⟨t', ?_⟩)
    by_cases ht : t' = t
    · subst ht
      rw [phase_goTo_self]
      exact hlosing ht'
    · rw [phase_goTo_of_ne phase ht]
      exact ht'
  · have ht : t' ≠ t := by
      rintro rfl
      exact hbefore k ht'
    exact .inr (.inr ⟨t', k, (phase_goTo_of_ne phase ht).trans ht'⟩)

/-- **What the end of a section shows**: the loss, if the section has found the flag down.  If
it has not, the flag has fallen since, and a callback of the loss is still to come. -/
theorem Inv.willShow_finish (h : s.Inv F) {t : ℕ} {k : κ} {o : ω} {saw : Bool} {r : R}
    (hlooked : s.phase t = .looked k saw) (hfinish : F.finish k o saw s.object = some r)
    (hflag : F.flag s.object = false) :
    WillShow F { s.goTo t .leaving with object := r } := by
  have hholds : (s.phase t).Holds := by rw [hlooked]; trivial
  have hother : ∀ t' k' saw', s.phase t' = .looked k' saw' → t' = t := by
    intro t' k' saw' ht'
    exact h.unique (by rw [ht']; trivial) hholds
  cases saw with
  | false =>
    refine .inl ⟨F.shown_finish hfinish, fun t' k' ht' => ?_⟩
    by_cases ht : t' = t
    · subst ht
      have hleaving := (phase_goTo_self s t' .leaving).symm.trans ht'
      simp at hleaving
    · exact ht (hother t' k' true ((phase_goTo_of_ne _ ht).symm.trans ht'))
  | true =>
    rcases h.loss hflag with ⟨-, hnone⟩ | ⟨t', ht'⟩ | ⟨t', k', ht'⟩
    · exact absurd hlooked (hnone t k)
    · have ht : t' ≠ t := by
        rintro rfl
        rw [hlooked] at ht'
        exact ht'
      refine .inr (.inl ⟨t', ?_⟩)
      rw [show ({ s.goTo t .leaving with object := r } : LockedFlag R κ).phase t' = s.phase t' from
        phase_goTo_of_ne _ ht]
      exact ht'
    · obtain rfl := hother t' k' false ht'
      simp [hlooked] at ht'

/-- **Every step keeps the invariant.** -/
theorem Inv.step (h : s.Inv F) (hs : s.step F e = some s') : s'.Inv F := by
  cases step_effect hs with
  | find =>
    refine ⟨h.owner, fun hflag => ?_⟩
    exact absurd ((F.flag_find s.object).symm.trans hflag) Bool.noConfusion
  | other i r hother =>
    refine ⟨h.owner, fun hflag => ?_⟩
    rcases h.loss ((F.flag_other hother).symm.trans hflag) with ⟨hshown, hnone⟩ | hlater
    · exact .inl ⟨F.shown_other hother hshown, hnone⟩
    · exact .inr hlater
  | lose t hidle =>
    refine ⟨h.owner_goTo ?_, fun _ => .inr (.inl ⟨t, ?_⟩)⟩
    · rw [hidle]
      exact Iff.rfl
    · exact (congrArg SectionPhase.Losing (phase_goTo_self s t _)).mpr rfl
  | call t k hidle =>
    refine ⟨h.owner_goTo ?_, fun hflag => (h.loss hflag).goTo ?_ ?_ ?_⟩
    · rw [hidle]
      exact Iff.rfl
    · rw [hidle]
      exact False.elim
    · simp [hidle]
    · simp
  | lock t lost k hwanting hfree =>
    refine ⟨fun t' => ?_, fun hflag => (h.loss hflag).goTo ?_ ?_ ?_⟩
    · by_cases ht : t' = t
      · subst ht
        exact iff_of_true rfl ((congrArg SectionPhase.Holds (phase_goTo_self s t' _)).mpr trivial)
      · -- the lock was free, so nobody else holds it
        have hnot : ¬ (s.phase t').Holds := by
          rw [← h.owner, hfree]
          simp
        refine iff_of_false (fun heq => ht (Option.some.inj heq).symm) ?_
        rw [show (LockedFlag.phase { s.goTo t (.locked lost k) with owner := some t } t') =
          s.phase t' from phase_goTo_of_ne _ ht]
        exact hnot
    · rw [hwanting]
      exact id
    · simp [hwanting]
    · simp
  | look t lost k hlocked =>
    refine ⟨h.owner_goTo ?_, fun hflag => .inr (.inr ⟨t, k, ?_⟩)⟩
    · rw [hlocked]
      exact Iff.rfl
    · have hdown : F.flag s.object = false := (F.flag_enter k s.object).symm.trans hflag
      exact (phase_goTo_self s t _).trans (congrArg _ hdown)
  | finish t k o saw r hlooked hfinish =>
    refine ⟨h.owner_goTo ?_, fun hflag => ?_⟩
    · rw [hlooked]
      exact Iff.rfl
    · exact h.willShow_finish hlooked hfinish ((F.flag_finish hfinish).symm.trans hflag)
  | unlock t hleaving =>
    refine ⟨fun t' => ?_, fun hflag => (h.loss hflag).goTo ?_ ?_ ?_⟩
    · refine iff_of_false (by simp) ?_
      by_cases ht : t' = t
      · subst ht
        exact (congrArg SectionPhase.Holds (phase_goTo_self s t' _)).mp
      · rw [show (LockedFlag.phase { s.goTo t .idle with owner := none } t') = s.phase t' from
          phase_goTo_of_ne _ ht]
        exact fun hholds => ht (h.unique hholds (by rw [hleaving]; trivial))
    · rw [hleaving]
      exact False.elim
    · simp [hleaving]
    · simp

/-- **A loss is shown.**  While nobody holds the lock and no callback of a loss is at it, an
object whose flag is down shows the loss. -/
theorem shown_of_free (hs : F.machine.Reachable s) (hfree : s.owner = none)
    (hcallbacks : ∀ t, ¬ (s.phase t).Losing) (hflag : F.flag s.object = false) :
    F.shown s.object := by
  have h : s.Inv F := hs.invariant inv_init fun _ _ _ h _ hs => h.step hs
  rcases h.loss hflag with ⟨hshown, -⟩ | ⟨t, ht⟩ | ⟨t, k, ht⟩
  · exact hshown
  · exact absurd ht (hcallbacks t)
  · -- whoever has looked at the flag holds the lock
    have howner : s.owner = some t := (h.owner t).mpr (by rw [ht]; trivial)
    rw [hfree] at howner
    simp at howner

end LockedFlag
