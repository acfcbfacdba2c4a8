import Mathlib.Algebra.Order.Ring.Abs
import Mathlib.Data.List.Basic
import Mathlib.Tactic.Linarith

/-!
# Deadbands

Several triggers watch one input.  Each goes on when the input comes to its limit.  It stays on
until the input falls short of the limit by a gap, or until a trigger that is looked at before it
comes on.

A trigger may come on again and again without its own gap being crossed: a trigger before it
takes over, and gives back.  But then it is the other trigger that has been left by the gap.
Whatever the limits, the input must vary by the gap from one time that a trigger comes on to the
next.

The proof is by a potential: what the input has already paid for the next time.

## Main definitions

* `Triggers` — the triggers, and how far an input is short of each.
* `Triggers.next`, `Triggers.states` — the trigger that is on after an input, after each input.
* `timesEntered` — how often a sequence comes to a value.
* `variation` — how much a sequence varies.

## Main results

* `Triggers.potential_next` — one input pays for the trigger, and for the potential.
* `Triggers.timesEntered_mul_le` — **coming on costs the gap.**
-/

namespace Deadband

/-- How often a sequence comes to `x`, having begun with `b`. -/
def timesEntered {β : Type*} [DecidableEq β] (x : β) : β → List β → ℕ
  | _, [] => 0
  | b, c :: cs => (if b ≠ x ∧ c = x then 1 else 0) + timesEntered x c cs

theorem timesEntered_map {β γ : Type*} [DecidableEq β] [DecidableEq γ] {f : β → γ}
    (hf : f.Injective) (x b : β) (cs : List β) :
    timesEntered (f x) (f b) (cs.map f) = timesEntered x b cs := by
  induction cs generalizing b with
  | nil => rfl
  | cons c cs ih => simp only [List.map_cons, timesEntered, ih, hf.ne_iff, hf.eq_iff]

variable {ι α : Type*} [CommRing α] [LinearOrder α]

/-- How much a sequence varies. -/
def variation : List α → α
  | u :: v :: vs => |v - u| + variation (v :: vs)
  | _ => 0

theorem variation_nonneg [IsStrictOrderedRing α] (vs : List α) : 0 ≤ variation vs := by
  induction vs using variation.induct with
  | case1 u v vs ih => exact add_nonneg (abs_nonneg _) ih
  | case2 vs hvs =>
    rw [variation]
    exact hvs

/-- How far an input is short of the limit of each trigger, the triggers in the order in which
they are looked at. -/
structure Triggers (ι α : Type*) [CommRing α] [LinearOrder α] where
  order : List ι
  short : ι → α → α
  gap : α
  /-- An input comes no closer to a limit than it moves. -/
  short_le : ∀ i u v, short i v ≤ short i u + |v - u|

namespace Triggers

/-- The trigger is to be on after an input. -/
def Holds (T : Triggers ι α) (active : Option ι) (v : α) (i : ι) : Prop :=
  T.short i v ≤ 0 ∨ active = some i ∧ T.short i v < T.gap

variable [DecidableEq ι]

instance (T : Triggers ι α) (active : Option ι) (v : α) (i : ι) : Decidable (T.Holds active v i) :=
  inferInstanceAs (Decidable (_ ∨ _))

/-- The trigger that is on after an input. -/
def next (T : Triggers ι α) (active : Option ι) (v : α) : Option ι :=
  T.order.find? fun i => decide (T.Holds active v i)

/-- The triggers that are on after each of several inputs. -/
def states (T : Triggers ι α) : Option ι → List α → List (Option ι)
  | _, [] => []
  | active, v :: vs => T.next active v :: T.states (T.next active v) vs

/-- What the input has paid for the next time that the last of the triggers `upTo` comes on:
while one of them is on, how far it is from its limit, and the whole gap when none of them is. -/
def potential (T : Triggers ι α) (upTo : List ι) (active : Option ι) (u : α) : α :=
  match active with
  | some i => if i ∈ upTo then max (T.short i u) 0 else T.gap
  | none => T.gap

variable {T : Triggers ι α} {active : Option ι} {u v : α} {i k : ι} {before after : List ι}

/-- A trigger that comes on has its limit reached. -/
theorem short_le_zero_of_next (hnext : T.next active v = some i) (hne : active ≠ some i) :
    T.short i v ≤ 0 := by
  have hfound := List.find?_some (show T.order.find? _ = some i from hnext)
  have hholds : T.Holds active v i := of_decide_eq_true hfound
  exact hholds.resolve_right fun h => hne h.1

/-- A trigger that is not looked at never comes on. -/
theorem timesEntered_of_notMem (hi : i ∉ T.order) (active : Option ι) (vs : List α) :
    timesEntered (some i) active (T.states active vs) = 0 := by
  induction vs generalizing active with
  | nil => rfl
  | cons v vs ih =>
    have hnot : ¬ (active ≠ some i ∧ T.next active v = some i) :=
      fun h => hi (List.mem_of_find?_eq_some h.2)
    rw [states, timesEntered, ih, if_neg hnot]

/-- Of the triggers looked at first one is on, if one of them is to be. -/
theorem exists_next_of_holds {upTo : List ι} (horder : T.order = upTo ++ after) (hi : i ∈ upTo)
    (hholds : T.Holds active v i) : ∃ j ∈ upTo, T.next active v = some j := by
  have hsome : (upTo.find? fun j => decide (T.Holds active v j)).isSome :=
    List.find?_isSome.mpr ⟨i, hi, decide_eq_true hholds⟩
  obtain ⟨j, hj⟩ := Option.isSome_iff_exists.mp hsome
  refine ⟨j, List.mem_of_find?_eq_some hj, ?_⟩
  rw [next, horder, List.find?_append, hj]
  rfl

theorem potential_nonneg (hgap : 0 ≤ T.gap) (upTo : List ι) (active : Option ι) (u : α) :
    0 ≤ T.potential upTo active u := by
  unfold potential
  split
  · split
    · exact le_max_right _ _
    · exact hgap
  · exact hgap

variable [IsStrictOrderedRing α]

omit [DecidableEq ι] in
/-- What has been paid when a trigger is left by the gap. -/
theorem gap_le_of_not_holds (h : ¬ T.Holds (some i) v i) :
    T.gap ≤ |v - u| + max (T.short i u) 0 := by
  have hshort : T.gap ≤ T.short i v := by
    by_contra hlt
    exact h (.inr ⟨rfl, not_le.mp hlt⟩)
  have hmove := T.short_le i u v
  have hmax := le_max_left (T.short i u) 0
  linarith

/-- The gap has been paid when none of the first triggers is on any more. -/
theorem gap_le_potential {upTo : List ι} (horder : T.order = upTo ++ after)
    (hnext : ∀ j ∈ upTo, T.next active v ≠ some j) :
    T.gap ≤ |v - u| + T.potential upTo active u := by
  have habs := abs_nonneg (v - u)
  unfold potential
  split
  · next i =>
    split
    · next hi =>
      refine gap_le_of_not_holds fun hholds => ?_
      obtain ⟨j, hj, hj'⟩ := exists_next_of_holds horder hi hholds
      exact hnext j hj hj'
    · exact le_add_of_nonneg_left habs
  · exact le_add_of_nonneg_left habs

/-- The gap has been paid when a trigger comes on. -/
theorem gap_le_of_next (horder : T.order = before ++ k :: after) (hk : k ∉ before)
    (hnext : T.next active v = some k) (hne : active ≠ some k) :
    T.gap ≤ |v - u| + T.potential (before ++ [k]) active u := by
  have habs := abs_nonneg (v - u)
  have hpotential : T.potential (before ++ [k]) active u = T.potential before active u := by
    unfold potential
    split
    · next i =>
      have hik : i ≠ k := fun h => hne (congrArg some h)
      simp only [List.mem_append, List.mem_singleton, hik, or_false]
    · rfl
  rw [hpotential]
  refine gap_le_potential horder fun j hj hj' => ?_
  obtain rfl := Option.some.inj (hnext.symm.trans hj')
  exact hk hj

/-- **One input** pays for the trigger that comes on, and for the potential. -/
theorem potential_next (hgap : 0 ≤ T.gap) (horder : T.order = before ++ k :: after)
    (hk : k ∉ before) (active : Option ι) (u v : α) :
    (if active ≠ some k ∧ T.next active v = some k then T.gap else 0) +
        T.potential (before ++ [k]) (T.next active v) v ≤
      |v - u| + T.potential (before ++ [k]) active u := by
  have habs := abs_nonneg (v - u)
  have horder' : T.order = (before ++ [k]) ++ after := by simp [horder]
  by_cases hin : ∃ j ∈ before ++ [k], T.next active v = some j
  · obtain ⟨j, hj, hnext⟩ := hin
    have hafter : T.potential (before ++ [k]) (T.next active v) v = max (T.short j v) 0 := by
      rw [hnext]
      exact if_pos hj
    by_cases hsame : active = some j
    · -- the same trigger stays on
      have hnot : ¬ (active ≠ some k ∧ T.next active v = some k) := by
        rw [hnext, hsame]
        exact fun h => h.1 h.2
      have hbefore : T.potential (before ++ [k]) active u = max (T.short j u) 0 := by
        rw [hsame]
        exact if_pos hj
      rw [if_neg hnot, hafter, hbefore, zero_add]
      have hmove := T.short_le j u v
      have hleft := le_max_left (T.short j u) 0
      have hright := le_max_right (T.short j u) 0
      exact max_le (by linarith) (by linarith)
    · -- another one comes on, at its limit
      rw [hafter, max_eq_right (short_le_zero_of_next hnext hsame), add_zero]
      split
      · next h => exact gap_le_of_next horder hk h.2 h.1
      · exact add_nonneg habs (potential_nonneg hgap _ active u)
  · -- none of them is on any more
    rw [not_exists] at hin
    have hnot : ¬ (active ≠ some k ∧ T.next active v = some k) :=
      fun h => hin k ⟨by simp, h.2⟩
    have hafter : T.potential (before ++ [k]) (T.next active v) v = T.gap := by
      unfold potential
      split
      · next j hj => exact if_neg fun hmem => hin j ⟨hmem, hj⟩
      · rfl
    rw [if_neg hnot, hafter, zero_add]
    exact gap_le_potential horder' fun j hj hj' => hin j ⟨hj, hj'⟩

/-- **Coming on costs the gap**, but for what the potential pays. -/
theorem timesEntered_states_mul_le (hgap : 0 ≤ T.gap) (horder : T.order = before ++ k :: after)
    (hk : k ∉ before) (active : Option ι) (u : α) (vs : List α) :
    timesEntered (some k) active (T.states active vs) * T.gap ≤
      variation (u :: vs) + T.potential (before ++ [k]) active u := by
  induction vs generalizing active u with
  | nil =>
    simp only [states, timesEntered, variation, Nat.cast_zero, zero_mul, zero_add]
    exact potential_nonneg hgap _ active u
  | cons v vs ih =>
    have hrest := ih (T.next active v) v
    have hone := potential_next hgap horder hk active u v
    rw [states, timesEntered, variation, Nat.cast_add, add_mul, Nat.cast_ite, Nat.cast_one,
      Nat.cast_zero, ite_mul, one_mul, zero_mul]
    linarith

/-- **How often a trigger comes on**, none being on to begin with: once, and once more for each
time that the input varies by the gap. -/
theorem timesEntered_mul_le (hgap : 0 ≤ T.gap) (k : ι) (vs : List α) :
    timesEntered (some k) none (T.states none vs) * T.gap ≤ variation vs + T.gap := by
  cases vs with
  | nil => simpa [states, timesEntered, variation] using hgap
  | cons v vs =>
    by_cases hmem : k ∈ T.order
    · obtain ⟨before, after, horder, hk⟩ := List.eq_append_cons_of_mem hmem
      have hle := timesEntered_states_mul_le hgap horder hk none v (v :: vs)
      rwa [variation, sub_self, abs_zero, zero_add] at hle
    · rw [timesEntered_of_notMem hmem, Nat.cast_zero, zero_mul]
      exact add_nonneg (variation_nonneg _) hgap

end Triggers

end Deadband
