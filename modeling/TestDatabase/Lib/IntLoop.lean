import Mathlib.Algebra.Order.Ring.Int
import Mathlib.Data.List.Basic

/-!
# Loops over an int

An `int` has 32 bits, and a sum of two that does not fit is undefined: it has no result
here.  A loop `for(int i=a; i<b; ++i)` fills a vector one element a round; it has no result
if its bound or an element has none.

## Main definitions

* `IntLoop.add` — the sum of two `int`s.
* `IntLoop.pushBack` — the loop that fills a vector.

## Main results

* `add_eq_some_iff`, `exists_add_iff` — the sum is the one of the integers, if that fits.
* `pushBack_eq` — **what the loop fills the vector with.**
-/

namespace IntLoop

/-! ### Sums -/

/-- The sum of two `int`s. -/
def add (a b : Int32) : Option Int32 :=
  if (a + b).toInt = a.toInt + b.toInt then some (a + b) else none

theorem add_eq_some_iff {a b c : Int32} : add a b = some c ↔ c.toInt = a.toInt + b.toInt := by
  rw [add, Option.ite_none_right_eq_some, Option.some.injEq]
  constructor
  · rintro ⟨hsum, rfl⟩
    exact hsum
  · intro hc
    -- the sum is what `c` holds, so it does not wrap round
    have hsum : (a + b).toInt = c.toInt := by
      rw [Int32.toInt_add, ← hc]
      exact Int32.toInt_bmod c
    exact ⟨hsum.trans hc, Int32.toInt_inj.mp hsum⟩

/-- There is a sum if it fits. -/
theorem exists_add_iff {a b : Int32} :
    (∃ c, add a b = some c) ↔ -2 ^ 31 ≤ a.toInt + b.toInt ∧ a.toInt + b.toInt < 2 ^ 31 := by
  simp only [add_eq_some_iff]
  constructor
  · rintro ⟨c, hc⟩
    rw [← hc]
    exact ⟨c.le_toInt, c.toInt_lt⟩
  · rintro ⟨hle, hlt⟩
    exact ⟨Int32.ofInt (a.toInt + b.toInt), Int32.toInt_ofInt_of_le hle hlt⟩

/-- An `int` below another one has a next one. -/
theorem exists_add_one {i bound : Int32} (h : i < bound) : ∃ next, add i 1 = some next := by
  have hlt := Int32.lt_iff_toInt_lt.mp h
  have hbound := bound.toInt_lt
  have hle := i.le_toInt
  refine exists_add_iff.mpr ⟨?_, ?_⟩
  · rw [Int32.toInt_one]
    omega
  · rw [Int32.toInt_one]
    omega

/-! ### The loop -/

variable {α : Type*}

/-- `for(int i=..; i<bound; ++i) v.push_back(element(i));` -/
def pushBack (bound : Int32) (element : ℤ → Option α) (v : List α) (i : Int32) :
    Option (List α) :=
  if i < bound then
    match element i.toInt, _hnext : add i 1 with
    | some a, some next => pushBack bound element (v ++ [a]) next
    | _, _ => none
  else some v
termination_by (2 ^ 31 - i.toInt).toNat
decreasing_by
  have hsum := add_eq_some_iff.mp _hnext
  have hlt := next.toInt_lt
  rw [Int32.toInt_one] at hsum
  omega

/-- The numbers from `a` on are `a` and those from the next one on. -/
theorem map_range_succ {β : Type*} (f : ℤ → β) (a : ℤ) (n : ℕ) :
    (List.range (n + 1)).map (fun k : ℕ => f (a + k)) =
      f a :: (List.range n).map fun k : ℕ => f (a + 1 + k) := by
  rw [List.range_succ_eq_map, List.map_cons, List.map_map, Nat.cast_zero, add_zero]
  refine congrArg (f a :: ·) (List.map_congr_left fun k _ => ?_)
  rw [Function.comp_apply, Nat.cast_succ, add_assoc, add_comm (k : ℤ)]

/-- **What the loop fills the vector with**: the elements from `i` to below the bound. -/
theorem pushBack_eq {bound : Int32} {element : ℤ → Option α} {f : ℤ → α} {v : List α}
    {i : Int32} (hf : ∀ k, i.toInt ≤ k → k < bound.toInt → element k = some (f k)) :
    pushBack bound element v i =
      some (v ++ (List.range (bound.toInt - i.toInt).toNat).map fun k : ℕ => f (i.toInt + k)) := by
  fun_induction pushBack bound element v i with
  | case1 v i hlt a next hnext ha ih =>
    have hlt' := Int32.lt_iff_toInt_lt.mp hlt
    have hsum := add_eq_some_iff.mp hnext
    rw [Int32.toInt_one] at hsum
    -- the first round pushes the element of `i`, the others are those from the next `i` on
    obtain rfl : f i.toInt = a := by
      have hfirst := hf i.toInt le_rfl hlt'
      rw [ha, Option.some.injEq] at hfirst
      exact hfirst.symm
    have hrounds : (bound.toInt - i.toInt).toNat = (bound.toInt - next.toInt).toNat + 1 := by omega
    rw [ih fun k hk hk' => hf k (by omega) hk', hrounds, map_range_succ, hsum, List.append_assoc]
    rfl
  | case2 v i hlt hnone =>
    have helement := hf i.toInt le_rfl (Int32.lt_iff_toInt_lt.mp hlt)
    obtain ⟨next, hnext⟩ := exists_add_one hlt
    exact absurd hnext (hnone _ next helement)
  | case3 v i hnlt =>
    have hle : bound.toInt ≤ i.toInt := by
      rw [Int32.lt_iff_toInt_lt] at hnlt
      omega
    have hnone : (bound.toInt - i.toInt).toNat = 0 := by omega
    rw [hnone, List.range_zero, List.map_nil, List.append_nil]

end IntLoop
