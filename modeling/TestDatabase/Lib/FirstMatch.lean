import Mathlib.Data.List.Basic

/-!
# The first match of a list

Two tests find the same element of a list when they agree on every element up to the
first that either of them accepts.

## Main results

* `List.find?_eq_find?_iff` — exactly when two tests find the same element.
* `List.find?_eq_of_imp` — a stronger test that accepts what a weaker one finds, finds it.
-/

namespace List

variable {α : Type*} {l : List α} {p q : α → Bool}

/-- **Two tests find the same** exactly when they agree on each element before which the
first test accepts none. -/
theorem find?_eq_find?_iff : l.find? p = l.find? q ↔
    ∀ before x after, l = before ++ x :: after → (∀ y ∈ before, p y = false) → p x = q x := by
  induction l with
  | nil => simp
  | cons z l ih =>
    -- the head is the only element before which there is none
    have hhead : (∀ before x after, z :: l = before ++ x :: after →
        (∀ y ∈ before, p y = false) → p x = q x) → p z = q z :=
      fun h => h [] z l rfl (by simp)
    cases hp : p z with
    | true =>
      rw [find?_cons_of_pos hp]
      constructor
      · intro h before x after hl hbefore
        cases before with
        | nil =>
          obtain ⟨rfl, -⟩ := List.cons.inj hl
          rw [hp, List.find?_some h.symm]
        | cons y before =>
          obtain ⟨rfl, -⟩ := List.cons.inj hl
          rw [hbefore z List.mem_cons_self] at hp
          exact absurd hp Bool.noConfusion
      · intro h
        have hq : q z = true := (hhead h).symm.trans hp
        rw [find?_cons_of_pos hq]
    | false =>
      rw [find?_cons_of_neg (by simp [hp])]
      constructor
      · intro h before x after hl hbefore
        have hq : q z = false := by
          by_contra hq
          rw [find?_cons_of_pos (by simpa using hq)] at h
          rw [List.find?_some h] at hp
          exact absurd hp Bool.noConfusion
        rw [find?_cons_of_neg (by simp [hq])] at h
        cases before with
        | nil =>
          obtain ⟨rfl, -⟩ := List.cons.inj hl
          rw [hp, hq]
        | cons y before =>
          obtain ⟨rfl, rfl⟩ := List.cons.inj hl
          exact ih.mp h before x after rfl fun w hw => hbefore w (List.mem_cons_of_mem _ hw)
      · intro h
        have hq : q z = false := (hhead h).symm.trans hp
        rw [find?_cons_of_neg (by simp [hq])]
        refine ih.mpr fun before x after hl hbefore => ?_
        refine h (z :: before) x after (by rw [hl]; rfl) fun y hy => ?_
        rcases List.mem_cons.mp hy with rfl | hy
        · exact hp
        · exact hbefore y hy

/-- A test that accepts no more than another, but accepts what that finds, finds the same. -/
theorem find?_eq_of_imp (himp : ∀ x ∈ l, q x = true → p x = true)
    (hfound : ∀ x, l.find? p = some x → q x = true) : l.find? q = l.find? p := by
  refine (find?_eq_find?_iff.mpr ?_).symm
  intro before x after hl hbefore
  have hx : x ∈ l := by simp [hl]
  cases hp : p x with
  | true =>
    have hfind : l.find? p = some x := by
      refine find?_eq_some_iff_append.mpr ⟨hp, before, after, hl, fun y hy => ?_⟩
      simp [hbefore y hy]
    exact (hfound x hfind).symm
  | false =>
    by_contra hq
    have hqx : q x = true := by simpa using Ne.symm hq
    rw [himp x hx hqx] at hp
    exact absurd hp Bool.noConfusion

end List
