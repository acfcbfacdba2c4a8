import Mathlib.Data.Nat.Basic
import Mathlib.Order.Basic

/-!
# Calls that may throw

A program makes calls, any of which may leave it by an exception.  Which do is
decided from outside: `throws k` is the exception of the `k`-th call, if it throws
one.  A call that throws has no effect; the state reached before it stays.

## Main definitions

* `Counted ρ` — a state with the number of calls made so far.
* `attempt throws f` — the next call, with effect `f` when it does not throw.
* `guarded take give p` — `p` between `take` and `give`, whichever way it exits.
* `Clean throws a b` — none of the calls `a, …, b - 1` throws.
* `Honest throws R p` — `p` relates its first and last state by `R` on every exit, and
  leaves by an exception exactly when one of its calls threw.
* `Returns p a x b` — from the state `a` the program returns `x` in the state `b`.

## Main results

* `guarded_run` — `guarded` gives back what it took, on either exit.
* `honest_bind`, `honest_attempt`, `honest_pure`, `honest_ite` — the rules of `Honest`.
* `returns_bind`, `returns_attempt`, `returns_guarded` — the rules of `Returns`, for
  calls that do not throw.
-/

/-- A state and the number of calls made so far. -/
structure Counted (ρ : Type) where
  val : ρ
  calls : ℕ := 0

/-- The state a program ends in, by either exit. -/
def EStateM.Result.final {ε σ α : Type} : EStateM.Result ε σ α → σ
  | .ok _ s => s
  | .error _ s => s

namespace Fallible

variable {ρ ε α β : Type} {throws : ℕ → Option ε} {R : ρ → ρ → Prop}

/-- The next call: an exception, or the effect `f`. -/
def attempt (throws : ℕ → Option ε) (f : ρ → ρ) : EStateM ε (Counted ρ) Unit := fun s =>
  match throws s.calls with
  | none => .ok () { val := f s.val, calls := s.calls + 1 }
  | some e => .error e { s with calls := s.calls + 1 }

/-- Assignments and other steps that cannot throw. -/
def quietly (f : ρ → ρ) : EStateM ε (Counted ρ) Unit := fun s => .ok () { s with val := f s.val }

/-- The current state. -/
def current : EStateM ε (Counted ρ) ρ := fun s => .ok s.val s

/-- Take something, run a body, and give it back on either exit: `try { body } catch(...)
{ give; throw; } give`. -/
def guarded (take give : ρ → ρ) (body : EStateM ε (Counted ρ) Unit) :
    EStateM ε (Counted ρ) Unit := do
  quietly take
  try
    body
  catch e =>
    quietly give
    throw e
  quietly give

/-- `guarded` runs its body after `take`, and `give` comes last on either exit. -/
theorem guarded_run (take give : ρ → ρ) (body : EStateM ε (Counted ρ) Unit) (s : Counted ρ) :
    guarded take give body s =
      match body { s with val := take s.val } with
      | .ok _ t => .ok () { t with val := give t.val }
      | .error e t => .error e { t with val := give t.val } := by
  cases h : body { s with val := take s.val } with
  | ok x t =>
    simp [guarded, quietly, bind, EStateM.bind, tryCatch, tryCatchThe, MonadExceptOf.tryCatch,
      EStateM.tryCatch, h]
  | error e t =>
    simp only [guarded, quietly, bind, EStateM.bind, tryCatch, tryCatchThe, MonadExceptOf.tryCatch,
      EStateM.tryCatch, EStateM.Backtrackable.restore, EStateM.dummyRestore, h]
    -- the handler gives back and throws again
    rfl

/-- None of the calls from `a` up to `b` throws. -/
def Clean (throws : ℕ → Option ε) (a b : ℕ) : Prop := ∀ k, a ≤ k → k < b → throws k = none

theorem clean_self (a : ℕ) : Clean throws a a := fun _ h₁ h₂ => absurd (h₁.trans_lt h₂) (lt_irrefl a)

theorem clean_trans {a b c : ℕ} (hab : a ≤ b) (hbc : b ≤ c) :
    Clean throws a c ↔ Clean throws a b ∧ Clean throws b c := by
  constructor
  · intro h
    exact ⟨fun k h₁ h₂ => h k h₁ (h₂.trans_le hbc), fun k h₁ h₂ => h k (hab.trans h₁) h₂⟩
  · rintro ⟨h₁, h₂⟩ k hk₁ hk₂
    rcases lt_or_ge k b with hk | hk
    · exact h₁ k hk₁ hk
    · exact h₂ k hk hk₂

theorem clean_succ {a : ℕ} : Clean throws a (a + 1) ↔ throws a = none := by
  constructor
  · intro h
    exact h a le_rfl (Nat.lt_succ_self a)
  · intro h k h₁ h₂
    obtain rfl : k = a := by omega
    exact h

/-- On every exit the last state is related to the first by `R`; the program returns if
none of its calls threw, and throws if one did. -/
def Honest (throws : ℕ → Option ε) (R : ρ → ρ → Prop) (p : EStateM ε (Counted ρ) α) : Prop :=
  ∀ s, match p s with
    | .ok _ t => R s.val t.val ∧ s.calls ≤ t.calls ∧ Clean throws s.calls t.calls
    | .error _ t => R s.val t.val ∧ s.calls ≤ t.calls ∧ ¬ Clean throws s.calls t.calls

theorem honest_pure (hR : ∀ a, R a a) (x : α) : Honest throws R (pure x) := fun _ =>
  ⟨hR _, le_rfl, clean_self _⟩

theorem honest_current (hR : ∀ a, R a a) : Honest throws R current := fun _ =>
  ⟨hR _, le_rfl, clean_self _⟩

theorem honest_attempt {f : ρ → ρ} (hR : ∀ a, R a a) (hf : ∀ a, R a (f a)) :
    Honest throws R (attempt throws f) := by
  intro s
  cases h : throws s.calls with
  | none => simpa [attempt, h, clean_succ] using hf s.val
  | some e => simpa [attempt, h, clean_succ] using hR s.val

/-- **Honest programs compose.** -/
theorem honest_bind (hR : ∀ a b c, R a b → R b c → R a c) {p : EStateM ε (Counted ρ) α}
    {q : α → EStateM ε (Counted ρ) β} (hp : Honest throws R p)
    (hq : ∀ x, Honest throws R (q x)) : Honest throws R (p >>= q) := by
  intro s
  have hs := hp s
  simp only [bind, EStateM.bind]
  cases hrun : p s with
  | error e t => simpa [hrun] using hs
  | ok x t =>
    rw [hrun] at hs
    obtain ⟨hst, hle, hclean⟩ := hs
    have ht := hq x t
    cases hrun' : q x t with
    | error e u =>
      rw [hrun'] at ht
      simp only [hrun']
      obtain ⟨htu, hle', hthrew⟩ := ht
      exact ⟨hR _ _ _ hst htu, hle.trans hle', fun h => hthrew ((clean_trans hle hle').mp h).2⟩
    | ok y u =>
      rw [hrun'] at ht
      simp only [hrun']
      obtain ⟨htu, hle', hclean'⟩ := ht
      exact ⟨hR _ _ _ hst htu, hle.trans hle', (clean_trans hle hle').mpr ⟨hclean, hclean'⟩⟩

theorem honest_ite {c : Prop} [Decidable c] {p q : EStateM ε (Counted ρ) α}
    (hp : Honest throws R p) (hq : Honest throws R q) : Honest throws R (if c then p else q) := by
  split
  · exact hp
  · exact hq

/-! ### Runs without exceptions -/

/-- Calls that never throw. -/
def never : ℕ → Option ε := fun _ => none

/-- From the state `a`, however many calls were made before, `p` returns `x` in the
state `b`. -/
def Returns (p : EStateM ε (Counted ρ) α) (a : ρ) (x : α) (b : ρ) : Prop :=
  ∀ n, ∃ m, p ⟨a, n⟩ = .ok x ⟨b, m⟩

theorem returns_pure (x : α) (a : ρ) :
    Returns (pure x : EStateM ε (Counted ρ) α) a x a := fun n => ⟨n, rfl⟩

theorem returns_current (a : ρ) : Returns (current : EStateM ε (Counted ρ) ρ) a a a :=
  fun n => ⟨n, rfl⟩

theorem returns_attempt (f : ρ → ρ) (a : ρ) :
    Returns (attempt (never : ℕ → Option ε) f) a () (f a) := fun n => ⟨n + 1, rfl⟩

/-- **Returning programs compose.** -/
theorem returns_bind {p : EStateM ε (Counted ρ) α} {q : α → EStateM ε (Counted ρ) β}
    {a b c : ρ} {x : α} {y : β} (hp : Returns p a x b) (hq : Returns (q x) b y c) :
    Returns (p >>= q) a y c := by
  intro n
  obtain ⟨m, hm⟩ := hp n
  obtain ⟨k, hk⟩ := hq m
  exact ⟨k, by simp only [bind, EStateM.bind, hm, hk]⟩

theorem returns_guarded {take give : ρ → ρ} {body : EStateM ε (Counted ρ) Unit} {a b : ρ}
    (hbody : Returns body (take a) () b) : Returns (guarded take give body) a () (give b) := by
  intro n
  obtain ⟨m, hm⟩ := hbody n
  exact ⟨m, by simp only [guarded_run, hm]⟩

end Fallible
