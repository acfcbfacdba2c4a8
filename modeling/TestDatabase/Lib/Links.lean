import Mathlib.Data.Set.Card
import Mathlib.Logic.Relation

/-!
# Following links

Each node of a graph has at most one link, to its successor.  Following links from a
node either ends, at a node without a link, or goes round a cycle in the end.

## Main definitions

* `Links.Ends next i` — following links from `i` ends.
* `Links.Reaches next i j` — it passes `j`.
* `Links.OnCycle next i` — it comes back to `i`.

## Main results

* `Ends.not_onCycle` — what ends does not come back.
* `ncard_reaches_lt` — following a link off all cycles leaves fewer nodes to reach.
* `ends_iff_no_cycle` — in a finite graph following links ends exactly when it reaches
  no cycle.
-/

namespace Links

variable {ι : Type*} {next : ι → Option ι} {i j k : ι}

/-- Following links from a node ends. -/
inductive Ends (next : ι → Option ι) : ι → Prop
  | stop {i : ι} : next i = none → Ends next i
  | step {i j : ι} : next i = some j → Ends next j → Ends next i

/-- Following links from `i` passes `j`, which may be `i` itself. -/
def Reaches (next : ι → Option ι) : ι → ι → Prop :=
  Relation.ReflTransGen fun i j => next i = some j

/-- Following links from `i` comes back to it. -/
def OnCycle (next : ι → Option ι) (i : ι) : Prop :=
  Relation.TransGen (fun i j => next i = some j) i i

theorem Reaches.refl (i : ι) : Reaches next i i := Relation.ReflTransGen.refl

theorem Reaches.head (hij : next i = some j) (hjk : Reaches next j k) : Reaches next i k :=
  Relation.ReflTransGen.head hij hjk

/-- What a node on a cycle links to reaches it. -/
theorem onCycle_iff (hij : next i = some j) : OnCycle next i ↔ Reaches next j i := by
  constructor
  · intro h
    obtain ⟨k, hik, hki⟩ := Relation.TransGen.head'_iff.mp h
    obtain rfl : j = k := Option.some.inj (hij.symm.trans hik)
    exact hki
  · intro h
    exact Relation.TransGen.head' hij h

/-- A node is reached from its predecessors only, and from itself. -/
theorem reaches_iff (hij : next i = some j) : Reaches next i k ↔ k = i ∨ Reaches next j k := by
  constructor
  · intro h
    rcases Relation.ReflTransGen.cases_head h with rfl | ⟨j', hij', hjk⟩
    · exact .inl rfl
    · obtain rfl : j = j' := Option.some.inj (hij.symm.trans hij')
      exact .inr hjk
  · rintro (rfl | h)
    · exact .refl k
    · exact h.head hij

/-- A node without a link reaches itself only, and is on no cycle. -/
theorem not_onCycle_of_stop (hi : next i = none) : ¬ OnCycle next i := by
  intro h
  obtain ⟨k, hik, -⟩ := Relation.TransGen.head'_iff.mp h
  simp [hi] at hik

/-- **What ends reaches no cycle.** -/
theorem Ends.not_onCycle (h : Ends next i) (hij : Reaches next i j) : ¬ OnCycle next j := by
  induction h with
  | stop hi =>
    rcases Relation.ReflTransGen.cases_head hij with rfl | ⟨k, hik, -⟩
    · exact not_onCycle_of_stop hi
    · simp [hi] at hik
  | @step i k hik _ ih =>
    rcases (reaches_iff hik).mp hij with rfl | hkj
    · -- a cycle through `j` would be reached from its successor
      intro hcycle
      exact ih ((onCycle_iff hik).mp hcycle) hcycle
    · exact ih hkj

/-- A node that is on no cycle reaches more nodes than its successor does. -/
theorem ncard_reaches_lt [Finite ι] (hij : next i = some j) (hi : ¬ OnCycle next i) :
    {k | Reaches next j k}.ncard < {k | Reaches next i k}.ncard := by
  refine Set.ncard_lt_ncard (Set.ssubset_iff_exists.mpr ⟨fun k hk => hk.head hij, i, .refl i, ?_⟩)
    (Set.toFinite _)
  exact mt (onCycle_iff hij).mpr hi

/-- **Following links that reaches no cycle ends**, in a finite graph. -/
theorem ends_of_no_cycle [Finite ι] (h : ∀ j, Reaches next i j → ¬ OnCycle next j) :
    Ends next i := by
  -- by induction on how many nodes are reached
  induction hn : {j | Reaches next i j}.ncard using Nat.strong_induction_on generalizing i with
  | _ n ih =>
    cases hi : next i with
    | none => exact .stop hi
    | some k =>
      have hlt := ncard_reaches_lt hi (h i (.refl i))
      rw [hn] at hlt
      exact .step hi (ih _ hlt (fun j hj => h j (hj.head hi)) rfl)

theorem ends_iff_no_cycle [Finite ι] :
    Ends next i ↔ ∀ j, Reaches next i j → ¬ OnCycle next j :=
  ⟨fun h _ hij => h.not_onCycle hij, ends_of_no_cycle⟩

end Links
