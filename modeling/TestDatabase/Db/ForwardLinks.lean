import Mathlib.Logic.Function.Basic
import TestDatabase.Lib.Links
import TestDatabase.Db.SimpleBusy

/-!
# Forward links among simpleBusy records

The forward link of a simpleBusy record may name another one, or the record itself.
`recGblFwdLink` processes the record named before it returns, and processing a record
of value zero drives its forward link while PACT is still false.  A cycle of idle
records of value zero is therefore never left.

Processing is given a number of nested calls it may make, and has no outcome when that
is not enough.

## Main definitions

* `LinkedRecords` — the records and their forward links.
* `LinkedRecords.dbProcess` — what processing one of them does to all, and the calls of
  `process` it makes.
* `LinkedRecords.next` — the record processed next.

## Main results

* `dbProcess_of_unlinked` — a record without a forward link is processed as by itself.
* `ends_of_dbProcess`, `dbProcess_of_ends` — processing has an outcome when following
  links ends.
* `dbProcess_terminates_iff` — processing terminates exactly when it reaches no cycle.
-/

namespace TestDatabase

open Links

/-- simpleBusy records, and the records named by their FLNK fields. -/
structure LinkedRecords (ι : Type) where
  record : ι → RecordState SimpleBusyRecord
  flnk : ι → Option ι

namespace LinkedRecords

variable {ι : Type} [DecidableEq ι]

/-- Replace one record. -/
def set (w : LinkedRecords ι) (i : ι) (s : RecordState SimpleBusyRecord) : LinkedRecords ι :=
  { w with record := Function.update w.record i s }

/-- The records left, and the calls of `process` made, by record. -/
abbrev Outcome (ι : Type) := LinkedRecords ι × List ι

/-- `process`. -/
def process (link : LinkedRecords ι → Option (Outcome ι)) (i : ι) (w : LinkedRecords ι) :
    Option (Outcome ι) :=
  if (w.record i).fields.val ≠ 0 then some (w.set i { w.record i with pact := true }, [i])
  else (link w).map fun (w, calls) => (w.set i { w.record i with pact := false }, i :: calls)

/-- `recGblFwdLink`: process the record named by FLNK, and complete. -/
def recGblFwdLink (dbProcess : ι → LinkedRecords ι → Option (Outcome ι)) (i : ι)
    (w : LinkedRecords ι) : Option (Outcome ι) :=
  let driven :=
    match w.flnk i with
    | none => some (w, [])
    | some j => dbProcess j w
  driven.map fun (w, calls) => (w.set i (w.record i).complete, calls)

/-- Process a record, unless it is active. -/
def dbProcess : ℕ → ι → LinkedRecords ι → Option (Outcome ι)
  | 0, _, _ => none
  | depth + 1, i, w =>
    if (w.record i).pact then some (w, [])
    else process (recGblFwdLink (dbProcess depth) i) i w

/-- The record that processing a record processes next, if any: its forward link is driven
if it is idle and has the value zero. -/
def next (w : LinkedRecords ι) (i : ι) : Option ι :=
  if (w.record i).pact = false ∧ (w.record i).fields.val = 0 then w.flnk i else none

variable {w v : LinkedRecords ι} {i j : ι} {depth : ℕ} {calls : List ι}

/-- A record without a forward link is processed as by itself. -/
theorem dbProcess_of_unlinked {G : RecGbl} (hlink : w.flnk i = none) :
    dbProcess (depth + 1) i w =
      some (w.set i (TestDatabase.dbProcess (simpleBusyRSET G) .nil (w.record i)),
        if (w.record i).pact then [] else [i]) := by
  rw [dbProcess, TestDatabase.dbProcess]
  cases hpact : (w.record i).pact with
  | true => simp [set]
  | false =>
    simp only [Bool.false_eq_true, if_false, process, simpleBusyRSET, SimpleBusyRecord.process]
    by_cases hval : (w.record i).fields.val = 0
    · simp [hval, recGblFwdLink, hlink, set, TestDatabase.recGblFwdLink, Chain.drive]
    · simp [hval]

/-- Processing that drives no other record makes at most one call. -/
theorem dbProcess_of_stop (depth : ℕ) (h : w.next i = none) :
    ∃ v calls, dbProcess (depth + 1) i w = some (v, calls) ∧ calls.Nodup ∧
      ∀ k ∈ calls, k = i := by
  rw [dbProcess]
  cases hpact : (w.record i).pact with
  | true => exact ⟨w, [], rfl, by simp, by simp⟩
  | false =>
    rw [if_neg Bool.false_ne_true, process]
    by_cases hval : (w.record i).fields.val = 0
    · have hlink : w.flnk i = none := by simpa [next, hpact, hval] using h
      rw [if_neg (not_not_intro hval), recGblFwdLink, hlink]
      exact ⟨_, [i], rfl, by simp, by simp⟩
    · rw [if_pos hval]
      exact ⟨_, [i], rfl, by simp, by simp⟩

/-- Processing that drives another record has an outcome if that has, and makes one call
more. -/
theorem dbProcess_of_next (h : w.next i = some j) :
    dbProcess (depth + 1) i w = (dbProcess depth j w).map fun (v, calls) =>
      ((v.set i (v.record i).complete).set i
        { (v.set i (v.record i).complete).record i with pact := false }, i :: calls) := by
  obtain ⟨⟨hpact, hval⟩, hlink⟩ : ((w.record i).pact = false ∧ (w.record i).fields.val = 0) ∧
      w.flnk i = some j := by simpa [next] using h
  rw [dbProcess, if_neg (by simp [hpact]), process, if_neg (not_not_intro hval), recGblFwdLink,
    hlink]
  simp only [Option.map_map]
  rfl

/-- Processing that has an outcome follows links that end. -/
theorem ends_of_dbProcess (h : dbProcess depth i w = some (v, calls)) : Ends w.next i := by
  induction depth generalizing i v calls with
  | zero => simp [dbProcess] at h
  | succ depth ih =>
    cases hnext : w.next i with
    | none => exact .stop hnext
    | some j =>
      rw [dbProcess_of_next hnext, Option.map_eq_some_iff] at h
      obtain ⟨⟨u, calls'⟩, hj, -⟩ := h
      exact .step hnext (ih hj)

/-- If following links ends, processing has an outcome.  The calls are made along the
links, and no record is met twice. -/
theorem dbProcess_of_ends (h : Ends w.next i) :
    ∃ depth v calls, dbProcess depth i w = some (v, calls) ∧ calls.Nodup ∧
      ∀ k ∈ calls, Reaches w.next i k := by
  induction h with
  | @stop i hi =>
    obtain ⟨v, calls, hproc, hnodup, hcalls⟩ := dbProcess_of_stop 0 hi
    refine ⟨1, v, calls, hproc, hnodup, fun k hk => ?_⟩
    obtain rfl := hcalls k hk
    exact .refl k
  | @step i j hij hends ih =>
    obtain ⟨depth, v, calls, hproc, hnodup, hcalls⟩ := ih
    refine ⟨depth + 1, _, i :: calls, by rw [dbProcess_of_next hij, hproc]; rfl, ?_, ?_⟩
    · -- a second call for `i` would close a cycle
      refine List.nodup_cons.mpr ⟨fun hi => ?_, hnodup⟩
      have hcycle : OnCycle w.next i := (onCycle_iff hij).mpr (hcalls i hi)
      exact (Ends.step hij hends).not_onCycle (.refl i) hcycle
    · intro k hk
      rcases List.mem_cons.mp hk with rfl | hk
      · exact .refl k
      · exact (hcalls k hk).head hij

/-- **When processing terminates.**  Among finitely many records, processing one of them
comes to an end, and calls `process` at most once for each, exactly when following the
forward links of idle records of value zero does not come to a cycle. -/
theorem dbProcess_terminates_iff [Fintype ι] (w : LinkedRecords ι) (i : ι) :
    (∃ depth v calls, dbProcess depth i w = some (v, calls) ∧ ∀ k, calls.count k ≤ 1) ↔
      ∀ j, Reaches w.next i j → ¬ OnCycle w.next j := by
  rw [← ends_iff_no_cycle]
  constructor
  · rintro ⟨depth, v, calls, hproc, -⟩
    exact ends_of_dbProcess hproc
  · intro hends
    obtain ⟨depth, v, calls, hproc, hnodup, -⟩ := dbProcess_of_ends hends
    exact ⟨depth, v, calls, hproc, fun k => List.nodup_iff_count_le_one.mp hnodup k⟩

/-- An idle record of value zero whose forward link names itself is processed for ever. -/
theorem dbProcess_self_link :
    ¬ ∃ depth v calls, dbProcess depth ()
      { record := fun _ => { fields := { val := 0 } }, flnk := fun _ => some () } =
        some (v, calls) := by
  rintro ⟨depth, v, calls, h⟩
  have hends := ends_of_dbProcess h
  refine hends.not_onCycle (.refl ()) (.single ?_)
  decide

end LinkedRecords

end TestDatabase
