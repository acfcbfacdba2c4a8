import Mathlib
import TestDatabase.Lib.EventMachine

/-!
# Counting what a monitor misses

`timeManyChannelMonitor` monitors counters, records that count up by one.  Its
`ClientMonitor::event` counts the values it receives, and from the difference of two
values that follow each other it computes how many counts lie between them.  It stores
that number where it should add it, so what is left at the end is what was missed before
the last value.

The values are doubles; their difference is one, rounded; it is converted to a `long`,
which is undefined for a difference that does not fit; and one less than that is
assigned to an unsigned counter.

## Main definitions

* `round53` — an integer rounded to a double.
* `ClientMonitor.received`, `ClientMonitor.event` — one value, and one call of `event()`.
* `neighbours`, `missed` — the pairs of values that follow each other, and the counts
  between them.

## Main results

* `missed_eq_card` — what was missed are the counts that did not come.
* `received_eq_some_iff` — what the two counters are after any sequence of values.
* `counts_accounted_iff` — **when all counts are accounted for.**
-/

namespace TestDatabase.TimeManyMonitor

/-! ### Doubles that are integers -/

/-- A natural number to 53 significant bits: to the nearest, to even in the middle. -/
def roundNat53 (n : ℕ) : ℕ :=
  let ulp := 2 ^ (n.log2 - 52)
  let up := ulp < 2 * (n % ulp) ∨ ulp = 2 * (n % ulp) ∧ n / ulp % 2 = 1
  (if up then n / ulp + 1 else n / ulp) * ulp

/-- An integer rounded to a double. -/
def round53 (n : ℤ) : ℤ := n.sign * roundNat53 n.natAbs

/-- A finite double that is an integer. -/
structure IntegralDouble where
  /-- The integer. -/
  val : ℤ
  /-- It is a double. -/
  exact : round53 val = val
  finite : |val| < 2 ^ 1024

/-- A `long`, of 64 bits.  An operation whose result does not fit is undefined. -/
def toLong (n : ℤ) : Option ℤ := if -2 ^ 63 ≤ n ∧ n < 2 ^ 63 then some n else none

theorem roundNat53_pos {n : ℕ} (hn : 0 < n) : 0 < roundNat53 n := by
  have hulp : 2 ^ (n.log2 - 52) ≤ n :=
    (Nat.pow_le_pow_right (by decide) (Nat.sub_le _ _)).trans (Nat.log2_self_le hn.ne')
  have hscale : 0 < 2 ^ (n.log2 - 52) := Nat.two_pow_pos _
  have hquotient : 0 < n / 2 ^ (n.log2 - 52) := Nat.div_pos hulp hscale
  unfold roundNat53
  simp only
  split
  · exact Nat.mul_pos (Nat.succ_pos _) hscale
  · exact Nat.mul_pos hquotient hscale

/-- Below `2 ^ 53` every integer is a double. -/
theorem roundNat53_eq_self {n : ℕ} (hn : n < 2 ^ 53) : roundNat53 n = n := by
  have hlog : n.log2 - 52 = 0 := by
    rcases Nat.eq_zero_or_pos n with rfl | hpos
    · decide
    · have := (Nat.log2_lt hpos.ne').mpr hn
      omega
  unfold roundNat53
  simp [hlog, Nat.mod_one]

@[simp] theorem round53_zero : round53 0 = 0 := rfl

theorem round53_pos {n : ℤ} (hn : 0 < n) : 0 < round53 n := by
  have hpos : 0 < roundNat53 n.natAbs := roundNat53_pos (by omega)
  rw [round53, Int.sign_eq_one_of_pos hn]
  omega

theorem round53_nonneg {n : ℤ} (hn : 0 ≤ n) : 0 ≤ round53 n := by
  rcases hn.eq_or_lt with rfl | hpos
  · exact le_rfl
  · exact (round53_pos hpos).le

theorem round53_eq_self {n : ℤ} (hn : 0 ≤ n) (hlt : n < 2 ^ 53) : round53 n = n := by
  rcases hn.eq_or_lt with rfl | hpos
  · rfl
  · rw [round53, Int.sign_eq_one_of_pos hpos, roundNat53_eq_self (by omega)]
    omega

theorem toLong_eq_some_iff {n m : ℤ} : toLong n = some m ↔ (-2 ^ 63 ≤ n ∧ n < 2 ^ 63) ∧ n = m := by
  rw [toLong, Option.ite_none_right_eq_some, Option.some.injEq]

/-! ### The client -/

/-- The public fields of a `ClientMonitor`. -/
structure ClientMonitor where
  nreceived : UInt64 := 0
  nmissed : UInt64 := 0
  oldvalue : ℤ := 0
  deriving DecidableEq, Repr

namespace ClientMonitor

/-- One value polled.  There is no result if a conversion is undefined. -/
def received (client : ClientMonitor) (value : IntegralDouble) : Option ClientMonitor :=
  let client := { client with nreceived := client.nreceived + 1 }
  if 0 < client.oldvalue then
    (toLong (round53 (value.val - client.oldvalue))).bind fun diff =>
      (toLong (diff - 1)).map fun less =>
        { client with nmissed := UInt64.ofInt less, oldvalue := value.val }
  else some { client with oldvalue := value.val }

/-- `event()`, on the values that `poll()` finds. -/
def event (client : ClientMonitor) (queue : List IntegralDouble) : Option ClientMonitor :=
  queue.foldlM received client

end ClientMonitor

/-- A client and the calls of its `event()`. -/
def clientMonitor : EventMachine ClientMonitor (List IntegralDouble) where
  init := {}
  step := ClientMonitor.event

/-! ### What was missed -/

/-- The pairs of elements that follow each other. -/
def neighbours : List ℤ → List (ℤ × ℤ)
  | u :: v :: l => (u, v) :: neighbours (v :: l)
  | _ => []

/-- How many counts lie between values that follow each other. -/
def missed (values : List ℤ) : ℤ :=
  ((neighbours values).map fun pair => max 0 (pair.2 - pair.1 - 1)).sum

theorem neighbours_concat (l : List ℤ) (u v : ℤ) :
    neighbours (l ++ [u, v]) = neighbours (l ++ [u]) ++ [(u, v)] := by
  induction l with
  | nil => rfl
  | cons a l ih =>
    cases l with
    | nil => rfl
    | cons b l =>
      simp only [List.cons_append, neighbours, List.cons.injEq, true_and] at ih ⊢
      exact ih

theorem missed_concat (l : List ℤ) (u v : ℤ) :
    missed (l ++ [u, v]) = missed (l ++ [u]) + max 0 (v - u - 1) := by
  rw [missed, neighbours_concat, List.map_append, List.sum_append, ← missed]
  simp

/-- What was missed are the integers between the first and the last value that did not come. -/
theorem missed_eq_card {u : ℤ} {l : List ℤ} (hsorted : (u :: l).Pairwise (· ≤ ·)) :
    missed (u :: l) = ((Finset.Ioo u ((u :: l).getLast (List.cons_ne_nil u l))).filter
      (· ∉ u :: l)).card := by
  induction l generalizing u with
  | nil => simp [missed, neighbours]
  | cons v l ih =>
    obtain ⟨hfirst, hrest⟩ := List.pairwise_cons.mp hsorted
    have huv : u ≤ v := hfirst v (by simp)
    have hvl : ∀ n ∈ l, v ≤ n := (List.pairwise_cons.mp hrest).1
    have hlast : v ≤ (v :: l).getLast (List.cons_ne_nil v l) := by
      rcases List.mem_cons.mp (List.getLast_mem (List.cons_ne_nil v l)) with heq | hmem
      · exact heq.ge
      · exact hvl _ hmem
    have hbehind := ih hrest
    rw [List.getLast_cons_cons]
    generalize (v :: l).getLast (List.cons_ne_nil v l) = last at hbehind hlast
    -- those below the second value are the first gap, those above it are missed behind it
    have hsplit : (Finset.Ioo u last).filter (· ∉ u :: v :: l) =
        Finset.Ioo u v ∪ (Finset.Ioo v last).filter (· ∉ v :: l) := by
      ext n
      simp only [Finset.mem_filter, Finset.mem_union, Finset.mem_Ioo, List.mem_cons, not_or]
      constructor
      · rintro ⟨⟨hu, hn⟩, -, hne, hnl⟩
        rcases lt_or_gt_of_ne hne with hlt | hgt
        · exact .inl ⟨hu, hlt⟩
        · exact .inr ⟨⟨hgt, hn⟩, hne, hnl⟩
      · rintro (⟨hu, hlt⟩ | ⟨⟨hgt, hn⟩, hne, hnl⟩)
        · exact ⟨⟨hu, hlt.trans_le hlast⟩, hu.ne', hlt.ne, fun hmem => (hvl n hmem).not_gt hlt⟩
        · exact ⟨⟨huv.trans_lt hgt, hn⟩, (huv.trans_lt hgt).ne', hne, hnl⟩
    have hdisjoint : Disjoint (Finset.Ioo u v) ((Finset.Ioo v last).filter (· ∉ v :: l)) := by
      refine Finset.disjoint_left.mpr fun n hbelow habove => ?_
      have hlt := (Finset.mem_Ioo.mp hbelow).2
      have hgt := (Finset.mem_Ioo.mp (Finset.mem_filter.mp habove).1).1
      omega
    have hmissed : missed (u :: v :: l) = max 0 (v - u - 1) + missed (v :: l) := by
      simp [missed, neighbours]
    rw [hmissed, hbehind, hsplit, Finset.card_union_of_disjoint hdisjoint, Int.card_Ioo]
    push_cast
    omega

/-- The difference of each two values that follow each other fits a `long`. -/
def Fits (values : List ℤ) : Prop :=
  ∀ pair ∈ neighbours values, round53 (pair.2 - pair.1) < 2 ^ 63

instance (values : List ℤ) : Decidable (Fits values) :=
  inferInstanceAs (Decidable (∀ pair ∈ neighbours values, _))

/-- The client after it received the values: its second counter knows the last pair only. -/
def after (values : List ℤ) : ClientMonitor where
  nreceived := UInt64.ofNat values.length
  nmissed := (neighbours values).getLast?.elim 0 fun pair =>
    UInt64.ofInt (round53 (pair.2 - pair.1) - 1)
  oldvalue := values.getLast?.getD 0

theorem fits_concat (l : List ℤ) (u v : ℤ) :
    Fits (l ++ [u, v]) ↔ Fits (l ++ [u]) ∧ round53 (v - u) < 2 ^ 63 := by
  simp [Fits, neighbours_concat, or_imp, forall_and]

theorem after_concat (l : List ℤ) (u v : ℤ) :
    after (l ++ [u, v]) = {
      nreceived := (after (l ++ [u])).nreceived + 1
      nmissed := UInt64.ofInt (round53 (v - u) - 1)
      oldvalue := v } := by
  have hlength : (l ++ [u, v]).length = (l ++ [u]).length + 1 := by simp
  simp [after, neighbours_concat, hlength, -List.length_append, UInt64.ofNat_add]

/-- One more value, not below the last. -/
theorem ClientMonitor.received_eq_some_iff {client client' : ClientMonitor}
    {value : IntegralDouble} (hpos : 0 < client.oldvalue) (hle : client.oldvalue ≤ value.val) :
    client.received value = some client' ↔
      round53 (value.val - client.oldvalue) < 2 ^ 63 ∧ client' = {
        nreceived := client.nreceived + 1
        nmissed := UInt64.ofInt (round53 (value.val - client.oldvalue) - 1)
        oldvalue := value.val } := by
  have hdiff : 0 ≤ round53 (value.val - client.oldvalue) := round53_nonneg (by omega)
  simp only [received, if_pos hpos, Option.bind_eq_some_iff, Option.map_eq_some_iff,
    toLong_eq_some_iff]
  constructor
  · rintro ⟨diff, ⟨⟨-, hlt⟩, rfl⟩, less, ⟨-, rfl⟩, rfl⟩
    exact ⟨hlt, rfl⟩
  · rintro ⟨hlt, rfl⟩
    exact ⟨_, ⟨⟨by omega, hlt⟩, rfl⟩, _, ⟨⟨by omega, by omega⟩, rfl⟩, rfl⟩

/-- **What the two counters are** after any values, positive and not falling. -/
theorem received_eq_some_iff {values : List IntegralDouble} {client : ClientMonitor}
    (hpos : ∀ v ∈ values, 0 < v.val) (hsorted : (values.map (·.val)).Pairwise (· ≤ ·)) :
    values.foldlM ClientMonitor.received {} = some client ↔
      Fits (values.map (·.val)) ∧ client = after (values.map (·.val)) := by
  induction values using List.reverseRecOn generalizing client with
  | nil => simp [Fits, neighbours, after, eq_comm]
  | append_singleton values value ih =>
    have hsorted' : (values.map (·.val)).Pairwise (· ≤ ·) := by
      rw [List.map_append] at hsorted
      exact (List.pairwise_append.mp hsorted).1
    have hbefore := fun client => @ih client (fun v hv => hpos v (by simp [hv])) hsorted'
    rw [List.foldlM_append]
    simp only [List.foldlM_cons, List.foldlM_nil, Option.bind_eq_bind, Option.bind_eq_some_iff,
      hbefore]
    rcases List.eq_nil_or_concat values with rfl | ⟨values, last, rfl⟩
    · simp [Fits, neighbours, after, ClientMonitor.received, eq_comm]
    · rw [List.concat_eq_append] at hpos hsorted ⊢
      -- the value before is positive and not above this one
      have hlast : 0 < last.val := hpos last (by simp)
      have hle : last.val ≤ value.val := by
        simp only [List.map_append, List.pairwise_append] at hsorted
        exact hsorted.2.2 _ (by simp) _ (by simp)
      simp only [List.map_append, List.map_cons, List.map_nil, List.append_assoc,
        List.cons_append, List.nil_append]
      have hold : (after (values.map (·.val) ++ [last.val])).oldvalue = last.val := by simp [after]
      rw [fits_concat, after_concat]
      constructor
      · rintro ⟨client', ⟨hfits, rfl⟩, client'', hvalue, hpure⟩
        obtain rfl : client'' = client := Option.some.inj hpure
        rw [ClientMonitor.received_eq_some_iff (by omega) (by omega), hold] at hvalue
        exact ⟨⟨hfits, hvalue.1⟩, hvalue.2⟩
      · rintro ⟨⟨hfits, hlt⟩, rfl⟩
        refine ⟨_, ⟨hfits, rfl⟩, _, ?_, rfl⟩
        rw [ClientMonitor.received_eq_some_iff (by omega) (by omega), hold]
        exact ⟨hlt, rfl⟩

theorem run_eq (client : ClientMonitor) (queues : List (List IntegralDouble)) :
    clientMonitor.run client queues = queues.flatten.foldlM ClientMonitor.received client := by
  induction queues generalizing client with
  | nil => rfl
  | cons queue queues ih =>
    rw [EventMachine.run_cons, List.flatten_cons, List.foldlM_append]
    exact Option.bind_congr fun client' _ => ih client'

/-! ### When all counts are accounted for -/

/-- No count was missed before the last value, which is above the one before it; a rounded
difference may make up for what was missed.  Or the last value came twice and all the
counts of an unsigned counter but one were missed before. -/
def OnlyLastMissed (values : List ℤ) : Prop :=
  ∀ pair ∈ (neighbours values).getLast?,
    pair.1 < pair.2 ∧ round53 (pair.2 - pair.1) = missed values.dropLast + (pair.2 - pair.1) ∨
    pair.1 = pair.2 ∧ missed values.dropLast = 2 ^ 64 - 1

instance (values : List ℤ) : Decidable (OnlyLastMissed values) :=
  inferInstanceAs (Decidable (∀ pair ∈ (neighbours values).getLast?, _))

/-- One less than a difference that fits, as an unsigned counter holds it. -/
theorem toNat_ofInt_sub_one {n : ℤ} (hn : 0 ≤ n) (hlt : n < 2 ^ 63) :
    ((UInt64.ofInt (n - 1)).toNat : ℤ) = if n = 0 then 2 ^ 64 - 1 else n - 1 := by
  have hmod : ((UInt64.ofInt (n - 1)).toNat : ℤ) = (n - 1) % 2 ^ 64 := by
    rw [UInt64.ofInt, UInt64.toNat_ofNat']
    omega
  rw [hmod]
  split <;> omega

theorem nmissed_after_iff {values : List ℤ} (hsorted : values.Pairwise (· ≤ ·))
    (hfits : Fits values) :
    ((after values).nmissed.toNat : ℤ) = missed values ↔ OnlyLastMissed values := by
  match h : values.reverse with
  | [] =>
    obtain rfl : values = [] := by simpa using h
    simp [after, neighbours, missed, OnlyLastMissed]
  | [v] =>
    obtain rfl : values = [v] := by simpa using h
    simp [after, neighbours, missed, OnlyLastMissed]
  | v :: u :: l =>
    obtain rfl : values = l.reverse ++ [u, v] := by simpa using congrArg List.reverse h
    have hle : u ≤ v := by
      have hpair := (List.pairwise_append.mp hsorted).2.1
      simpa using hpair
    have hlt : round53 (v - u) < 2 ^ 63 := ((fits_concat _ u v).mp hfits).2
    have hdrop : (l.reverse ++ [u, v]).dropLast = l.reverse ++ [u] := by
      rw [List.dropLast_append_of_ne_nil (by simp)]
      rfl
    have hlast : OnlyLastMissed (l.reverse ++ [u, v]) ↔
        u < v ∧ round53 (v - u) = missed (l.reverse ++ [u]) + (v - u) ∨
        u = v ∧ missed (l.reverse ++ [u]) = 2 ^ 64 - 1 := by
      simp [OnlyLastMissed, neighbours_concat, hdrop]
    have hnmissed := toNat_ofInt_sub_one (round53_nonneg (sub_nonneg.mpr hle)) hlt
    rw [hlast, missed_concat, after_concat, hnmissed]
    rcases hle.eq_or_lt with rfl | hlt'
    · have hnone : max 0 (u - u - 1) = 0 := by omega
      rw [hnone, sub_self, round53_zero, if_pos rfl]
      omega
    · have hpos := round53_pos (sub_pos.mpr hlt')
      rw [if_neg hpos.ne']
      omega

/-- **When all counts are accounted for.**  After any calls of `event()` with positive
values that do not fall, the counters say how many values came and how many counts were
missed exactly if the values fit the counter, their differences fit a `long`, and nothing
was missed before the last value. -/
theorem counts_accounted_iff {queues : List (List IntegralDouble)}
    (hpos : ∀ v ∈ queues.flatten, 0 < v.val)
    (hsorted : (queues.flatten.map (·.val)).Pairwise (· ≤ ·)) :
    (∃ client, clientMonitor.run clientMonitor.init queues = some client ∧
      client.nreceived.toNat = queues.flatten.length ∧
      (client.nmissed.toNat : ℤ) = missed (queues.flatten.map (·.val))) ↔
    queues.flatten.length < 2 ^ 64 ∧ Fits (queues.flatten.map (·.val)) ∧
      OnlyLastMissed (queues.flatten.map (·.val)) := by
  have hrun := fun client => run_eq {} queues ▸ @received_eq_some_iff _ client hpos hsorted
  have hreceived : (after (queues.flatten.map (·.val))).nreceived.toNat = queues.flatten.length ↔
      queues.flatten.length < 2 ^ 64 := by
    rw [after, UInt64.toNat_ofNat', List.length_map]
    exact Nat.mod_eq_iff_lt (by decide)
  constructor
  · rintro ⟨client, hclient, hcount, hmissed⟩
    obtain ⟨hfits, rfl⟩ := (hrun client).mp hclient
    exact ⟨hreceived.mp hcount, hfits, (nmissed_after_iff hsorted hfits).mp hmissed⟩
  · rintro ⟨hlength, hfits, hlast⟩
    exact ⟨_, (hrun _).mpr ⟨hfits, rfl⟩, hreceived.mpr hlength,
      (nmissed_after_iff hsorted hfits).mpr hlast⟩

/-- A small count, as a double. -/
def count (n : ℕ) (hn : n < 2 ^ 53) : IntegralDouble where
  val := n
  exact := round53_eq_self (by omega) (by omega)
  finite := by
    rw [abs_of_nonneg (by omega)]
    have hbig : (2 : ℤ) ^ 53 ≤ 2 ^ 1024 := pow_le_pow_right₀ (by decide) (by decide)
    omega

/-- Three counts missed between the last two values, in two calls. -/
theorem counts_accounted_gap : ∃ client,
    clientMonitor.run clientMonitor.init
      [[count 1 (by decide), count 2 (by decide)], [count 6 (by decide)]] = some client ∧
    client.nreceived.toNat = 3 ∧ (client.nmissed.toNat : ℤ) = 3 :=
  (counts_accounted_iff (by decide) (by decide)).mpr (by decide)

/-- A count missed and then none: the counter forgets it.  A value that comes twice: the
counter wraps. -/
theorem counts_not_accounted : ¬ ∀ queues : List (List IntegralDouble),
    (∀ v ∈ queues.flatten, 0 < v.val) → (queues.flatten.map (·.val)).Pairwise (· ≤ ·) →
    ∃ client, clientMonitor.run clientMonitor.init queues = some client ∧
      client.nreceived.toNat = queues.flatten.length ∧
      (client.nmissed.toNat : ℤ) = missed (queues.flatten.map (·.val)) := by
  intro h
  obtain ⟨client, hrun, -, hmissed⟩ := h
    [[count 1 (by decide), count 3 (by decide), count 4 (by decide)]] (by decide) (by decide)
  have hforgets : clientMonitor.run clientMonitor.init
      [[count 1 (by decide), count 3 (by decide), count 4 (by decide)]] =
      some { nreceived := 3, nmissed := 0, oldvalue := 4 } := by decide
  obtain rfl := Option.some.inj (hforgets.symm.trans hrun)
  exact absurd hmissed (by decide)

end TestDatabase.TimeManyMonitor
