import TestDatabase.Db.SimpleBusy

/-!
# Busy periods

A put of a value makes a simpleBusy record busy and a put of zero ends that.  The
record drives its forward link to tell that it is done.  This file counts how often,
for clients that put values to a record its forward link leaves alone.

The put of zero drives the link twice: `special` processes the active record, which
becomes idle, and the put then processes the idle record.  A value put in between has
marked the record for reprocessing, and what is queued for that drives the link again.

## Main definitions

* `FromClients` — the puts and the queued processing considered.
* `linksOfQueued` — the forward links driven by one queued processing.
* `busyPeriod`, `periodLinks` — a busy period and the forward links it causes.

## Main results

* `step_put_value`, `step_put_zero` — what a put does to the record.
* `run_busyPeriod` — what a busy period does to it.
* `periodLinks_ne_one` — no busy period completes exactly once.
-/

namespace TestDatabase

/-- The processing at some place of the queue: how many forward links it drives, when it
has run. -/
def linksOfQueued {α β : Type} (rset : Rset α β) :
    ℕ → RecordState α → List (DbEvent β) → Option ℕ
  | _, _, [] => none
  | place, s, e :: es =>
    match rset.step s e, e, place with
    | none, _, _ => none
    | some t, .queued _, 0 => some (t.fwdLinks - s.fwdLinks)
    | some t, .queued _, place + 1 => linksOfQueued rset place t es
    | some t, _, place => linksOfQueued rset place t es

namespace SimpleBusyRecord

/-- A put, whose forward links leave the record alone. -/
abbrev clientPut (value : Int32) (notify : Option ℕ) : DbEvent Int32 :=
  .put value notify .nil .nil

/-- A put or queued processing, and forward links that leave the record alone. -/
def FromClients : DbEvent Int32 → Prop
  | .put _ _ inSpecial afterwards => inSpecial = .nil ∧ afterwards = .nil
  | .queued link => link = .nil
  | _ => False

/-- It may happen between the two puts of a busy period: a put of zero ends the period. -/
def KeepsBusy : DbEvent Int32 → Prop
  | .put value _ inSpecial afterwards => value ≠ 0 ∧ inSpecial = .nil ∧ afterwards = .nil
  | .queued link => link = .nil
  | _ => False

/-- Whether it is queued processing. -/
def isQueued : DbEvent Int32 → Bool
  | .queued _ => true
  | _ => false

/-- A busy period: a put, what happens between, and the put of zero. -/
def busyPeriod (value : Int32) (notify notify' : Option ℕ) (between : List (DbEvent Int32)) :
    List (DbEvent Int32) :=
  clientPut value notify :: between ++ [clientPut 0 notify']

/-- The forward links caused by a busy period from `s` to `t`: those driven in it and, if it
queued processing, those of that processing, which is then the last in the queue.  There
is no number until that has run. -/
def periodLinks (G : RecGbl) (between : List (DbEvent Int32)) (s t : RecordState SimpleBusyRecord)
    (after : List (DbEvent Int32)) : Option ℕ :=
  if s.queued < t.queued + between.countP isQueued then
    (linksOfQueued (simpleBusyRSET G) (t.queued - 1) t after).map (t.fwdLinks - s.fwdLinks + ·)
  else some (t.fwdLinks - s.fwdLinks)

variable {G : RecGbl} {s t : RecordState SimpleBusyRecord}

/-! ### What a put does -/

/-- **A put of a value** makes the record busy, and marks it if it was. -/
theorem step_put_value {value : Int32} (hvalue : value ≠ 0) (notify : Option ℕ) :
    (simpleBusyRSET G).step s (clientPut value notify) = some { s with
      waiting := notify.toList ++ s.waiting
      fields.val := value
      pact := true
      rpro := s.pact || s.rpro } := by
  cases hpact : s.pact with
  | false =>
    simp [Rset.step, putField, simpleBusyRSET, special, process, hpact, hvalue]
  | true =>
    simp [Rset.step, putField, simpleBusyRSET, special, process, hpact, hvalue]

theorem written_of_idle {link : RecordState SimpleBusyRecord → RecordState SimpleBusyRecord}
    (value : Int32) (hpact : s.pact = false) :
    written value link s = { s with fields.val := value } := by
  simp [written, special, hpact]

theorem written_of_active {link : RecordState SimpleBusyRecord → RecordState SimpleBusyRecord}
    (value : Int32) (hpact : s.pact = true) :
    written value link s = process link { s with fields.val := value } := by
  simp [written, special, hpact]

/-- Processing a record of value zero, whose forward link leaves it alone. -/
theorem process_link_nil (hval : s.fields.val = 0) :
    process (recGblFwdLink (simpleBusyRSET G) .nil) s = { s.complete with pact := false } :=
  process_of_eq_zero hval

theorem putField_zero : putField (simpleBusyRSET G) 0 (recGblFwdLink (simpleBusyRSET G) .nil)
    (recGblFwdLink (simpleBusyRSET G) .nil) s = { s with
      waiting := []
      fields.val := 0
      pact := false
      rpro := false
      queued := if s.rpro then s.queued + 1 else s.queued
      fwdLinks := if s.pact then s.fwdLinks + 2 else s.fwdLinks + 1 } := by
  rw [putField_eq]
  cases hpact : s.pact with
  | false =>
    -- `special` does nothing
    rw [written_of_idle 0 hpact, if_neg (by simp [hpact]), process_link_nil rfl]
    simp [RecordState.complete]
  | true =>
    -- `special` processes the active record, and the put the idle one it leaves
    rw [written_of_active 0 hpact, process_link_nil rfl, if_neg (by simp), process_link_nil rfl]
    simp [RecordState.complete]

/-- **A put of zero** drives the forward link of an idle record once and that of an active
record twice.  The first time it queues the processing asked for. -/
theorem step_put_zero (notify : Option ℕ) :
    (simpleBusyRSET G).step s (clientPut 0 notify) = some { s with
      waiting := []
      fields.val := 0
      pact := false
      rpro := false
      queued := if s.rpro then s.queued + 1 else s.queued
      fwdLinks := if s.pact then s.fwdLinks + 2 else s.fwdLinks + 1 } :=
  congrArg some putField_zero

/-- Queued processing leaves an active record alone. -/
theorem step_queued_of_active (hpact : s.pact = true)
    (h : (simpleBusyRSET G).step s (.queued .nil) = some t) :
    0 < s.queued ∧ t = { s with queued := s.queued - 1 } := by
  simp only [Rset.step, Option.ite_none_left_eq_some, Option.some.injEq] at h
  obtain ⟨hqueued, rfl⟩ := h
  refine ⟨Nat.pos_of_ne_zero hqueued, ?_⟩
  simp [dbProcess, hpact]

/-- Queued processing processes an idle record. -/
theorem step_queued_of_idle (hpact : s.pact = false)
    (h : (simpleBusyRSET G).step s (.queued .nil) = some t) :
    t = process (recGblFwdLink (simpleBusyRSET G) .nil) { s with queued := s.queued - 1 } := by
  simp only [Rset.step, Option.ite_none_left_eq_some, Option.some.injEq] at h
  obtain ⟨-, rfl⟩ := h
  rw [dbProcess, if_neg (by simp [hpact])]
  rfl

/-- Queued processing drives at most one forward link, and leaves no mark on an idle
record. -/
theorem step_queued (h : (simpleBusyRSET G).step s (.queued .nil) = some t) :
    t.fwdLinks ≤ s.fwdLinks + 1 ∧ ((s.pact = false → s.rpro = false) →
      t.pact = false → t.rpro = false) := by
  cases hpact : s.pact with
  | true =>
    obtain ⟨-, rfl⟩ := step_queued_of_active hpact h
    exact ⟨Nat.le_succ _, fun _ htpact => absurd (hpact.symm.trans htpact) Bool.noConfusion⟩
  | false =>
    rw [step_queued_of_idle hpact h]
    by_cases hval : s.fields.val = 0
    · rw [process_link_nil (s := { s with queued := s.queued - 1 }) hval]
      exact ⟨Nat.le_refl _, fun _ _ => rfl⟩
    · rw [process_of_ne_zero (s := { s with queued := s.queued - 1 }) hval]
      exact ⟨Nat.le_succ _, fun _ htpact => absurd htpact Bool.noConfusion⟩

/-! ### What a busy period does -/

/-- An idle record is not marked for reprocessing. -/
def Unmarked (s : RecordState SimpleBusyRecord) : Prop := s.pact = false → s.rpro = false

theorem unmarked_step {e : DbEvent Int32} (hs : Unmarked s) (he : FromClients e)
    (h : (simpleBusyRSET G).step s e = some t) : Unmarked t := by
  cases e with
  | put value notify inSpecial afterwards =>
    obtain ⟨rfl, rfl⟩ := he
    by_cases hvalue : value = 0
    · subst hvalue
      rw [step_put_zero, Option.some.injEq] at h
      intro _
      rw [← h]
    · rw [step_put_value hvalue, Option.some.injEq] at h
      intro hpact
      rw [← h] at hpact
      exact absurd hpact Bool.noConfusion
  | queued link =>
    obtain rfl : link = .nil := he
    exact (step_queued h).2 hs
  | special after link => exact absurd he not_false
  | process link => exact absurd he not_false

theorem unmarked_of_reachable {fields : SimpleBusyRecord}
    (hs : (database (simpleBusyRSET G) { fields }).ReachableVia (fun _ e => FromClients e) s) :
    Unmarked s := by
  have hinit : Unmarked (initRecord G { fields }) := by
    intro _
    simp [initRecord, G.resetAlarms_eq]
  refine hs.invariant hinit ?_
  intro s e t hs he hst
  exact unmarked_step (G := G) hs he hst

/-- Between its two puts a busy period drives no forward link.  Any further put marks the
record. -/
theorem run_between {fields : SimpleBusyRecord} {between : List (DbEvent Int32)}
    (hbetween : ∀ e ∈ between, KeepsBusy e) (hpact : s.pact = true)
    (hrun : (database (simpleBusyRSET G) { fields }).run s between = some t) :
    t.pact = true ∧ t.fwdLinks = s.fwdLinks ∧ t.queued + between.countP isQueued = s.queued ∧
      t.rpro = (s.rpro || between.any fun e => !isQueued e) := by
  induction between generalizing s with
  | nil =>
    obtain rfl := Option.some.inj hrun
    simp [hpact]
  | cons e es ih =>
    obtain ⟨u, hu, hrest⟩ := EventMachine.run_cons_eq_some.mp hrun
    have he : KeepsBusy e := hbetween e List.mem_cons_self
    have hes : ∀ e ∈ es, KeepsBusy e := fun e h => hbetween e (List.mem_cons_of_mem _ h)
    cases e with
    | put value notify inSpecial afterwards =>
      obtain ⟨hvalue, rfl, rfl⟩ := he
      obtain rfl := Option.some.inj ((step_put_value hvalue notify).symm.trans hu)
      obtain ⟨htpact, hlinks, hqueued, hrpro⟩ := ih hes rfl hrest
      refine ⟨htpact, hlinks, by simpa [isQueued] using hqueued, ?_⟩
      rw [hrpro, hpact]
      simp [isQueued]
    | queued link =>
      obtain rfl : link = .nil := he
      obtain ⟨hpos, rfl⟩ := step_queued_of_active hpact hu
      obtain ⟨htpact, hlinks, hqueued, hrpro⟩ := ih (s := { s with queued := s.queued - 1 }) hes
        hpact hrest
      refine ⟨htpact, hlinks, ?_, by rw [hrpro]; simp [isQueued]⟩
      simp only [List.countP_cons, isQueued, if_true] at hqueued ⊢
      omega
    | special after link => exact absurd he not_false
    | process link => exact absurd he not_false

/-- **A busy period** drives two forward links, both in the put of zero, and queues one
processing if a value was put between. -/
theorem run_busyPeriod {fields : SimpleBusyRecord} {value : Int32} {notify notify' : Option ℕ}
    {between : List (DbEvent Int32)} (hrpro : s.rpro = false) (hidle : s.pact = false)
    (hvalue : value ≠ 0) (hbetween : ∀ e ∈ between, KeepsBusy e)
    (hrun : (database (simpleBusyRSET G) { fields }).run s
      (busyPeriod value notify notify' between) = some t) :
    t.pact = false ∧ t.fwdLinks = s.fwdLinks + 2 ∧
      t.queued + between.countP isQueued =
        if between.any fun e => !isQueued e then s.queued + 1 else s.queued := by
  rw [busyPeriod, List.cons_append] at hrun
  obtain ⟨u, hu, hrest⟩ := EventMachine.run_cons_eq_some.mp hrun
  obtain ⟨v, hv, hlast⟩ := EventMachine.run_append_eq_some.mp hrest
  obtain ⟨w, hw, hnil⟩ := EventMachine.run_cons_eq_some.mp hlast
  obtain rfl := Option.some.inj hnil
  -- the record is busy after the first put and up to the last
  obtain rfl := Option.some.inj ((step_put_value hvalue notify).symm.trans hu)
  obtain ⟨hpact, hlinks, hqueued, hmarked⟩ := run_between hbetween rfl hv
  obtain rfl := Option.some.inj ((step_put_zero notify').symm.trans hw)
  rw [hrpro, hidle, Bool.false_or, Bool.false_or] at hmarked
  refine ⟨rfl, ?_, ?_⟩
  · simp only [hpact, if_true, hlinks]
  · simp only [hmarked] at hqueued ⊢
    split <;> omega

/-- One queued processing drives at most one forward link. -/
theorem linksOfQueued_le_one {place n : ℕ} {after : List (DbEvent Int32)}
    (hafter : ∀ e ∈ after, FromClients e)
    (hn : linksOfQueued (simpleBusyRSET G) place s after = some n) : n ≤ 1 := by
  induction after generalizing place s with
  | nil => simp [linksOfQueued] at hn
  | cons e es ih =>
    have hes : ∀ e ∈ es, FromClients e := fun e h => hafter e (List.mem_cons_of_mem _ h)
    cases hstep : (simpleBusyRSET G).step s e with
    | none => simp [linksOfQueued, hstep] at hn
    | some t =>
      cases e with
      | queued link =>
        cases place with
        | zero =>
          -- this is the processing asked for
          obtain rfl : link = .nil := hafter _ List.mem_cons_self
          simp only [linksOfQueued, hstep, Option.some.injEq] at hn
          have hle := (step_queued hstep).1
          omega
        | succ place =>
          simp only [linksOfQueued, hstep] at hn
          exact ih hes hn
      | put value notify inSpecial afterwards =>
        simp only [linksOfQueued, hstep] at hn
        exact ih hes hn
      | special after link => exact absurd (hafter _ List.mem_cons_self) not_false
      | process link => exact absurd (hafter _ List.mem_cons_self) not_false

/-- **No busy period completes exactly once.**  Whenever all the processing it queued has
run, the forward links it has caused are two, or three if a value was put between: never
one. -/
theorem periodLinks_ne_one (G : RecGbl) (fields : SimpleBusyRecord) (value : Int32)
    (notify notify' : Option ℕ) (between after : List (DbEvent Int32))
    {s t : RecordState SimpleBusyRecord} {n : ℕ}
    (hs : (database (simpleBusyRSET G) { fields }).ReachableVia (fun _ e => FromClients e) s)
    (hidle : s.pact = false) (hvalue : value ≠ 0) (hbetween : ∀ e ∈ between, KeepsBusy e)
    (hrun : (database (simpleBusyRSET G) { fields }).run s
      (busyPeriod value notify notify' between) = some t)
    (hafter : ∀ e ∈ after, FromClients e) (hn : periodLinks G between s t after = some n) :
    n ≠ 1 ∧ (n = 2 ∨ n = 3 ∧ ∃ e ∈ between, isQueued e = false) := by
  have hrpro : s.rpro = false := unmarked_of_reachable hs hidle
  obtain ⟨-, hlinks, hqueued⟩ := run_busyPeriod hrpro hidle hvalue hbetween hrun
  have htwo : t.fwdLinks - s.fwdLinks = 2 := by omega
  rw [periodLinks, hqueued, htwo] at hn
  cases hput : between.any fun e => !isQueued e with
  | false =>
    rw [hput, if_neg (by simp), Option.some.injEq] at hn
    exact ⟨by omega, .inl hn.symm⟩
  | true =>
    rw [hput, if_pos (by simp), Option.map_eq_some_iff] at hn
    obtain ⟨m, hm, rfl⟩ := hn
    have hle : m ≤ 1 := linksOfQueued_le_one hafter hm
    obtain ⟨e, he, hqe⟩ := List.any_eq_true.mp hput
    refine ⟨by omega, ?_⟩
    rcases Nat.le_one_iff_eq_zero_or_eq_one.mp hle with rfl | rfl
    · exact .inl rfl
    · exact .inr ⟨rfl, e, he, by simpa using hqe⟩

/-- With a value put between there are three. -/
theorem periodLinks_ne_one_value_between : ∃ t n,
    (database (simpleBusyRSET .base) { fields := {} }).run (initRecord .base { fields := {} })
      (busyPeriod 1 none none [clientPut 2 none]) = some t ∧
    periodLinks .base [clientPut 2 none] (initRecord .base { fields := {} }) t [.queued .nil] =
      some n ∧ n ≠ 1 := by
  obtain ⟨t, hrun, hthree⟩ : ∃ t,
      (database (simpleBusyRSET .base) { fields := {} }).run (initRecord .base { fields := {} })
        (busyPeriod 1 none none [clientPut 2 none]) = some t ∧
      periodLinks .base [clientPut 2 none] (initRecord .base { fields := {} }) t [.queued .nil] =
        some 3 := ⟨_, rfl, by decide +kernel⟩
  refine ⟨t, 3, hrun, hthree, ?_⟩
  exact (periodLinks_ne_one .base {} 1 none none [clientPut 2 none] [.queued .nil] .init rfl
    (by decide) (by simp [KeepsBusy]) hrun (by simp [FromClients]) hthree).1

/-- A put of one and a put of zero: nothing is queued, and the forward link was driven
twice. -/
theorem completes_twice : ∃ t,
    (database (simpleBusyRSET .base) { fields := {} }).run (initRecord .base { fields := {} })
      (busyPeriod 1 none none []) = some t ∧
    t.queued = 0 ∧
    periodLinks .base [] (initRecord .base { fields := {} }) t [] = some 2 :=
  ⟨_, rfl, by decide +kernel, by decide +kernel⟩

end SimpleBusyRecord

end TestDatabase
