import TestDatabase.Db.Common

/-!
# The simpleBusy record

A simpleBusy record is busy while its value is not zero: processing it with a
non-zero value leaves it active, and a put to an active record processes it again
through `special`.  With the value zero it drives its forward link and becomes idle.

Time stamps and posted events are left out, since nothing reads them.

`process` clears PACT after `recGblFwdLink` has returned.  What the forward link
drives may have put a value to the record meanwhile and made it busy.

## Main definitions

* `SimpleBusyRecord`, `simpleBusyRSET` — the record and its support.
* `SimpleBusyRecord.Busy` — active exactly while the value is not zero.
* `SimpleBusyRecord.leaves` — the value a chain of puts leaves.
* `SimpleBusyRecord.LinkLeavesZero` — the chain an operation drives last leaves zero.

## Main results

* `SimpleBusyRecord.busy_iff_linkLeavesZero` — the runs along which the record is busy
  exactly while its value is not zero.
* `SimpleBusyRecord.busy_of_onlyZero` — forward links that put nothing but zero do no harm.
-/

namespace TestDatabase

/-- The fields of the record type. -/
structure SimpleBusyRecord where
  val : Int32 := 0
  deriving DecidableEq, Repr, Inhabited

namespace SimpleBusyRecord

/-- `init_record`. -/
def initRecord (G : RecGbl) (s : RecordState SimpleBusyRecord) : RecordState SimpleBusyRecord :=
  let s := { s with fields.val := 0, udf := false }
  { s with toDbCommon := G.recGblResetAlarms s.toDbCommon }

/-- `process`. -/
def process (link : RecordState SimpleBusyRecord → RecordState SimpleBusyRecord)
    (s : RecordState SimpleBusyRecord) : RecordState SimpleBusyRecord :=
  if s.fields.val ≠ 0 then { s with pact := true }
  -- cleared after the forward link, whatever it did to the record
  else { link s with pact := false }

/-- `special`. -/
def special (after : Bool) (link : RecordState SimpleBusyRecord → RecordState SimpleBusyRecord)
    (s : RecordState SimpleBusyRecord) : RecordState SimpleBusyRecord :=
  if after = false then s
  else if s.pact = false then s
  else process link s

end SimpleBusyRecord

/-- The record support entry table. -/
def simpleBusyRSET (G : RecGbl) : Rset SimpleBusyRecord Int32 where
  initRecord := SimpleBusyRecord.initRecord G
  process := SimpleBusyRecord.process
  special := SimpleBusyRecord.special
  putVal _ value := { val := value }

namespace SimpleBusyRecord

variable {G : RecGbl} {link : RecordState SimpleBusyRecord → RecordState SimpleBusyRecord}
  {s : RecordState SimpleBusyRecord}

/-- Active exactly while the value is not zero. -/
def Busy (s : RecordState SimpleBusyRecord) : Prop := s.pact = true ↔ s.fields.val ≠ 0

theorem process_of_ne_zero (h : s.fields.val ≠ 0) : process link s = { s with pact := true } :=
  if_pos h

theorem process_of_eq_zero (h : s.fields.val = 0) :
    process link s = { link s with pact := false } :=
  if_neg (not_not_intro h)

/-- After `process` the record is as it should be, unless the forward link left a value. -/
theorem busy_process_iff :
    Busy (process link s) ↔ (s.fields.val = 0 → (link s).fields.val = 0) := by
  by_cases h : s.fields.val = 0
  · rw [process_of_eq_zero h, Busy]
    simp [h]
  · rw [process_of_ne_zero h, Busy]
    simp [h]

/-- A record that is active after `special` has a value. -/
theorem val_special (h : (special true link s).pact = true) :
    (special true link s).fields.val ≠ 0 := by
  unfold special at h ⊢
  by_cases hpact : s.pact = false
  · simp [hpact] at h
  · simp only [Bool.true_eq_false, if_false, hpact] at h ⊢
    by_cases hval : s.fields.val = 0
    · simp [process_of_eq_zero hval] at h
    · simpa [process_of_ne_zero hval] using hval

/-- The record between the call of `special` and the processing of a put. -/
def written (value : Int32) (link : RecordState SimpleBusyRecord → RecordState SimpleBusyRecord)
    (s : RecordState SimpleBusyRecord) : RecordState SimpleBusyRecord :=
  special true link { s with fields.val := value }

/-- The value a chain of puts leaves in VAL.  A value put that is not zero stays until the
next put.  A put of zero to an active record leaves what `inSpecial` leaves, and a put that
leaves zero drives `afterwards`. -/
def leaves : Chain Int32 → Bool → Int32 → Int32
  | .nil, _, val => val
  | .put value inSpecial afterwards rest, active, _ =>
    let kept := if value = 0 ∧ active then leaves inSpecial true 0 else value
    -- a value makes the record active, and zero makes it idle
    if kept ≠ 0 then leaves rest true kept else leaves rest false (leaves afterwards false 0)

/-- The value a put leaves when it comes to process the record. -/
def kept (value : Int32) (inSpecial : Chain Int32) (active : Bool) : Int32 :=
  if value = 0 ∧ active then leaves inSpecial true 0 else value

/-- If the operation drives the forward link of the idle record, then the chain of puts
driven there leaves zero. -/
def LinkLeavesZero (s : RecordState SimpleBusyRecord) : DbEvent Int32 → Prop
  | .put value _ inSpecial afterwards =>
    kept value inSpecial s.pact = 0 → leaves afterwards false 0 = 0
  | .special _ _ => True
  | .process link | .queued link => s.pact = false → leaves link false 0 = 0

theorem putField_eq {value : Int32}
    {link' : RecordState SimpleBusyRecord → RecordState SimpleBusyRecord} :
    putField (simpleBusyRSET G) value link link' s =
      if (written value link s).pact then { written value link s with rpro := true }
      else process link' (written value link s) := rfl

/-! ### What a chain leaves -/

theorem leaves_put (value : Int32) (inSpecial afterwards rest : Chain Int32) (active : Bool)
    (val : Int32) : leaves (.put value inSpecial afterwards rest) active val =
      if kept value inSpecial active ≠ 0 then leaves rest true (kept value inSpecial active)
      else leaves rest false (leaves afterwards false 0) := rfl

/-- The value a put has left when it comes to process the record. -/
theorem val_written {value : Int32} {inSpecial : Chain Int32}
    (hlink : ∀ s, (link s).fields.val = leaves inSpecial s.pact s.fields.val) :
    (written value link s).fields.val = kept value inSpecial s.pact := by
  unfold written special kept
  cases hpact : s.pact with
  | false => simp
  | true =>
    by_cases hval : value = 0
    · subst hval
      rw [if_neg (by decide), if_neg (by decide), process_of_eq_zero rfl, if_pos ⟨rfl, rfl⟩]
      exact (hlink _).trans (by rw [hpact])
    · rw [if_neg (by decide), if_neg (by decide), process_of_ne_zero hval, if_neg (by simp [hval])]

/-- What a put leaves: an active record with the value kept, or what the forward link leaves
in an idle one. -/
theorem putField_leaves (G : RecGbl) (value : Int32) {inSpecial afterwards : Chain Int32}
    {link' : RecordState SimpleBusyRecord → RecordState SimpleBusyRecord}
    (hlink : ∀ s, (link s).fields.val = leaves inSpecial s.pact s.fields.val)
    (hlink' : ∀ s, (link' s).fields.val = leaves afterwards s.pact s.fields.val) :
    (kept value inSpecial s.pact ≠ 0 →
      (putField (simpleBusyRSET G) value link link' s).pact = true ∧
      (putField (simpleBusyRSET G) value link link' s).fields.val = kept value inSpecial s.pact) ∧
    (kept value inSpecial s.pact = 0 →
      (putField (simpleBusyRSET G) value link link' s).pact = false ∧
      (putField (simpleBusyRSET G) value link link' s).fields.val = leaves afterwards false 0) := by
  have hval : (written value link s).fields.val = kept value inSpecial s.pact := val_written hlink
  rw [putField_eq, ← hval]
  cases hpact : (written value link s).pact with
  | true =>
    -- only marked for reprocessing
    have hne : (written value link s).fields.val ≠ 0 := val_special hpact
    exact ⟨fun _ => ⟨hpact, rfl⟩, fun hzero => absurd hzero hne⟩
  | false =>
    rw [if_neg Bool.false_ne_true]
    constructor
    · intro hne
      rw [process_of_ne_zero hne]
      exact ⟨rfl, rfl⟩
    · intro hzero
      rw [process_of_eq_zero hzero]
      exact ⟨rfl, (hlink' _).trans (by rw [hpact, hzero])⟩

/-- **What a chain leaves in VAL** depends on the chain, and on whether the record is active. -/
theorem val_drive (link : Chain Int32) :
    (link.drive (simpleBusyRSET G) s).fields.val = leaves link s.pact s.fields.val := by
  induction link generalizing s with
  | nil => rfl
  | put value inSpecial afterwards rest ihSpecial ihAfter ihRest =>
    let inSpecial' := fun s => (inSpecial.drive (simpleBusyRSET G) s).complete
    let afterwards' := fun s => (afterwards.drive (simpleBusyRSET G) s).complete
    have hspecial (s) : (inSpecial' s).fields.val = leaves inSpecial s.pact s.fields.val := ihSpecial
    have hafter (s) : (afterwards' s).fields.val = leaves afterwards s.pact s.fields.val := ihAfter
    obtain ⟨hkept, hzero⟩ := putField_leaves (s := s) G value hspecial hafter
    rw [Chain.drive, ihRest, leaves_put]
    by_cases h : kept value inSpecial s.pact = 0
    · rw [(hzero h).1, (hzero h).2, if_neg (not_not_intro h)]
    · rw [(hkept h).1, (hkept h).2, if_pos h]

theorem val_recGblFwdLink (link : Chain Int32) :
    (recGblFwdLink (simpleBusyRSET G) link s).fields.val = leaves link s.pact s.fields.val :=
  val_drive link

/-! ### When the record is busy -/

theorem busy_dbProcess_iff (hs : Busy s) (link : Chain Int32) :
    Busy (dbProcess (simpleBusyRSET G) link s) ↔ (s.pact = false → leaves link false 0 = 0) := by
  unfold dbProcess
  cases hpact : s.pact with
  | true => simpa using hs
  | false =>
    -- the idle record holds zero
    have hval : s.fields.val = 0 := by simpa [Busy, hpact] using hs
    rw [if_neg Bool.false_ne_true]
    refine busy_process_iff.trans ?_
    simp [val_recGblFwdLink, hval, hpact]

theorem busy_step_iff {e : DbEvent Int32} {t : RecordState SimpleBusyRecord} (hs : Busy s)
    (h : (simpleBusyRSET G).step s e = some t) : Busy t ↔ LinkLeavesZero s e := by
  cases e with
  | put value notify inSpecial afterwards =>
    obtain rfl := Option.some.inj h
    obtain ⟨hkept, hzero⟩ := putField_leaves G value
      (s := { s with waiting := notify.toList ++ s.waiting })
      (fun _ => val_recGblFwdLink inSpecial) (fun _ => val_recGblFwdLink afterwards)
    by_cases hval : kept value inSpecial s.pact = 0
    · rw [Busy, (hzero hval).1, (hzero hval).2]
      simp [LinkLeavesZero, hval]
    · rw [Busy, (hkept hval).1, (hkept hval).2]
      simp [LinkLeavesZero, hval]
  | special after link =>
    obtain rfl := Option.some.inj h
    refine iff_of_true ?_ trivial
    show Busy (special after _ s)
    unfold special
    split
    · exact hs
    split
    · exact hs
    next hpact =>
      -- the active record holds a value, and stays active
      have hval : s.fields.val ≠ 0 := hs.mp (by simpa using hpact)
      exact busy_process_iff.mpr fun hzero => absurd hzero hval
  | process link =>
    obtain rfl := Option.some.inj h
    exact busy_dbProcess_iff hs link
  | queued link =>
    simp only [Rset.step, Option.ite_none_left_eq_some, Option.some.injEq] at h
    obtain ⟨-, rfl⟩ := h
    exact busy_dbProcess_iff (s := { s with queued := s.queued - 1 }) hs link

/-- The chain puts nothing but zero, at any depth. -/
def OnlyZero : Chain Int32 → Prop
  | .nil => True
  | .put value inSpecial afterwards rest =>
    value = 0 ∧ OnlyZero inSpecial ∧ OnlyZero afterwards ∧ OnlyZero rest

/-- Puts of zero leave zero. -/
theorem leaves_of_onlyZero {link : Chain Int32} (hlink : OnlyZero link) (active : Bool) :
    leaves link active 0 = 0 := by
  induction link generalizing active with
  | nil => rfl
  | put value inSpecial afterwards rest ihSpecial ihAfter ihRest =>
    obtain ⟨rfl, hspecial, hafter, hrest⟩ := hlink
    have hkept : kept 0 inSpecial active = 0 := by
      unfold kept
      split
      · exact ihSpecial hspecial true
      · rfl
    rw [leaves_put, if_neg (not_not_intro hkept), ihAfter hafter, ihRest hrest]

/-- Whatever the forward links of an operation drive, it puts nothing but zero. -/
def EventOnlyZero : DbEvent Int32 → Prop
  | .put _ _ inSpecial afterwards => OnlyZero inSpecial ∧ OnlyZero afterwards
  | .special _ link => OnlyZero link
  | .process link => OnlyZero link
  | .queued link => OnlyZero link

theorem linkLeavesZero_of_onlyZero {e : DbEvent Int32} (he : EventOnlyZero e) :
    LinkLeavesZero s e := by
  cases e with
  | put value notify inSpecial afterwards => exact fun _ => leaves_of_onlyZero he.2 false
  | special after link => trivial
  | process link | queued link => exact fun _ => leaves_of_onlyZero he false

theorem busy_initRecord (fields : SimpleBusyRecord) : Busy (initRecord G { fields }) := by
  simp [Busy, initRecord, G.resetAlarms_eq]

/-- **When simpleBusy is busy.**  The record is active exactly while its value is not
zero, in all states of a run, exactly when no operation of the run drives, last, a
chain that leaves a value. -/
theorem busy_iff_linkLeavesZero (G : RecGbl) (fields : SimpleBusyRecord)
    (es : List (DbEvent Int32)) {t : RecordState SimpleBusyRecord}
    (hrun : (database (simpleBusyRSET G) { fields }).run (initRecord G { fields }) es = some t) :
    (database (simpleBusyRSET G) { fields }).Visits Busy (initRecord G { fields }) es ↔
      (database (simpleBusyRSET G) { fields }).Meets LinkLeavesZero (initRecord G { fields }) es := by
  refine EventMachine.visits_iff_meets (I := fun _ => True) (fun _ _ _ _ _ => trivial) ?_
    trivial (busy_initRecord fields) hrun
  intro s e t _ hs hst
  exact busy_step_iff hs hst

/-- Two puts, the second of which drives a forward link that puts a value and then zero. -/
theorem busy_iff_linkLeavesZero_link_puts_zero :
    (database (simpleBusyRSET .base) { fields := {} }).Visits Busy
      (initRecord .base { fields := {} })
      [.put 1 none .nil .nil, .put 0 none (.put 5 .nil .nil (.put 0 .nil .nil .nil)) .nil] := by
  refine (busy_iff_linkLeavesZero .base {} _ (Option.eq_some_of_isSome (by decide +kernel))).mpr ?_
  refine ⟨fun hkept => absurd hkept (by decide), ?_⟩
  intro t ht
  obtain rfl := Option.some.inj ht
  exact ⟨fun _ => by decide, fun _ _ => trivial⟩

/-- A scan whose forward link puts one to the record: it ends idle, with the value one. -/
theorem not_busy_of_link_puts_one :
    ∃ s, (database (simpleBusyRSET .base) { fields := {} }).Reachable s ∧ ¬ Busy s := by
  obtain ⟨s, hs, h⟩ := EventMachine.exists_reachable_of_run
    (database (simpleBusyRSET .base) { fields := {} }) [.process (.put 1 .nil .nil .nil)]
    (fun s => decide (s.pact = false ∧ s.fields.val = 1)) (by decide +kernel)
  obtain ⟨hpact, hval⟩ := of_decide_eq_true h
  refine ⟨s, hs, fun hbusy => ?_⟩
  have hne : s.fields.val ≠ 0 := by
    rw [hval]
    decide
  simp [hbusy.mpr hne] at hpact

/-- In particular the record is active exactly while its value is not zero as long as
forward links put nothing but zero to it. -/
theorem busy_of_onlyZero {fields : SimpleBusyRecord}
    (hs : (database (simpleBusyRSET G) { fields }).ReachableVia (fun _ e => EventOnlyZero e) s) :
    Busy s := by
  refine hs.invariant (busy_initRecord fields) ?_
  intro s e t hs he hst
  exact (busy_step_iff hs hst).mpr (linkLeavesZero_of_onlyZero he)

end SimpleBusyRecord

end TestDatabase
