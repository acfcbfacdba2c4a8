import TestDatabase.Db.ForwardLinks

/-!
# Runs of linked simpleBusy records

Clients put values to simpleBusy records whose forward links name one another, and scans
process them.  Records that are linked are locked together, so that an operation is over,
with all the processing it drives, before the next begins.  Put-notifies are left out.

An operation is given a number of nested calls it may make, as processing is, and cannot
happen if that is not enough.

## Main definitions

* `LinkedRecords.putField` — a put to one of the records.
* `LinkedEvent`, `linkedDatabase` — the event machine of the linked records.
* `DbEvent.Unlinked` — an operation on one record, whose forward links leave it alone.
* `LinkedRecords.LeadsTo` — such operations lead from one state of a record to another.

## Main results

* `drives_of_dbProcess` — what processing does to each record.
* `step_operates` — a step is an operation on one record, and scans of others.
* `record_runs_alone` — **each record does what it would do alone**, with a scan for each
  link driven to it.
* `operations_terminate_iff` — **every operation comes to its end** exactly if no record is on
  a cycle of forward links.
-/

namespace TestDatabase

open Links

/-! ### The event machine -/

/-- What can be done to one of the records. -/
inductive LinkedEvent (ι : Type)
  /-- A put by a client. -/
  | put (i : ι) (value : Int32)
  /-- A scan. -/
  | process (i : ι)
  /-- Processing that was queued. -/
  | queued (i : ι)
  deriving DecidableEq, Repr

namespace LinkedRecords

variable {ι : Type} [DecidableEq ι]

/-- `special`. -/
def special (after : Bool) (link : LinkedRecords ι → Option (Outcome ι)) (i : ι)
    (w : LinkedRecords ι) : Option (Outcome ι) :=
  if after = false then some (w, [])
  else if (w.record i).pact = false then some (w, [])
  else process link i w

/-- A put to VAL of a record: write the value between two calls of `special`, then process the
record if it is idle, and otherwise mark it for reprocessing. -/
def putField (depth : ℕ) (i : ι) (value : Int32) (w : LinkedRecords ι) : Option (Outcome ι) := do
  let link := recGblFwdLink (dbProcess depth) i
  let (w, calls) ← special false link i w
  let w := w.set i { w.record i with fields.val := value }
  let (w, calls') ← special true link i w
  if (w.record i).pact then
    return (w.set i { w.record i with rpro := true }, calls ++ calls')
  else
    let (w, calls'') ← process link i w
    return (w, calls ++ calls' ++ calls'')

/-- One operation, from the call to its return. -/
def step (depth : ℕ) (w : LinkedRecords ι) : LinkedEvent ι → Option (LinkedRecords ι)
  | .put i value => (putField depth i value w).map Prod.fst
  | .process i => (dbProcess depth i w).map Prod.fst
  | .queued i =>
    if (w.record i).queued = 0 then none
    else
      let w := w.set i { w.record i with queued := (w.record i).queued - 1 }
      (dbProcess depth i w).map Prod.fst

end LinkedRecords

/-- simpleBusy records with these forward links, initialised, among their clients. -/
def linkedDatabase {ι : Type} [DecidableEq ι] (G : RecGbl) (depth : ℕ)
    (fields : ι → SimpleBusyRecord) (flnk : ι → Option ι) :
    EventMachine (LinkedRecords ι) (LinkedEvent ι) where
  init := { record := fun i => SimpleBusyRecord.initRecord G { fields := fields i }, flnk }
  step := LinkedRecords.step depth

/-! ### A record by itself -/

/-- The value put. -/
def DbEvent.value {β : Type} : DbEvent β → Option β
  | .put value _ _ _ => some value
  | _ => none

/-- The forward links driven leave the record alone. -/
def DbEvent.Unlinked {β : Type} : DbEvent β → Prop
  | .put _ _ inSpecial afterwards => inSpecial = .nil ∧ afterwards = .nil
  | .special _ link => link = .nil
  | .process link => link = .nil
  | .queued link => link = .nil

namespace LinkedEvent

variable {ι : Type}

/-- The record operated on. -/
def target : LinkedEvent ι → ι
  | put i _ => i
  | process i => i
  | queued i => i

/-- The operation, on a record by itself. -/
def toDbEvent : LinkedEvent ι → DbEvent Int32
  | put _ value => .put value none .nil .nil
  | process _ => .process .nil
  | queued _ => .queued .nil

theorem unlinked_toDbEvent (e : LinkedEvent ι) : e.toDbEvent.Unlinked := by
  cases e with
  | put i value => exact ⟨rfl, rfl⟩
  | process i | queued i => exact rfl

/-- The value put to a record. -/
def valueTo [DecidableEq ι] (k : ι) (e : LinkedEvent ι) : Option Int32 :=
  if e.target = k then e.toDbEvent.value else none

end LinkedEvent

namespace SimpleBusyRecord

variable {G : RecGbl} {s t : RecordState SimpleBusyRecord} {d : DbEvent Int32}

theorem onlyZero_of_unlinked (h : d.Unlinked) : EventOnlyZero d := by
  cases d with
  | put value notify inSpecial afterwards =>
    obtain ⟨rfl, rfl⟩ := h
    exact ⟨trivial, trivial⟩
  | special after link | process link | queued link =>
    obtain rfl : link = .nil := h
    exact trivial

/-- Processing leaves the fields as they are. -/
theorem fields_process_nil (s : RecordState SimpleBusyRecord) :
    (process (recGblFwdLink (simpleBusyRSET G) .nil) s).fields = s.fields := by
  unfold process
  split <;> rfl

theorem fields_special_nil (after : Bool) (s : RecordState SimpleBusyRecord) :
    (special after (recGblFwdLink (simpleBusyRSET G) .nil) s).fields = s.fields := by
  unfold special
  split
  · rfl
  · split
    · rfl
    · exact fields_process_nil s

theorem fields_dbProcess_nil (s : RecordState SimpleBusyRecord) :
    (dbProcess (simpleBusyRSET G) .nil s).fields = s.fields := by
  unfold dbProcess
  split
  · rfl
  · exact fields_process_nil s

/-- **Only a put changes the value.** -/
theorem val_step (hd : d.Unlinked) (h : (simpleBusyRSET G).step s d = some t) :
    t.fields.val = d.value.getD s.fields.val := by
  cases d with
  | put value notify inSpecial afterwards =>
    obtain ⟨rfl, rfl⟩ := hd
    obtain rfl := Option.some.inj h
    have hwritten : ∀ s, (written value (recGblFwdLink (simpleBusyRSET G) .nil) s).fields.val =
        value := fun s => congrArg SimpleBusyRecord.val (fields_special_nil true _)
    rw [putField_eq]
    split
    · exact hwritten _
    · exact (congrArg SimpleBusyRecord.val (fields_process_nil _)).trans (hwritten _)
  | special after link =>
    obtain rfl : link = .nil := hd
    obtain rfl := Option.some.inj h
    exact congrArg SimpleBusyRecord.val (fields_special_nil after s)
  | process link =>
    obtain rfl : link = .nil := hd
    obtain rfl := Option.some.inj h
    exact congrArg SimpleBusyRecord.val (fields_dbProcess_nil s)
  | queued link =>
    obtain rfl : link = .nil := hd
    simp only [Rset.step, Option.ite_none_left_eq_some, Option.some.injEq] at h
    obtain ⟨-, rfl⟩ := h
    exact congrArg SimpleBusyRecord.val (fields_dbProcess_nil _)

/-- The value is the one put last. -/
theorem val_of_run {fields : SimpleBusyRecord} {ds : List (DbEvent Int32)}
    (hds : ∀ d ∈ ds, d.Unlinked)
    (hrun : (database (simpleBusyRSET G) { fields }).run (initRecord G { fields }) ds = some s) :
    s.fields.val = (ds.filterMap DbEvent.value).getLast?.getD 0 := by
  refine EventMachine.run_history (M := database (simpleBusyRSET G) { fields })
    (I := fun ds s => (∀ d ∈ ds, d.Unlinked) →
      s.fields.val = (ds.filterMap DbEvent.value).getLast?.getD 0) ?_ ?_ hrun hds
  · intro _
    rfl
  · intro ds s d t ih hs hall
    have hval := ih fun d hd => hall d (List.mem_append_left _ hd)
    rw [val_step (hall d (by simp)) hs, hval, List.filterMap_append, List.getLast?_append]
    cases hd : d.value with
    | none => simp [hd]
    | some value => simp [hd]

end SimpleBusyRecord

/-! ### What processing does to each record -/

namespace LinkedRecords

open SimpleBusyRecord (initRecord Busy)

variable {ι : Type} [DecidableEq ι] {G : RecGbl} {w v : LinkedRecords ι} {i j k : ι} {depth : ℕ}
  {calls : List ι}

@[simp] theorem record_set_self (w : LinkedRecords ι) (i : ι) (s : RecordState SimpleBusyRecord) :
    (w.set i s).record i = s := Function.update_self ..

theorem record_set_of_ne (w : LinkedRecords ι) {i k : ι} (s : RecordState SimpleBusyRecord)
    (h : k ≠ i) : (w.set i s).record k = w.record k := Function.update_of_ne h ..

@[simp] theorem flnk_set (w : LinkedRecords ι) (i : ι) (s : RecordState SimpleBusyRecord) :
    (w.set i s).flnk = w.flnk := rfl

/-- The forward link of a record by itself. -/
abbrev unlinked (G : RecGbl) : RecordState SimpleBusyRecord → RecordState SimpleBusyRecord :=
  TestDatabase.recGblFwdLink (simpleBusyRSET G) .nil

/-- A scan of a record by itself. -/
abbrev scanned (G : RecGbl) : RecordState SimpleBusyRecord → RecordState SimpleBusyRecord :=
  TestDatabase.dbProcess (simpleBusyRSET G) .nil

/-- The records called are idle and have been scanned, and the others are left alone. -/
structure Drives (G : RecGbl) (w v : LinkedRecords ι) (calls : List ι) : Prop where
  flnk : v.flnk = w.flnk
  idle : ∀ k ∈ calls, (w.record k).pact = false
  record : ∀ k, v.record k = if k ∈ calls then scanned G (w.record k) else w.record k

theorem drives_nil : Drives G w w [] := ⟨rfl, by simp, by simp⟩

/-- What `recGblFwdLink` does, if what it drives leaves its record alone. -/
theorem recGblFwdLink_drives (h : recGblFwdLink (dbProcess depth) i w = some (v, calls))
    (hlink : ∀ j u, w.flnk i = some j → dbProcess depth j w = some (u, calls) →
      Drives G w u calls ∧ i ∉ calls) :
    ∃ u, Drives G w u calls ∧ i ∉ calls ∧ v = u.set i (w.record i).complete := by
  unfold recGblFwdLink at h
  cases hflnk : w.flnk i with
  | none =>
    simp only [hflnk, Option.map_some, Option.some.injEq, Prod.mk.injEq] at h
    obtain ⟨rfl, rfl⟩ := h
    exact ⟨w, drives_nil, by simp, rfl⟩
  | some j =>
    simp only [hflnk, Option.map_eq_some_iff] at h
    obtain ⟨⟨u, calls⟩, hproc, hv⟩ := h
    obtain ⟨rfl, rfl⟩ := Prod.ext_iff.mp hv
    obtain ⟨hdrives, hi⟩ := hlink j u hflnk hproc
    have hsame : u.record i = w.record i := by rw [hdrives.record, if_neg hi]
    exact ⟨u, hdrives, hi, by rw [hsame]⟩

/-- What `process` does, if what its forward link drives leaves its record alone. -/
theorem process_drives
    (h : process (recGblFwdLink (dbProcess depth) i) i w = some (v, calls))
    (hlink : ∀ j u others, (w.record i).fields.val = 0 → w.flnk i = some j →
      dbProcess depth j w = some (u, others) → Drives G w u others ∧ i ∉ others) :
    ∃ u others, calls = i :: others ∧ Drives G w u others ∧ i ∉ others ∧
      v = u.set i (SimpleBusyRecord.process (unlinked G) (w.record i)) := by
  unfold process at h
  by_cases hval : (w.record i).fields.val = 0
  · rw [if_neg (not_not_intro hval), Option.map_eq_some_iff] at h
    obtain ⟨⟨x, others⟩, hdriven, hv⟩ := h
    obtain ⟨rfl, rfl⟩ := Prod.ext_iff.mp hv
    obtain ⟨u, hdrives, hi, rfl⟩ := recGblFwdLink_drives hdriven fun j u => hlink j u others hval
    refine ⟨u, others, rfl, hdrives, hi, ?_⟩
    rw [SimpleBusyRecord.process_of_eq_zero hval]
    simp only [set, Function.update_self, Function.update_idem]
    rfl
  · rw [if_pos hval, Option.some.injEq, Prod.mk.injEq] at h
    obtain ⟨rfl, rfl⟩ := h
    refine ⟨w, [], rfl, drives_nil, by simp, ?_⟩
    rw [SimpleBusyRecord.process_of_ne_zero hval]

/-- Processing calls only records that the links reach. -/
theorem reaches_of_mem (h : dbProcess depth i w = some (v, calls)) (hk : k ∈ calls) :
    Reaches w.next i k := by
  induction depth generalizing i v calls with
  | zero => simp [dbProcess] at h
  | succ depth ih =>
    cases hnext : w.next i with
    | none =>
      obtain ⟨v', calls', hproc, -, hcalls⟩ := dbProcess_of_stop depth hnext
      obtain ⟨-, rfl⟩ := Prod.ext_iff.mp (Option.some.inj (h.symm.trans hproc))
      obtain rfl := hcalls k hk
      exact .refl k
    | some j =>
      rw [dbProcess_of_next hnext, Option.map_eq_some_iff] at h
      obtain ⟨⟨u, others⟩, hproc, hv⟩ := h
      obtain ⟨-, rfl⟩ := Prod.ext_iff.mp hv
      rcases List.mem_cons.mp hk with rfl | hk
      · exact .refl k
      · exact (ih hproc hk).head hnext

/-- What the forward link of a record drives to its end leaves the record alone. -/
theorem Drives.not_mem (h : Drives G w v calls) (hval : (w.record i).fields.val = 0)
    (hflnk : w.flnk i = some j) (hproc : dbProcess depth j w = some (v, calls)) : i ∉ calls := by
  intro hi
  have hnext : w.next i = some j := by rw [next, if_pos ⟨h.idle i hi, hval⟩, hflnk]
  have hends : Ends w.next i := .step hnext (ends_of_dbProcess hproc)
  -- the record would be on a cycle
  exact hends.not_onCycle (.refl i) ((onCycle_iff hnext).mpr (reaches_of_mem hproc hi))

/-- **What processing does to each record.**  It scans the records that it calls, and no other. -/
theorem drives_of_dbProcess (h : dbProcess depth i w = some (v, calls)) : Drives G w v calls := by
  induction depth generalizing i v calls with
  | zero => simp [dbProcess] at h
  | succ depth ih =>
    rw [dbProcess] at h
    cases hpact : (w.record i).pact with
    | true =>
      rw [if_pos hpact, Option.some.injEq, Prod.mk.injEq] at h
      obtain ⟨rfl, rfl⟩ := h
      exact drives_nil
    | false =>
      rw [if_neg (by rw [hpact]; exact Bool.false_ne_true)] at h
      obtain ⟨u, others, rfl, hdrives, hi, rfl⟩ := process_drives (G := G) h
        fun j u others hval hflnk hproc => ⟨ih hproc, (ih hproc : Drives G w u others).not_mem hval
          hflnk hproc⟩
      refine ⟨hdrives.flnk, ?_, fun k => ?_⟩
      · intro k hk
        rcases List.mem_cons.mp hk with rfl | hk
        · exact hpact
        · exact hdrives.idle k hk
      · by_cases hki : k = i
        · subst hki
          rw [record_set_self, if_pos List.mem_cons_self]
          exact (if_neg (by rw [hpact]; exact Bool.false_ne_true)).symm
        · rw [record_set_of_ne _ _ hki, hdrives.record]
          simp [hki]

/-! ### What an operation does to each record -/

variable {s t u : RecordState SimpleBusyRecord} {f g : RecordState SimpleBusyRecord →
  RecordState SimpleBusyRecord} {e : LinkedEvent ι}

/-- A record by itself. -/
abbrev alone (G : RecGbl) (fields : SimpleBusyRecord) :
    EventMachine (RecordState SimpleBusyRecord) (DbEvent Int32) :=
  database (simpleBusyRSET G) { fields }

/-- Operations on a record by itself, which put the values, lead from one state to another. -/
def LeadsTo (G : RecGbl) (values : List Int32) (s t : RecordState SimpleBusyRecord) : Prop :=
  ∃ ds, (∀ d ∈ ds, DbEvent.Unlinked d) ∧ ds.filterMap DbEvent.value = values ∧
    ∀ fields, (alone G fields).run s ds = some t

theorem LeadsTo.refl : LeadsTo G [] s s := ⟨[], by simp, rfl, fun _ => rfl⟩

theorem LeadsTo.trans {values values' : List Int32} (h : LeadsTo G values s t)
    (h' : LeadsTo G values' t u) : LeadsTo G (values ++ values') s u := by
  obtain ⟨ds, hds, hvalues, hrun⟩ := h
  obtain ⟨ds', hds', hvalues', hrun'⟩ := h'
  refine ⟨ds ++ ds', ?_, ?_, fun fields => ?_⟩
  · intro d hd
    exact (List.mem_append.mp hd).elim (hds d) (hds' d)
  · rw [List.filterMap_append, hvalues, hvalues']
  · exact EventMachine.run_append_eq_some.mpr ⟨t, hrun fields, hrun' fields⟩

/-- One operation. -/
theorem LeadsTo.of_step {d : DbEvent Int32} (hd : d.Unlinked)
    (h : (simpleBusyRSET G).step s d = some t) : LeadsTo G d.value.toList s t := by
  refine ⟨[d], by simpa using hd, ?_, fun fields => EventMachine.run_cons_eq_some.mpr ⟨t, h, rfl⟩⟩
  cases hvalue : d.value <;> simp [hvalue]

/-- A record that is processed has been scanned, or left alone. -/
theorem Drives.leadsTo (h : Drives G w v calls) (k : ι) : LeadsTo G [] (w.record k) (v.record k) := by
  rw [h.record]
  split
  · exact .of_step (d := .process .nil) rfl rfl
  · exact .refl

/-- An operation on record `i` that does `f` to it, and at most scans the others. -/
structure Operates (G : RecGbl) (i : ι) (f : RecordState SimpleBusyRecord → RecordState SimpleBusyRecord)
    (w v : LinkedRecords ι) : Prop where
  flnk : v.flnk = w.flnk
  self : v.record i = f (w.record i)
  other : ∀ k, k ≠ i → LeadsTo G [] (w.record k) (v.record k)

theorem operates_set (w : LinkedRecords ι) (i : ι) : Operates G i f w (w.set i (f (w.record i))) where
  flnk := rfl
  self := record_set_self ..
  other k hk := by
    rw [record_set_of_ne _ _ hk]
    exact .refl

omit [DecidableEq ι] in
theorem Operates.trans {x : LinkedRecords ι} (h : Operates G i f w v) (h' : Operates G i g v x) :
    Operates G i (g ∘ f) w x where
  flnk := h'.flnk.trans h.flnk
  self := h'.self.trans (congrArg g h.self)
  other k hk := (h.other k hk).trans (h'.other k hk)

theorem operates_of_process
    (h : process (recGblFwdLink (dbProcess depth) i) i w = some (v, calls)) :
    Operates G i (SimpleBusyRecord.process (unlinked G)) w v := by
  obtain ⟨u, others, -, hdrives, -, rfl⟩ := process_drives (G := G) h
    fun j u others hval hflnk hproc =>
      ⟨drives_of_dbProcess hproc, (drives_of_dbProcess (G := G) hproc).not_mem hval hflnk hproc⟩
  refine ⟨hdrives.flnk, record_set_self .., fun k hk => ?_⟩
  rw [record_set_of_ne _ _ hk]
  exact hdrives.leadsTo k

theorem operates_of_special {after : Bool}
    (h : special after (recGblFwdLink (dbProcess depth) i) i w = some (v, calls)) :
    Operates G i (SimpleBusyRecord.special after (unlinked G)) w v := by
  have hsame : SimpleBusyRecord.special after (unlinked G) (w.record i) = w.record i →
      Operates G i (SimpleBusyRecord.special after (unlinked G)) w w :=
    fun hself => ⟨rfl, hself.symm, fun _ _ => .refl⟩
  unfold special at h
  split at h
  · next hafter =>
    obtain ⟨rfl, -⟩ := Prod.ext_iff.mp (Option.some.inj h)
    exact hsame (if_pos hafter)
  · next hafter =>
    split at h
    · next hidle =>
      obtain ⟨rfl, -⟩ := Prod.ext_iff.mp (Option.some.inj h)
      exact hsame ((if_neg hafter).trans (if_pos hidle))
    · next hactive =>
      have hprocess := operates_of_process (G := G) h
      refine ⟨hprocess.flnk, hprocess.self.trans ?_, hprocess.other⟩
      exact ((if_neg hafter).trans (if_neg hactive)).symm

theorem operates_of_dbProcess (h : dbProcess depth i w = some (v, calls)) :
    Operates G i (scanned G) w v := by
  have hdrives := drives_of_dbProcess (G := G) h
  refine ⟨hdrives.flnk, ?_, fun k _ => hdrives.leadsTo k⟩
  cases depth with
  | zero => simp [dbProcess] at h
  | succ depth =>
    rw [dbProcess] at h
    split at h
    · next hactive =>
      obtain ⟨rfl, -⟩ := Prod.ext_iff.mp (Option.some.inj h)
      exact (if_pos hactive).symm
    · next hidle => exact (operates_of_process h).self.trans (if_neg hidle).symm

/-- **A put does to its record what it would do alone.** -/
theorem operates_of_putField {value : Int32} (h : putField depth i value w = some (v, calls)) :
    Operates G i (TestDatabase.putField (simpleBusyRSET G) value (unlinked G) (unlinked G)) w v := by
  simp only [putField, Option.bind_eq_bind, Option.bind_eq_some_iff, Prod.exists] at h
  obtain ⟨w₁, calls₁, hbefore, w₂, calls₂, hafter, h⟩ := h
  have hwritten := ((operates_of_special (G := G) hbefore).trans
    (operates_set (f := fun s => { s with fields.val := value }) w₁ i)).trans
    (operates_of_special hafter)
  split at h
  · next hactive =>
    obtain ⟨rfl, -⟩ := Prod.ext_iff.mp (Option.some.inj h)
    have hmarked := hwritten.trans (operates_set (f := fun s => { s with rpro := true }) w₂ i)
    refine ⟨hmarked.flnk, hmarked.self.trans ?_, hmarked.other⟩
    rw [hwritten.self] at hactive
    exact (if_pos hactive).symm
  · next hidle =>
    simp only [Option.bind_eq_some_iff, Prod.exists] at h
    obtain ⟨w₃, calls₃, hprocess, h⟩ := h
    obtain ⟨rfl, -⟩ := Prod.ext_iff.mp (Option.some.inj h)
    have hprocessed := hwritten.trans (operates_of_process hprocess)
    refine ⟨hprocessed.flnk, hprocessed.self.trans ?_, hprocessed.other⟩
    rw [hwritten.self] at hidle
    exact (if_neg hidle).symm

/-- **A step is an operation on one record, and scans of others.** -/
theorem step_operates (h : step depth w e = some v) :
    v.flnk = w.flnk ∧
    (simpleBusyRSET G).step (w.record e.target) e.toDbEvent = some (v.record e.target) ∧
    ∀ k, k ≠ e.target → LeadsTo G [] (w.record k) (v.record k) := by
  cases e with
  | put i value =>
    obtain ⟨⟨v, calls⟩, hput, rfl⟩ := Option.map_eq_some_iff.mp h
    have hput := operates_of_putField (G := G) hput
    exact ⟨hput.flnk, congrArg some hput.self.symm, hput.other⟩
  | process i =>
    obtain ⟨⟨v, calls⟩, hproc, rfl⟩ := Option.map_eq_some_iff.mp h
    have hproc := operates_of_dbProcess (G := G) hproc
    exact ⟨hproc.flnk, congrArg some hproc.self.symm, hproc.other⟩
  | queued i =>
    simp only [step, Option.ite_none_left_eq_some, Option.map_eq_some_iff] at h
    obtain ⟨hqueued, ⟨v, calls⟩, hproc, rfl⟩ := h
    have hproc := (operates_set (G := G) (f := fun s => { s with queued := s.queued - 1 }) w i).trans
      (operates_of_dbProcess hproc)
    exact ⟨hproc.flnk, (if_neg hqueued).trans (congrArg some hproc.self.symm), hproc.other⟩

theorem step_leadsTo (h : step depth w e = some v) (k : ι) :
    LeadsTo G (e.valueTo k).toList (w.record k) (v.record k) := by
  obtain ⟨-, hself, hother⟩ := step_operates (G := G) h
  unfold LinkedEvent.valueTo
  split
  · next htarget =>
    subst htarget
    exact .of_step e.unlinked_toDbEvent hself
  · next htarget => exact hother k (Ne.symm htarget)

variable {fields : ι → SimpleBusyRecord} {flnk : ι → Option ι} {es : List (LinkedEvent ι)}

/-- What a run does to a record. -/
theorem run_leadsTo
    (hrun : (linkedDatabase G depth fields flnk).run (linkedDatabase G depth fields flnk).init es =
      some w) (k : ι) :
    LeadsTo G (es.filterMap (LinkedEvent.valueTo k)) (initRecord G { fields := fields k })
      (w.record k) := by
  refine EventMachine.run_history (M := linkedDatabase G depth fields flnk)
    (I := fun es w => LeadsTo G (es.filterMap (LinkedEvent.valueTo k))
      (initRecord G { fields := fields k }) (w.record k)) .refl ?_ hrun
  intro es w e v ih hs
  rw [List.filterMap_append]
  have hstep := step_leadsTo (G := G) hs k
  cases hvalue : e.valueTo k <;> simpa [hvalue] using ih.trans hstep

/-- **Each record does what it would do alone.**  In every run of linked records, whatever their
links, a record goes through the puts to it, in order, and scans and queued processing in
which it is not linked.  It is active exactly while its value is not zero, and its value is
the one put to it last. -/
theorem record_runs_alone
    (hrun : (linkedDatabase G depth fields flnk).run (linkedDatabase G depth fields flnk).init es =
      some w) (k : ι) :
    (∃ ds, (∀ d ∈ ds, DbEvent.Unlinked d) ∧
      ds.filterMap DbEvent.value = es.filterMap (LinkedEvent.valueTo k) ∧
      (alone G (fields k)).run (alone G (fields k)).init ds = some (w.record k)) ∧
    Busy (w.record k) ∧
    (w.record k).fields.val = (es.filterMap (LinkedEvent.valueTo k)).getLast?.getD 0 := by
  obtain ⟨ds, hds, hvalues, hruns⟩ := run_leadsTo hrun k
  have halone := hruns (fields k)
  refine ⟨⟨ds, hds, hvalues, halone⟩, ?_, ?_⟩
  · exact SimpleBusyRecord.busy_of_onlyZero (EventMachine.reachableVia_of_run
      (A := SimpleBusyRecord.EventOnlyZero) halone fun d hd =>
        SimpleBusyRecord.onlyZero_of_unlinked (hds d hd))
  · rw [← hvalues]
    exact SimpleBusyRecord.val_of_run hds halone

/-- Two records that are linked to each other.  The second one is busy when the first is
scanned, and stays so. -/
theorem record_runs_alone_pair :
    ∃ w, (linkedDatabase .base 2 (fun _ => {}) (some ∘ not)).run
        (linkedDatabase .base 2 (fun _ => {}) (some ∘ not)).init
        [.put true 3, .process false, .put false 0] = some w ∧
      (w.record true).fields.val = 3 ∧ Busy (w.record true) := by
  obtain ⟨w, hrun⟩ := Option.isSome_iff_exists.mp (by decide +kernel :
    ((linkedDatabase .base 2 (fun _ => {}) (some ∘ not)).run
      (linkedDatabase .base 2 (fun _ => {}) (some ∘ not)).init
      [.put true 3, .process false, .put false 0]).isSome = true)
  obtain ⟨-, hbusy, hval⟩ := record_runs_alone hrun true
  exact ⟨w, hrun, hval, hbusy⟩

/-! ### Whether operations come to their end -/

/-- A queued processing has been queued. -/
def Enabled (w : LinkedRecords ι) : LinkedEvent ι → Prop
  | .queued i => (w.record i).queued ≠ 0
  | _ => True

/-- Links that end are driven to their end, given as many nested calls as there are records to
reach. -/
theorem dbProcess_of_ncard_le [Finite ι] (hflnk : ∀ i, ¬ OnCycle w.flnk i)
    (hdepth : {k | Reaches w.flnk i k}.ncard ≤ depth) :
    ∃ v calls, dbProcess depth i w = some (v, calls) := by
  induction depth generalizing i with
  | zero =>
    -- a record reaches itself
    have hpos : 0 < {k | Reaches w.flnk i k}.ncard :=
      (Set.ncard_pos (Set.toFinite _)).mpr ⟨i, .refl i⟩
    omega
  | succ depth ih =>
    cases hnext : w.next i with
    | none =>
      obtain ⟨v, calls, hproc, -⟩ := dbProcess_of_stop depth hnext
      exact ⟨v, calls, hproc⟩
    | some j =>
      have hij : w.flnk i = some j := (Option.ite_none_right_eq_some.mp hnext).2
      have hlt := ncard_reaches_lt hij (hflnk i)
      obtain ⟨v, calls, hproc⟩ := ih (i := j) (by omega)
      rw [dbProcess_of_next hnext, hproc]
      exact ⟨_, _, rfl⟩

/-- Operations have this many nested calls and no cycle of links to follow. -/
structure Enough (depth : ℕ) (w : LinkedRecords ι) : Prop where
  acyclic : ∀ i, ¬ OnCycle w.flnk i
  card : Nat.card ι ≤ depth

omit [DecidableEq ι] in
theorem Enough.of_operates (h : w.Enough depth) (hop : Operates G i f w v) : v.Enough depth :=
  ⟨hop.flnk ▸ h.acyclic, h.card⟩

section enough
variable [Finite ι]

theorem Enough.dbProcess (h : w.Enough depth) (i : ι) :
    ∃ v calls, LinkedRecords.dbProcess depth i w = some (v, calls) :=
  dbProcess_of_ncard_le h.acyclic ((Set.ncard_le_card _).trans h.card)

theorem Enough.process (h : w.Enough depth) (i : ι) :
    ∃ v calls,
      LinkedRecords.process (recGblFwdLink (LinkedRecords.dbProcess depth) i) i w = some (v, calls) := by
  unfold LinkedRecords.process recGblFwdLink
  split
  · exact ⟨_, _, rfl⟩
  · cases hflnk : w.flnk i with
    | none => exact ⟨_, _, rfl⟩
    | some j =>
      obtain ⟨v, calls, hproc⟩ := h.dbProcess j
      simp only [hproc]
      exact ⟨_, _, rfl⟩

theorem Enough.special (h : w.Enough depth) (after : Bool) (i : ι) :
    ∃ v calls, LinkedRecords.special after (recGblFwdLink (LinkedRecords.dbProcess depth) i) i w =
      some (v, calls) := by
  unfold LinkedRecords.special
  split
  · exact ⟨_, _, rfl⟩
  · split
    · exact ⟨_, _, rfl⟩
    · exact h.process i

theorem Enough.putField (h : w.Enough depth) (i : ι) (value : Int32) :
    ∃ v calls, LinkedRecords.putField depth i value w = some (v, calls) := by
  obtain ⟨w₁, calls₁, hbefore⟩ := h.special false i
  have h₁ : (w₁.set i { w₁.record i with fields.val := value }).Enough depth :=
    (h.of_operates (operates_of_special (G := .base) hbefore)).of_operates
      (operates_set (G := .base) (f := fun s => { s with fields.val := value }) w₁ i)
  obtain ⟨w₂, calls₂, hafter⟩ := h₁.special true i
  obtain ⟨w₃, calls₃, hprocess⟩ := (h₁.of_operates (operates_of_special (G := .base) hafter)).process i
  simp only [LinkedRecords.putField, hbefore, hafter, hprocess, Option.bind_eq_bind,
    Option.bind_some]
  split
  · exact ⟨_, _, rfl⟩
  · exact ⟨_, _, rfl⟩

/-- Without cycles whatever can be begun comes to its end. -/
theorem Enough.step (h : w.Enough depth) (he : w.Enabled e) :
    ∃ v, LinkedRecords.step depth w e = some v := by
  cases e with
  | put i value =>
    obtain ⟨v, calls, hput⟩ := h.putField i value
    exact ⟨v, by rw [LinkedRecords.step, hput, Option.map_some]⟩
  | process i =>
    obtain ⟨v, calls, hproc⟩ := h.dbProcess i
    exact ⟨v, by rw [LinkedRecords.step, hproc, Option.map_some]⟩
  | queued i =>
    have hunqueued : (w.set i { w.record i with queued := (w.record i).queued - 1 }).Enough depth :=
      ⟨h.acyclic, h.card⟩
    obtain ⟨v, calls, hproc⟩ := hunqueued.dbProcess i
    refine ⟨v, ?_⟩
    simp only [LinkedRecords.step]
    rw [if_neg he, hproc, Option.map_some]

end enough

/-- **When operations come to their end.**  Among finitely many records there is a bound on the
nested calls with which, in every state of every run, every operation comes to its end,
exactly if no record is on a cycle of forward links. -/
theorem operations_terminate_iff [Finite ι] (G : RecGbl) (fields : ι → SimpleBusyRecord)
    (flnk : ι → Option ι) :
    (∃ depth, ∀ w, (linkedDatabase G depth fields flnk).Reachable w → ∀ e, w.Enabled e →
      ∃ v, step depth w e = some v) ↔ ∀ i, ¬ OnCycle flnk i := by
  constructor
  · rintro ⟨depth, hall⟩ i
    obtain ⟨v, hv⟩ := hall _ .init (.process i) trivial
    obtain ⟨⟨v, calls⟩, hproc, -⟩ := Option.map_eq_some_iff.mp hv
    -- to begin with all records are idle and have the value zero
    have hnext : ((linkedDatabase G depth fields flnk).init).next = flnk := by
      funext k
      exact if_pos ⟨by simp [linkedDatabase, initRecord, G.resetAlarms_eq], rfl⟩
    exact hnext ▸ (ends_of_dbProcess hproc).not_onCycle (.refl i)
  · intro hcycle
    refine ⟨Nat.card ι, fun w hw e he => ?_⟩
    have hflnk : w.flnk = flnk := by
      refine hw.invariant (I := fun w => w.flnk = flnk) rfl ?_
      intro w e v hw _ hs
      have hstep : step (Nat.card ι) w e = some v := hs
      exact (step_operates (G := G) hstep).1.trans hw
    exact Enough.step ⟨hflnk ▸ hcycle, le_rfl⟩ he

/-- The first of two records is linked to the second. -/
def toSecond : Bool → Option Bool
  | false => some true
  | true => none

theorem operations_terminate_toSecond :
    ∃ depth, ∀ w, (linkedDatabase .base depth (fun _ => {}) toSecond).Reachable w →
      ∀ e, w.Enabled e → ∃ v, step depth w e = some v := by
  refine (operations_terminate_iff .base (fun _ => {}) _).mpr ?_
  intro i
  cases i with
  | true => exact not_onCycle_of_stop rfl
  | false =>
    intro h
    have hlink : toSecond false = some true := rfl
    have hback : Reaches toSecond true false := (onCycle_iff hlink).mp h
    rcases Relation.ReflTransGen.cases_head hback with h | ⟨k, hk, -⟩
    · exact Bool.noConfusion h
    · exact absurd hk (by simp [toSecond])

end LinkedRecords

end TestDatabase
