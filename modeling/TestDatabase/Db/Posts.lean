import TestDatabase.Db.Widening
import TestDatabase.Db.SimpleBusy

/-!
# What monitors are sent

`process` posts an event for VAL, with DBE_VALUE in its mask and, in the output records, with
what `recGblResetAlarms` returns.  A client that monitors the record knows no more of it than
the last event it was sent.

The records of the other modules leave these events out.  Here they are put back, and the records
are compared with those without: posting changes nothing else.  What is posted is enough.  A
simpleBusy record posts before it drives its forward link, and the link may put to the record and
process it again, to any depth; but every value that is put, by a client or by a link, is posted
before the put returns.

VAL is taken to be a field whose puts process a passive record.  A put writes the field, calls
`special`, and processes the record unless it is active.

## Main definitions

* `Shown`, `Post` — what a client sees of a record, and what is posted.
* `dbPostEvents` — post an event for VAL.
* `SimpleBusyRecord.postingRSET`, `OutRecord.postingRSET` — the record support that posts.
* `Informs` — what was posted between two states keeps a monitor informed, and what was put is
  posted.

## Main results

* `Informs.trans` — posts one after the other keep it informed.
* `monitors_informed` — **a monitor shows the record, and every put is posted.**
* `posting_run` — the records that post go through the runs of those that do not.
-/

namespace TestDatabase

variable {α β : Type}

/-- What a client sees of a record: its value and its alarm. -/
structure Shown (β : Type) where
  value : β
  stat : AlarmCondition
  sevr : MenuAlarmSevr
  deriving DecidableEq, Repr

/-- The status and the severity of the alarm. -/
def Shown.alarm (a : Shown β) : AlarmCondition × MenuAlarmSevr := (a.stat, a.sevr)

/-- An event posted for VAL.  Its mask has DBE_VALUE, and may have DBE_ALARM. -/
structure Post (β : Type) extends Shown β where
  dbeAlarm : Bool
  deriving DecidableEq, Repr

/-- The fields of a record, the values put to VAL by clients and links, and the events posted for
VAL, the latest one last. -/
structure Posting (α β : Type) where
  record : α
  written : List β := []
  posted : List (Post β) := []
  deriving DecidableEq, Repr

/-- The record without the events. -/
abbrev RecordState.record (s : RecordState (Posting α β)) : RecordState α := s.map Posting.record

/-- What a client reads of a record, `val` being its field VAL. -/
def RecordState.shown (val : α → β) (s : RecordState (Posting α β)) : Shown β where
  value := val s.fields.record
  stat := s.stat
  sevr := s.sevr

/-- `db_post_events` for VAL: the events hold the value and the alarm as they are. -/
def dbPostEvents (val : α → β) (dbeAlarm : Bool) (s : RecordState (Posting α β)) :
    RecordState (Posting α β) :=
  { s with fields.posted := s.fields.posted ++ [{ s.shown val with dbeAlarm }] }

/-- The alarm routines, with the mask that `recGblResetAlarms` returns. -/
structure PostingGbl extends RecGbl where
  /-- The mask has DBE_ALARM. -/
  dbeAlarm : DbCommon → Bool
  /-- It has if the alarm changes. -/
  dbeAlarm_of_ne : ∀ c : DbCommon, (c.stat, c.sevr) ≠ (c.nsta, c.nsev) → dbeAlarm c = true

/-- The alarm routines, with the mask as a function of the modelled fields. -/
def PostingGbl.base : PostingGbl where
  toRecGbl := .base
  dbeAlarm c := decide ((c.stat, c.sevr) ≠ (c.nsta, c.nsev))
  dbeAlarm_of_ne _ h := decide_eq_true h

/-! ### Record support that posts -/

namespace SimpleBusyRecord

/-- `process`. -/
def postingProcess
    (link : RecordState (Posting SimpleBusyRecord Int32) →
      RecordState (Posting SimpleBusyRecord Int32))
    (s : RecordState (Posting SimpleBusyRecord Int32)) :
    RecordState (Posting SimpleBusyRecord Int32) :=
  let s := dbPostEvents val false s
  if s.fields.record.val ≠ 0 then { s with pact := true }
  else { link s with pact := false }

/-- `special`. -/
def postingSpecial (after : Bool)
    (link : RecordState (Posting SimpleBusyRecord Int32) →
      RecordState (Posting SimpleBusyRecord Int32))
    (s : RecordState (Posting SimpleBusyRecord Int32)) :
    RecordState (Posting SimpleBusyRecord Int32) :=
  if after = false then s
  else if s.pact = false then s
  else postingProcess link s

/-- The record support entry table. -/
def postingRSET (G : RecGbl) : Rset (Posting SimpleBusyRecord Int32) Int32 where
  initRecord s := (initRecord G s.record).map fun record => { s.fields with record }
  process := postingProcess
  special := postingSpecial
  putVal r value := { r with record.val := value, written := r.written ++ [value] }

end SimpleBusyRecord

namespace OutRecord

variable {F : Type} [LT F] [DecidableLT F] [DecidableEq F] [FieldType F]

/-- `process`. -/
def postingProcess (G : PostingGbl)
    (_link : RecordState (Posting (OutRecord F) F) → RecordState (Posting (OutRecord F) F))
    (s : RecordState (Posting (OutRecord F) F)) : RecordState (Posting (OutRecord F) F) :=
  let t := checkAlarms G.toRecGbl { s.record with fields := s.fields.record.clamped }
  let monitor_mask := G.dbeAlarm t.toDbCommon
  let t := { t with toDbCommon := G.recGblResetAlarms t.toDbCommon }
  let t := dbPostEvents val monitor_mask (t.map fun record => { s.fields with record })
  { t with pact := false }

/-- The record support entry table. -/
def postingRSET (G : PostingGbl) (F : Type) [LT F] [DecidableLT F] [DecidableEq F] [FieldType F] :
    Rset (Posting (OutRecord F) F) F where
  initRecord s := (initRecord G.toRecGbl s.record).map fun record => { s.fields with record }
  process := postingProcess G
  putVal r value := { r with record.val := value, written := r.written ++ [value] }

end OutRecord

/-! ### What was posted -/

/-- What a monitor shows that began with `a` and was sent these events. -/
def monitored (a : Shown β) (events : List (Post β)) : Shown β :=
  events.foldl (fun _ post => post.toShown) a

theorem monitored_append (a : Shown β) (events events' : List (Post β)) :
    monitored a (events ++ events') = monitored (monitored a events) events' :=
  List.foldl_append

/-- The alarm shown depends on the alarm it began with only. -/
theorem alarm_monitored {a b : Shown β} (h : a.alarm = b.alarm) (events : List (Post β)) :
    (monitored a events).alarm = (monitored b events).alarm := by
  cases events with
  | nil => exact h
  | cons post events => rfl

/-- Between two states of a record these events were posted, and these values put.  The events for
DBE_VALUE inform of what is shown, those for DBE_ALARM of the alarm.  Every value put is posted as
`f` has it, and `puts` are among them. -/
structure Informed (val : α → β) (f : β → β) (puts : List β) (s t : RecordState (Posting α β))
    (events : List (Post β)) (values : List β) : Prop where
  posted : t.fields.posted = s.fields.posted ++ events
  written : t.fields.written = s.fields.written ++ values
  shown : monitored (s.shown val) events = t.shown val
  alarm : (monitored (s.shown val) (events.filter Post.dbeAlarm)).alarm = (t.shown val).alarm
  puts : puts.Sublist values
  told : (values.map f).Sublist (events.map fun post => post.value)

/-- What was posted between two states of a record keeps a monitor informed. -/
def Informs (val : α → β) (f : β → β) (puts : List β) (s t : RecordState (Posting α β)) : Prop :=
  ∃ events values, Informed val f puts s t events values

namespace Informs

variable {val : α → β} {f : β → β} {puts puts' : List β} {s t u w : RecordState (Posting α β)}

/-- Nothing need be posted where nothing changes that is shown. -/
theorem of_shown (hposted : t.fields.posted = s.fields.posted)
    (hwritten : t.fields.written = s.fields.written) (h : s.shown val = t.shown val) :
    Informs val f [] s t :=
  ⟨[], [], by rw [hposted, List.append_nil], by rw [hwritten, List.append_nil], h,
    congrArg Shown.alarm h, List.Sublist.refl _, List.Sublist.refl _⟩

/-- **One after the other.** -/
theorem trans (h : Informs val f puts s t) (h' : Informs val f puts' t u) :
    Informs val f (puts ++ puts') s u := by
  obtain ⟨events, values, h⟩ := h
  obtain ⟨events', values', h'⟩ := h'
  refine ⟨events ++ events', values ++ values', ?_, ?_, ?_, ?_, h.puts.append h'.puts, ?_⟩
  · rw [h'.posted, h.posted, List.append_assoc]
  · rw [h'.written, h.written, List.append_assoc]
  · rw [monitored_append, h.shown, h'.shown]
  · -- monitors of the alarm may show another value, but do show the alarm
    rw [List.filter_append, monitored_append, ← h'.alarm]
    exact alarm_monitored h.alarm _
  · rw [List.map_append, List.map_append]
    exact h.told.append h'.told

/-- Fewer puts. -/
theorem of_sublist (h : Informs val f puts s t) (hputs : puts'.Sublist puts) :
    Informs val f puts' s t := by
  obtain ⟨events, values, h⟩ := h
  exact ⟨events, values, { h with puts := hputs.trans h.puts }⟩

theorem trans_right (h : Informs val f [] s t) (h' : Informs val f puts t u) :
    Informs val f puts s u :=
  h.trans h'

theorem trans_left (h : Informs val f puts s t) (h' : Informs val f puts' t u) :
    Informs val f puts s u :=
  (h.trans h').of_sublist (List.sublist_append_left _ _)

/-- **One event** informs of whatever changed since the one before, if it holds what was put
meanwhile, and its mask has DBE_ALARM where the alarm changed. -/
theorem post {dbeAlarm : Bool} (hposted : w.fields.posted = s.fields.posted)
    (hwritten : w.fields.written = s.fields.written ++ puts)
    (hputs : (puts.map f).Sublist [val w.fields.record])
    (halarm : (s.shown val).alarm ≠ (w.shown val).alarm → dbeAlarm = true) :
    Informs val f puts s (dbPostEvents val dbeAlarm w) := by
  refine ⟨[{ w.shown val with dbeAlarm }], puts, ?_, hwritten, rfl, ?_, List.Sublist.refl _, hputs⟩
  · rw [← hposted]
    rfl
  · cases dbeAlarm with
    | true => rfl
    | false =>
      have hsame : (s.shown val).alarm = (w.shown val).alarm := by
        by_contra hne
        exact Bool.noConfusion (halarm hne)
      exact hsame

end Informs

/-- The value that an operation puts. -/
def DbEvent.puts : DbEvent β → List β
  | .put value _ _ _ => [value]
  | _ => []

/-- **The run rule.**  What every operation posts keeps a monitor informed along a run. -/
theorem informs_run {val : α → β} {rset : Rset (Posting α β) β} {s₀ : RecordState (Posting α β)}
    {I : RecordState (Posting α β) → Prop} {f : β → β}
    (hstep : ∀ s e t, I s → rset.step s e = some t → I t ∧ Informs val f e.puts s t)
    {s t : RecordState (Posting α β)} {es : List (DbEvent β)} (hs : I s)
    (hrun : (database rset s₀).run s es = some t) :
    Informs val f (es.flatMap DbEvent.puts) s t := by
  induction es generalizing s with
  | nil =>
    obtain rfl := Option.some.inj hrun
    exact Informs.of_shown rfl rfl rfl
  | cons e es ih =>
    obtain ⟨u, hu, hrun⟩ := EventMachine.run_cons_eq_some.mp hrun
    obtain ⟨hI, hinforms⟩ := hstep s e u hs hu
    rw [List.flatMap_cons]
    exact hinforms.trans (ih hI hrun)

/-! ### simpleBusy -/

namespace SimpleBusyRecord

variable {G : RecGbl} {s w : RecordState (Posting SimpleBusyRecord Int32)}
  {link afterwards : RecordState (Posting SimpleBusyRecord Int32) →
    RecordState (Posting SimpleBusyRecord Int32)}

/-- `process` posts what was written, before it does anything else. -/
theorem informs_process {puts : List Int32} (hlink : ∀ s, Informs val id [] s (link s))
    (hposted : w.fields.posted = s.fields.posted)
    (hwritten : w.fields.written = s.fields.written ++ puts)
    (hputs : puts.Sublist [w.fields.record.val])
    (halarm : (s.shown val).alarm = (w.shown val).alarm) :
    Informs val id puts s (postingProcess link w) := by
  have hpost : Informs val id puts s (dbPostEvents val false w) :=
    Informs.post hposted hwritten (puts.map_id.symm ▸ hputs) fun hne => absurd halarm hne
  unfold postingProcess
  simp only
  split
  · exact hpost.trans_left (Informs.of_shown rfl rfl rfl)
  · exact (hpost.trans_left (hlink _)).trans_left (Informs.of_shown rfl rfl rfl)

/-- Nothing was written. -/
theorem informs_reprocess (hlink : ∀ s, Informs val id [] s (link s))
    (s : RecordState (Posting SimpleBusyRecord Int32)) :
    Informs val id [] s (postingProcess link s) :=
  informs_process hlink rfl (List.append_nil _).symm (List.nil_sublist _) rfl

/-- **A put** is posted, in `special` or after it. -/
theorem informs_putField (hlink : ∀ s, Informs val id [] s (link s))
    (hafterwards : ∀ s, Informs val id [] s (afterwards s)) (value : Int32) :
    Informs val id [value] s (putField (postingRSET G) value link afterwards s) := by
  let written : RecordState (Posting SimpleBusyRecord Int32) :=
    { s with fields := (postingRSET G).putVal s.fields value }
  have hwritten : ∀ link', (∀ s, Informs val id [] s (link' s)) →
      Informs val id [value] s (postingProcess link' written) :=
    fun link' hlink' => informs_process hlink' rfl rfl (List.Sublist.refl _) rfl
  have hput : putField (postingRSET G) value link afterwards s =
      if (postingSpecial true link written).pact
      then { postingSpecial true link written with rpro := true }
      else postingProcess afterwards (postingSpecial true link written) := rfl
  rw [hput]
  cases hpact : s.pact with
  | false =>
    have hspecial : postingSpecial true link written = written := by
      rw [postingSpecial, if_neg (by decide), if_pos hpact]
    rw [hspecial, if_neg (by simp [written, hpact])]
    exact hwritten afterwards hafterwards
  | true =>
    have hspecial : postingSpecial true link written = postingProcess link written := by
      rw [postingSpecial, if_neg (by decide), if_neg (by simp [written, hpact])]
    rw [hspecial]
    have hinforms := hwritten link hlink
    split
    · exact hinforms.trans_left (Informs.of_shown rfl rfl rfl)
    · exact hinforms.trans_left (informs_reprocess hafterwards _)

/-- Whatever a forward link drives, at any depth, is posted. -/
theorem informs_drive (link : Chain Int32) (s : RecordState (Posting SimpleBusyRecord Int32)) :
    Informs val id [] s (link.drive (postingRSET G) s) := by
  induction link generalizing s with
  | nil => exact Informs.of_shown rfl rfl rfl
  | put value inSpecial afterwards rest ihSpecial ihAfter ihRest =>
    have hput : Informs val id [value] s _ := informs_putField (G := G)
      (fun s => (ihSpecial s).trans (Informs.of_shown (t := RecordState.complete _) rfl rfl rfl))
      (fun s => (ihAfter s).trans (Informs.of_shown (t := RecordState.complete _) rfl rfl rfl)) value
    exact (hput.of_sublist (List.nil_sublist _)).trans (ihRest _)

theorem informs_recGblFwdLink (link : Chain Int32)
    (s : RecordState (Posting SimpleBusyRecord Int32)) :
    Informs val id [] s (recGblFwdLink (postingRSET G) link s) :=
  (informs_drive link s).trans (Informs.of_shown rfl rfl rfl)

theorem informs_dbProcess (link : Chain Int32) :
    Informs val id [] s (dbProcess (postingRSET G) link s) := by
  unfold dbProcess
  split
  · exact Informs.of_shown rfl rfl rfl
  · exact informs_reprocess (informs_recGblFwdLink link) s

/-- Every operation keeps a monitor informed. -/
theorem informs_step {e : DbEvent Int32} {t : RecordState (Posting SimpleBusyRecord Int32)}
    (h : (postingRSET G).step s e = some t) : Informs val id e.puts s t := by
  cases e with
  | put value notify inSpecial afterwards =>
    obtain rfl := Option.some.inj h
    have hwaits : Informs val id [] s { s with waiting := notify.toList ++ s.waiting } :=
      Informs.of_shown rfl rfl rfl
    exact hwaits.trans (informs_putField (informs_recGblFwdLink inSpecial)
      (informs_recGblFwdLink afterwards) value)
  | special after link =>
    obtain rfl := Option.some.inj h
    show Informs val id [] s (postingSpecial after _ s)
    unfold postingSpecial
    split
    · exact Informs.of_shown rfl rfl rfl
    split
    · exact Informs.of_shown rfl rfl rfl
    · exact informs_reprocess (informs_recGblFwdLink link) s
  | process link =>
    obtain rfl := Option.some.inj h
    exact informs_dbProcess link
  | queued link =>
    simp only [Rset.step, Option.ite_none_left_eq_some, Option.some.injEq] at h
    obtain ⟨-, rfl⟩ := h
    have hqueued : Informs val id [] s { s with queued := s.queued - 1 } := Informs.of_shown rfl rfl rfl
    exact hqueued.trans (informs_dbProcess link)

end SimpleBusyRecord

/-! ### The output records -/

namespace OutRecord

section checkAlarms

variable {F : Type} [FieldType F] {G : RecGbl} {s : RecordState (OutRecord F)}

/-- The two states differ in the new alarm and in LALM only. -/
def SameShown (s t : RecordState (OutRecord F)) : Prop :=
  ∃ nsta nsev lalm, t = { s with nsta, nsev, fields.lalm := lalm }

theorem sameShown_raise (stat : AlarmCondition) (asev : MenuAlarmSevr) (alev : Int32) :
    SameShown s (raise G stat asev alev s) := by
  unfold raise
  by_cases hlt : s.nsev < asev
  · rw [G.setSevr_of_lt _ _ _ hlt]
    exact ⟨stat, asev, _, rfl⟩
  · rw [G.setSevr_of_not_lt _ _ _ hlt]
    exact ⟨_, _, _, rfl⟩

theorem sameShown_checkAlarms : SameShown s (checkAlarms G s) := by
  unfold checkAlarms
  split
  · by_cases hlt : s.nsev < s.udfs
    · rw [G.setSevr_of_lt _ _ _ hlt]
      exact ⟨.udf, s.udfs, _, rfl⟩
    · rw [G.setSevr_of_not_lt _ _ _ hlt]
      exact ⟨_, _, _, rfl⟩
  simp only
  split
  · exact sameShown_raise _ _ _
  split
  · exact sameShown_raise _ _ _
  split
  · exact sameShown_raise _ _ _
  split
  · exact sameShown_raise _ _ _
  · exact ⟨_, _, _, rfl⟩

end checkAlarms

variable {F : Type} [LT F] [DecidableLT F] [DecidableEq F] [FieldType F] {G : PostingGbl}
  {r : OutRecord F} {s t w : RecordState (Posting (OutRecord F) F)}
  {link : RecordState (Posting (OutRecord F) F) → RecordState (Posting (OutRecord F) F)}

/-- What a record makes of a value that is put. -/
def clampedVal (r : OutRecord F) (value : F) : F := ({ r with val := value } : OutRecord F).clamped.val

/-- A record that is idle and has the drive limits of `r`. -/
structure Clamping (r : OutRecord F) (s : RecordState (Posting (OutRecord F) F)) : Prop where
  pact : s.pact = false
  drvh : s.fields.record.drvh = r.drvh
  drvl : s.fields.record.drvl = r.drvl

omit [FieldType F] in
/-- The clamped value, by the limits and the value only. -/
theorem val_clamped (r : OutRecord F) : r.clamped.val =
    if r.drvh ≠ r.drvl then
      if (if r.val > r.drvh then r.drvh else r.val) < r.drvl then r.drvl
      else if r.val > r.drvh then r.drvh else r.val
    else r.val := by
  unfold clamped
  by_cases hdrive : r.drvh ≠ r.drvl
  · rw [if_pos hdrive, if_pos hdrive]
    by_cases hhigh : r.val > r.drvh
    · simp only [hhigh, if_true]
      split <;> rfl
    · simp only [hhigh, if_false]
      split <;> rfl
  · rw [if_neg hdrive, if_neg hdrive]

omit [FieldType F] in
theorem Clamping.clampedVal_eq (h : Clamping r s) (value : F) :
    s.fields.record.clampedVal value = r.clampedVal value := by
  rw [clampedVal, clampedVal, val_clamped, val_clamped, h.drvh, h.drvl]

/-- `process` posts the record with the clamped value, and with DBE_ALARM if the alarm is
another than before. -/
theorem postingProcess_eq
    (link : RecordState (Posting (OutRecord F) F) → RecordState (Posting (OutRecord F) F))
    (w : RecordState (Posting (OutRecord F) F)) :
    ∃ t dbeAlarm, postingProcess G link w = { dbPostEvents val dbeAlarm t with pact := false } ∧
      t.fields.posted = w.fields.posted ∧ t.fields.written = w.fields.written ∧
      t.fields.record.val = w.fields.record.clamped.val ∧
      t.fields.record.drvh = w.fields.record.drvh ∧ t.fields.record.drvl = w.fields.record.drvl ∧
      ((w.shown val).alarm ≠ (t.shown val).alarm → dbeAlarm = true) := by
  obtain ⟨nsta, nsev, lalm, hchecked⟩ :=
    sameShown_checkAlarms (G := G.toRecGbl) (s := { w.record with fields := w.fields.record.clamped })
  unfold postingProcess
  rw [hchecked, clamped_eq]
  simp only [G.resetAlarms_eq]
  exact ⟨_, _, rfl, rfl, rfl, rfl, rfl, rfl, fun hne => G.dbeAlarm_of_ne _ hne⟩

/-- **`process` keeps a monitor informed** of what was written. -/
theorem informs_process {puts : List F} (hw : Clamping r w)
    (hposted : w.fields.posted = s.fields.posted)
    (hwritten : w.fields.written = s.fields.written ++ puts)
    (hputs : puts.Sublist [w.fields.record.val])
    (halarm : (s.shown val).alarm = (w.shown val).alarm) :
    Clamping r (postingProcess G link w) ∧
      Informs val r.clampedVal puts s (postingProcess G link w) := by
  obtain ⟨t, dbeAlarm, hprocess, hposted', hwritten', hval, hdrvh, hdrvl, hmask⟩ :=
    postingProcess_eq (G := G) link w
  -- the event holds the clamped value
  have hclamped : (puts.map r.clampedVal).Sublist [t.fields.record.val] := by
    have hmapped := hputs.map r.clampedVal
    rw [hval]
    rwa [List.map_singleton, ← hw.clampedVal_eq] at hmapped
  have hpost : Informs val r.clampedVal puts s (dbPostEvents val dbeAlarm t) :=
    Informs.post (hposted'.trans hposted) (hwritten'.trans hwritten) hclamped
      fun hne => hmask (halarm ▸ hne)
  rw [hprocess]
  exact ⟨⟨rfl, hdrvh.trans hw.drvh, hdrvl.trans hw.drvl⟩,
    hpost.trans_left (Informs.of_shown rfl rfl rfl)⟩

theorem informs_putField (hs : Clamping r s) (value : F)
    (link afterwards : RecordState (Posting (OutRecord F) F) →
      RecordState (Posting (OutRecord F) F)) :
    Clamping r (putField (postingRSET G F) value link afterwards s) ∧
      Informs val r.clampedVal [value] s (putField (postingRSET G F) value link afterwards s) := by
  have hprocess : putField (postingRSET G F) value link afterwards s = postingProcess G afterwards
      { s with fields := (postingRSET G F).putVal s.fields value } := by
    simp [putField, postingRSET, hs.pact]
  rw [hprocess]
  exact informs_process ⟨hs.pact, hs.drvh, hs.drvl⟩ rfl rfl (List.Sublist.refl _) rfl

theorem informs_dbProcess (hs : Clamping r s) (link : Chain F) :
    Clamping r (dbProcess (postingRSET G F) link s) ∧
      Informs val r.clampedVal [] s (dbProcess (postingRSET G F) link s) := by
  have hprocess : dbProcess (postingRSET G F) link s =
      postingProcess G (recGblFwdLink (postingRSET G F) link) s := by
    simp [dbProcess, postingRSET, hs.pact]
  rw [hprocess]
  exact informs_process hs rfl (List.append_nil _).symm (List.nil_sublist _) rfl

/-- Every operation keeps a monitor informed. -/
theorem informs_step (hs : Clamping r s) {e : DbEvent F}
    (h : (postingRSET G F).step s e = some t) :
    Clamping r t ∧ Informs val r.clampedVal e.puts s t := by
  cases e with
  | put value notify inSpecial afterwards =>
    obtain rfl := Option.some.inj h
    have hwaits : Informs val r.clampedVal [] s
        { s with waiting := notify.toList ++ s.waiting } := Informs.of_shown rfl rfl rfl
    obtain ⟨hclamping, hinforms⟩ := informs_putField (G := G)
      (s := { s with waiting := notify.toList ++ s.waiting }) ⟨hs.pact, hs.drvh, hs.drvl⟩ value
      (recGblFwdLink (postingRSET G F) inSpecial) (recGblFwdLink (postingRSET G F) afterwards)
    exact ⟨hclamping, hwaits.trans_right hinforms⟩
  | special after link =>
    obtain rfl := Option.some.inj h
    exact ⟨hs, Informs.of_shown rfl rfl rfl⟩
  | process link =>
    obtain rfl := Option.some.inj h
    exact informs_dbProcess hs link
  | queued link =>
    simp only [Rset.step, Option.ite_none_left_eq_some, Option.some.injEq] at h
    obtain ⟨-, rfl⟩ := h
    have hqueued : Informs val r.clampedVal [] s { s with queued := s.queued - 1 } :=
      Informs.of_shown rfl rfl rfl
    obtain ⟨hclamping, hinforms⟩ := informs_dbProcess (G := G)
      (s := { s with queued := s.queued - 1 }) ⟨hs.pact, hs.drvh, hs.drvl⟩ link
    exact ⟨hclamping, hqueued.trans_right hinforms⟩

end OutRecord

/-! ### Records without the events -/

theorem Chain.map_id (link : Chain β) : link.map id = link := by
  induction link with
  | nil => rfl
  | put value inSpecial afterwards rest ihSpecial ihAfter ihRest =>
    rw [Chain.map, ihSpecial, ihAfter, ihRest]
    rfl

theorem DbEvent.map_id (e : DbEvent β) : e.map id = e := by
  cases e with
  | put value notify inSpecial afterwards =>
    rw [DbEvent.map, Chain.map_id, Chain.map_id]
    rfl
  | special after link | process link | queued link => rw [DbEvent.map, Chain.map_id]

namespace SimpleBusyRecord

theorem linksMap_process {link : RecordState (Posting SimpleBusyRecord Int32) →
      RecordState (Posting SimpleBusyRecord Int32)}
    {link' : RecordState SimpleBusyRecord → RecordState SimpleBusyRecord}
    (hlink : LinksMap Posting.record link link') :
    LinksMap Posting.record (postingProcess link) (process link') := by
  intro s
  unfold postingProcess process
  by_cases hval : s.fields.record.val ≠ 0
  · exact (congrArg _ (if_pos hval)).trans (if_pos hval).symm
  · refine (congrArg _ (if_neg hval)).trans (Eq.trans ?_ (if_neg hval).symm)
    -- the forward link begins with the event posted
    have hdriven := hlink (dbPostEvents val false s)
    exact congrArg (fun t : RecordState SimpleBusyRecord => { t with pact := false }) hdriven

theorem postingRSET_maps (G : RecGbl) :
    (postingRSET G).Maps (simpleBusyRSET G) Posting.record id where
  initRecord _ := rfl
  process _ _ hlink := linksMap_process hlink
  special after link link' hlink s := by
    show RecordState.map _ (postingSpecial after link s) = special after link' s.record
    unfold postingSpecial special
    cases after with
    | false => rfl
    | true =>
      cases hpact : s.pact with
      | false =>
        have hidle : s.record.pact = false := hpact
        simp [hidle]
      | true =>
        have hactive : s.record.pact = true := hpact
        simpa [hactive] using linksMap_process hlink s
  putVal _ _ := rfl

end SimpleBusyRecord

theorem OutRecord.postingRSET_maps (G : PostingGbl) (F : Type) [LT F] [DecidableLT F]
    [DecidableEq F] [FieldType F] :
    (postingRSET G F).Maps (outRSET G.toRecGbl F) Posting.record id where
  initRecord _ := rfl
  process _ _ _ _ := rfl
  special _ _ _ _ _ := rfl
  putVal _ _ := rfl

/-! ### All records -/

/-- **A monitor shows the record.**  A client that begins to monitor a record, in any state, and
is sent the events posted from then on, shows after every operation the value and the alarm of
the record; if it asks for DBE_ALARM only, it shows the alarm.  Every value put has been posted,
those that links put at any depth among them: by a simpleBusy record as it is, by an output record
that is idle clamped. -/
theorem monitors_informed (G : PostingGbl) {F : Type} [LT F] [DecidableLT F] [DecidableEq F]
    [FieldType F] :
    (∀ (s₀ s t : RecordState (Posting SimpleBusyRecord Int32)) (es : List (DbEvent Int32)),
      (database (SimpleBusyRecord.postingRSET G.toRecGbl) s₀).run s es = some t →
        Informs SimpleBusyRecord.val id (es.flatMap DbEvent.puts) s t) ∧
    ∀ (s₀ s t : RecordState (Posting (OutRecord F) F)) (es : List (DbEvent F)),
      s₀.pact = false → (database (OutRecord.postingRSET G F) s₀).Reachable s →
      (database (OutRecord.postingRSET G F) s₀).run s es = some t →
        Informs OutRecord.val s₀.fields.record.clampedVal (es.flatMap DbEvent.puts) s t := by
  constructor
  · intro s₀ s t es hrun
    exact informs_run (I := fun _ => True)
      (fun s e t _ hst => ⟨trivial, SimpleBusyRecord.informs_step hst⟩) trivial hrun
  · intro s₀ s t es hpact hs hrun
    have hinit : OutRecord.Clamping s₀.fields.record
        (database (OutRecord.postingRSET G F) s₀).init := by
      have hreset := G.resetAlarms_eq s₀.toDbCommon
      refine ⟨?_, rfl, rfl⟩
      show (G.recGblResetAlarms s₀.toDbCommon).pact = false
      rw [hreset]
      exact hpact
    have hclamping : OutRecord.Clamping s₀.fields.record s :=
      hs.invariant hinit fun s e t hs _ hst => (OutRecord.informs_step hs hst).1
    exact informs_run (fun s e t hs hst => OutRecord.informs_step hs hst) hclamping hrun

/-- A simpleBusy record whose forward link puts to it, with an event for each of the two puts, and
a charout record whose high alarm goes on and off, with one for each of three. -/
theorem monitors_informed_base :
    (∃ t : RecordState (Posting SimpleBusyRecord Int32),
      t.fields.written = [0, 1] ∧ t.fields.posted.length = 2 ∧
      Informs SimpleBusyRecord.val id [0] { fields := ⟨{ val := 0 }, [], []⟩ } t) ∧
    ∃ t : RecordState (Posting CharoutRecord Int8), t.fields.posted.length = 3 ∧
      Informs OutRecord.val int8.clampedVal [105, 90, 127]
        (database (OutRecord.postingRSET .base Int8) { udf := false, fields := ⟨int8, [], []⟩ }).init
        t := by
  constructor
  · have hposts : ((database (SimpleBusyRecord.postingRSET .base)
        { fields := ⟨{ val := 0 }, [], []⟩ }).run { fields := ⟨{ val := 0 }, [], []⟩ }
        [.put 0 none .nil (.put 1 .nil .nil .nil)]).map
        (fun t => (t.fields.written, t.fields.posted.length)) = some ([0, 1], 2) := by
      decide +kernel
    obtain ⟨t, hrun, htwo⟩ := Option.map_eq_some_iff.mp hposts
    obtain ⟨hwritten, hlength⟩ := Prod.mk.inj htwo
    exact ⟨t, hwritten, hlength, (monitors_informed .base (F := Int8)).1 _ _ t _ hrun⟩
  · have hlength : ((database (OutRecord.postingRSET .base Int8)
        { udf := false, fields := ⟨int8, [], []⟩ }).run
        (database (OutRecord.postingRSET .base Int8) { udf := false, fields := ⟨int8, [], []⟩ }).init
        [.put 105 none .nil .nil, .put 90 none .nil .nil, .put 127 none .nil .nil]).map
        (fun t => t.fields.posted.length) = some 3 := by decide +kernel
    obtain ⟨t, hrun, hthree⟩ := Option.map_eq_some_iff.mp hlength
    exact ⟨t, hthree, (monitors_informed .base).2 { udf := false, fields := ⟨int8, [], []⟩ } _ t _
      rfl .init hrun⟩

/-- **Posting changes nothing else.**  Without the events, the records that post go through the
runs of the records that do not. -/
theorem posting_run (G : PostingGbl) {F : Type} [LT F] [DecidableLT F] [DecidableEq F]
    [FieldType F] :
    (∀ (s₀ s : RecordState (Posting SimpleBusyRecord Int32)) (es : List (DbEvent Int32)),
      ((database (SimpleBusyRecord.postingRSET G.toRecGbl) s₀).run s es).map RecordState.record =
        (database (simpleBusyRSET G.toRecGbl) s₀.record).run s.record es) ∧
    ∀ (s₀ s : RecordState (Posting (OutRecord F) F)) (es : List (DbEvent F)),
      ((database (OutRecord.postingRSET G F) s₀).run s es).map RecordState.record =
        (database (outRSET G.toRecGbl F) s₀.record).run s.record es := by
  constructor
  · intro s₀ s es
    have hrun := (SimpleBusyRecord.postingRSET_maps G.toRecGbl).run s₀ s es
    rwa [List.map_congr_left fun e _ => e.map_id, List.map_id'] at hrun
  · intro s₀ s es
    have hrun := (OutRecord.postingRSET_maps G F).run s₀ s es
    rwa [List.map_congr_left fun e _ => e.map_id, List.map_id'] at hrun

end TestDatabase
