import TestDatabase.Db.AlarmLevels

/-!
# Output records on wider fields

The seven output records have copies of one record support, each for fields of its own type.
A number that two of the types have can be put to records of both.  This file compares a
record with fields of 8 or 16 bits to one with wider fields that hold the same numbers.

They go through the same runs: whatever is put, scanned or driven by links, they are left
with the same values, alarms and memories.  What ulongout, uint64 and floatout get wrong is
therefore wrong only for numbers that no record of 16 bits has.

## Main definitions

* `RecordState.map`, `Chain.map`, `DbEvent.map` — records and what is done to them, with
  fields and values replaced.
* `Rset.Maps` — record support that does the same to fields and values replaced.
* `Widening` — the numbers of one field type among those of another.

## Main results

* `Rset.Maps.run` — records with such support go through the same runs.
* `widened_run` — **a narrow output record does the same on wider fields.**
-/

namespace TestDatabase

/-! ### Records with fields replaced -/

section maps

variable {α β α' β' : Type}

/-- A record with its fields replaced. -/
def RecordState.map (f : α → α') (s : RecordState α) : RecordState α' where
  toDbCommon := s.toDbCommon
  fields := f s.fields
  waiting := s.waiting
  queued := s.queued
  fwdLinks := s.fwdLinks

/-- The same puts, of other values. -/
def Chain.map (g : β → β') : Chain β → Chain β'
  | .nil => .nil
  | .put value inSpecial afterwards rest =>
    .put (g value) (inSpecial.map g) (afterwards.map g) (rest.map g)

/-- The same operation, with other values. -/
def DbEvent.map (g : β → β') : DbEvent β → DbEvent β'
  | .put value notify inSpecial afterwards =>
    .put (g value) notify (inSpecial.map g) (afterwards.map g)
  | .special after link => .special after (link.map g)
  | .process link => .process (link.map g)
  | .queued link => .queued (link.map g)

/-- What drives two links does the same to a record and to the record with its fields
replaced. -/
def LinksMap (f : α → α') (link : RecordState α → RecordState α)
    (link' : RecordState α' → RecordState α') : Prop :=
  ∀ s, (link s).map f = link' (s.map f)

/-- Record support that does the same to fields and values replaced. -/
structure Rset.Maps (rset : Rset α β) (rset' : Rset α' β') (f : α → α') (g : β → β') : Prop where
  initRecord : ∀ s, (rset.initRecord s).map f = rset'.initRecord (s.map f)
  process : ∀ link link', LinksMap f link link' →
    LinksMap f (rset.process link) (rset'.process link')
  special : ∀ after link link', LinksMap f link link' →
    LinksMap f (rset.special after link) (rset'.special after link')
  putVal : ∀ r value, f (rset.putVal r value) = rset'.putVal (f r) (g value)

section links

variable {f : α → α'} {l m : RecordState α → RecordState α} {l' m' : RecordState α' → RecordState α'}

theorem LinksMap.comp (hl : LinksMap f l l') (hm : LinksMap f m m') :
    LinksMap f (fun s => m (l s)) fun s => m' (l' s) := by
  intro s
  rw [hm, hl]

theorem LinksMap.complete (hl : LinksMap f l l') :
    LinksMap f (fun s => (l s).complete) fun s => (l' s).complete :=
  fun s => congrArg RecordState.complete (hl s)

/-- Whether the record is active decides, which is not replaced. -/
theorem LinksMap.ite (hl : LinksMap f l l') (hm : LinksMap f m m') :
    LinksMap f (fun s => if s.pact then l s else m s) fun s => if s.pact then l' s else m' s := by
  intro s
  show RecordState.map f (if s.pact then l s else m s) = if s.pact then _ else _
  split
  · exact hl s
  · exact hm s

end links

namespace Rset.Maps

variable {rset : Rset α β} {rset' : Rset α' β'} {f : α → α'} {g : β → β'}

/-- Writing VAL. -/
theorem write (h : rset.Maps rset' f g) (value : β) :
    LinksMap f (fun s => { s with fields := rset.putVal s.fields value })
      fun s => { s with fields := rset'.putVal s.fields (g value) } := by
  intro s
  rw [RecordState.map, h.putVal]
  rfl

theorem putField (h : rset.Maps rset' f g) (value : β)
    {link afterwards : RecordState α → RecordState α}
    {link' afterwards' : RecordState α' → RecordState α'} (hlink : LinksMap f link link')
    (hafterwards : LinksMap f afterwards afterwards') :
    LinksMap f (putField rset value link afterwards)
      (TestDatabase.putField rset' (g value) link' afterwards') := by
  have hwritten := ((h.special false _ _ hlink).comp (h.write value)).comp (h.special true _ _ hlink)
  have hmarked : LinksMap f (fun s => { s with rpro := true }) fun s => { s with rpro := true } :=
    fun _ => rfl
  exact hwritten.comp (hmarked.ite (h.process _ _ hafterwards))

/-- The puts of a chain, and what they drive. -/
theorem drive (h : rset.Maps rset' f g) (link : Chain β) :
    LinksMap f (link.drive rset) ((link.map g).drive rset') := by
  induction link with
  | nil => exact fun _ => rfl
  | put value inSpecial afterwards rest ihSpecial ihAfter ihRest =>
    exact (h.putField value ihSpecial.complete ihAfter.complete).comp ihRest

theorem recGblFwdLink (h : rset.Maps rset' f g) (link : Chain β) :
    LinksMap f (recGblFwdLink rset link) (TestDatabase.recGblFwdLink rset' (link.map g)) :=
  (h.drive link).complete

theorem dbProcess (h : rset.Maps rset' f g) (link : Chain β) :
    LinksMap f (dbProcess rset link) (TestDatabase.dbProcess rset' (link.map g)) := by
  have hidle : LinksMap f (fun s => s) fun s => s := fun _ => rfl
  exact hidle.ite (h.process _ _ (h.recGblFwdLink link))

/-- **Every operation does the same.** -/
theorem step (h : rset.Maps rset' f g) (s : RecordState α) (e : DbEvent β) :
    (rset.step s e).map (RecordState.map f) = rset'.step (s.map f) (e.map g) := by
  cases e with
  | put value notify inSpecial afterwards =>
    exact congrArg some (h.putField value (h.recGblFwdLink inSpecial) (h.recGblFwdLink afterwards) _)
  | special after link => exact congrArg some (h.special after _ _ (h.recGblFwdLink link) s)
  | process link => exact congrArg some (h.dbProcess link s)
  | queued link =>
    show Option.map _ (if s.queued = 0 then _ else _) = if s.queued = 0 then _ else _
    split
    · rfl
    · exact congrArg some (h.dbProcess link _)

/-- **Records with such support go through the same runs.** -/
theorem run (h : rset.Maps rset' f g) (s₀ s : RecordState α) (es : List (DbEvent β)) :
    ((database rset s₀).run s es).map (RecordState.map f) =
      (database rset' (s₀.map f)).run (s.map f) (es.map (DbEvent.map g)) :=
  EventMachine.run_map (M := database rset s₀) h.step s es

end Rset.Maps

end maps

/-! ### Wider fields -/

open FieldType

/-- The numbers of a field type among those of another, which stores what is copied from them. -/
structure Widening (F F' : Type) [LT F] [FieldType F] [LT F'] [FieldType F'] where
  widen : F → F'
  toInt_widen : ∀ x, toInt (widen x) = toInt x
  lt_iff : ∀ x y, widen x < widen y ↔ x < y
  inj : ∀ x y, widen x = widen y ↔ x = y
  ofInt32_toInt32 : ∀ x : F, ofInt32 (toInt32 x) = widen x

/-- A record with wider fields. -/
def OutRecord.map {F F' : Type} (widen : F → F') (r : OutRecord F) : OutRecord F' where
  val := widen r.val
  drvh := widen r.drvh
  drvl := widen r.drvl
  hopr := widen r.hopr
  lopr := widen r.lopr
  hihi := widen r.hihi
  lolo := widen r.lolo
  high := widen r.high
  low := widen r.low
  hhsv := r.hhsv
  llsv := r.llsv
  hsv := r.hsv
  lsv := r.lsv
  hyst := widen r.hyst
  lalm := widen r.lalm

namespace Widening

variable {F F' : Type} [LT F] [DecidableLT F] [DecidableEq F] [FieldType F]
  [LT F'] [DecidableLT F'] [DecidableEq F'] [FieldType F'] (W : Widening F F')

/-- A record with wider fields, what waits for it included. -/
abbrev record (s : RecordState (OutRecord F)) : RecordState (OutRecord F') :=
  s.map (OutRecord.map W.widen)

omit [DecidableLT F] [DecidableEq F] [DecidableLT F'] [DecidableEq F'] in
/-- Copies are the same. -/
theorem toInt32_widen (x : F) : toInt32 (W.widen x) = toInt32 x :=
  congrArg Int32.ofInt (W.toInt_widen x)

theorem clamped_map (r : OutRecord F) :
    (r.map W.widen).clamped = r.clamped.map W.widen := by
  unfold OutRecord.clamped
  have hne : W.widen r.drvh ≠ W.widen r.drvl ↔ r.drvh ≠ r.drvl := not_congr (W.inj _ _)
  by_cases hdrive : r.drvh = r.drvl
  · rw [if_neg (not_not_intro hdrive)]
    exact if_neg (mt hne.mp (not_not_intro hdrive))
  · rw [if_pos hdrive]
    refine (if_pos (hne.mpr hdrive)).trans ?_
    simp only [OutRecord.map, gt_iff_lt, W.lt_iff]
    by_cases hhigh : r.drvh < r.val
    · simp only [hhigh, if_true, W.lt_iff]
      split <;> rfl
    · simp only [hhigh, if_false, W.lt_iff]
      split <;> rfl

variable [NarrowField F] {G : RecGbl}

section alarms

omit [DecidableLT F] [DecidableEq F] [DecidableLT F'] [DecidableEq F']

/-- What LALM stores from a copy is the same number. -/
theorem store_map (x : F) (s : RecordState (OutRecord F)) :
    W.record { s with fields.lalm := ofInt32 (toInt32 x) } =
      { W.record s with fields.lalm := ofInt32 (toInt32 x) } := by
  rw [NarrowField.ofInt32_toInt32, W.ofInt32_toInt32]
  rfl

theorem raise_map (stat : AlarmCondition) (asev : MenuAlarmSevr) (x : F)
    (s : RecordState (OutRecord F)) :
    W.record (OutRecord.raise G stat asev (toInt32 x) s) =
      OutRecord.raise G stat asev (toInt32 x) (W.record s) := by
  unfold OutRecord.raise
  show W.record (if (G.recGblSetSevr s.toDbCommon stat asev).1 then _ else _) =
    if (G.recGblSetSevr s.toDbCommon stat asev).1 then _ else _
  split
  · exact W.store_map x { s with toDbCommon := (G.recGblSetSevr s.toDbCommon stat asev).2 }
  · rfl

/-- **The alarms are the same**, since the copies are. -/
theorem checkAlarms_map (s : RecordState (OutRecord F)) :
    W.record (OutRecord.checkAlarms G s) = OutRecord.checkAlarms G (W.record s) := by
  have hfields : (W.record s).fields = s.fields.map W.widen := rfl
  unfold OutRecord.checkAlarms
  simp only [hfields, OutRecord.map, toInt32_widen, apply_ite W.record, raise_map, store_map]
  rfl

end alarms

/-- **The record support does the same on wider fields.** -/
theorem outRSET_maps (G : RecGbl) :
    (outRSET G F).Maps (outRSET G F') (OutRecord.map W.widen) W.widen where
  initRecord _ := rfl
  process link link' _ s := by
    have hclamped : W.record { s with fields := s.fields.clamped } =
        { W.record s with fields := (W.record s).fields.clamped } := by
      show _ = { W.record s with fields := (s.fields.map W.widen).clamped }
      rw [W.clamped_map]
      rfl
    show W.record (OutRecord.process G link s) = OutRecord.process G link' (W.record s)
    unfold OutRecord.process
    simp only
    rw [← hclamped, ← checkAlarms_map]
    rfl
  special _ _ _ _ _ := rfl
  putVal _ _ := rfl

/-- **A narrow output record does the same on wider fields.**  Whatever is done to it, a record
with fields of 8 or 16 bits is at any time as the record with wider fields that began with the
same numbers, to which the same has been done. -/
theorem widened_run (s₀ s : RecordState (OutRecord F)) (es : List (DbEvent F)) :
    W.record (database (outRSET G F) s₀).init = (database (outRSET G F') (W.record s₀)).init ∧
    ((database (outRSET G F) s₀).run s es).map W.record =
      (database (outRSET G F') (W.record s₀)).run (W.record s) (es.map (DbEvent.map W.widen)) :=
  ⟨(W.outRSET_maps G).initRecord s₀, (W.outRSET_maps G).run s₀ s es⟩

end Widening

/-! ### The record types -/

namespace Widening

section
variable {F F' : Type} [LT F] [FieldType F] [NarrowField F] [LT F'] [FieldType F']

/-- The numbers of a narrow type among those of a type of integers that has them. -/
def ofIntegerField [IntegerField F'] (h : ∀ x : F, toInt (ofInt (toInt x) : F') = toInt x) :
    Widening F F' where
  widen x := ofInt (toInt x)
  toInt_widen := h
  lt_iff x y := by
    rw [IntegerField.lt_iff, h, h]
    exact (NarrowField.lt_iff x y).symm
  inj x y := by
    rw [← IntegerField.toInt_inj, h, h]
    exact IntegerField.toInt_inj
  ofInt32_toInt32 x := congrArg ofInt (NarrowField.toInt_toInt32 x)

/-- A natural number of 16 bits is stored as it is. -/
def StoresNat (F' : Type) [FieldType F'] : Prop := ∀ n : ℕ, n < 2 ^ 16 → toInt (ofInt n : F') = n

/-- The numbers of an unsigned type among those of a wider one. -/
def ofNonneg [IntegerField F'] (hF : ∀ x : F, 0 ≤ toInt x) (h : StoresNat F') : Widening F F' :=
  ofIntegerField fun x => by
    obtain ⟨n, hn⟩ := Int.eq_ofNat_of_zero_le (hF x)
    rw [hn]
    exact h n (Int.ofNat_lt.mp (hn ▸ NarrowField.lt_pow x))

end

theorem storesNat_uint16 : StoresNat UInt16 := by
  intro n hn
  show (((UInt16.ofNat ((n : ℤ) % 2 ^ 16).toNat).toNat : ℕ) : ℤ) = n
  rw [toNat_emod_of_lt hn, UInt16.toNat_ofNat_of_lt' hn]

theorem storesNat_uint32 : StoresNat UInt32 := by
  intro n hn
  have hlt : n < 2 ^ 32 := by omega
  show (((UInt32.ofNat ((n : ℤ) % 2 ^ 32).toNat).toNat : ℕ) : ℤ) = n
  rw [toNat_emod_of_lt hlt, UInt32.toNat_ofNat_of_lt' hlt]

theorem storesNat_uint64 : StoresNat UInt64 := by
  intro n hn
  have hlt : n < 2 ^ 64 := by omega
  show (((UInt64.ofNat ((n : ℤ) % 2 ^ 64).toNat).toNat : ℕ) : ℤ) = n
  rw [toNat_emod_of_lt hlt, UInt64.toNat_ofNat_of_lt' hlt]

theorem nonneg_uint8 (x : UInt8) : 0 ≤ toInt x := Int.natCast_nonneg _

theorem nonneg_uint16 (x : UInt16) : 0 ≤ toInt x := Int.natCast_nonneg _

def charoutToShortout : Widening Int8 Int16 :=
  ofIntegerField fun x => Int16.toInt_ofInt_of_le
    (le_trans (by decide) x.le_toInt) (lt_trans x.toInt_lt (by decide))

def ucharoutToShortout : Widening UInt8 Int16 :=
  ofIntegerField fun x => Int16.toInt_ofInt_of_le
    (le_trans (by decide) (nonneg_uint8 x)) (lt_trans (Int.ofNat_lt.mpr x.toNat_lt) (by decide))

def ucharoutToUshortout : Widening UInt8 UInt16 := ofNonneg nonneg_uint8 storesNat_uint16

def ucharoutToUlongout : Widening UInt8 UInt32 := ofNonneg nonneg_uint8 storesNat_uint32

def ucharoutToUint64 : Widening UInt8 UInt64 := ofNonneg nonneg_uint8 storesNat_uint64

def ushortoutToUlongout : Widening UInt16 UInt32 := ofNonneg nonneg_uint16 storesNat_uint32

def ushortoutToUint64 : Widening UInt16 UInt64 := ofNonneg nonneg_uint16 storesNat_uint64

/-- Numbers of 24 bits are floats. -/
theorem round24_of_lt {n : ℕ} (h : n < 2 ^ 24) : round24 n = n := by
  have hlog : n.log2 - 23 = 0 := by
    by_cases hn : n = 0
    · rw [hn]
      rfl
    · have hlt := (Nat.log2_lt hn).mpr h
      omega
  unfold round24
  simp [hlog, Nat.mod_one]

theorem ofInt_rat {n : ℤ} (hlow : -2 ^ 16 < n) (hhigh : n < 2 ^ 16) : (ofInt n : ℚ) = n := by
  have hround : round24 n.natAbs = n.natAbs := round24_of_lt (by omega)
  show (if n < 0 then -(round24 n.natAbs : ℚ) else round24 n.natAbs) = n
  rw [hround]
  split
  · next hneg =>
    have habs : n = -(n.natAbs : ℤ) := by omega
    rw [habs]
    simp
  · next hpos =>
    have habs : n = (n.natAbs : ℤ) := by omega
    rw [habs]
    simp

/-- The integers of any narrow type are floats. -/
def toFloatout {F : Type} [LT F] [FieldType F] [NarrowField F] : Widening F ℚ where
  widen x := toInt x
  toInt_widen x := by
    have hlow := NarrowField.neg_lt x
    have hhigh := NarrowField.lt_pow x
    have htruncated : truncated (toInt x) = toInt x := by
      rw [truncated, Int.ceil_intCast, Int.floor_intCast, ite_self]
    show (if -2 ^ 31 ≤ truncated (toInt x) ∧ truncated (toInt x) < 2 ^ 31 then
      truncated (toInt x) else -2 ^ 31) = toInt x
    rw [htruncated, if_pos ⟨by omega, by omega⟩]
  lt_iff x y := Int.cast_lt.trans (NarrowField.lt_iff x y).symm
  inj x y := Int.cast_inj.trans IntegerField.toInt_inj
  ofInt32_toInt32 x := by
    rw [ofInt32, NarrowField.toInt_toInt32]
    exact ofInt_rat (NarrowField.neg_lt x) (NarrowField.lt_pow x)

/-- A floatout record with the numbers of int8.db raises the high alarm for 105, as that does. -/
theorem widened_run_float :
    ∃ s, (database (outRSET .base ℚ) (toFloatout.record { udf := false, fields := int8 })).run
        (database (outRSET .base ℚ) (toFloatout.record { udf := false, fields := int8 })).init
        [.put (toFloatout.widen (105 : Int8)) none .nil .nil] = some s ∧ s.stat = .high := by
  have hnarrow : ((database (outRSET .base Int8) { udf := false, fields := int8 }).run
      (database (outRSET .base Int8) { udf := false, fields := int8 }).init
      [.put 105 none .nil .nil]).map (fun s => s.stat) = some .high := by decide +kernel
  obtain ⟨t, ht, hstat⟩ := Option.map_eq_some_iff.mp hnarrow
  obtain ⟨hinit, hwide⟩ := widened_run (G := .base) toFloatout { udf := false, fields := int8 }
    (database (outRSET .base Int8) { udf := false, fields := int8 }).init [.put 105 none .nil .nil]
  rw [ht, hinit] at hwide
  exact ⟨_, hwide.symm, hstat⟩

end Widening

end TestDatabase
