import Mathlib.Logic.Relation
import TestDatabase.Clients.TimeMany
import TestDatabase.Lib.Text

/-!
# The field that put converts its string into

The `put()` of the clients of `DBRrecordTypesClient`, `getputmonitorrate` and `putmany`
looks for a scalar or a scalar array: the field `value`, or else what it comes to along
the first fields, beginning with the first field of the whole structure.  The search is
the one of `timeManyChannelPut`.  It takes the first field of a structure without looking
whether there is one, and it may leave `value` aside.

## Main definitions

* `PVField.at`, `fieldAt` — the field at a path.
* `FirstStructure` — a structure is the first field of another.
* `splitValues` — the elements of a string for an array, and their number.
* `PutProgram.put` — `put()` of the three programs.

## Main results

* `finds_search`, `search_ne_outOfRange_iff`, `found_searchFrom_iff` — how the search ends.
* `splitValues_joins` — **splitting a value for an array inverts joining.**
* `put_endsSafely_iff` — **when `put()` finds its target safely.**
* `put_inside_value_iff` — **when `put()` writes the value and nothing else.**
-/

namespace TestDatabase

open TimeMany

/-! ### Fields and paths -/

/-- The field at a path below a field. -/
def TimeMany.PVField.at : PVField → List String → Option PVField
  | pvField, [] => some pvField
  | .struct pvFields, name :: path => (pvFields.lookup name).bind fun pvField => pvField.at path
  | _, _ :: _ => none

namespace PutTarget

/-- The field at a path of a structure. -/
def fieldAt (pvStructure : List (String × PVField)) (path : List String) : Option PVField :=
  (PVField.struct pvStructure).at path

/-- The first field of a structure is the other structure. -/
def FirstStructure (pvFields pvFields' : List (String × PVField)) : Prop :=
  ∃ name rest, pvFields = (name, .struct pvFields') :: rest

/-- A structure is the other one, or comes from it along the first fields. -/
abbrev FirstStructures := Relation.ReflTransGen FirstStructure

/-- The first field of a structure that comes along the first fields is a scalar or a
scalar array. -/
def LeadsToTarget (pvStructure : List (String × PVField)) : Prop :=
  ∃ pvFields name rest, FirstStructures pvStructure pvFields ∧
    (pvFields = (name, .scalar) :: rest ∨ pvFields = (name, .scalarArray) :: rest)

/-- The search ended at a field of the right kind below a field. -/
def Finds (pvField : PVField) (path : List String) : SearchResult → Prop
  | .pvScalar p => ∃ q, p = path ++ q ∧ pvField.at q = some .scalar
  | .pvScalarArray p => ∃ q, p = path ++ q ∧ pvField.at q = some .scalarArray
  | _ => True

/-- The search along first fields never leaves the tree. -/
theorem finds_searchFrom (pvField : PVField) (path : List String) :
    Finds pvField path (pvField.searchFrom path) := by
  fun_induction PVField.searchFrom path pvField with
  | case1 path => exact ⟨[], by simp, rfl⟩
  | case2 path => exact ⟨[], by simp, rfl⟩
  | case3 path name pvField rest ih =>
    generalize pvField.searchFrom (path ++ [name]) = result at ih
    cases result with
    | pvScalar p =>
      obtain ⟨q, rfl, hat⟩ := ih
      exact ⟨name :: q, by simp, by simpa [PVField.at] using hat⟩
    | pvScalarArray p =>
      obtain ⟨q, rfl, hat⟩ := ih
      exact ⟨name :: q, by simp, by simpa [PVField.at] using hat⟩
    | notFound => trivial
    | outOfRange => trivial
  | case4 path => trivial
  | case5 path => trivial

theorem firstStructures_cons_iff {name : String} {pvField : PVField}
    {rest target : List (String × PVField)} :
    FirstStructures ((name, pvField) :: rest) target ↔
      target = (name, pvField) :: rest ∨
      ∃ pvFields, pvField = .struct pvFields ∧ FirstStructures pvFields target := by
  rw [FirstStructures, Relation.ReflTransGen.cases_head_iff]
  constructor
  · rintro (heq | ⟨pvFields, ⟨name', rest', hfirst⟩, hrest⟩)
    · exact .inl heq.symm
    · obtain ⟨⟨rfl, rfl⟩, rfl⟩ : (name = name' ∧ pvField = .struct pvFields) ∧ rest = rest' := by
        simpa using hfirst
      exact .inr ⟨pvFields, rfl, hrest⟩
  · rintro (rfl | ⟨pvFields, rfl, hrest⟩)
    · exact .inl rfl
    · exact .inr ⟨pvFields, ⟨name, rest, rfl⟩, hrest⟩

theorem firstStructures_nil_iff {target : List (String × PVField)} :
    FirstStructures [] target ↔ target = [] := by
  rw [FirstStructures, Relation.ReflTransGen.cases_head_iff]
  constructor
  · rintro (heq | ⟨pvFields, ⟨name, rest, hfirst⟩, -⟩)
    · exact heq.symm
    · exact absurd hfirst (by simp)
  · rintro rfl
    exact .inl rfl

/-- The search takes element 0 of an empty structure exactly if the first fields lead to
one. -/
theorem searchFrom_eq_outOfRange_iff (pvField : PVField) (path : List String) :
    pvField.searchFrom path = .outOfRange ↔
      ∃ pvFields, pvField = .struct pvFields ∧ FirstStructures pvFields [] := by
  fun_induction PVField.searchFrom path pvField with
  | case1 | case2 | case5 => simp
  | case3 path name pvField rest ih =>
    rw [ih]
    simp [firstStructures_cons_iff]
  | case4 path => simp [firstStructures_nil_iff]

theorem leadsToTarget_cons_iff {name : String} {pvField : PVField}
    {rest : List (String × PVField)} :
    LeadsToTarget ((name, pvField) :: rest) ↔
      pvField = .scalar ∨ pvField = .scalarArray ∨
      ∃ pvFields, pvField = .struct pvFields ∧ LeadsToTarget pvFields := by
  constructor
  · rintro ⟨target, name', rest', hreach, htarget⟩
    rcases firstStructures_cons_iff.mp hreach with rfl | ⟨pvFields, rfl, hreach'⟩
    · rcases htarget with h | h
      · obtain ⟨⟨-, rfl⟩, -⟩ : (name = name' ∧ pvField = .scalar) ∧ rest = rest' := by
          simpa using h
        exact .inl rfl
      · obtain ⟨⟨-, rfl⟩, -⟩ : (name = name' ∧ pvField = .scalarArray) ∧ rest = rest' := by
          simpa using h
        exact .inr (.inl rfl)
    · exact .inr (.inr ⟨pvFields, rfl, target, name', rest', hreach', htarget⟩)
  · rintro (rfl | rfl | ⟨pvFields, rfl, target, name', rest', hreach, htarget⟩)
    · exact ⟨_, name, rest, .refl, .inl rfl⟩
    · exact ⟨_, name, rest, .refl, .inr rfl⟩
    · have hreach' : FirstStructures ((name, .struct pvFields) :: rest) target :=
        firstStructures_cons_iff.mpr (.inr ⟨pvFields, rfl, hreach⟩)
      exact ⟨target, name', rest', hreach', htarget⟩

/-- The search finds a field exactly if the first fields lead to one. -/
theorem found_searchFrom_iff (pvField : PVField) (path : List String) :
    (pvField.searchFrom path).found = true ↔
      pvField = .scalar ∨ pvField = .scalarArray ∨
      ∃ pvFields, pvField = .struct pvFields ∧ LeadsToTarget pvFields := by
  fun_induction PVField.searchFrom path pvField with
  | case1 | case2 | case5 => simp [SearchResult.found]
  | case3 path name pvField rest ih =>
    rw [ih]
    simp [leadsToTarget_cons_iff]
  | case4 path => simp [SearchResult.found, LeadsToTarget, firstStructures_nil_iff]

/-- Without a scalar or a scalar array `value` the search begins at the whole structure. -/
theorem search_eq {pvStructure : List (String × PVField)}
    (hscalar : pvStructure.lookup "value" ≠ some .scalar)
    (harray : pvStructure.lookup "value" ≠ some .scalarArray) :
    search pvStructure = (PVField.struct pvStructure).searchFrom [] := by
  unfold search
  split
  · next h => exact absurd h hscalar
  · next h => exact absurd h harray
  · rfl

/-- The search never leaves the tree. -/
theorem finds_search (pvStructure : List (String × PVField)) :
    Finds (.struct pvStructure) [] (search pvStructure) := by
  unfold search
  split
  · next h => exact ⟨["value"], rfl, by simp [PVField.at, h]⟩
  · next h => exact ⟨["value"], rfl, by simp [PVField.at, h]⟩
  · exact finds_searchFrom _ []

theorem search_ne_outOfRange_iff (pvStructure : List (String × PVField)) :
    search pvStructure ≠ .outOfRange ↔
      pvStructure.lookup "value" = some .scalar ∨ pvStructure.lookup "value" = some .scalarArray ∨
      ¬ FirstStructures pvStructure [] := by
  by_cases hscalar : pvStructure.lookup "value" = some .scalar
  · simp [search, hscalar]
  · by_cases harray : pvStructure.lookup "value" = some .scalarArray
    · simp [search, harray]
    · rw [search_eq hscalar harray, ne_eq, searchFrom_eq_outOfRange_iff]
      simp [hscalar, harray]

/-! ### The programs -/

/-- The loop that splits a value for an array at its spaces, and counts the elements.  It is
the same in the `put()` of every client. -/
def splitValues (value : List Char) (values : List (List Char)) (pos n : ℕ) :
    Option (List (List Char) × ℕ) :=
  match h : Text.find value ' ' pos with
  | none => (Text.substrFrom value pos).map fun last => (values ++ [last], n)
  | some offset =>
    (Text.substr value pos (offset - pos)).bind fun element =>
      splitValues value (values ++ [element]) (offset + 1) (n + 1)
termination_by value.length - pos
decreasing_by
  have := Text.find_lt h
  omega

/-- The loop ends, without an error, with the split of the rest and its number. -/
theorem splitValues_eq {value : List Char} {values : List (List Char)} {pos n : ℕ}
    (hpos : pos ≤ value.length) :
    splitValues value values pos n =
      some (values ++ (value.drop pos).splitOn ' ', n + ((value.drop pos).splitOn ' ').length - 1) := by
  fun_induction splitValues value values pos n with
  | case1 values pos n h =>
    rw [Text.substrFrom, if_pos hpos, Text.splitOn_of_find_eq_none h]
    rfl
  | case2 values pos n offset h ih =>
    have hnext : offset + 1 ≤ value.length := (Text.find_lt h).2
    rw [Text.substr, if_pos hpos, Option.bind_some, ih _ hnext, Text.splitOn_of_find h,
      List.length_cons]
    simp only [List.append_assoc, List.cons_append, List.nil_append]
    congr 2
    omega

/-- From the beginning it counts all the elements. -/
theorem splitValues_start (value : List Char) :
    splitValues value [] 0 1 = some (value.splitOn ' ', (value.splitOn ' ').length) := by
  rw [splitValues_eq (Nat.zero_le _), List.drop_zero, List.nil_append, Nat.add_sub_cancel_left]

/-- **Splitting a value for an array inverts joining.**  For every value the loop ends
without an error and counts its elements, no element holds a space, and joined with spaces
they are the value.  Any elements without a space, one at least, are read back from what
they are joined to. -/
theorem splitValues_joins :
    (∀ value, ∃ values, splitValues value [] 0 1 = some (values, values.length) ∧
      (∀ element ∈ values, ' ' ∉ element) ∧ [' '].intercalate values = value) ∧
    ∀ values, values ≠ [] → (∀ element ∈ values, ' ' ∉ element) →
      splitValues ([' '].intercalate values) [] 0 1 = some (values, values.length) := by
  constructor
  · intro value
    refine ⟨value.splitOn ' ', splitValues_start value, ?_, List.intercalate_splitOn ' '⟩
    intro element helement
    exact Text.not_mem_of_mem_splitOn helement
  · intro values hne hfree
    have hsplit : ([' '].intercalate values).splitOn ' ' = values :=
      List.splitOn_intercalate ' ' hfree hne
    rw [splitValues_start, hsplit]

/-- A space at the front, and two between the elements. -/
theorem splitValues_joins_blanks :
    splitValues " 127  -128".toList [] 0 1 =
      some (["".toList, "127".toList, "".toList, "-128".toList], 4) := by
  have hjoin : [' '].intercalate ["".toList, "127".toList, "".toList, "-128".toList] =
      " 127  -128".toList := by decide
  rw [← hjoin]
  exact splitValues_joins.2 _ (by decide) (by decide)

/-- What `Convert` puts into a field for a string, or for a number of strings.  There is
none if it throws. -/
structure Convert (α : Type) where
  fromString : List Char → Option α
  fromStringArray : ℕ → List (List Char) → Option α

/-- How a call of `put()` goes. -/
inductive PutEnd (α : Type)
  | notConnected (message : String)
  /-- `did not find a pvScalar field` -/
  | notFound
  /-- Element 0 of a structure without fields has been taken. -/
  | outOfRange
  | threw
  /-- The put is issued, with these contents of the fields; one has been converted to. -/
  | issued (path : List String) (contents : List String → α)

/-- The flags of a client. -/
structure PutClient where
  channelConnected : Bool := false
  putConnected : Bool := false
  deriving DecidableEq, Repr

/-- The programs. -/
inductive PutProgram
  | DBRrecordTypesClient
  | getputmonitorrate
  | putmany
  deriving DecidableEq, Repr

/-- Whether `put()` looks at the flags first. -/
def PutProgram.checksConnections : PutProgram → Bool
  | DBRrecordTypesClient => false
  | getputmonitorrate => true
  | putmany => true

variable {α : Type}

/-- `put()`, from the search to `issuePut()`. -/
def putTo (convert : Convert α) (pvStructure : List (String × PVField))
    (contents : List String → α) (value : List Char) : PutEnd α :=
  match search pvStructure with
  | .pvScalar path =>
    match convert.fromString value with
    | none => .threw
    | some content => .issued path (Function.update contents path content)
  | .pvScalarArray path =>
    match (splitValues value [] 0 1).bind fun split => convert.fromStringArray split.2 split.1 with
    | none => .threw
    | some content => .issued path (Function.update contents path content)
  | .notFound => .notFound
  | .outOfRange => .outOfRange

/-- `put()`, up to `issuePut()`. -/
def PutProgram.put (program : PutProgram) (client : PutClient) (convert : Convert α)
    (pvStructure : List (String × PVField)) (contents : List String → α) (value : List Char) :
    PutEnd α :=
  if program.checksConnections && !client.channelConnected then
    .notConnected "channel not connected"
  else if program.checksConnections && !client.putConnected then
    .notConnected "channelPut not connected"
  else putTo convert pvStructure contents value

/-- A put that finds its client unconnected ends there; another one goes on to the search. -/
theorem put_cases (program : PutProgram) (client : PutClient) (convert : Convert α)
    (pvStructure : List (String × PVField)) (contents : List String → α) (value : List Char) :
    (∃ message, program.put client convert pvStructure contents value = .notConnected message) ∨
      program.put client convert pvStructure contents value =
        putTo convert pvStructure contents value := by
  unfold PutProgram.put
  split
  · exact .inl ⟨_, rfl⟩
  · split
    · exact .inl ⟨_, rfl⟩
    · exact .inr rfl

/-- The client of `DBRrecordTypesClient` does not look at its flags. -/
theorem put_eq_putTo (client : PutClient) (convert : Convert α)
    (pvStructure : List (String × PVField)) (contents : List String → α) (value : List Char) :
    PutProgram.DBRrecordTypesClient.put client convert pvStructure contents value =
      putTo convert pvStructure contents value := rfl

/-- What `put()` does after the search. -/
theorem putTo_cases (convert : Convert α) (pvStructure : List (String × PVField))
    (contents : List String → α) (value : List Char) :
    (∃ path content, (search pvStructure = .pvScalar path ∨ search pvStructure = .pvScalarArray path) ∧
      putTo convert pvStructure contents value =
        .issued path (Function.update contents path content)) ∨
    (search pvStructure).found = true ∧ putTo convert pvStructure contents value = .threw ∨
    search pvStructure = .notFound ∧ putTo convert pvStructure contents value = .notFound ∨
    search pvStructure = .outOfRange ∧ putTo convert pvStructure contents value = .outOfRange := by
  unfold putTo
  cases hsearch : search pvStructure with
  | pvScalar path =>
    cases hconvert : convert.fromString value with
    | none => simp [SearchResult.found]
    | some content => exact .inl ⟨path, content, .inl rfl, by simp⟩
  | pvScalarArray path =>
    cases hconvert : (splitValues value [] 0 1).bind fun split =>
        convert.fromStringArray split.2 split.1 with
    | none => simp [SearchResult.found]
    | some content => exact .inl ⟨path, content, .inr rfl, by simp⟩
  | notFound => simp
  | outOfRange => simp

/-! ### When the target is found safely -/

/-- A put is issued for a scalar or a scalar array of the tree; without one it says so or
throws.  Element 0 of an empty structure is never taken. -/
def EndsSafely (pvStructure : List (String × PVField)) : PutEnd α → Prop
  | .outOfRange => False
  | .issued path _ =>
    fieldAt pvStructure path = some .scalar ∨ fieldAt pvStructure path = some .scalarArray
  | _ => True

theorem endsSafely_putTo_iff (convert : Convert α) (pvStructure : List (String × PVField))
    (contents : List String → α) (value : List Char) :
    EndsSafely pvStructure (putTo convert pvStructure contents value) ↔
      search pvStructure ≠ .outOfRange := by
  have hfinds := finds_search pvStructure
  rcases putTo_cases convert pvStructure contents value with ⟨path, content, hsearch, hput⟩ |
    ⟨hfound, hput⟩ | ⟨hsearch, hput⟩ | ⟨hsearch, hput⟩
  · rw [hput]
    rcases hsearch with hsearch | hsearch
    · rw [hsearch] at hfinds
      obtain ⟨q, rfl, hat⟩ := hfinds
      exact iff_of_true (.inl hat) (by simp [hsearch])
    · rw [hsearch] at hfinds
      obtain ⟨q, rfl, hat⟩ := hfinds
      exact iff_of_true (.inr hat) (by simp [hsearch])
  · rw [hput]
    refine iff_of_true trivial fun hout => ?_
    simp [hout, SearchResult.found] at hfound
  · rw [hput, hsearch]
    exact iff_of_true trivial (by simp)
  · rw [hput, hsearch]
    exact iff_of_false id (by simp)

/-- **When `put()` finds its target safely.**  In any structure, the three `put()` end at a
scalar or a scalar array of it, or without a put, exactly if `value` is one of the two or
the first fields do not lead to an empty structure. -/
theorem put_endsSafely_iff (convert : Convert α) (pvStructure : List (String × PVField))
    (contents : List String → α) (value : List Char) :
    (∀ program client,
      EndsSafely pvStructure (PutProgram.put program client convert pvStructure contents value)) ↔
    pvStructure.lookup "value" = some .scalar ∨ pvStructure.lookup "value" = some .scalarArray ∨
      ¬ FirstStructures pvStructure [] := by
  rw [← search_ne_outOfRange_iff, ← endsSafely_putTo_iff convert pvStructure contents value]
  constructor
  · intro h
    have hput := h .DBRrecordTypesClient {}
    rwa [put_eq_putTo] at hput
  · intro h program client
    rcases put_cases program client convert pvStructure contents value with ⟨message, hput⟩ | hput
    · rw [hput]
      trivial
    · rw [hput]
      exact h

/-- A conversion that keeps the text. -/
def textConvert : Convert (List (List Char)) where
  fromString value := some [value]
  fromStringArray _ values := some values

/-- A `value` that is a structure without fields. -/
theorem not_put_endsSafely : ¬ ∀ pvStructure program client,
    EndsSafely pvStructure
      (PutProgram.put program client textConvert pvStructure (fun _ => []) []) := by
  intro h
  exact h [("value", .struct [])] .DBRrecordTypesClient {}

/-! ### When the value is written and nothing else -/

/-- If a put is issued, the field converted to is `value` or lies inside of it, and no field
outside has changed. -/
def InsideValue (contents : List String → α) : PutEnd α → Prop
  | .issued path contents' =>
    path.head? = some "value" ∧
      ∀ path', path'.head? ≠ some "value" → contents' path' = contents path'
  | _ => True

/-- Below a first field the search stays there. -/
theorem head?_of_searchFrom {name : String} {pvField : PVField} {rest : List (String × PVField)}
    {path : List String}
    (h : (PVField.struct ((name, pvField) :: rest)).searchFrom [] = .pvScalar path ∨
      (PVField.struct ((name, pvField) :: rest)).searchFrom [] = .pvScalarArray path) :
    path.head? = some name := by
  have hfinds := finds_searchFrom pvField [name]
  have hstep : (PVField.struct ((name, pvField) :: rest)).searchFrom [] =
    pvField.searchFrom [name] := rfl
  rw [hstep] at h
  rcases h with h | h
  · rw [h] at hfinds
    obtain ⟨q, rfl, -⟩ := hfinds
    rfl
  · rw [h] at hfinds
    obtain ⟨q, rfl, -⟩ := hfinds
    rfl

/-- Where the search ends, in a structure with a field `value`: inside of it exactly if it
is a scalar or a scalar array, or the first field, or there is nothing to be found. -/
theorem search_inside_value_iff {pvStructure : List (String × PVField)} {pvField : PVField}
    (hvalue : pvStructure.lookup "value" = some pvField) :
    (∀ path, search pvStructure = .pvScalar path ∨ search pvStructure = .pvScalarArray path →
      path.head? = some "value") ↔
    pvField = .scalar ∨ pvField = .scalarArray ∨
      pvStructure.head?.map Prod.fst = some "value" ∨ ¬ LeadsToTarget pvStructure := by
  by_cases hscalar : pvField = .scalar
  · simp [search, hvalue, hscalar]
  by_cases harray : pvField = .scalarArray
  · simp [search, hvalue, harray]
  have hsearch : search pvStructure = (PVField.struct pvStructure).searchFrom [] :=
    search_eq (by simp [hvalue, hscalar]) (by simp [hvalue, harray])
  have hfound := found_searchFrom_iff (.struct pvStructure) []
  simp only [hscalar, harray, false_or]
  cases pvStructure with
  | nil => simp at hvalue
  | cons first rest =>
    obtain ⟨name, pvField'⟩ := first
    rw [hsearch]
    have hleads : LeadsToTarget ((name, pvField') :: rest) ↔
        ((PVField.struct ((name, pvField') :: rest)).searchFrom []).found = true := by
      simp [hfound]
    rw [hleads]
    constructor
    · intro h
      by_cases hnone : ((PVField.struct ((name, pvField') :: rest)).searchFrom []).found = true
      · -- the search ends below the first field, which is therefore `value`
        have hpath : ∃ path,
            (PVField.struct ((name, pvField') :: rest)).searchFrom [] = .pvScalar path ∨
            (PVField.struct ((name, pvField') :: rest)).searchFrom [] = .pvScalarArray path := by
          generalize (PVField.struct ((name, pvField') :: rest)).searchFrom [] = result at hnone
          cases result with
          | pvScalar path => exact ⟨path, .inl rfl⟩
          | pvScalarArray path => exact ⟨path, .inr rfl⟩
          | notFound => exact absurd hnone Bool.noConfusion
          | outOfRange => exact absurd hnone Bool.noConfusion
        obtain ⟨path, hpath⟩ := hpath
        left
        rw [List.head?_cons, Option.map_some, ← head?_of_searchFrom hpath, h path hpath]
      · exact .inr hnone
    · rintro (hname | hnone) path hpath
      · rw [head?_of_searchFrom hpath]
        exact hname
      · rcases hpath with hpath | hpath <;> simp [hpath, SearchResult.found] at hnone

/-- **When `put()` writes the value and nothing else.**  In any structure with a field
`value` the three `put()` write inside of it, whatever is put, exactly if it is a scalar or
a scalar array, or it is the first field, or the first fields lead to nothing to put to. -/
theorem put_inside_value_iff [Inhabited α] {pvStructure : List (String × PVField)}
    {pvField : PVField} (hvalue : pvStructure.lookup "value" = some pvField) :
    (∀ program client (convert : Convert α) contents value,
      InsideValue contents
        (PutProgram.put program client convert pvStructure contents value)) ↔
    pvField = .scalar ∨ pvField = .scalarArray ∨
      pvStructure.head?.map Prod.fst = some "value" ∨ ¬ LeadsToTarget pvStructure := by
  rw [← search_inside_value_iff hvalue]
  constructor
  · intro h path hpath
    -- a conversion that does not throw shows where the search ends
    have hput := h .DBRrecordTypesClient {}
      { fromString := fun _ => some default, fromStringArray := fun _ _ => some default }
      (fun _ => default) []
    rw [put_eq_putTo, putTo] at hput
    rcases hpath with hpath | hpath
    · rw [hpath] at hput
      exact hput.1
    · simp only [hpath, splitValues_start, Option.bind_some] at hput
      exact hput.1
  · intro h program client convert contents value
    rcases put_cases program client convert pvStructure contents value with ⟨message, hput⟩ | hput
    · rw [hput]
      trivial
    · rw [hput]
      rcases putTo_cases convert pvStructure contents value with ⟨path, content, hsearch, hput⟩ |
        ⟨-, hput⟩ | ⟨-, hput⟩ | ⟨-, hput⟩
      · rw [hput]
        have hhead := h path hsearch
        refine ⟨hhead, fun path' hpath' => ?_⟩
        have hne : path' ≠ path := by
          rintro rfl
          exact hpath' hhead
        exact Function.update_of_ne hne _ _
      all_goals
        rw [hput]
        trivial

/-- The value of an enumerated record before its alarm: its index is put to. -/
theorem put_inside_value_enum_first :
    search [("value", .struct [("index", .scalar), ("choices", .scalarArray)]),
      ("alarm", .struct [("severity", .scalar)])] = .pvScalar ["value", "index"] ∧
    ∀ program client (convert : Convert String) contents value,
      InsideValue contents (PutProgram.put program client convert
        [("value", .struct [("index", .scalar), ("choices", .scalarArray)]),
          ("alarm", .struct [("severity", .scalar)])] contents value) :=
  ⟨rfl, (put_inside_value_iff rfl).mpr (.inr (.inr (.inl rfl)))⟩

/-- The value of an enumerated record behind its alarm, as the request `alarm,value` has it: the
severity is put to. -/
theorem not_put_inside_value : ¬ ∀ pvStructure : List (String × PVField),
    (pvStructure.lookup "value").isSome = true →
    ∀ program client (convert : Convert (List (List Char))) contents value,
      InsideValue contents (PutProgram.put program client convert pvStructure contents value) := by
  intro h
  have hput := h [("alarm", .struct [("severity", .scalar), ("status", .scalar)]),
      ("value", .struct [("index", .scalar), ("choices", .scalarArray)])] (by decide)
    .putmany { channelConnected := true, putConnected := true } textConvert
    (fun _ => []) "1".toList
  exact absurd hput.1 (by decide)

end PutTarget

end TestDatabase
