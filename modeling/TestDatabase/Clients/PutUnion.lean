import TestDatabase.Lib.Text

/-!
# The list of a put to a union

`putUnion` takes the value to put from its command line: a scalar, or between brackets a
list of elements separated by commas.  It looks for the first `[` and the first `]` behind
it and takes the text between them by `substr`, whose second argument is a length; the code
gives it the position of `]`, less one.

## Main definitions

* `PutUnion.parse` — the part of `main` that reads the value.

## Main results

* `parse_bracketed` — what is read of a bracketed list.
* `parses_list_iff` — **when the list between the brackets is read.**
-/

namespace TestDatabase.PutUnion

open Text

/-- What `main` makes of the value. -/
inductive Parsed
  /-- It prints a message and ends. -/
  | error (message : String)
  /-- `isArray` is false. -/
  | scalar (value : List Char)
  | array (values : List (List Char))
  deriving DecidableEq, Repr

/-- `main`, from the value to its elements.  There is no result if a `substr` throws. -/
def parse (value : List Char) : Option Parsed :=
  if value.length < 1 then some (.error "value must have at least one character")
  else
    match find value '[' 0 with
    | none => some (.scalar value)
    | some offset =>
      let beg := offset + 1
      match find value ']' offset with
      | none => some (.error "[ has no matching ]")
      | some «end» =>
        (substr value beg («end» - 1)).bind fun value => (splitLoop value ',' [] 0).map .array

/-- Behind the first `[` as many characters are taken as stand before `]`, brackets not
counted. -/
theorem parse_bracketed {p b s : List Char} (hp : '[' ∉ p) (hb : ']' ∉ b) :
    parse (p ++ '[' :: (b ++ ']' :: s)) =
      some (.array (((b ++ ']' :: s).take (p.length + b.length)).splitOn ',')) := by
  have hopen : find (p ++ '[' :: (b ++ ']' :: s)) '[' 0 = some p.length := by
    have h : find ([] ++ (p ++ '[' :: (b ++ ']' :: s))) '[' 0 = some (0 + p.length) :=
      find_append hp
    simpa using h
  have hclose : find (p ++ '[' :: (b ++ ']' :: s)) ']' p.length = some (p.length + b.length + 1) := by
    have hpart : ']' ∉ '[' :: b := by simp [hb]
    have h : find (p ++ (('[' :: b) ++ ']' :: s)) ']' p.length = _ := find_append hpart
    simpa [Nat.add_assoc] using h
  have hrest : (p ++ '[' :: (b ++ ']' :: s)).drop (p.length + 1) = b ++ ']' :: s := by
    rw [← List.drop_drop, List.drop_left, List.drop_one, List.tail_cons]
  have hnonempty : ¬ (p ++ '[' :: (b ++ ']' :: s)).length < 1 := by simp
  have hbeg : p.length + 1 ≤ (p ++ '[' :: (b ++ ']' :: s)).length := by simp
  rw [parse, if_neg hnonempty, hopen]
  simp only [hclose, substr, if_pos hbeg, hrest, Nat.add_sub_cancel, Option.bind_some]
  rw [splitLoop_eq (Nat.zero_le _)]
  simp

/-- As many characters as that are the list exactly if nothing stands before the `[`. -/
theorem take_eq_iff (b s : List Char) (n : ℕ) : (b ++ ']' :: s).take (n + b.length) = b ↔ n = 0 := by
  constructor
  · intro h
    have hlength := congrArg List.length h
    simp only [List.length_take, List.length_append, List.length_cons] at hlength
    omega
  · rintro rfl
    rw [Nat.zero_add, List.take_left]

/-- **When the list between the brackets is read.**  Whatever stands before the first `[`,
between it and the first `]` and behind that, the elements are those of the list exactly if
nothing stands before the `[`. -/
theorem parses_list_iff {p b s : List Char} (hp : '[' ∉ p) (hb : ']' ∉ b) :
    (∃ values, parse (p ++ '[' :: (b ++ ']' :: s)) = some (.array values) ∧ values ≠ [] ∧
      [','].intercalate values = b ∧ ∀ element ∈ values, ',' ∉ element) ↔ p = [] := by
  rw [parse_bracketed hp hb, ← List.length_eq_zero_iff, ← take_eq_iff b s]
  constructor
  · rintro ⟨values, hparse, -, hjoin, -⟩
    obtain rfl : List.splitOn ',' _ = values := Parsed.array.inj (Option.some.inj hparse)
    rwa [List.intercalate_splitOn] at hjoin
  · intro htake
    rw [htake]
    exact ⟨_, rfl, List.splitOn_ne_nil _ _, List.intercalate_splitOn _,
      fun element => not_mem_of_mem_splitOn⟩

/-- Two elements, and something behind the list. -/
theorem parses_list_bracket_first : ∃ values,
    parse "[1,2] mm".toList = some (.array values) ∧ values ≠ [] ∧
      [','].intercalate values = "1,2".toList ∧ ∀ element ∈ values, ',' ∉ element := by
  have h := (parses_list_iff (p := []) (b := "1,2".toList) (s := " mm".toList) (by decide)
    (by decide)).mpr rfl
  simpa using h

/-- One blank before the bracket: the last element takes in the closing bracket. -/
theorem not_parses_list_blank_first : ¬ ∀ p b s : List Char, '[' ∉ p → ']' ∉ b →
    ∃ values, parse (p ++ '[' :: (b ++ ']' :: s)) = some (.array values) ∧ values ≠ [] ∧
      [','].intercalate values = b ∧ ∀ element ∈ values, ',' ∉ element := by
  intro h
  have hp : '[' ∉ " ".toList := by decide
  have hb : ']' ∉ "1,2".toList := by decide
  obtain ⟨values, hparse, -, hjoin, -⟩ := h _ _ "".toList hp hb
  have hread := (parse_bracketed (s := "".toList) hp hb).symm.trans hparse
  obtain rfl := Parsed.array.inj (Option.some.inj hread)
  rw [List.intercalate_splitOn] at hjoin
  exact absurd hjoin (by decide)

end TestDatabase.PutUnion
