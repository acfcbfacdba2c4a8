import Mathlib.Data.List.Basic

/-!
# Searching and splitting a text

A text is a list of characters and is searched by position, as `std::string` is: `find`
gives the first position of a character from some position on, `substr` a part of the text,
and a position behind the end is an error.  The loop that splits a text at a separator by
these two does what `List.splitOn` does.

## Main definitions

* `Text.find`, `Text.substr`, `Text.substrFrom` — the operations of `std::string`.
* `Text.splitLoop` — the loop that collects the parts between separators.

## Main results

* `find_append` — where the first separator of a text is found.
* `splitOn_of_find` — a separator that is found ends an element of the split.
* `exists_mem_splitOn_iff` — a split holds the characters of the text but the separator.
* `splitLoop_eq` — **the loop ends, without an error, with the split of the text.**
-/

namespace Text

variable {α : Type*} [DecidableEq α]

/-- The first position from `pos` on at which `c` stands. -/
def find (s : List α) (c : α) (pos : ℕ) : Option ℕ := ((s.drop pos).idxOf? c).map (pos + ·)

/-- The characters from `pos` on, at most `n` of them. -/
def substr (s : List α) (pos n : ℕ) : Option (List α) :=
  if pos ≤ s.length then some ((s.drop pos).take n) else none

/-- The characters from `pos` on. -/
def substrFrom (s : List α) (pos : ℕ) : Option (List α) :=
  if pos ≤ s.length then some (s.drop pos) else none

theorem find_eq_none_iff {s : List α} {c : α} {pos : ℕ} :
    find s c pos = none ↔ c ∉ s.drop pos := by
  rw [find, Option.map_eq_none_iff, List.idxOf?_eq_none_iff]

/-- A character that is found parts the rest of the text. -/
theorem drop_of_find {s : List α} {c : α} {pos offset : ℕ} (h : find s c pos = some offset) :
    pos ≤ offset ∧ offset < s.length ∧ c ∉ (s.drop pos).take (offset - pos) ∧
      s.drop pos = (s.drop pos).take (offset - pos) ++ c :: s.drop (offset + 1) := by
  obtain ⟨i, hi, rfl⟩ := Option.map_eq_some_iff.mp h
  obtain ⟨hlt, hc, hbefore⟩ := List.idxOf?_eq_some_iff.mp hi
  have hlength : pos + i < s.length := by
    rw [List.length_drop] at hlt
    omega
  refine ⟨Nat.le_add_right _ _, hlength, ?_, ?_⟩
  · intro hmem
    obtain ⟨j, hj, hget⟩ := List.mem_iff_getElem.mp hmem
    rw [List.length_take] at hj
    rw [List.getElem_take] at hget
    exact hbefore j (by omega) hget
  · have hrest : s.drop (pos + i + 1) = (s.drop pos).drop (i + 1) := by
      rw [List.drop_drop]
      congr 1
    rw [Nat.add_sub_cancel_left, hrest, ← hc, List.getElem_cons_drop, List.take_append_drop]

theorem find_lt {s : List α} {c : α} {pos offset : ℕ} (h : find s c pos = some offset) :
    pos ≤ offset ∧ offset < s.length := by
  obtain ⟨hle, hlt, -⟩ := drop_of_find h
  exact ⟨hle, hlt⟩

/-- The first `c` behind a part without one. -/
theorem find_append {before part after : List α} {c : α} (hc : c ∉ part) :
    find (before ++ (part ++ c :: after)) c before.length =
      some (before.length + part.length) := by
  have hidx : (part ++ c :: after).idxOf? c = some part.length := by
    induction part with
    | nil => simp [List.idxOf?_cons]
    | cons a part ih =>
      rw [List.mem_cons, not_or] at hc
      rw [List.cons_append, List.idxOf?_cons, ih hc.2]
      simp [Ne.symm hc.1]
  rw [find, List.drop_left, hidx, Option.map_some]

/-- A separator that is found ends the first element of the rest of the text. -/
theorem splitOn_of_find {s : List α} {c : α} {pos offset : ℕ} (h : find s c pos = some offset) :
    (s.drop pos).splitOn c = (s.drop pos).take (offset - pos) :: (s.drop (offset + 1)).splitOn c := by
  obtain ⟨-, -, hfree, hparts⟩ := drop_of_find h
  conv_lhs => rw [hparts, List.splitOn_append_cons_self_of_not_mem hfree]

/-- Without another separator the rest of the text is one element. -/
theorem splitOn_of_find_eq_none {s : List α} {c : α} {pos : ℕ} (h : find s c pos = none) :
    (s.drop pos).splitOn c = [s.drop pos] :=
  List.splitOn_eq_singleton (find_eq_none_iff.mp h)

/-- The loop: collect what stands before the next `c`, and in the end the rest. -/
def splitLoop (s : List α) (c : α) (values : List (List α)) (pos : ℕ) : Option (List (List α)) :=
  match h : find s c pos with
  | none => (substrFrom s pos).map fun last => values ++ [last]
  | some offset =>
    (substr s pos (offset - pos)).bind fun element =>
      splitLoop s c (values ++ [element]) (offset + 1)
termination_by s.length - pos
decreasing_by
  have := find_lt h
  omega

/-- **What the loop collects.**  From any position of the text it ends, without an error,
with the split of the rest. -/
theorem splitLoop_eq {s : List α} {c : α} {values : List (List α)} {pos : ℕ}
    (hpos : pos ≤ s.length) :
    splitLoop s c values pos = some (values ++ (s.drop pos).splitOn c) := by
  fun_induction splitLoop s c values pos with
  | case1 values pos h =>
    rw [substrFrom, if_pos hpos, splitOn_of_find_eq_none h]
    rfl
  | case2 values pos offset h ih =>
    have hnext : offset + 1 ≤ s.length := (find_lt h).2
    rw [substr, if_pos hpos, Option.bind_some, ih _ hnext, splitOn_of_find h]
    simp

/-- No element of a split holds the separator. -/
theorem not_mem_of_mem_splitOn {s element : List α} {c : α} (h : element ∈ s.splitOn c) :
    c ∉ element := by
  induction s generalizing element with
  | nil =>
    rw [List.splitOn_nil, List.mem_singleton] at h
    simp [h]
  | cons a s ih =>
    rw [List.splitOn_cons_eq_if_modifyHead] at h
    split at h
    · rcases List.mem_cons.mp h with rfl | h
      · simp
      · exact ih h
    · next ha =>
      have hne : c ≠ a := fun hca => by simp [hca] at ha
      cases hsplit : s.splitOn c with
      | nil => exact absurd hsplit (List.splitOn_ne_nil _ _)
      | cons head rest =>
        rw [hsplit, List.modifyHead_cons] at h
        rcases List.mem_cons.mp h with rfl | h
        · have hhead : c ∉ head := ih (by simp [hsplit])
          simp [hne, hhead]
        · exact ih (by simp [hsplit, h])

omit [DecidableEq α] in
/-- A text put together holds the separator and what its parts hold. -/
theorem mem_intercalate_iff {parts : List (List α)} {c d : α} (hd : d ≠ c) :
    d ∈ [c].intercalate parts ↔ ∃ part ∈ parts, d ∈ part := by
  induction parts with
  | nil => simp
  | cons part parts ih =>
    cases parts with
    | nil => simp
    | cons next rest =>
      rw [List.intercalate_cons_cons, List.mem_append, ih]
      simp [hd]

/-- The elements of a split hold what the text holds, but for the separator. -/
theorem exists_mem_splitOn_iff {s : List α} {c d : α} (hd : d ≠ c) :
    (∃ element ∈ s.splitOn c, d ∈ element) ↔ d ∈ s := by
  rw [← mem_intercalate_iff hd, List.intercalate_splitOn]

end Text
