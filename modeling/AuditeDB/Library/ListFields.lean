import Mathlib

/-!
# Lists written with separators

A list in one line: its members stand between separators, blanks around a member do not count, and empty members
are left out. The members of a recoded line are the recoded members.
-/

namespace ListFields

variable {α β : Type*} [DecidableEq α] [DecidableEq β]

/-- A word without the blanks around it. -/
def trim (blank : α → Bool) (word : List α) : List α := (word.dropWhile blank).rdropWhile blank

/-- The members of a line. -/
def members (separator : α) (blank : α → Bool) (line : List α) : List (List α) :=
  ((line.splitOn separator).map (trim blank)).filter (· ≠ [])

section

omit [DecidableEq α]

/-- A word without blanks at its ends is not shortened. -/
theorem trim_eq_self {blank : α → Bool} {word : List α} (hhead : ∀ a ∈ word.head?, blank a = false)
    (hlast : ∀ a ∈ word.getLast?, blank a = false) : trim blank word = word := by
  have hdrop : word.dropWhile blank = word := by
    cases word with
    | nil => rfl
    | cons a rest => rw [List.dropWhile_cons_of_neg (by simp [hhead a rfl])]
  rw [trim, hdrop, List.rdropWhile_eq_self_iff]
  intro hne
  simpa using hlast _ (List.getLast?_eq_some_getLast hne)

end

end ListFields
