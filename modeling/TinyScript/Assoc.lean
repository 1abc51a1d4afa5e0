/-! # Association lists

A finite map as the list of its pairs, in the order in which their keys first came. Writing to a key that
is there replaces its value in place, so no key stands twice in a list that is built by writing. The main
statements are the two laws of reading what was written, `find?_insert_self` and `find?_insert_of_ne`.
-/

namespace TinyScript.Assoc

variable {κ ν : Type} [DecidableEq κ]

/-- The value at a key. -/
def find? (key : κ) : List (κ × ν) → Option ν
  | [] => none
  | (k, v) :: pairs => if k = key then some v else find? key pairs

/-- The pairs with `value` at `key`. -/
def insert (key : κ) (value : ν) : List (κ × ν) → List (κ × ν)
  | [] => [(key, value)]
  | (k, v) :: pairs => if k = key then (key, value) :: pairs else (k, v) :: insert key value pairs

theorem find?_nil (key : κ) : find? key ([] : List (κ × ν)) = none := rfl

/-- What was written at a key is read there. -/
theorem find?_insert_self (key : κ) (value : ν) (pairs : List (κ × ν)) :
    find? key (insert key value pairs) = some value := by
  induction pairs with
  | nil => exact if_pos rfl
  | cons pair pairs ih =>
    obtain ⟨k, v⟩ := pair
    by_cases h : k = key
    · simp only [insert, if_pos h, find?, if_true]
    · simp only [insert, if_neg h, find?, ih]

/-- Writing at one key changes nothing at another. -/
theorem find?_insert_of_ne {key other : κ} (value : ν) (pairs : List (κ × ν)) (h : other ≠ key) :
    find? other (insert key value pairs) = find? other pairs := by
  induction pairs with
  | nil => exact if_neg h.symm
  | cons pair pairs ih =>
    obtain ⟨k, v⟩ := pair
    by_cases hk : k = key
    · subst hk
      simp only [insert, if_true, find?, if_neg h.symm]
    · simp only [insert, if_neg hk, find?, ih]

end TinyScript.Assoc
