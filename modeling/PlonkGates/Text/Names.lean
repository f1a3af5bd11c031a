/-!
# Sorted names

Names are ordered by the code points of their characters. A set of names is a list in strictly
increasing order.
-/

namespace PlonkGates.Text

variable {α : Type} [LT α] [DecidableLT α] [DecidableEq α]

/-- Adds a name to a sorted list, unless it is there. -/
def insertName (x : α) : List α → List α
  | [] => [x]
  | y :: ys => if x < y then x :: y :: ys else if x = y then y :: ys else y :: insertName x ys

/-- The different names of a list in increasing order. -/
def sortNames : List α → List α
  | [] => []
  | x :: xs => insertName x (sortNames xs)

theorem mem_insertName {x y : α} {ys : List α} :
    x ∈ insertName y ys ↔ x = y ∨ x ∈ ys := by
  induction ys with
  | nil => simp [insertName]
  | cons z zs ih =>
    simp only [insertName]
    split
    · simp
    · split
      · next h => simp [h]
      · simp only [List.mem_cons, ih]
        exact or_left_comm

/-- Sorting keeps the names. -/
@[simp] theorem mem_sortNames {x : α} {xs : List α} : x ∈ sortNames xs ↔ x ∈ xs := by
  induction xs with
  | nil => simp [sortNames]
  | cons y ys ih => simp [sortNames, mem_insertName, ih]

end PlonkGates.Text
