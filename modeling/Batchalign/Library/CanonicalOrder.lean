import Mathlib

/-!
# Canonical order

Elements have a class. An element of class zero keeps its place, and the elements between two of
them are sorted by their class, those of one class in their order. This is how the normal forms
of Unicode order combining marks.
-/

namespace CanonicalOrder

variable {α β : Type*} {rank : α → ℕ}

/-- An element in front of an ordered list. -/
def place (rank : α → ℕ) (x : α) (xs : List α) : List α :=
  if rank x = 0 then x :: xs
  else
    let before (y : α) : Bool := rank y ≠ 0 && rank y < rank x
    xs.takeWhile before ++ x :: xs.dropWhile before

def order (rank : α → ℕ) : List α → List α
  | [] => []
  | x :: xs => place rank x (order rank xs)

/-- A change that keeps the classes can be made before or after the ordering. -/
theorem order_map {other : β → ℕ} {f : α → β} (same : ∀ x, other (f x) = rank x) (xs : List α) :
    order other (xs.map f) = (order rank xs).map f := by
  induction xs with
  | nil => rfl
  | cons x xs ih =>
      rw [List.map_cons, order, order, ih, place, place, same]
      split
      · rfl
      · have before : (fun y => decide (rank y ≠ 0) && decide (rank y < rank x)) =
            (fun y => decide (other y ≠ 0) && decide (other y < rank x)) ∘ f := by
          funext y
          simp only [Function.comp_apply, same]
        simp only [List.map_append, List.map_cons, List.takeWhile_map, List.dropWhile_map, before]

theorem order_perm (xs : List α) : (order rank xs).Perm xs := by
  induction xs with
  | nil => exact .nil
  | cons x xs ih =>
      rw [order, place]
      split
      · exact ih.cons x
      · refine List.perm_middle.trans (List.Perm.cons x ?_)
        rw [List.takeWhile_append_dropWhile]
        exact ih

end CanonicalOrder
