import Mathlib

/-!
# Replacing what occurs in a list

`replace old new` puts `new` in the place of every occurrence of `old`, from the front and
without overlaps. What a sequence of edits that only leave out elements has once removed does not
come back (`not_mem_foldl`).
-/

namespace Replacement

variable {α : Type*} [DecidableEq α]

/-- The count says how many elements of an occurrence are still to be passed. -/
def replaceFrom (old new : List α) : ℕ → List α → List α
  | _, [] => []
  | skip + 1, _ :: xs => replaceFrom old new skip xs
  | 0, x :: xs =>
      if old <+: x :: xs then new ++ replaceFrom old new (old.length - 1) xs
      else x :: replaceFrom old new 0 xs

def replace (old new xs : List α) : List α := replaceFrom old new 0 xs

section Replace

variable {old new xs : List α} {x y : α}

theorem replaceFrom_subset (fewer : new ⊆ old) (skip : ℕ) :
    replaceFrom old new skip xs ⊆ xs := by
  fun_induction replaceFrom old new skip xs with
  | case1 => exact List.Subset.refl []
  | case2 skip x xs ih => exact List.subset_cons_of_subset x ih
  | case3 x xs found ih =>
      apply List.append_subset.mpr
      exact ⟨fun y member => found.subset (fewer member), List.subset_cons_of_subset x ih⟩
  | case4 x xs _ ih => exact List.cons_subset_cons x ih

theorem replace_subset (fewer : new ⊆ old) : replace old new xs ⊆ xs :=
  replaceFrom_subset fewer 0

@[simp]
theorem replace_nil : replace old new [] = [] := rfl

theorem replace_singleton_cons :
    replace [y] new (x :: xs) = (if x = y then new else [x]) ++ replace [y] new xs := by
  rw [replace, replaceFrom]
  by_cases same : x = y
  · rw [if_pos (by simp [same]), if_pos same]
    rfl
  · rw [if_neg (by simpa using Ne.symm same), if_neg same]
    rfl

/-- One element is replaced everywhere. -/
theorem replace_singleton :
    replace [y] new xs = xs.flatMap fun x => if x = y then new else [x] := by
  induction xs with
  | nil => rfl
  | cons x xs ih => rw [replace_singleton_cons, ih, List.flatMap_cons]

theorem mem_replace_singleton :
    x ∈ replace [y] new xs ↔ x ∈ xs ∧ x ≠ y ∨ y ∈ xs ∧ x ∈ new := by
  rw [replace_singleton, List.mem_flatMap]
  constructor
  · rintro ⟨z, member, inside⟩
    by_cases same : z = y
    · rw [if_pos same] at inside
      exact Or.inr ⟨same ▸ member, inside⟩
    · rw [if_neg same, List.mem_singleton] at inside
      exact Or.inl ⟨inside ▸ member, inside ▸ same⟩
  · rintro (⟨member, other⟩ | ⟨member, inside⟩)
    · exact ⟨x, member, by simp [other]⟩
    · exact ⟨y, member, by simpa using inside⟩

theorem replace_singleton_of_not_mem (absent : y ∉ xs) : replace [y] new xs = xs := by
  induction xs with
  | nil => rfl
  | cons x xs ih =>
      rw [List.mem_cons, not_or] at absent
      rw [replace_singleton_cons, if_neg (Ne.symm absent.1), ih absent.2]
      rfl

end Replace

section Edits

variable {x : α} {xs : List α} {steps : List (List α → List α)}

/-- The edit only leaves out elements. -/
def Shrinks (step : List α → List α) : Prop := ∀ xs, step xs ⊆ xs

omit [DecidableEq α] in
theorem foldl_subset (shrink : ∀ step ∈ steps, Shrinks step) :
    steps.foldl (fun xs step => step xs) xs ⊆ xs := by
  induction steps generalizing xs with
  | nil => exact List.Subset.refl xs
  | cons step steps ih =>
      rw [List.forall_mem_cons] at shrink
      exact List.Subset.trans (ih shrink.2) (shrink.1 xs)

omit [DecidableEq α] in
/-- What one of the edits removes is gone at the end. -/
theorem not_mem_foldl (shrink : ∀ step ∈ steps, Shrinks step)
    (removed : ∃ step ∈ steps, ∀ xs, x ∉ step xs) :
    x ∉ steps.foldl (fun xs step => step xs) xs := by
  induction steps generalizing xs with
  | nil => simp at removed
  | cons step steps ih =>
      rw [List.forall_mem_cons] at shrink
      rcases removed with ⟨remover, member, absent⟩
      rcases List.mem_cons.mp member with rfl | later
      · exact fun inside => absent xs (foldl_subset shrink.2 inside)
      · exact ih shrink.2 ⟨remover, later, absent⟩

end Edits

end Replacement
