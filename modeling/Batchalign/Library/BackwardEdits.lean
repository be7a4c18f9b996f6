import Batchalign.Library.Selected

/-!
# Edits from the last to the first

An edit puts a list in the place of a selected element, which it names by its number among the
selected ones. An edit in front of all edits made so far finds its element at the old place, so
that edits from the last to the first are edits of the original list.
-/

namespace Selected

variable {α β : Type*} {select : α → Option β} {edits others : ℕ → Option (List α)}
  {xs front back block : List α} {a : α} {b : β} {i k : ℕ}

/-- The list with its edits; the counter is the number of the next selected element. -/
def editFrom (select : α → Option β) (edits : ℕ → Option (List α)) : ℕ → List α → List α
  | _, [] => []
  | k, x :: xs =>
      if (select x).isSome then (edits k).getD [x] ++ editFrom select edits (k + 1) xs
      else x :: editFrom select edits k xs

def edit (select : α → Option β) (edits : ℕ → Option (List α)) (xs : List α) : List α :=
  editFrom select edits 0 xs

/-- One more edit. -/
def withEdit (edits : ℕ → Option (List α)) (k : ℕ) (block : List α) : ℕ → Option (List α) :=
  Function.update edits k (some block)

theorem editFrom_append (edits : ℕ → Option (List α)) (k : ℕ) (xs ys : List α) :
    editFrom select edits k (xs ++ ys) =
      editFrom select edits k xs ++ editFrom select edits (k + (xs.filterMap select).length) ys := by
  induction xs generalizing k with
  | nil => rfl
  | cons x xs ih =>
      rw [List.cons_append, editFrom, editFrom]
      cases isKind : select x with
      | none =>
          rw [List.filterMap_cons_none isKind, Option.isSome_none, if_neg Bool.false_ne_true,
            if_neg Bool.false_ne_true, ih, List.cons_append]
      | some b =>
          rw [List.filterMap_cons_some isKind, List.length_cons, Option.isSome_some, if_pos rfl,
            if_pos rfl, ih, List.append_assoc, Nat.add_right_comm, Nat.add_assoc]

theorem editFrom_cons_of_some (selected : select a = some b) :
    editFrom select edits k (a :: xs) = (edits k).getD [a] ++ editFrom select edits (k + 1) xs := by
  rw [editFrom, selected, Option.isSome_some, if_pos rfl]

/-- Edits that agree on the numbers of a list agree on the list. -/
theorem editFrom_congr
    (same : ∀ j, k ≤ j → j < k + (xs.filterMap select).length → edits j = others j) :
    editFrom select edits k xs = editFrom select others k xs := by
  induction xs generalizing k with
  | nil => rfl
  | cons x xs ih =>
      rw [editFrom, editFrom]
      cases isKind : select x with
      | none =>
          rw [List.filterMap_cons_none isKind] at same
          rw [Option.isSome_none, if_neg Bool.false_ne_true, if_neg Bool.false_ne_true, ih same]
      | some b =>
          rw [List.filterMap_cons_some isKind, List.length_cons] at same
          rw [Option.isSome_some, if_pos rfl, if_pos rfl, same k le_rfl (by omega),
            ih fun j lower upper => same j (by omega) (by omega)]

theorem editFrom_none (k : ℕ) (xs : List α) : editFrom select (fun _ => none) k xs = xs := by
  induction xs generalizing k with
  | nil => rfl
  | cons x xs ih =>
      rw [editFrom, ih, ih, Option.getD_none, List.singleton_append, ite_self]

/-- Without an edit of its numbers a list stays as it is. -/
theorem editFrom_untouched
    (untouched : ∀ j, k ≤ j → j < k + (xs.filterMap select).length → edits j = none) :
    editFrom select edits k xs = xs :=
  (editFrom_congr untouched).trans (editFrom_none k xs)

/-- A list whose edits are all behind an element, cut at the element. -/
theorem edit_split (selected : select a = some b)
    (later : ∀ j ≤ (front.filterMap select).length, edits j = none) :
    edit select edits (front ++ a :: back) =
      front ++ a :: editFrom select edits ((front.filterMap select).length + 1) back := by
  rw [edit, editFrom_append, Nat.zero_add, editFrom_cons_of_some selected, later _ le_rfl,
    editFrom_untouched fun j _ upper => later j (by omega)]
  rfl

theorem position_split (selected : select a = some b) :
    (positions select (front ++ a :: back))[(front.filterMap select).length]? =
      some front.length := by
  induction front with
  | nil =>
      rw [List.nil_append, positions_cons, selected]
      rfl
  | cons x front ih =>
      rw [List.cons_append, positions_cons]
      cases isKind : select x with
      | none =>
          rw [List.filterMap_cons_none isKind, Option.isSome_none, if_neg Bool.false_ne_true,
            List.nil_append, List.getElem?_map, ih, Option.map_some, List.length_cons]
      | some c =>
          rw [List.filterMap_cons_some isKind, Option.isSome_some, if_pos rfl, List.length_cons,
            List.singleton_append, List.getElem?_cons_succ, List.getElem?_map, ih, Option.map_some,
            List.length_cons]

/-- An element in front of all edits is where it was. -/
theorem position_edit (inside : i < (xs.filterMap select).length)
    (later : ∀ j ≤ i, edits j = none) :
    (positions select (edit select edits xs))[i]? = (positions select xs)[i]? := by
  rcases Option.ne_none_iff_exists'.mp
    (mt position_eq_none_iff.mp (Nat.not_le.mpr inside)) with ⟨place, atPlace⟩
  rcases split_of_position atPlace with ⟨front, a, b, back, rfl, selected, rfl, rfl⟩
  rw [edit_split selected later, position_split selected, position_split selected]

/-- An edit in front of all edits is one more edit of the original list. -/
theorem edit_withEdit (atPlace : (positions select xs)[i]? = some k)
    (later : ∀ j ≤ i, edits j = none) :
    (edit select edits xs).take k ++ block ++ (edit select edits xs).drop (k + 1) =
      edit select (withEdit edits i block) xs := by
  rcases split_of_position atPlace with ⟨front, a, b, back, rfl, selected, rfl, rfl⟩
  have before : editFrom select (withEdit edits (front.filterMap select).length block) 0 front =
      front := by
    apply editFrom_untouched
    intro j _ upper
    rw [withEdit, Function.update_of_ne (by omega)]
    exact later j (by omega)
  have behind : editFrom select (withEdit edits (front.filterMap select).length block)
      ((front.filterMap select).length + 1) back =
        editFrom select edits ((front.filterMap select).length + 1) back := by
    apply editFrom_congr
    intro j lower _
    rw [withEdit, Function.update_of_ne (by omega)]
  rw [edit_split selected later, List.take_left, List.drop_append, edit, editFrom_append,
    Nat.zero_add, before, editFrom_cons_of_some selected, behind, withEdit,
    Function.update_self]
  simp

end Selected
