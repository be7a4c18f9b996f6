import Mathlib

/-!
# Elements of one kind in a mixed list

The elements that `select` takes are numbered by themselves; `positions` gives the place of each
in the whole list. An edit at such a place is the edit of the selected elements at their number,
and leaves the others as they are.
-/

namespace Selected

variable {α β : Type*} {select : α → Option β} {xs front back : List α} {a : α} {b : β} {i k : ℕ}

def positions (select : α → Option β) (xs : List α) : List ℕ :=
  xs.zipIdx.filterMap fun (a, index) => if (select a).isSome then some index else none

/-- The elements that are not selected. -/
def others (select : α → Option β) (xs : List α) : List α := xs.filter fun a => (select a).isNone

theorem others_append (ys : List α) :
    others select (xs ++ ys) = others select xs ++ others select ys :=
  List.filter_append ..

theorem others_cons_of_some (selected : select a = some b) :
    others select (a :: xs) = others select xs := by
  simp [others, selected]

@[simp]
theorem filterMap_others (xs : List α) : (others select xs).filterMap select = [] := by
  rw [List.filterMap_eq_nil_iff]
  intro a member
  exact Option.isNone_iff_eq_none.mp (List.mem_filter.mp member).2

@[simp]
theorem others_others (xs : List α) : others select (others select xs) = others select xs := by
  rw [others, others, List.filter_filter]
  simp only [Bool.and_self]

theorem positions_cons (a : α) (xs : List α) :
    positions select (a :: xs) =
      (if (select a).isSome then [0] else []) ++ (positions select xs).map (· + 1) := by
  have later : ∀ start, (xs.zipIdx (start + 1)).filterMap (fun (a, index) =>
      if (select a).isSome then some index else none) =
        ((xs.zipIdx start).filterMap fun (a, index) =>
          if (select a).isSome then some index else none).map (· + 1) := by
    induction xs with
    | nil => exact fun _ => rfl
    | cons x xs ih =>
        intro start
        rw [List.zipIdx_cons, List.zipIdx_cons, List.filterMap_cons, List.filterMap_cons, ih]
        dsimp only
        split_ifs
        · rfl
        · rfl
  rw [positions, List.zipIdx_cons, List.filterMap_cons, later 0]
  dsimp only
  split_ifs
  · rfl
  · rfl

theorem length_positions : (positions select xs).length = (xs.filterMap select).length := by
  induction xs with
  | nil => rfl
  | cons a xs ih =>
      rw [positions_cons, List.length_append, List.length_map, ih, List.filterMap_cons]
      cases select a with
      | none => simp
      | some b => simp [Nat.add_comm]

/-- The place of a number cuts the list in front of the selected element that has it. -/
theorem split_of_position (atPlace : (positions select xs)[i]? = some k) :
    ∃ front a b back, xs = front ++ a :: back ∧ select a = some b ∧ front.length = k ∧
      (front.filterMap select).length = i := by
  induction xs generalizing i k with
  | nil => cases atPlace
  | cons x xs ih =>
      rw [positions_cons] at atPlace
      cases isKind : select x with
      | none =>
          rw [isKind, Option.isSome_none, if_neg Bool.false_ne_true, List.nil_append,
            List.getElem?_map, Option.map_eq_some_iff] at atPlace
          rcases atPlace with ⟨place, isPlace, rfl⟩
          rcases ih isPlace with ⟨front, a, b, back, rfl, selected, rfl, rfl⟩
          refine ⟨x :: front, a, b, back, rfl, selected, rfl, ?_⟩
          rw [List.filterMap_cons_none isKind]
      | some b =>
          rw [isKind, Option.isSome_some, if_pos rfl, List.singleton_append] at atPlace
          cases i with
          | zero =>
              rw [List.getElem?_cons_zero, Option.some_inj] at atPlace
              exact ⟨[], x, b, xs, rfl, isKind, atPlace, rfl⟩
          | succ i =>
              rw [List.getElem?_cons_succ, List.getElem?_map, Option.map_eq_some_iff] at atPlace
              rcases atPlace with ⟨place, isPlace, rfl⟩
              rcases ih isPlace with ⟨front, a, c, back, rfl, selected, rfl, rfl⟩
              refine ⟨x :: front, a, c, back, rfl, selected, rfl, ?_⟩
              rw [List.filterMap_cons_some isKind, List.length_cons]

/-- The place of a number that no selected element has is behind all of them. -/
theorem position_eq_none_iff :
    (positions select xs)[i]? = none ↔ (xs.filterMap select).length ≤ i := by
  rw [List.getElem?_eq_none_iff, length_positions]

section Edits

variable {inserted : α} {value : β}

theorem set_split : (front ++ a :: back).set front.length inserted = front ++ inserted :: back := by
  rw [List.set_append_right _ _ le_rfl, Nat.sub_self, List.set_cons_zero]

theorem eraseIdx_split : (front ++ a :: back).eraseIdx front.length = front ++ back := by
  rw [List.eraseIdx_append_of_length_le le_rfl, Nat.sub_self, List.eraseIdx_cons_zero]

theorem insertIdx_split :
    (front ++ back).insertIdx front.length inserted = front ++ inserted :: back := by
  induction front with
  | nil => rfl
  | cons x front ih =>
      rw [List.cons_append, List.length_cons, List.insertIdx_succ_cons, ih, List.cons_append]

theorem getElem?_split : (front ++ a :: back)[front.length]? = some a := by
  rw [List.getElem?_append_right le_rfl, Nat.sub_self, List.getElem?_cons_zero]

theorem filterMap_split (selected : select a = some b) :
    (front ++ a :: back).filterMap select =
      front.filterMap select ++ b :: back.filterMap select := by
  rw [List.filterMap_append, List.filterMap_cons_some selected]

theorem others_split (selected : select a = some b) :
    others select (front ++ a :: back) = others select (front ++ back) := by
  rw [others_append, others_cons_of_some selected, ← others_append]

end Edits

end Selected
