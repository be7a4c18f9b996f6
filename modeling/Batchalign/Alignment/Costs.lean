import Batchalign.Alignment.Basic
import Batchalign.Library.EditDistance

/-!
# The cost rows and the cost table

Both dynamic programs fill rows of edit distances. Row `i` of either one is
indexed by the payload prefix, and its entry `j` is the distance between the
first `i` reference items and the first `j` payload items. Prefixes are read
backwards, so that one more item is one more head.

The table entries also carry an action. `cellAt` says what entry `(i, j)` is in
terms of the distances of its neighbours, and `fillTable_getD` that the pushed
table holds exactly these entries.
-/

namespace Batchalign.Alignment

open EditDistance

section PushFold

variable {α β : Type}

theorem pushFold_concat (entry : List β → α → ℕ → β) (start : List β) (xs : List α) (x : α) :
    pushFold entry start (xs ++ [x]) =
      pushFold entry start xs ++ [entry (pushFold entry start xs) x xs.length] := by
  simp [pushFold, List.zipIdx_append]

/-- A pushed list tabulates any function that satisfies the recurrence of its entries. -/
theorem pushFold_eq_map (entry : List β → α → ℕ → β) (value : ℕ → β) (xs : List α)
    (recurrence : ∀ k (bound : k < xs.length),
      entry ((List.range (k + 1)).map value) xs[k] k = value (k + 1)) :
    pushFold entry [value 0] xs = (List.range (xs.length + 1)).map value := by
  induction xs using List.reverseRecOn with
  | nil => simp [pushFold]
  | append_singleton xs x ih =>
      have earlier : pushFold entry [value 0] xs = (List.range (xs.length + 1)).map value := by
        apply ih
        intro k bound
        have step := recurrence k (by simp; omega)
        rwa [List.getElem_append_left bound] at step
      have last := recurrence xs.length (by simp)
      rw [List.getElem_append_right le_rfl] at last
      simp only [Nat.sub_self, List.getElem_cons_zero] at last
      rw [pushFold_concat, earlier, last, List.length_append, List.length_singleton,
        @List.range_succ (xs.length + 1)]
      simp

end PushFold

theorem getD_map_range {β : Type} (value : ℕ → β) (fallback : β) {n k : ℕ} (bound : k < n) :
    ((List.range n).map value).getD k fallback = value k := by
  simp [List.getD, bound]

section Rows

variable {Threshold T : Type} [Alignable Threshold T]

/-- The predicate the cost rows test: a reference item against a payload item. -/
def refMatches (mode : MatchMode Threshold) (refItem payItem : T) : Bool :=
  Alignable.isMatch refItem payItem mode

theorem reverse_take_succ (xs : List T) {k : ℕ} (bound : k < xs.length) :
    (xs.take (k + 1)).reverse = xs[k] :: (xs.take k).reverse := by
  rw [List.take_succ_eq_append_getElem bound, List.reverse_concat]

/-- The row of distances from the items `seen`, last item first, to every payload prefix. -/
def distanceRow (mode : MatchMode Threshold) (payload seen : List T) : List ℕ :=
  (List.range (payload.length + 1)).map fun k =>
    distance unitGap (refMatches mode) seen (payload.take k).reverse

theorem rowStep_distanceRow (mode : MatchMode Threshold) (payload seen : List T) (refItem : T) :
    rowStep mode payload (distanceRow mode payload seen) refItem =
      distanceRow mode payload (refItem :: seen) := by
  have start : (distanceRow mode payload seen).getD 0 0 + costGap =
      distance unitGap (refMatches mode) (refItem :: seen) (payload.take 0).reverse := by
    simp [distanceRow, costGap, unitGap]
  simp only [rowStep]
  rw [start]
  apply pushFold_eq_map _
    (fun k => distance unitGap (refMatches mode) (refItem :: seen) (payload.take k).reverse)
  intro k bound
  rw [distanceRow, getD_map_range _ _ (by omega), getD_map_range _ _ (by omega),
    getD_map_range _ _ (by omega), reverse_take_succ payload bound, distance_cons_cons]
  rfl

theorem distanceRow_nil (mode : MatchMode Threshold) (payload : List T) :
    distanceRow mode payload [] = List.range (payload.length + 1) := by
  simp only [distanceRow]
  conv_rhs => rw [← List.map_id (List.range (payload.length + 1))]
  apply List.map_congr_left
  intro k inRange
  have bound := List.mem_range.mp inRange
  simp [unitGap]
  omega

theorem foldl_rowStep (mode : MatchMode Threshold) (payload seen reference : List T) :
    reference.foldl (rowStep mode payload) (distanceRow mode payload seen) =
      distanceRow mode payload (reference.reverse ++ seen) := by
  induction reference generalizing seen with
  | nil => rfl
  | cons refItem reference ih =>
      rw [List.foldl_cons, rowStep_distanceRow, ih]
      simp

theorem rowCosts_getD (mode : MatchMode Threshold) (reference payload : List T) {k : ℕ}
    (bound : k ≤ payload.length) :
    (rowCosts mode reference payload).getD k 0 =
      distance unitGap (refMatches mode) reference (payload.take k) := by
  simp only [rowCosts]
  rw [← distanceRow_nil mode payload, foldl_rowStep, List.append_nil, distanceRow,
    getD_map_range _ _ (by omega), distance_reverse]

theorem rowCostsRev_getD (mode : MatchMode Threshold) (reference payload : List T) {k : ℕ}
    (bound : k ≤ payload.length) :
    (rowCostsRev mode reference payload).getD (payload.length - k) 0 =
      distance unitGap (refMatches mode) reference (payload.drop k) := by
  simp only [rowCostsRev]
  rw [← @List.length_reverse _ payload, ← distanceRow_nil mode payload.reverse,
    foldl_rowStep, List.append_nil, List.reverse_reverse, distanceRow,
    getD_map_range _ _ (by simp), List.length_reverse]
  congr 1
  rw [List.take_reverse, List.reverse_reverse]
  congr 1
  omega

end Rows

section Table

variable {Threshold T : Type} [Alignable Threshold T]

/-- The distance between the first `i` reference items and the first `j` payload items. -/
def prefixDistance (mode : MatchMode Threshold) (payload reference : List T) (i j : ℕ) : ℕ :=
  distance unitGap (refMatches mode) (reference.take i).reverse (payload.take j).reverse

/-- Entry `(i, j)` of the table, from the distances of its neighbours. -/
def cellAt (mode : MatchMode Threshold) (payload reference : List T) : ℕ → ℕ → Cell
  | 0, 0 => Cell.initial
  | 0, j + 1 => ⟨(j + 1) * costGap, .extraPayload, 0, j⟩
  | i + 1, 0 => ⟨(i + 1) * costGap, .extraReference, i, 0⟩
  | i + 1, j + 1 =>
      match reference[i]?, payload[j]? with
      | some refItem, some payItem =>
          nextCell mode refItem payItem (i + 1) (j + 1)
            (prefixDistance mode payload reference i j)
            (prefixDistance mode payload reference i (j + 1))
            (prefixDistance mode payload reference (i + 1) j)
      | _, _ => Cell.initial

theorem prefixDistance_succ (mode : MatchMode Threshold) (payload reference : List T) {i j : ℕ}
    (refBound : i < reference.length) (payBound : j < payload.length) :
    prefixDistance mode payload reference (i + 1) (j + 1) =
      min (min (prefixDistance mode payload reference i j +
          subCost mode reference[i] payload[j])
        (prefixDistance mode payload reference i (j + 1) + costGap))
        (prefixDistance mode payload reference (i + 1) j + costGap) := by
  simp only [prefixDistance, reverse_take_succ reference refBound,
    reverse_take_succ payload payBound, distance_cons_cons]
  rfl

theorem cellAt_succ (mode : MatchMode Threshold) (payload reference : List T) {i j : ℕ}
    (refBound : i < reference.length) (payBound : j < payload.length) :
    cellAt mode payload reference (i + 1) (j + 1) =
      nextCell mode reference[i] payload[j] (i + 1) (j + 1)
        (prefixDistance mode payload reference i j)
        (prefixDistance mode payload reference i (j + 1))
        (prefixDistance mode payload reference (i + 1) j) := by
  simp [cellAt, List.getElem?_eq_getElem refBound, List.getElem?_eq_getElem payBound]

theorem nextCell_cost (mode : MatchMode Threshold) (refItem payItem : T)
    (i j diagonal up left : ℕ) :
    (nextCell mode refItem payItem i j diagonal up left).cost =
      min (min (diagonal + subCost mode refItem payItem) (up + costGap)) (left + costGap) := by
  simp only [nextCell, apply_ite Cell.cost]
  split_ifs <;> omega

theorem cellAt_cost (mode : MatchMode Threshold) (payload reference : List T) {i j : ℕ}
    (refBound : i ≤ reference.length) (payBound : j ≤ payload.length) :
    (cellAt mode payload reference i j).cost = prefixDistance mode payload reference i j := by
  cases i with
  | zero =>
      cases j with
      | zero => simp [cellAt, Cell.initial, prefixDistance]
      | succ j => simp [cellAt, prefixDistance, costGap, unitGap, payBound]
  | succ i =>
      cases j with
      | zero => simp [cellAt, prefixDistance, costGap, unitGap, refBound]
      | succ j =>
          rw [cellAt_succ mode payload reference refBound payBound, nextCell_cost,
            prefixDistance_succ mode payload reference refBound payBound]

/-- Row `i` of the table. -/
def rowAt (mode : MatchMode Threshold) (payload reference : List T) (i : ℕ) : List Cell :=
  (List.range (payload.length + 1)).map (cellAt mode payload reference i)

theorem firstRow_eq_rowAt (mode : MatchMode Threshold) (payload reference : List T) :
    firstRow (payload.length + 1) = rowAt mode payload reference 0 := by
  simp only [firstRow, rowAt]
  apply List.map_congr_left
  intro j _
  cases j with
  | zero => rfl
  | succ j => rfl

theorem fillRow_eq_rowAt (mode : MatchMode Threshold) (payload reference : List T) {i : ℕ}
    (bound : i < reference.length) :
    fillRow mode payload (rowAt mode payload reference i) reference[i] (i + 1) =
      rowAt mode payload reference (i + 1) := by
  simp only [fillRow]
  apply pushFold_eq_map _ (cellAt mode payload reference (i + 1))
  intro k payBound
  rw [rowAt, getD_map_range _ _ (by omega), getD_map_range _ _ (by omega),
    getD_map_range _ _ (by omega), cellAt_succ mode payload reference bound payBound,
    cellAt_cost mode payload reference (by omega) (by omega),
    cellAt_cost mode payload reference (by omega) (by omega),
    cellAt_cost mode payload reference (by omega) (by omega)]

theorem fillTable_eq_map (mode : MatchMode Threshold) (payload reference : List T) :
    fillTable mode payload reference =
      (List.range (reference.length + 1)).map (rowAt mode payload reference) := by
  simp only [fillTable]
  rw [firstRow_eq_rowAt mode payload reference]
  apply pushFold_eq_map
  intro k bound
  rw [getD_map_range _ _ (by omega)]
  exact fillRow_eq_rowAt mode payload reference bound

theorem fillTable_getD (mode : MatchMode Threshold) (payload reference : List T) {i j : ℕ}
    (refBound : i ≤ reference.length) (payBound : j ≤ payload.length) :
    ((fillTable mode payload reference).getD i []).getD j Cell.initial =
      cellAt mode payload reference i j := by
  rw [fillTable_eq_map, getD_map_range _ _ (by omega), rowAt, getD_map_range _ _ (by omega)]

end Table

end Batchalign.Alignment
