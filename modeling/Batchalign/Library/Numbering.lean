import Mathlib

/-!
# Numbering the kept elements of a list

A pass over a list that numbers the elements with a property, counting from 1, and skips the
others. The numbers of the kept elements, in their order, are `1, 2, ..., k`
(`map_number_positions`), and a list of kept elements with these numbers is the list of all of
them (`eq_positions_of_map_number`).
-/

namespace Numbering

universe u

variable {α : Type u} {p : α → Bool} {xs ys : List α} {x : α} {i j : ℕ}

/-- The positions of the kept elements. -/
def positions (p : α → Bool) (xs : List α) : List ℕ :=
  (List.range xs.length).filter fun i => (xs[i]?).any p

/-- The number that an element at this position has or would have. -/
def number (p : α → Bool) (xs : List α) (i : ℕ) : ℕ := (xs.take i).countP p + 1

theorem mem_positions : i ∈ positions p xs ↔ ∃ x, xs[i]? = some x ∧ p x = true := by
  unfold positions
  rw [List.mem_filter, List.mem_range]
  constructor
  · rintro ⟨inside, kept⟩
    exact ⟨xs[i], List.getElem?_eq_getElem inside, by simpa [inside] using kept⟩
  · rintro ⟨x, atPlace, kept⟩
    exact ⟨(List.getElem?_eq_some_iff.mp atPlace).1, by simpa [atPlace] using kept⟩

/-- Only which elements are kept counts. -/
theorem positions_map : positions id (xs.map p) = positions p xs := by
  unfold positions
  rw [List.length_map]
  refine List.filter_congr fun i _ => ?_
  rw [List.getElem?_map, Option.any_map]
  rfl

theorem positions_concat :
    positions p (xs ++ [x]) = positions p xs ++ if p x then [xs.length] else [] := by
  have front : (List.range xs.length).filter (fun i => ((xs ++ [x])[i]?).any p) =
      positions p xs := by
    refine List.filter_congr fun i inside => ?_
    rw [List.getElem?_append_left (List.mem_range.mp inside)]
  unfold positions at front ⊢
  rw [List.length_append, List.length_singleton, List.range_succ, List.filter_append, front]
  cases kept : p x <;> simp [kept]

theorem head?_positions : (positions p xs).head? = xs.findIdx? p := by
  induction xs using List.reverseRecOn with
  | nil => rfl
  | append_singleton xs x ih =>
      rw [positions_concat, List.head?_append, ih, List.findIdx?_append, List.findIdx?_singleton]
      cases p x <;> simp

theorem number_append (inside : i ≤ xs.length) : number p (xs ++ ys) i = number p xs i := by
  unfold number
  rw [List.take_append_of_le_length inside]

theorem number_length : number p xs xs.length = xs.countP p + 1 := by
  unfold number
  rw [List.take_length]

/-- The kept elements have the numbers from 1 on. -/
theorem map_number_positions :
    (positions p xs).map (number p xs) = List.range' 1 (xs.countP p) := by
  induction xs using List.reverseRecOn with
  | nil => rfl
  | append_singleton xs x ih =>
      have front : (positions p xs).map (number p (xs ++ [x])) =
          (positions p xs).map (number p xs) := by
        refine List.map_congr_left fun i mem => number_append ?_
        rcases mem_positions.mp mem with ⟨y, atPlace, -⟩
        exact (List.getElem?_eq_some_iff.mp atPlace).1.le
      rw [positions_concat, List.map_append, front, ih, List.countP_append]
      cases kept : p x with
      | false => simp [kept]
      | true =>
          have last : number p (xs ++ [x]) xs.length = xs.countP p + 1 := by
            rw [number_append le_rfl, number_length]
          simp only [if_true, List.map_cons, List.map_nil, last, List.countP_singleton, kept]
          rw [List.range'_concat, Nat.one_mul, Nat.add_comm]

theorem length_positions : (positions p xs).length = xs.countP p := by
  have numbers := congrArg List.length (map_number_positions : (positions p xs).map _ = _)
  simpa using numbers

/-- A kept element has a smaller number than every later position. -/
theorem number_lt (kept : i ∈ positions p xs) (later : i < j) : number p xs i < number p xs j := by
  rcases mem_positions.mp kept with ⟨x, atPlace, holds⟩
  have inside := (List.getElem?_eq_some_iff.mp atPlace).1
  have one : (xs.take (i + 1)).countP p = (xs.take i).countP p + 1 := by
    rw [List.take_add_one, atPlace, List.countP_append]
    simp [holds]
  have sub : (xs.take (i + 1)).Sublist (xs.take j) :=
    (List.take_prefix_take_left later).sublist
  have more := sub.countP_le (p := p)
  unfold number
  omega

theorem number_injOn (first : i ∈ positions p xs) (second : j ∈ positions p xs)
    (same : number p xs i = number p xs j) : i = j := by
  rcases Nat.lt_trichotomy i j with before | equal | behind
  · exact absurd same (number_lt first before).ne
  · exact equal
  · exact absurd same (number_lt second behind).ne'

theorem number_pos : 0 < number p xs i := Nat.succ_pos _

/-- A kept element is counted in its own number. -/
theorem number_le (kept : i ∈ positions p xs) : number p xs i ≤ xs.countP p := by
  have mem : number p xs i ∈ (positions p xs).map (number p xs) := List.mem_map_of_mem kept
  rw [map_number_positions, List.mem_range'_1] at mem
  omega

/-- The numbers tell a list of kept positions apart from every other. -/
theorem eq_positions_of_map_number {chosen : List ℕ} (kept : ∀ i ∈ chosen, i ∈ positions p xs)
    (numbers : chosen.map (number p xs) = List.range' 1 (xs.countP p)) :
    chosen = positions p xs := by
  rw [← map_number_positions] at numbers
  have length : chosen.length = (positions p xs).length := by
    simpa using congrArg List.length numbers
  refine List.ext_getElem length fun k inChosen inPositions => ?_
  refine number_injOn (kept _ (List.getElem_mem inChosen)) (List.getElem_mem inPositions) ?_
  have entry := congrArg (·[k]?) numbers
  simpa [inChosen, inPositions] using entry

end Numbering
