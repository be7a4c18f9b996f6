import Mathlib

/-!
# Writes scattered over a table

A table is a list of rows, and a place is a row number with a position in the row. Writes to
different places do not meet, so that after any number of them, in any order, each place holds
what was written to it, or else what it held before.

Work that is delivered to numbered states reaches each state in the order of its own works
(`getElem?_foldl_deliver`). Where works commute, only the works of a state count and not their
order (`foldl_deliver_of_perm`).
-/

namespace Scatter

variable {α β : Type*}

section Table

def entry (table : List (List α)) (place : ℕ × ℕ) : Option α :=
  table[place.1]?.bind (·[place.2]?)

def write (table : List (List α)) (assignment : (ℕ × ℕ) × α) : List (List α) :=
  table.modify assignment.1.1 (·.set assignment.1.2 assignment.2)

variable {table other : List (List α)} {place : ℕ × ℕ} {value : α}

@[simp]
theorem map_length_write (assignment : (ℕ × ℕ) × α) :
    (write table assignment).map List.length = table.map List.length := by
  apply List.ext_getElem?
  intro row
  rw [write, List.getElem?_map, List.getElem?_map, List.getElem?_modify]
  by_cases here : assignment.1.1 = row
  · cases table[row]? <;> simp [here]
  · cases table[row]? <;> simp [here]

/-- Which places there are depends on the lengths of the rows only. -/
theorem isSome_entry :
    (entry table place).isSome ↔ place.2 < (table.map List.length).getD place.1 0 := by
  rw [entry, List.getD_eq_getElem?_getD, List.getElem?_map]
  cases table[place.1]? <;> simp

theorem isSome_entry_write (assignment : (ℕ × ℕ) × α) :
    (entry (write table assignment) place).isSome ↔ (entry table place).isSome := by
  rw [isSome_entry, isSome_entry, map_length_write]

theorem entry_write_self (found : (entry table place).isSome) :
    entry (write table (place, value)) place = some value := by
  rw [isSome_entry, List.getD_eq_getElem?_getD, List.getElem?_map] at found
  rw [entry, write, List.getElem?_modify]
  cases row : table[place.1]? with
  | none => simp [row] at found
  | some cells =>
      have inside : place.2 < cells.length := by simpa [row] using found
      simp [inside]

theorem entry_write_of_ne {elsewhere : ℕ × ℕ} (apart : place ≠ elsewhere) :
    entry (write table (place, value)) elsewhere = entry table elsewhere := by
  rw [entry, entry, write, List.getElem?_modify]
  by_cases sameRow : place.1 = elsewhere.1
  · have apartInRow : place.2 ≠ elsewhere.2 := fun same => apart (Prod.ext sameRow same)
    cases table[elsewhere.1]? <;> simp [sameRow, apartInRow]
  · cases table[elsewhere.1]? <;> simp [sameRow]

/-- Tables with the same rows lengths and the same entries are the same. -/
theorem eq_of_entry (lengths : table.map List.length = other.map List.length)
    (entries : ∀ place, entry table place = entry other place) : table = other := by
  have rows : table.length = other.length := by simpa using congrArg List.length lengths
  apply List.ext_getElem rows
  intro row inTable inOther
  apply List.ext_getElem?
  intro position
  have here := entries (row, position)
  rwa [entry, entry, List.getElem?_eq_getElem inTable, List.getElem?_eq_getElem inOther] at here

end Table

section Run

variable {table : List (List α)} {place : ℕ × ℕ} {value : α} {writes : List ((ℕ × ℕ) × α)}

def writeAll (table : List (List α)) (writes : List ((ℕ × ℕ) × α)) : List (List α) :=
  writes.foldl write table

@[simp]
theorem map_length_writeAll :
    (writeAll table writes).map List.length = table.map List.length := by
  induction writes generalizing table with
  | nil => rfl
  | cons assignment writes ih => exact ih.trans (map_length_write assignment)

theorem entry_writeAll_of_not_mem (untouched : place ∉ writes.map Prod.fst) :
    entry (writeAll table writes) place = entry table place := by
  induction writes generalizing table with
  | nil => rfl
  | cons assignment writes ih =>
      rw [List.map_cons, List.mem_cons, not_or] at untouched
      exact (ih untouched.2).trans (entry_write_of_ne (Ne.symm untouched.1))

theorem entry_writeAll_of_mem (once : (writes.map Prod.fst).Nodup)
    (written : (place, value) ∈ writes) (found : (entry table place).isSome) :
    entry (writeAll table writes) place = some value := by
  induction writes generalizing table with
  | nil => cases written
  | cons assignment writes ih =>
      rw [List.map_cons, List.nodup_cons] at once
      rcases List.mem_cons.mp written with rfl | later
      · exact (entry_writeAll_of_not_mem once.1).trans (entry_write_self found)
      · exact ih once.2 later ((isSome_entry_write assignment).mpr found)

end Run

section Delivery

variable {σ ω : Type*} {perform : σ → ω → σ}

/-- A work changes the state of its number. -/
def deliver (perform : σ → ω → σ) (states : List σ) (work : ℕ × ω) : List σ :=
  states.modify work.1 (perform · work.2)

theorem deliver_overwrite (states : List σ) (work : ℕ × σ) :
    deliver (fun _ state => state) states work = states.set work.1 work.2 := by
  apply List.ext_getElem?
  intro k
  rw [deliver, List.getElem?_modify, List.getElem?_set']
  by_cases here : work.1 = k
  · cases states[k]? <;> simp [here]
  · cases states[k]? <;> simp [here]

/-- The works of one number, in their order. -/
def worksOf (k : ℕ) (works : List (ℕ × ω)) : List ω :=
  (works.filter fun work => work.1 = k).map Prod.snd

theorem worksOf_append {k : ℕ} {works later : List (ℕ × ω)} :
    worksOf k (works ++ later) = worksOf k works ++ worksOf k later := by
  rw [worksOf, List.filter_append, List.map_append]
  rfl

theorem getElem?_foldl_deliver (works : List (ℕ × ω)) (states : List σ) (k : ℕ) :
    (works.foldl (deliver perform) states)[k]? =
      states[k]?.map fun state => (worksOf k works).foldl perform state := by
  induction works generalizing states with
  | nil => simp [worksOf]
  | cons work works ih =>
      rw [List.foldl_cons, ih, deliver, List.getElem?_modify]
      by_cases here : work.1 = k
      · cases states[k]? <;> simp [worksOf, here]
      · cases states[k]? <;> simp [worksOf, here]

theorem worksOf_row (row : List ω) (j k : ℕ) :
    worksOf k (row.map (Prod.mk j)) = if j = k then row else [] := by
  by_cases here : j = k
  · rw [worksOf, List.filter_eq_self.mpr (by simp [here]), List.map_map, if_pos here]
    exact List.map_id row
  · simp [worksOf, here]

/-- The works that an element gives its own number are those of that number. -/
theorem worksOf_numbered (f : β → ℕ → List ω) (xs : List β) (start k : ℕ) :
    worksOf (start + k) ((xs.zipIdx start).flatMap fun x => (f x.1 x.2).map (Prod.mk x.2)) =
      (xs[k]?.map fun x => f x (start + k)).getD [] := by
  induction xs generalizing start k with
  | nil => rfl
  | cons x xs ih =>
      rw [List.zipIdx_cons, List.flatMap_cons, worksOf_append, worksOf_row]
      cases k with
      | zero =>
          have later : worksOf start
              ((xs.zipIdx (start + 1)).flatMap fun x => (f x.1 x.2).map (Prod.mk x.2)) = [] := by
            apply List.map_eq_nil_iff.mpr
            apply List.filter_eq_nil_iff.mpr
            intro work member
            rcases List.mem_flatMap.mp member with ⟨numbered, isNumbered, isWork⟩
            rcases List.mem_map.mp isWork with ⟨content, _, rfl⟩
            have bound := List.le_snd_of_mem_zipIdx isNumbered
            simp only [decide_eq_true_eq]
            omega
          rw [Nat.add_zero, later, if_pos rfl, List.append_nil]
          rfl
      | succ k =>
          have next := ih (start + 1) k
          rw [Nat.add_right_comm, Nat.add_assoc] at next
          rw [if_neg (by omega), next]
          rfl

/-- Where works commute, only which works a state gets counts. -/
theorem foldl_deliver_of_perm [RightCommutative perform] {works others : List (ℕ × ω)}
    (order : works.Perm others) (states : List σ) :
    works.foldl (deliver perform) states = others.foldl (deliver perform) states := by
  apply List.ext_getElem?
  intro k
  rw [getElem?_foldl_deliver, getElem?_foldl_deliver]
  have same := (order.filter fun work => work.1 = k).map Prod.snd
  cases states[k]? with
  | none => rfl
  | some state => exact congrArg some (same.foldl_eq state)

end Delivery

end Scatter
