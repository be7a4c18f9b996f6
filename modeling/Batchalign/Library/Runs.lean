import Mathlib

/-!
# Maximal runs

A maximal run of a list is a stretch of elements that satisfy a predicate, between elements
that do not or the ends of the list. What holds of every maximal run and of what follows it can
be checked from the front: at an element of the predicate the run is what `takeWhile` takes
(`forall_maximalRun_cons_pos`).
-/

namespace Runs

universe u

variable {α : Type u} {p : α → Bool}

/-- The stretch `run` of the list has the predicate, and its neighbours have not. -/
structure MaximalRun (p : α → Bool) (xs front run back : List α) : Prop where
  split : xs = front ++ run ++ back
  nonempty : run ≠ []
  inside : ∀ x ∈ run, p x = true
  before : ∀ x ∈ front.getLast?, p x = false
  after : ∀ x ∈ back.head?, p x = false

theorem not_maximalRun_nil {front run back : List α} : ¬ MaximalRun p [] front run back := by
  intro maximal
  have empty := List.append_eq_nil_iff.mp maximal.split.symm
  exact maximal.nonempty (List.append_eq_nil_iff.mp empty.1).2

/-- A stretch in front of an element without the predicate is what `takeWhile` takes. -/
theorem takeWhile_append_run {run back : List α} (inside : ∀ x ∈ run, p x = true)
    (after : ∀ x ∈ back.head?, p x = false) :
    (run ++ back).takeWhile p = run ∧ (run ++ back).dropWhile p = back := by
  rw [List.takeWhile_append_of_pos inside, List.dropWhile_append_of_pos inside]
  cases back with
  | nil => simp
  | cons x back =>
      have stops : ¬ p x = true := by simp [after x rfl]
      rw [List.takeWhile_cons_of_neg stops, List.dropWhile_cons_of_neg stops, List.append_nil]
      exact ⟨rfl, rfl⟩

/-- Behind the first run the maximal runs of the rest follow. -/
theorem MaximalRun.cases_pos {x : α} {xs front run back : List α} (holds : p x = true)
    (maximal : MaximalRun p (x :: xs) front run back) :
    (front = [] ∧ run = x :: xs.takeWhile p ∧ back = xs.dropWhile p) ∨
      ∃ front', MaximalRun p (xs.dropWhile p) front' run back := by
  rcases maximal with ⟨split, nonempty, inside, before, after⟩
  cases front with
  | nil =>
      rw [List.nil_append] at split
      have parts := takeWhile_append_run inside after
      rw [← split, List.takeWhile_cons_of_pos holds, List.dropWhile_cons_of_pos holds] at parts
      exact Or.inl ⟨rfl, parts.1.symm, parts.2.symm⟩
  | cons y front =>
      right
      rw [List.append_assoc, List.cons_append, List.cons.injEq] at split
      rcases split with ⟨rfl, split⟩
      -- The front ends outside of the first run, so it goes beyond it.
      have beyond : ∃ z ∈ front, p z = false := by
        rcases List.eq_nil_or_concat' front with rfl | ⟨init, z, rfl⟩
        · rw [before x rfl] at holds
          cases holds
        · refine ⟨z, by simp, before z ?_⟩
          rw [← List.cons_append, List.getLast?_concat]
          rfl
      rcases beyond with ⟨z, isFront, stops⟩
      refine ⟨front.dropWhile p, ?_, nonempty, inside, ?_, after⟩
      · have notAll : front.dropWhile p ≠ [] := by
          intro empty
          have all := List.dropWhile_eq_nil_iff.mp empty z isFront
          rw [stops] at all
          cases all
        rw [split, List.append_assoc, List.dropWhile_append, if_neg]
        simpa using notAll
      · intro w isLast
        apply before w
        have suffix_ : front.dropWhile p <:+ front := List.dropWhile_suffix p
        rcases suffix_ with ⟨taken, whole⟩
        rw [← whole, ← List.cons_append, List.getLast?_append, isLast]
        rfl

/-- Induction over the runs: an element outside of them, or a run as a whole, is in front. -/
theorem runs_induction {motive : List α → Prop} (p : α → Bool) (nil : motive [])
    (outside : ∀ x xs, p x = false → motive xs → motive (x :: xs))
    (run : ∀ x xs, p x = true → motive (xs.dropWhile p) → motive (x :: xs)) (xs : List α) :
    motive xs := by
  induction length : xs.length using Nat.strong_induction_on generalizing xs with
  | _ n ih =>
      subst length
      cases xs with
      | nil => exact nil
      | cons x xs =>
          cases holds : p x with
          | false => exact outside x xs holds (ih xs.length (Nat.lt_succ_self _) xs rfl)
          | true =>
              have shorter : (xs.dropWhile p).length < (x :: xs).length :=
                Nat.lt_succ_of_le (List.dropWhile_suffix p).length_le
              exact run x xs holds (ih _ shorter _ rfl)

variable {Q : List α → List α → Prop}

theorem forall_maximalRun_nil :
    (∀ front run back, MaximalRun p [] front run back → Q run back) := by
  intro front run back maximal
  exact absurd maximal not_maximalRun_nil

theorem forall_maximalRun_cons_neg {x : α} {xs : List α} (stops : p x = false) :
    (∀ front run back, MaximalRun p (x :: xs) front run back → Q run back) ↔
      ∀ front run back, MaximalRun p xs front run back → Q run back := by
  constructor
  · intro all front run back maximal
    refine all (x :: front) run back ⟨?_, maximal.nonempty, maximal.inside, ?_, maximal.after⟩
    · rw [maximal.split]
      rfl
    · intro y isLast
      cases front with
      | nil =>
          cases isLast
          exact stops
      | cons z front =>
          rw [List.getLast?_cons_cons] at isLast
          exact maximal.before y isLast
  · intro all front run back maximal
    cases front with
    | nil =>
        rcases List.exists_cons_of_ne_nil maximal.nonempty with ⟨y, run', rfl⟩
        have head := maximal.split
        rw [List.nil_append, List.cons_append, List.cons.injEq] at head
        have inside := maximal.inside y List.mem_cons_self
        rw [← head.1, stops] at inside
        cases inside
    | cons y front =>
        have split := maximal.split
        rw [List.append_assoc, List.cons_append, List.cons.injEq, ← List.append_assoc] at split
        refine all front run back ⟨split.2, maximal.nonempty, maximal.inside, ?_, maximal.after⟩
        intro z isLast
        apply maximal.before z
        cases front with
        | nil => cases isLast
        | cons w front => rwa [List.getLast?_cons_cons]

theorem forall_maximalRun_cons_pos {x : α} {xs : List α} (holds : p x = true) :
    (∀ front run back, MaximalRun p (x :: xs) front run back → Q run back) ↔
      Q (x :: xs.takeWhile p) (xs.dropWhile p) ∧
        ∀ front run back, MaximalRun p (xs.dropWhile p) front run back → Q run back := by
  have stops : ∀ y ∈ (xs.dropWhile p).head?, p y = false := by
    intro y isHead
    have first := List.head?_dropWhile_not p xs
    rw [isHead] at first
    simpa using first
  constructor
  · intro all
    constructor
    · apply all []
      refine ⟨?_, List.cons_ne_nil _ _, ?_, ?_, stops⟩
      · rw [List.nil_append, List.cons_append, List.takeWhile_append_dropWhile]
      · refine List.forall_mem_cons.mpr ⟨holds, ?_⟩
        intro y member
        exact List.mem_takeWhile_imp member
      · intro y isLast
        cases isLast
    · intro front run back maximal
      apply all (x :: xs.takeWhile p ++ front)
      refine ⟨?_, maximal.nonempty, maximal.inside, ?_, maximal.after⟩
      · have split := maximal.split
        rw [List.append_assoc] at split
        rw [List.append_assoc, List.append_assoc, ← split, List.cons_append,
          List.takeWhile_append_dropWhile]
      · intro y isLast
        apply maximal.before y
        cases front with
        | nil =>
            -- A run at the front of the rest would have been taken.
            rcases List.exists_cons_of_ne_nil maximal.nonempty with ⟨z, run', rfl⟩
            have first := stops z (by rw [maximal.split]; rfl)
            rw [maximal.inside z List.mem_cons_self] at first
            cases first
        | cons z front =>
            rwa [List.getLast?_append_cons] at isLast
  · rintro ⟨first, rest⟩ front run back maximal
    rcases maximal.cases_pos holds with ⟨_, rfl, rfl⟩ | ⟨front', later⟩
    · exact first
    · exact rest front' run back later

section Map

variable {β : Type u} {q : β → Bool} {g : α → β}

/-- The maximal runs of a mapped list are the mapped maximal runs. -/
theorem forall_maximalRun_map {xs : List α} (same : ∀ x ∈ xs, q (g x) = p x)
    {R : List β → List β → Prop} :
    (∀ front run back, MaximalRun q (xs.map g) front run back → R run back) ↔
      ∀ front run back, MaximalRun p xs front run back → R (run.map g) (back.map g) := by
  constructor
  · intro all front run back maximal
    have split := maximal.split
    apply all (front.map g)
    refine ⟨?_, ?_, ?_, ?_, ?_⟩
    · rw [split, List.map_append, List.map_append]
    · simpa using maximal.nonempty
    · intro y member
      rcases List.mem_map.mp member with ⟨x, isRun, rfl⟩
      rw [same x (by simp [split, isRun])]
      exact maximal.inside x isRun
    · intro y member
      rw [List.getLast?_map, Option.mem_map] at member
      rcases member with ⟨x, isLast, rfl⟩
      rw [same x (by simp [split, List.mem_of_getLast? isLast])]
      exact maximal.before x isLast
    · intro y member
      rw [List.head?_map, Option.mem_map] at member
      rcases member with ⟨x, isHead, rfl⟩
      rw [same x (by simp [split, List.mem_of_mem_head? isHead])]
      exact maximal.after x isHead
  · intro all front run back maximal
    rcases List.map_eq_append_iff.mp maximal.split with ⟨left, back', rfl, isLeft, rfl⟩
    rcases List.map_eq_append_iff.mp isLeft with ⟨front', run', rfl, rfl, rfl⟩
    apply all front'
    refine ⟨rfl, ?_, ?_, ?_, ?_⟩
    · intro empty
      exact maximal.nonempty (by rw [empty, List.map_nil])
    · intro x isRun
      rw [← same x (by simp [isRun])]
      exact maximal.inside (g x) (List.mem_map_of_mem isRun)
    · intro x isLast
      rw [← same x (by simp [List.mem_of_getLast? isLast])]
      apply maximal.before
      rw [List.getLast?_map, isLast]
      rfl
    · intro x isHead
      rw [← same x (by simp [List.mem_of_mem_head? isHead])]
      apply maximal.after
      rw [List.head?_map, isHead]
      rfl

end Map

end Runs
