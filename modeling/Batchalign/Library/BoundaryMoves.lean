import Mathlib

/-!
# Moving the boundary between neighbouring intervals

Some places of a row hold an interval and the others are empty. A move makes one interval end and
the interval at the next place start at a new boundary, which lies after the start of the one and
before the end of the other. However often that is done, intervals apart stay apart, the
outer ends stay where they are, and empty places stay empty (`Moves.preserves`).
-/

namespace BoundaryMoves

open Relation

universe u

variable {α : Type u} [Preorder α]

section Definitions

/-- Every interval has a length, and none starts before an earlier one has ended. -/
structure Apart (intervals : List (α × α)) : Prop where
  positive : ∀ interval ∈ intervals, interval.1 < interval.2
  pairwise : intervals.Pairwise fun earlier later => earlier.2 ≤ later.1

instance [DecidableLT α] [DecidableLE α] (intervals : List (α × α)) :
    Decidable (Apart intervals) :=
  decidable_of_iff
    ((∀ interval ∈ intervals, interval.1 < interval.2) ∧
      intervals.Pairwise fun earlier later => earlier.2 ≤ later.1)
    ⟨fun parts => ⟨parts.1, parts.2⟩, fun apart => ⟨apart.positive, apart.pairwise⟩⟩

/-- Neighbours get a common boundary. -/
inductive Move : List (Option (α × α)) → List (Option (α × α)) → Prop where
  | meet (front back : List (Option (α × α))) {start stop nextStart nextStop boundary : α}
      (afterStart : start < boundary) (beforeStop : boundary < nextStop) :
      Move (front ++ some (start, stop) :: some (nextStart, nextStop) :: back)
        (front ++ some (start, boundary) :: some (boundary, nextStop) :: back)

/-- One move after the other. -/
abbrev Moves : List (Option (α × α)) → List (Option (α × α)) → Prop := ReflTransGen Move

/-- What moves leave as it is. -/
structure Preserves (row moved : List (Option (α × α))) : Prop where
  apart : Apart row.reduceOption → Apart moved.reduceOption
  firstStart : moved.reduceOption.head?.map Prod.fst = row.reduceOption.head?.map Prod.fst
  lastStop : moved.reduceOption.getLast?.map Prod.snd = row.reduceOption.getLast?.map Prod.snd
  places : moved.map Option.isSome = row.map Option.isSome

end Definitions

section Intervals

theorem apart_cons_iff {interval : α × α} {intervals : List (α × α)} :
    Apart (interval :: intervals) ↔
      interval.1 < interval.2 ∧ (∀ later ∈ intervals, interval.2 ≤ later.1) ∧ Apart intervals := by
  constructor
  · rintro ⟨positive, pairwise⟩
    rcases List.forall_mem_cons.mp positive with ⟨first, rest⟩
    rcases List.pairwise_cons.mp pairwise with ⟨across, pairwise⟩
    exact ⟨first, across, rest, pairwise⟩
  · rintro ⟨first, across, rest⟩
    exact ⟨List.forall_mem_cons.mpr ⟨first, rest.positive⟩,
      List.pairwise_cons.mpr ⟨across, rest.pairwise⟩⟩

theorem apart_append_iff {left right : List (α × α)} :
    Apart (left ++ right) ↔ Apart left ∧ Apart right ∧
      ∀ earlier ∈ left, ∀ later ∈ right, earlier.2 ≤ later.1 := by
  constructor
  · rintro ⟨positive, pairwise⟩
    rcases List.forall_mem_append.mp positive with ⟨before, after⟩
    rcases List.pairwise_append.mp pairwise with ⟨first, second, across⟩
    exact ⟨⟨before, first⟩, ⟨after, second⟩, across⟩
  · rintro ⟨first, second, across⟩
    exact ⟨List.forall_mem_append.mpr ⟨first.positive, second.positive⟩,
      List.pairwise_append.mpr ⟨first.pairwise, second.pairwise, across⟩⟩

theorem Apart.tail {place : Option (α × α)} {row : List (Option (α × α))}
    (apart : Apart (place :: row).reduceOption) : Apart row.reduceOption := by
  cases place with
  | none => exact apart
  | some interval => exact (apart_cons_iff.mp apart).2.2

/-- Two intervals apart at their own boundary are apart at any other one between their ends. -/
theorem Apart.meet {front back : List (α × α)} {start stop nextStart nextStop boundary : α}
    (apart : Apart (front ++ (start, stop) :: (nextStart, nextStop) :: back))
    (afterStart : start < boundary) (beforeStop : boundary < nextStop) :
    Apart (front ++ (start, boundary) :: (boundary, nextStop) :: back) := by
  simp only [apart_append_iff, apart_cons_iff, List.forall_mem_cons] at apart ⊢
  rcases apart with ⟨before, ⟨_, _, _, nextToBack, after⟩, across⟩
  refine ⟨before, ⟨afterStart, ⟨le_rfl, ?_⟩, beforeStop, nextToBack, after⟩, ?_⟩
  · intro later member
    exact beforeStop.le.trans (nextToBack later member)
  · intro earlier member
    rcases across earlier member with ⟨toStart, _, toBack⟩
    exact ⟨toStart, toStart.trans afterStart.le, toBack⟩

end Intervals

section Chains

variable {row moved again : List (Option (α × α))}

theorem Preserves.refl (row : List (Option (α × α))) : Preserves row row := ⟨id, rfl, rfl, rfl⟩

theorem Preserves.trans (first : Preserves row moved) (second : Preserves moved again) : Preserves row again where
  apart := second.apart ∘ first.apart
  firstStart := second.firstStart.trans first.firstStart
  lastStop := second.lastStop.trans first.lastStop
  places := second.places.trans first.places

theorem Move.preserves (move : Move row moved) : Preserves row moved := by
  cases move with
  | meet front back afterStart beforeStop =>
      constructor
      · intro apart
        simp only [List.reduceOption_append, List.reduceOption_cons_of_some] at apart ⊢
        exact apart.meet afterStart beforeStop
      · cases first : front.reduceOption.head? <;>
          simp [List.reduceOption_append, List.head?_append, first]
      · cases last : back.reduceOption.getLast? <;>
          simp [List.reduceOption_append, List.getLast?_append, List.getLast?_cons, last]
      · simp

theorem Moves.preserves (moves : Moves row moved) : Preserves row moved := by
  induction moves with
  | refl => exact Preserves.refl row
  | tail _ move ih => exact ih.trans move.preserves

/-- What is done at the later places is done with one more place in front. -/
theorem Moves.cons (place : Option (α × α)) (moves : Moves row moved) :
    Moves (place :: row) (place :: moved) := by
  refine ReflTransGen.lift (place :: ·) ?_ row moved moves
  rintro _ _ ⟨front, back, afterStart, beforeStop⟩
  exact Move.meet (place :: front) back afterStart beforeStop

end Chains

end BoundaryMoves
