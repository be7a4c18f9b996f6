import Mathlib

/-!
# Intervals in order

Intervals follow each other in order when none is reversed and none starts before an earlier
one has ended. Such a list stays in order when each interval is replaced by intervals in order
inside it (`inOrder_refine`). A monotone position cuts an interval into pieces that tile it
(`cuts_tiles`).
-/

namespace Intervals

universe u v

section Order

variable {α : Type u} [Preorder α]

structure InOrder (intervals : List (α × α)) : Prop where
  forward : ∀ interval ∈ intervals, interval.1 ≤ interval.2
  pairwise : intervals.Pairwise fun earlier later => earlier.2 ≤ later.1

/-- In order, and between two bounds. -/
structure Within (lower upper : α) (intervals : List (α × α)) : Prop where
  inOrder : InOrder intervals
  above : ∀ interval ∈ intervals, lower ≤ interval.1
  below : ∀ interval ∈ intervals, interval.2 ≤ upper

theorem inOrder_nil : InOrder ([] : List (α × α)) where
  forward _ member := absurd member List.not_mem_nil
  pairwise := List.Pairwise.nil

theorem inOrder_singleton {interval : α × α} (forward : interval.1 ≤ interval.2) :
    InOrder [interval] where
  forward other member := by
    rw [List.mem_singleton.mp member]
    exact forward
  pairwise := List.pairwise_singleton _ _

theorem inOrder_append_iff {left right : List (α × α)} :
    InOrder (left ++ right) ↔ InOrder left ∧ InOrder right ∧
      ∀ earlier ∈ left, ∀ later ∈ right, earlier.2 ≤ later.1 := by
  constructor
  · intro inOrder
    have parts := List.pairwise_append.mp inOrder.pairwise
    refine ⟨⟨?_, parts.1⟩, ⟨?_, parts.2.1⟩, parts.2.2⟩
    · intro interval member
      exact inOrder.forward interval (List.mem_append_left _ member)
    · intro interval member
      exact inOrder.forward interval (List.mem_append_right _ member)
  · rintro ⟨left, right, across⟩
    refine ⟨?_, List.pairwise_append.mpr ⟨left.pairwise, right.pairwise, across⟩⟩
    intro interval member
    rcases List.mem_append.mp member with before | after
    · exact left.forward interval before
    · exact right.forward interval after

/-- Neighbours in order are enough. -/
theorem inOrder_of_isChain {intervals : List (α × α)}
    (forward : ∀ interval ∈ intervals, interval.1 ≤ interval.2)
    (chain : intervals.IsChain fun earlier later => earlier.2 ≤ later.1) :
    InOrder intervals := by
  induction intervals with
  | nil => exact inOrder_nil
  | cons interval intervals ih =>
      have rest := ih (fun other member => forward other (List.mem_cons_of_mem _ member))
        chain.tail
      refine ⟨forward, List.pairwise_cons.mpr ⟨?_, rest.pairwise⟩⟩
      intro later member
      cases intervals with
      | nil => cases member
      | cons next intervals =>
          have first : interval.2 ≤ next.1 := (List.isChain_cons_cons.mp chain).1
          rcases List.mem_cons.mp member with rfl | further
          · exact first
          · have through := (List.pairwise_cons.mp rest.pairwise).1 later further
            exact (first.trans (rest.forward next List.mem_cons_self)).trans through

theorem InOrder.sublist {shorter longer : List (α × α)} (inOrder : InOrder longer)
    (kept : shorter.Sublist longer) : InOrder shorter where
  forward interval member := inOrder.forward interval (kept.subset member)
  pairwise := inOrder.pairwise.sublist kept

theorem Within.sublist {lower upper : α} {shorter longer : List (α × α)}
    (within : Within lower upper longer) (kept : shorter.Sublist longer) :
    Within lower upper shorter where
  inOrder := within.inOrder.sublist kept
  above interval member := within.above interval (kept.subset member)
  below interval member := within.below interval (kept.subset member)

/-- Intervals in order lie between the start of the first and the end of the last. -/
theorem InOrder.hull {intervals : List (α × α)} (inOrder : InOrder intervals) {first last : α × α}
    (isFirst : intervals.head? = some first) (isLast : intervals.getLast? = some last) :
    ∀ interval ∈ intervals, first.1 ≤ interval.1 ∧ interval.2 ≤ last.2 := by
  intro interval member
  constructor
  · rcases List.head?_eq_some_iff.mp isFirst with ⟨rest, rfl⟩
    rcases List.mem_cons.mp member with rfl | later
    · exact le_rfl
    · have across := (List.pairwise_cons.mp inOrder.pairwise).1 interval later
      exact (inOrder.forward first List.mem_cons_self).trans across
  · rcases List.getLast?_eq_some_iff.mp isLast with ⟨front, rfl⟩
    rcases List.mem_append.mp member with earlier | here
    · have across := (List.pairwise_append.mp inOrder.pairwise).2.2 interval earlier last
        List.mem_cons_self
      exact across.trans (inOrder.forward last (by simp))
    · rw [List.mem_singleton.mp here]

theorem Within.nil {lower upper : α} : Within lower upper ([] : List (α × α)) where
  inOrder := inOrder_nil
  above _ member := absurd member List.not_mem_nil
  below _ member := absurd member List.not_mem_nil

theorem Within.whole {lower upper : α} (forward : lower ≤ upper) :
    Within lower upper [(lower, upper)] where
  inOrder := inOrder_singleton forward
  above interval member := by rw [List.mem_singleton.mp member]
  below interval member := by rw [List.mem_singleton.mp member]

end Order

section Refinement

variable {α : Type u} [Preorder α] {β : Type v} (timing : β → Option (α × α))

/-- The pieces lie in the interval of the whole, and have no interval if the whole has none. -/
def Refines (whole : β) (pieces : List β) : Prop :=
  match timing whole with
  | some (lower, upper) => Within lower upper (pieces.filterMap timing)
  | none => pieces.filterMap timing = []

variable {timing}

theorem Refines.inOrder {whole : β} {pieces : List β} (refines : Refines timing whole pieces) :
    InOrder (pieces.filterMap timing) := by
  unfold Refines at refines
  split at refines
  · exact refines.inOrder
  · rw [refines]
    exact inOrder_nil

theorem Refines.inside {whole : β} {pieces : List β} (refines : Refines timing whole pieces)
    {piece : α × α} (member : piece ∈ pieces.filterMap timing) :
    ∃ interval, timing whole = some interval ∧ interval.1 ≤ piece.1 ∧ piece.2 ≤ interval.2 := by
  unfold Refines at refines
  split at refines
  · rename_i lower upper timed
    exact ⟨(lower, upper), timed, refines.above piece member, refines.below piece member⟩
  · rw [refines] at member
    cases member

theorem mem_refined {refine : β → List β} {wholes : List β}
    (refines : ∀ whole ∈ wholes, Refines timing whole (refine whole)) {piece : α × α}
    (member : piece ∈ (wholes.flatMap refine).filterMap timing) :
    ∃ interval ∈ wholes.filterMap timing, interval.1 ≤ piece.1 ∧ piece.2 ≤ interval.2 := by
  rw [List.filterMap_flatMap] at member
  rcases List.mem_flatMap.mp member with ⟨whole, isWhole, found⟩
  rcases (refines whole isWhole).inside found with ⟨interval, timed, bounds⟩
  exact ⟨interval, List.mem_filterMap.mpr ⟨whole, isWhole, timed⟩, bounds⟩

/-- Intervals in order stay so when each is replaced by pieces of it. -/
theorem inOrder_refine {refine : β → List β} {wholes : List β}
    (refines : ∀ whole ∈ wholes, Refines timing whole (refine whole))
    (inOrder : InOrder (wholes.filterMap timing)) :
    InOrder ((wholes.flatMap refine).filterMap timing) := by
  induction wholes with
  | nil => exact inOrder_nil
  | cons whole wholes ih =>
      have split := List.forall_mem_cons.mp refines
      rw [List.flatMap_cons, List.filterMap_append]
      have rest : InOrder (wholes.filterMap timing) := by
        rw [List.filterMap_cons] at inOrder
        split at inOrder
        · exact inOrder
        · exact (inOrder_append_iff.mp (show InOrder ([_] ++ _) from inOrder)).2.1
      refine inOrder_append_iff.mpr ⟨split.1.inOrder, ih split.2 rest, ?_⟩
      intro earlier first later after
      rcases split.1.inside first with ⟨interval, timed, _, stops⟩
      rcases mem_refined split.2 after with ⟨further, isFurther, starts, _⟩
      rw [List.filterMap_cons_some timed] at inOrder
      have across := (List.pairwise_cons.mp inOrder.pairwise).1 further isFurther
      exact (stops.trans across).trans starts

/-- Pieces of intervals between two bounds are between them. -/
theorem Within.refine {refine : β → List β} {wholes : List β} {lower upper : α}
    (refines : ∀ whole ∈ wholes, Refines timing whole (refine whole))
    (within : Within lower upper (wholes.filterMap timing)) :
    Within lower upper ((wholes.flatMap refine).filterMap timing) where
  inOrder := inOrder_refine refines within.inOrder
  above piece member := by
    rcases mem_refined refines member with ⟨interval, inside, starts, _⟩
    exact (within.above interval inside).trans starts
  below piece member := by
    rcases mem_refined refines member with ⟨interval, inside, _, stops⟩
    exact stops.trans (within.below interval inside)

end Refinement

section Map

variable {α : Type u} {β : Type v} [Preorder α] [Preorder β]

/-- A map that is monotone between the bounds keeps the order. -/
theorem Within.map {lower upper : α} {intervals : List (α × α)}
    (within : Within lower upper intervals) {f : α → β}
    (monotone : MonotoneOn f (Set.Icc lower upper)) :
    InOrder (intervals.map (Prod.map f f)) := by
  have bounds : ∀ interval ∈ intervals, interval.1 ∈ Set.Icc lower upper ∧
      interval.2 ∈ Set.Icc lower upper := by
    intro interval member
    have forward := within.inOrder.forward interval member
    have above := within.above interval member
    have below := within.below interval member
    exact ⟨⟨above, forward.trans below⟩, ⟨above.trans forward, below⟩⟩
  constructor
  · intro mapped member
    rcases List.mem_map.mp member with ⟨interval, inside, rfl⟩
    exact monotone (bounds interval inside).1 (bounds interval inside).2
      (within.inOrder.forward interval inside)
  · apply List.pairwise_map.mpr
    apply within.inOrder.pairwise.imp_of_mem
    intro earlier later first second across
    exact monotone (bounds earlier first).2 (bounds later second).1 across

end Map

section Tiling

variable {α : Type u}

/-- The intervals cover the span from `start` to `stop` one after the other. -/
def Tiles [LE α] (start stop : α) : List (α × α) → Prop
  | [] => start = stop
  | interval :: intervals =>
      interval.1 = start ∧ interval.1 ≤ interval.2 ∧ Tiles interval.2 stop intervals

/-- The pieces between the positions reached after each of the lengths. -/
def cuts (position : ℕ → α) : ℕ → List ℕ → List (α × α)
  | _, [] => []
  | consumed, length :: lengths =>
      (position consumed, position (consumed + length)) ::
        cuts position (consumed + length) lengths

variable [Preorder α]

theorem Tiles.le {start stop : α} {intervals : List (α × α)}
    (tiles : Tiles start stop intervals) : start ≤ stop := by
  induction intervals generalizing start with
  | nil => exact le_of_eq tiles
  | cons interval intervals ih =>
      rcases tiles with ⟨rfl, forward, rest⟩
      exact forward.trans (ih rest)

theorem Tiles.within {start stop : α} {intervals : List (α × α)}
    (tiles : Tiles start stop intervals) : Within start stop intervals := by
  induction intervals generalizing start with
  | nil => exact Within.nil
  | cons interval intervals ih =>
      rcases tiles with ⟨rfl, forward, rest⟩
      have inside := ih rest
      refine ⟨⟨?_, ?_⟩, ?_, ?_⟩
      · exact List.forall_mem_cons.mpr ⟨forward, inside.inOrder.forward⟩
      · exact List.pairwise_cons.mpr ⟨inside.above, inside.inOrder.pairwise⟩
      · refine List.forall_mem_cons.mpr ⟨le_rfl, ?_⟩
        intro later member
        exact forward.trans (inside.above later member)
      · exact List.forall_mem_cons.mpr ⟨rest.le, inside.below⟩

/-- Cuts at monotone positions tile what they cut. -/
theorem cuts_tiles {position : ℕ → α} {total : ℕ} (lengths : List ℕ) (consumed : ℕ)
    (monotone : ∀ i j, i ≤ j → j ≤ total → position i ≤ position j)
    (sum : consumed + lengths.sum = total) :
    Tiles (position consumed) (position total) (cuts position consumed lengths) := by
  induction lengths generalizing consumed with
  | nil =>
      rw [List.sum_nil, Nat.add_zero] at sum
      rw [sum]
      exact rfl
  | cons length lengths ih =>
      rw [List.sum_cons] at sum
      refine ⟨rfl, ?_, ?_⟩
      · exact monotone consumed (consumed + length) (Nat.le_add_right _ _) (by omega)
      · exact ih (consumed + length) (by omega)

end Tiling

end Intervals
