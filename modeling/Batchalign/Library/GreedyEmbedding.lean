import Mathlib

/-!
# Greedy embeddings

A list of words is embedded into a line of positions by choosing, word by word,
strictly increasing positions that fit. The greedy choice takes the least
fitting position that is still allowed. It lies pointwise below every other
embedding (`Greedy.le`), and read in the dual order it says the same about
choosing greatest positions from the last word backwards. When both greedy
choices agree there is no other embedding (`eq_of_greedy_both`).
-/

namespace GreedyEmbedding

universe u v

variable {Word : Type u} {Position : Type v}

/-- Strictly increasing allowed positions, one for each word, at which the words fit. -/
structure Embeds [Preorder Position] (fits : Word → Position → Prop) (allowed : Set Position)
    (words : List Word) (positions : List Position) : Prop where
  fitting : List.Forall₂ fits words positions
  increasing : positions.Pairwise (· < ·)
  inside : ∀ position ∈ positions, position ∈ allowed

/-- Each word takes the least fitting position beyond the one before it. -/
inductive Greedy [LinearOrder Position] (fits : Word → Position → Prop) :
    Set Position → List Word → List Position → Prop where
  | nil {allowed} : Greedy fits allowed [] []
  | cons {allowed word words position positions}
      (least : IsLeast {position | position ∈ allowed ∧ fits word position} position)
      (rest : Greedy fits {later | later ∈ allowed ∧ position < later} words positions) :
      Greedy fits allowed (word :: words) (position :: positions)

section LinearOrder

variable [LinearOrder Position] {fits : Word → Position → Prop}

theorem Embeds.tail {allowed : Set Position} {word : Word} {words : List Word}
    {position : Position} {positions : List Position}
    (embeds : Embeds fits allowed (word :: words) (position :: positions)) :
    Embeds fits {later | later ∈ allowed ∧ position < later} words positions := by
  rcases embeds with ⟨fitting, increasing, inside⟩
  rcases List.pairwise_cons.mp increasing with ⟨beyond, increasing⟩
  rcases List.forall₂_cons.mp fitting with ⟨_, fitting⟩
  refine ⟨fitting, increasing, ?_⟩
  intro later member
  exact ⟨inside later (List.mem_cons_of_mem _ member), beyond later member⟩

theorem Embeds.head {allowed : Set Position} {word : Word} {words : List Word}
    {position : Position} {positions : List Position}
    (embeds : Embeds fits allowed (word :: words) (position :: positions)) :
    position ∈ allowed ∧ fits word position :=
  ⟨embeds.inside position List.mem_cons_self, (List.forall₂_cons.mp embeds.fitting).1⟩

theorem Embeds.mono {allowed allowed' : Set Position} {words : List Word}
    {positions : List Position} (embeds : Embeds fits allowed words positions)
    (subset : allowed ⊆ allowed') : Embeds fits allowed' words positions where
  fitting := embeds.fitting
  increasing := embeds.increasing
  inside position member := subset (embeds.inside position member)

theorem Greedy.embeds {allowed : Set Position} {words : List Word} {positions : List Position}
    (greedy : Greedy fits allowed words positions) : Embeds fits allowed words positions := by
  induction greedy with
  | nil => exact ⟨.nil, .nil, by simp⟩
  | cons least _ ih =>
      refine ⟨.cons least.1.2 ih.fitting, ?_, ?_⟩
      · apply List.pairwise_cons.mpr
        exact ⟨fun later member => (ih.inside later member).2, ih.increasing⟩
      · intro position member
        rcases List.mem_cons.mp member with rfl | later
        · exact least.1.1
        · exact (ih.inside position later).1

/-- The greedy positions lie pointwise below those of any embedding. -/
theorem Greedy.le {allowed : Set Position} {words : List Word}
    {positions positions' : List Position} (greedy : Greedy fits allowed words positions)
    (embeds : Embeds fits allowed words positions') :
    List.Forall₂ (· ≤ ·) positions positions' := by
  induction greedy generalizing positions' with
  | nil =>
      have empty := List.forall₂_nil_left_iff.mp embeds.fitting
      subst empty
      exact .nil
  | cons least _ ih =>
      rcases List.forall₂_cons_left_iff.mp embeds.fitting with
        ⟨position', later, fit, _, rfl⟩
      have first := least.2 embeds.head
      refine .cons first (ih (embeds.tail.mono ?_))
      intro position member
      exact ⟨member.1, first.trans_lt member.2⟩

theorem eq_of_forall₂_le {left right : List Position}
    (below : List.Forall₂ (· ≤ ·) left right) (above : List.Forall₂ (· ≤ ·) right left) :
    left = right := by
  induction below with
  | nil => rfl
  | cons first _ ih =>
      rcases List.forall₂_cons.mp above with ⟨second, above⟩
      simp only [le_antisymm first second, ih above]

end LinearOrder

section BothWays

variable [LinearOrder Position] {fits : Word → Position → Prop}

/-- Each word takes the greatest fitting position before the one of its successor. -/
abbrev GreedyFromEnd (fits : Word → Position → Prop) :
    Set Position → List Word → List Position → Prop :=
  @Greedy Word Positionᵒᵈ _ fits

theorem Embeds.reverse {allowed : Set Position} {words : List Word} {positions : List Position}
    (embeds : Embeds fits allowed words positions) :
    @Embeds Word Positionᵒᵈ _ fits allowed words.reverse positions.reverse where
  fitting := List.forall₂_reverse_iff.mpr embeds.fitting
  increasing := List.pairwise_reverse.mpr embeds.increasing
  inside position member := embeds.inside position (List.mem_reverse.mp member)

/-- When the greedy choices from both ends agree, they are the only embedding. -/
theorem eq_of_greedy_both {allowed allowed' : Set Position} {words : List Word}
    {positions positions' : List Position} (earliest : Greedy fits allowed words positions)
    (latest : GreedyFromEnd fits allowed' words.reverse positions.reverse)
    (embeds : Embeds fits allowed words positions')
    (embeds' : Embeds fits allowed' words positions') : positions' = positions := by
  have above := List.forall₂_reverse_iff.mp (latest.le embeds'.reverse)
  exact eq_of_forall₂_le above.flip (earliest.le embeds)

end BothWays

section Sublist

/-- Positions of a list that fit give a sublist that matches word by word. -/
theorem Embeds.exists_sublist {Item : Type v} {matched : Word → Item → Prop}
    {items : List Item} {words : List Word} {positions : List ℕ} {lower : ℕ}
    (embeds : Embeds (fun word position => ∃ item, items[position]? = some item ∧
      matched word item) {position | lower ≤ position} words positions) :
    ∃ chosen, chosen.Sublist (items.drop lower) ∧ List.Forall₂ matched words chosen := by
  induction positions generalizing words lower with
  | nil =>
      have empty := List.forall₂_nil_right_iff.mp embeds.fitting
      subst empty
      exact ⟨[], List.nil_sublist _, .nil⟩
  | cons position positions ih =>
      rcases List.forall₂_cons_right_iff.mp embeds.fitting with
        ⟨word, words, ⟨item, atPosition, pair⟩, _, rfl⟩
      have beyond :
          {later | lower ≤ later ∧ position < later} ⊆ {later | position + 1 ≤ later} := by
        intro later member
        exact member.2
      rcases ih (embeds.tail.mono beyond) with ⟨chosen, sub, pairs⟩
      refine ⟨item :: chosen, ?_, .cons pair pairs⟩
      have allowed : lower ≤ position := embeds.head.1
      have front := List.drop_eq_getElem?_toList_append (l := items) (i := position)
      rw [atPosition] at front
      apply List.Sublist.trans _ (List.drop_sublist_drop_left items allowed)
      rw [front]
      exact sub.cons_cons item

end Sublist

end GreedyEmbedding
