import Mathlib

/-!
# Edit scripts, edit distance and common subsequences

An edit script turns one list into another by keeping matched pairs, dropping,
inserting and substituting elements. The cost of a script is charged by an
`EditCost`; a kept pair is free and must satisfy the match predicate, which is
an arbitrary relation between the two element types.

`distance` is the usual recurrence. It is the least cost of a script
(`distance_isLeast`), it is insensitive to reversing both lists, it splits at
every cut of the first list (`exists_distance_append`), and a matched pair at
the front of both lists may be kept without loss (`distance_cons_of_matched`).
When a substitution costs as much as two gaps of cost one, the distance
determines the length of a longest common subsequence.
-/

namespace EditDistance

universe u v

/-- The prices of an unmatched element and of a substituted pair. -/
structure EditCost where
  gap : ℕ
  substitute : ℕ
deriving DecidableEq

variable {α : Type u} {β : Type v}

/-- `Script cost matched xs ys total`: some edit script from `xs` to `ys` costs `total`. -/
inductive Script (cost : EditCost) (matched : α → β → Bool) :
    List α → List β → ℕ → Prop where
  | nil : Script cost matched [] [] 0
  | keep {x y xs ys total} (pair : matched x y = true)
      (rest : Script cost matched xs ys total) : Script cost matched (x :: xs) (y :: ys) total
  | substitute {x y xs ys total} (rest : Script cost matched xs ys total) :
      Script cost matched (x :: xs) (y :: ys) (total + cost.substitute)
  | drop {x xs ys total} (rest : Script cost matched xs ys total) :
      Script cost matched (x :: xs) ys (total + cost.gap)
  | insert {y xs ys total} (rest : Script cost matched xs ys total) :
      Script cost matched xs (y :: ys) (total + cost.gap)

/-- The price of pairing two elements. -/
def pairCost (cost : EditCost) (matched : α → β → Bool) (x : α) (y : β) : ℕ :=
  if matched x y then 0 else cost.substitute

/-- The edit distance, by the standard recurrence on both heads. -/
def distance (cost : EditCost) (matched : α → β → Bool) : List α → List β → ℕ
  | [], ys => ys.length * cost.gap
  | xs, [] => xs.length * cost.gap
  | x :: xs, y :: ys =>
      min (min (distance cost matched xs ys + pairCost cost matched x y)
        (distance cost matched xs (y :: ys) + cost.gap))
        (distance cost matched (x :: xs) ys + cost.gap)
termination_by xs ys => xs.length + ys.length

section Distance

variable (cost : EditCost) (matched : α → β → Bool)

@[simp]
theorem distance_nil_left (ys : List β) :
    distance cost matched [] ys = ys.length * cost.gap := by
  rw [distance]

@[simp]
theorem distance_nil_right (xs : List α) :
    distance cost matched xs [] = xs.length * cost.gap := by
  cases xs <;> simp [distance]

theorem distance_cons_cons (x : α) (xs : List α) (y : β) (ys : List β) :
    distance cost matched (x :: xs) (y :: ys) =
      min (min (distance cost matched xs ys + pairCost cost matched x y)
        (distance cost matched xs (y :: ys) + cost.gap))
        (distance cost matched (x :: xs) ys + cost.gap) := by
  rw [distance]

theorem distance_drop_le (x : α) (xs : List α) (ys : List β) :
    distance cost matched (x :: xs) ys ≤ distance cost matched xs ys + cost.gap := by
  cases ys with
  | nil => simp [Nat.add_mul]
  | cons y ys =>
      rw [distance_cons_cons]
      exact (min_le_left _ _).trans (min_le_right _ _)

theorem distance_insert_le (xs : List α) (y : β) (ys : List β) :
    distance cost matched xs (y :: ys) ≤ distance cost matched xs ys + cost.gap := by
  cases xs with
  | nil => simp [Nat.add_mul]
  | cons x xs =>
      rw [distance_cons_cons]
      exact min_le_right _ _

theorem distance_pair_le (x : α) (xs : List α) (y : β) (ys : List β) :
    distance cost matched (x :: xs) (y :: ys) ≤
      distance cost matched xs ys + pairCost cost matched x y := by
  rw [distance_cons_cons]
  exact (min_le_left _ _).trans (min_le_left _ _)

variable {cost matched}

theorem pairCost_of_matched {x : α} {y : β} (pair : matched x y = true) :
    pairCost cost matched x y = 0 := by
  simp [pairCost, pair]

theorem pairCost_le (x : α) (y : β) : pairCost cost matched x y ≤ cost.substitute := by
  simp only [pairCost]
  split <;> simp

theorem Script.distance_le {xs : List α} {ys : List β} {total : ℕ}
    (script : Script cost matched xs ys total) : distance cost matched xs ys ≤ total := by
  induction script with
  | nil => simp
  | @keep x y xs ys _ pair rest ih =>
      have kept := distance_pair_le cost matched x xs y ys
      rw [pairCost_of_matched pair, Nat.add_zero] at kept
      exact kept.trans ih
  | substitute rest ih =>
      exact (distance_pair_le cost matched _ _ _ _).trans
        (Nat.add_le_add ih (pairCost_le _ _))
  | drop rest ih =>
      exact (distance_drop_le cost matched _ _ _).trans (Nat.add_le_add_right ih _)
  | insert rest ih =>
      exact (distance_insert_le cost matched _ _ _).trans (Nat.add_le_add_right ih _)

theorem Script.insert_all (cost : EditCost) (matched : α → β → Bool) (ys : List β) :
    Script cost matched [] ys (ys.length * cost.gap) := by
  induction ys with
  | nil => simpa using Script.nil
  | cons y ys ih => simpa [Nat.add_mul] using ih.insert

theorem Script.drop_all (cost : EditCost) (matched : α → β → Bool) (xs : List α) :
    Script cost matched xs [] (xs.length * cost.gap) := by
  induction xs with
  | nil => simpa using Script.nil
  | cons x xs ih => simpa [Nat.add_mul] using ih.drop

theorem Script.pair {xs : List α} {ys : List β} {total : ℕ} (x : α) (y : β)
    (rest : Script cost matched xs ys total) :
    Script cost matched (x :: xs) (y :: ys) (total + pairCost cost matched x y) := by
  simp only [pairCost]
  split
  · rename_i pair
    exact rest.keep pair
  · exact rest.substitute

theorem Script.of_distance (cost : EditCost) (matched : α → β → Bool) (xs : List α)
    (ys : List β) : Script cost matched xs ys (distance cost matched xs ys) := by
  induction xs, ys using distance.induct with
  | case1 ys => simpa using Script.insert_all cost matched ys
  | case2 xs => simpa using Script.drop_all cost matched xs
  | case3 x xs y ys ihPair ihDrop ihInsert =>
      rw [distance_cons_cons]
      rcases min_choice (min (distance cost matched xs ys + pairCost cost matched x y)
        (distance cost matched xs (y :: ys) + cost.gap))
        (distance cost matched (x :: xs) ys + cost.gap) with best | best
      · rw [best]
        rcases min_choice (distance cost matched xs ys + pairCost cost matched x y)
          (distance cost matched xs (y :: ys) + cost.gap) with inner | inner
        · rw [inner]
          exact ihPair.pair x y
        · rw [inner]
          exact ihDrop.drop
      · rw [best]
        exact ihInsert.insert

/-- The distance is the least cost of an edit script. -/
theorem distance_isLeast (cost : EditCost) (matched : α → β → Bool) (xs : List α)
    (ys : List β) :
    IsLeast {total | Script cost matched xs ys total} (distance cost matched xs ys) :=
  ⟨Script.of_distance cost matched xs ys, fun _ script => script.distance_le⟩

end Distance

section Concatenation

variable {cost : EditCost} {matched : α → β → Bool}

theorem Script.append {xs xs' : List α} {ys ys' : List β} {total total' : ℕ}
    (left : Script cost matched xs ys total) (right : Script cost matched xs' ys' total') :
    Script cost matched (xs ++ xs') (ys ++ ys') (total + total') := by
  induction left with
  | nil => simpa using right
  | keep pair _ ih => exact ih.keep pair
  | substitute _ ih => simpa [Nat.add_right_comm] using ih.substitute
  | drop _ ih => simpa [Nat.add_right_comm] using ih.drop
  | insert _ ih => simpa [Nat.add_right_comm] using ih.insert

/-- A script on a concatenation cuts the other list and its own cost in two. -/
theorem Script.exists_cut {xs xs' : List α} {ys : List β} {total : ℕ}
    (script : Script cost matched (xs ++ xs') ys total) :
    ∃ position total' total'', position ≤ ys.length ∧ total = total' + total'' ∧
      Script cost matched xs (ys.take position) total' ∧
      Script cost matched xs' (ys.drop position) total'' := by
  generalize whole : xs ++ xs' = zs at script
  induction script generalizing xs with
  | nil =>
      rcases List.append_eq_nil_iff.mp whole with ⟨rfl, rfl⟩
      exact ⟨0, 0, 0, by simp, rfl, .nil, .nil⟩
  | @keep x y zs ys total pair rest ih =>
      cases xs with
      | nil =>
          rw [List.nil_append] at whole
          subst whole
          exact ⟨0, 0, total, by simp, by omega, by simpa using Script.nil,
            by simpa using rest.keep pair⟩
      | cons x' xs =>
          rw [List.cons_append, List.cons.injEq] at whole
          rcases whole with ⟨rfl, whole⟩
          rcases ih whole with ⟨position, total', total'', bound, sum, left, right⟩
          exact ⟨position + 1, total', total'', by simpa using bound, sum,
            by simpa using left.keep pair, by simpa using right⟩
  | @substitute x y zs ys total rest ih =>
      cases xs with
      | nil =>
          rw [List.nil_append] at whole
          subst whole
          exact ⟨0, 0, total + cost.substitute, by simp, by omega, by simpa using Script.nil,
            by simpa using rest.substitute⟩
      | cons x' xs =>
          rw [List.cons_append, List.cons.injEq] at whole
          rcases whole with ⟨rfl, whole⟩
          rcases ih whole with ⟨position, total', total'', bound, sum, left, right⟩
          exact ⟨position + 1, total' + cost.substitute, total'', by simpa using bound,
            by omega, by simpa using left.substitute, by simpa using right⟩
  | @drop x zs ys total rest ih =>
      cases xs with
      | nil =>
          rw [List.nil_append] at whole
          subst whole
          exact ⟨0, 0, total + cost.gap, by simp, by omega, by simpa using Script.nil,
            by simpa using rest.drop⟩
      | cons x' xs =>
          rw [List.cons_append, List.cons.injEq] at whole
          rcases whole with ⟨rfl, whole⟩
          rcases ih whole with ⟨position, total', total'', bound, sum, left, right⟩
          exact ⟨position, total' + cost.gap, total'', bound, by omega, left.drop, right⟩
  | @insert y zs ys total rest ih =>
      rcases ih whole with ⟨position, total', total'', bound, sum, left, right⟩
      exact ⟨position + 1, total' + cost.gap, total'', by simpa using bound, by omega,
        by simpa using left.insert, by simpa using right⟩

theorem distance_append_le (cost : EditCost) (matched : α → β → Bool) (xs xs' : List α)
    (ys ys' : List β) :
    distance cost matched (xs ++ xs') (ys ++ ys') ≤
      distance cost matched xs ys + distance cost matched xs' ys' :=
  ((Script.of_distance cost matched xs ys).append
    (Script.of_distance cost matched xs' ys')).distance_le

theorem distance_append_le_cut (cost : EditCost) (matched : α → β → Bool) (xs xs' : List α)
    (ys : List β) (position : ℕ) :
    distance cost matched (xs ++ xs') ys ≤
      distance cost matched xs (ys.take position) +
        distance cost matched xs' (ys.drop position) := by
  simpa using distance_append_le cost matched xs xs' (ys.take position) (ys.drop position)

/-- Some cut of the second list attains the distance from a concatenation. -/
theorem exists_distance_append (cost : EditCost) (matched : α → β → Bool) (xs xs' : List α)
    (ys : List β) :
    ∃ position ≤ ys.length, distance cost matched (xs ++ xs') ys =
      distance cost matched xs (ys.take position) +
        distance cost matched xs' (ys.drop position) := by
  rcases (Script.of_distance cost matched (xs ++ xs') ys).exists_cut with
    ⟨position, total', total'', bound, sum, left, right⟩
  refine ⟨position, bound, le_antisymm (distance_append_le_cut cost matched xs xs' ys position) ?_⟩
  rw [sum]
  exact Nat.add_le_add left.distance_le right.distance_le

theorem Script.reverse {xs : List α} {ys : List β} {total : ℕ}
    (script : Script cost matched xs ys total) :
    Script cost matched xs.reverse ys.reverse total := by
  induction script with
  | nil => simpa using Script.nil
  | keep pair _ ih => simpa using ih.append (Script.nil.keep pair)
  | substitute _ ih => simpa using ih.append (Script.nil.substitute)
  | drop _ ih => simpa using ih.append (Script.nil.drop)
  | insert _ ih => simpa using ih.append (Script.nil.insert)

@[simp]
theorem distance_reverse (xs : List α) (ys : List β) :
    distance cost matched xs.reverse ys.reverse = distance cost matched xs ys := by
  apply le_antisymm
  · exact (Script.of_distance cost matched xs ys).reverse.distance_le
  · simpa using
      (Script.of_distance cost matched xs.reverse ys.reverse).reverse.distance_le

/-- Leaving out the first element of the source costs at most one more gap. -/
theorem Script.exists_tail {x : α} {xs : List α} {ys : List β} {total : ℕ}
    (script : Script cost matched (x :: xs) ys total) :
    ∃ total' ≤ total + cost.gap, Script cost matched xs ys total' := by
  generalize whole : x :: xs = zs at script
  induction script with
  | nil => cases whole
  | keep pair rest ih =>
      cases whole
      exact ⟨_, le_rfl, rest.insert⟩
  | substitute rest ih =>
      cases whole
      exact ⟨_, by omega, rest.insert⟩
  | drop rest ih =>
      cases whole
      exact ⟨_, by omega, rest⟩
  | insert rest ih =>
      rcases ih whole with ⟨total', bound, shorter⟩
      exact ⟨_, by omega, shorter.insert⟩

theorem Script.swap {xs : List α} {ys : List β} {total : ℕ}
    (script : Script cost matched xs ys total) :
    Script cost (fun y x => matched x y) ys xs total := by
  induction script with
  | nil => exact .nil
  | keep pair _ ih => exact ih.keep pair
  | substitute _ ih => exact ih.substitute
  | drop _ ih => exact ih.insert
  | insert _ ih => exact ih.drop

theorem distance_swap (cost : EditCost) (matched : α → β → Bool) (xs : List α)
    (ys : List β) :
    distance cost (fun y x => matched x y) ys xs = distance cost matched xs ys := by
  apply le_antisymm
  · exact (Script.of_distance cost matched xs ys).swap.distance_le
  · exact (Script.of_distance cost (fun y x => matched x y) ys xs).swap.distance_le

theorem distance_tail_le (cost : EditCost) (matched : α → β → Bool) (x : α) (xs : List α)
    (ys : List β) :
    distance cost matched xs ys ≤ distance cost matched (x :: xs) ys + cost.gap := by
  rcases (Script.of_distance cost matched (x :: xs) ys).exists_tail with
    ⟨total', bound, shorter⟩
  exact shorter.distance_le.trans bound

/-- A matched pair at the front of both lists may be kept without loss. -/
theorem distance_cons_of_matched {x : α} {y : β} (pair : matched x y = true)
    (xs : List α) (ys : List β) :
    distance cost matched (x :: xs) (y :: ys) = distance cost matched xs ys := by
  have source := distance_tail_le cost matched x xs ys
  have target := distance_tail_le cost (fun y x => matched x y) y ys xs
  rw [distance_swap cost matched, distance_swap cost matched] at target
  rw [distance_cons_cons, pairCost_of_matched pair, Nat.add_zero]
  rw [min_eq_left target, min_eq_left source]

/-- Matched lists in front of both sides may be kept without loss. -/
theorem distance_append_of_matched_left {us : List α} {vs : List β}
    (pairs : List.Forall₂ (fun u v => matched u v = true) us vs) (xs : List α) (ys : List β) :
    distance cost matched (us ++ xs) (vs ++ ys) = distance cost matched xs ys := by
  induction pairs with
  | nil => rfl
  | cons pair _ ih =>
      rw [List.cons_append, List.cons_append, distance_cons_of_matched pair, ih]

/-- Matched lists behind both sides may be kept without loss. -/
theorem distance_append_of_matched_right {us : List α} {vs : List β}
    (pairs : List.Forall₂ (fun u v => matched u v = true) us vs) (xs : List α) (ys : List β) :
    distance cost matched (xs ++ us) (ys ++ vs) = distance cost matched xs ys := by
  rw [← distance_reverse, List.reverse_append, List.reverse_append,
    distance_append_of_matched_left (List.forall₂_reverse_iff.mpr pairs), distance_reverse]

end Concatenation

section CommonSubsequence

variable {matched : α → β → Bool}

/-- Gaps cost one and a substitution costs the two gaps it stands for. -/
def unitGap : EditCost where
  gap := 1
  substitute := 2

/-- Both lists have subsequences of length `length` that match element by element. -/
def CommonLength (matched : α → β → Bool) (xs : List α) (ys : List β) (length : ℕ) : Prop :=
  ∃ us vs, us.Sublist xs ∧ vs.Sublist ys ∧
    List.Forall₂ (fun u v => matched u v = true) us vs ∧ us.length = length

theorem Script.exists_commonLength {xs : List α} {ys : List β} {total : ℕ}
    (script : Script unitGap matched xs ys total) :
    ∃ length, CommonLength matched xs ys length ∧
      total + 2 * length = xs.length + ys.length := by
  induction script with
  | nil => exact ⟨0, ⟨[], [], .slnil, .slnil, .nil, rfl⟩, rfl⟩
  | keep pair _ ih =>
      rcases ih with ⟨length, ⟨us, vs, left, right, common, rfl⟩, sum⟩
      refine ⟨us.length + 1, ⟨_, _, left.cons_cons _, right.cons_cons _, common.cons pair, rfl⟩, ?_⟩
      simp only [List.length_cons]
      omega
  | substitute _ ih =>
      rcases ih with ⟨length, ⟨us, vs, left, right, common, rfl⟩, sum⟩
      refine ⟨us.length, ⟨us, vs, left.cons _, right.cons _, common, rfl⟩, ?_⟩
      simp only [List.length_cons, unitGap]
      omega
  | drop _ ih =>
      rcases ih with ⟨length, ⟨us, vs, left, right, common, rfl⟩, sum⟩
      refine ⟨us.length, ⟨us, vs, left.cons _, right, common, rfl⟩, ?_⟩
      simp only [List.length_cons, unitGap]
      omega
  | insert _ ih =>
      rcases ih with ⟨length, ⟨us, vs, left, right, common, rfl⟩, sum⟩
      refine ⟨us.length, ⟨us, vs, left, right.cons _, common, rfl⟩, ?_⟩
      simp only [List.length_cons, unitGap]
      omega

theorem exists_split_of_cons_sublist {γ : Type*} {z : γ} {zs ws : List γ}
    (sub : (z :: zs).Sublist ws) :
    ∃ before after, ws = before ++ z :: after ∧ zs.Sublist after := by
  rcases List.cons_sublist_iff.mp sub with ⟨front, back, rfl, member, rest⟩
  rcases List.append_of_mem member with ⟨before, after, rfl⟩
  exact ⟨before, after ++ back, by simp, rest.trans (List.sublist_append_right after back)⟩

theorem CommonLength.exists_script {xs : List α} {ys : List β} {length : ℕ}
    (common : CommonLength matched xs ys length) :
    ∃ total, Script unitGap matched xs ys total ∧
      total + 2 * length = xs.length + ys.length := by
  rcases common with ⟨us, vs, left, right, pairs, rfl⟩
  induction pairs generalizing xs ys with
  | nil =>
      refine ⟨xs.length * unitGap.gap + ys.length * unitGap.gap, ?_, by simp [unitGap]⟩
      simpa using (Script.drop_all unitGap matched xs).append
        (Script.insert_all unitGap matched ys)
  | @cons u v us vs pair _ ih =>
      rcases exists_split_of_cons_sublist left with ⟨before, after, rfl, leftRest⟩
      rcases exists_split_of_cons_sublist right with ⟨before', after', rfl, rightRest⟩
      rcases ih leftRest rightRest with ⟨total, script, sum⟩
      have front := (Script.drop_all unitGap matched before).append
        (Script.insert_all unitGap matched before')
      refine ⟨_, by simpa using front.append (script.keep pair), ?_⟩
      simp only [unitGap, List.length_append, List.length_cons]
      omega

/-- Under unit gaps the distance is what a longest common subsequence leaves unmatched. -/
theorem distance_add_of_isGreatest {xs : List α} {ys : List β} {length : ℕ}
    (longest : IsGreatest {length | CommonLength matched xs ys length} length) :
    distance unitGap matched xs ys + 2 * length = xs.length + ys.length := by
  rcases longest.1.exists_script with ⟨total, script, sum⟩
  rcases (Script.of_distance unitGap matched xs ys).exists_commonLength with
    ⟨length', common, sum'⟩
  have least := script.distance_le
  have greatest := longest.2 common
  omega

end CommonSubsequence

end EditDistance
