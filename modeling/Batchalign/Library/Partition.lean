import Mathlib

/-!
# Filling gaps and partitioning by keys

A list of optional keys is completed by carrying the last key forward, and then
the first key back over the gap in front. Both passes keep the order of the
keys that are present, so a list whose keys do not decrease is completed to one
whose keys do not decrease (`fillGaps_pairwise`).

Sorting the elements of a list into buckets by nondecreasing keys cuts the list
into consecutive segments (`flatMap_filter_key`).
-/

namespace Partition

universe u

section Fill

variable {α : Type u}

/-- Carry the last key over every gap that follows it. -/
def fillFrom : Option α → List (Option α) → List (Option α)
  | _, [] => []
  | _, some key :: keys => some key :: fillFrom (some key) keys
  | last, none :: keys => last :: fillFrom last keys

def fillForward (keys : List (Option α)) : List (Option α) :=
  fillFrom none keys

def fillBackward (keys : List (Option α)) : List (Option α) :=
  (fillForward keys.reverse).reverse

/-- The two passes: forward first, then backward over what is still open. -/
def fillGaps (keys : List (Option α)) : List (Option α) :=
  fillBackward (fillForward keys)

@[simp]
theorem fillFrom_length (last : Option α) (keys : List (Option α)) :
    (fillFrom last keys).length = keys.length := by
  induction keys generalizing last with
  | nil => rfl
  | cons key keys ih =>
      cases key with
      | none => simp [fillFrom, ih]
      | some key => simp [fillFrom, ih]

@[simp]
theorem fillForward_length (keys : List (Option α)) :
    (fillForward keys).length = keys.length :=
  fillFrom_length none keys

@[simp]
theorem fillBackward_length (keys : List (Option α)) :
    (fillBackward keys).length = keys.length := by
  simp [fillBackward]

@[simp]
theorem fillGaps_length (keys : List (Option α)) : (fillGaps keys).length = keys.length := by
  simp [fillGaps]

theorem mem_of_mem_fillFrom {last : Option α} {keys : List (Option α)} {key : α}
    (member : some key ∈ fillFrom last keys) : some key ∈ keys ∨ last = some key := by
  induction keys generalizing last with
  | nil => simp [fillFrom] at member
  | cons head keys ih =>
      cases head with
      | none =>
          rw [fillFrom, List.mem_cons] at member
          rcases member with here | later
          · exact Or.inr here.symm
          · rcases ih later with inside | carried
            · exact Or.inl (List.mem_cons_of_mem _ inside)
            · exact Or.inr carried
      | some first =>
          rw [fillFrom, List.mem_cons] at member
          rcases member with here | later
          · exact Or.inl (by rw [here]; exact List.mem_cons_self)
          · rcases ih later with inside | carried
            · exact Or.inl (List.mem_cons_of_mem _ inside)
            · exact Or.inl (by rw [← carried]; exact List.mem_cons_self)

/-- Filling invents no key. -/
theorem mem_of_mem_fillGaps {keys : List (Option α)} {key : α}
    (member : some key ∈ fillGaps keys) : some key ∈ keys := by
  have backward : some key ∈ fillForward (fillForward keys).reverse := by
    simpa [fillGaps, fillBackward] using member
  rcases mem_of_mem_fillFrom backward with inside | carried
  · rcases mem_of_mem_fillFrom (List.mem_reverse.mp inside) with inside | carried
    · exact inside
    · cases carried
  · cases carried

theorem fillFrom_some_forall (key : α) (keys : List (Option α)) :
    ∀ filled ∈ fillFrom (some key) keys, filled.isSome := by
  induction keys generalizing key with
  | nil => simp [fillFrom]
  | cons head keys ih =>
      intro filled member
      cases head with
      | none =>
          rw [fillFrom, List.mem_cons] at member
          rcases member with rfl | later
          · rfl
          · exact ih key filled later
      | some first =>
          rw [fillFrom, List.mem_cons] at member
          rcases member with rfl | later
          · rfl
          · exact ih first filled later

/-- After the forward pass the gaps are exactly a front part. -/
theorem fillForward_eq_append {keys : List (Option α)} {key : α} (member : some key ∈ keys) :
    ∃ open_ first filled, fillForward keys = List.replicate open_ none ++ some first :: filled ∧
      ∀ key' ∈ filled, key'.isSome := by
  simp only [fillForward]
  induction keys with
  | nil => simp at member
  | cons head keys ih =>
      cases head with
      | none =>
          rw [List.mem_cons] at member
          rcases member with here | later
          · cases here
          · rcases ih later with ⟨open_, first, filled, shape, present⟩
            refine ⟨open_ + 1, first, filled, ?_, present⟩
            rw [fillFrom, shape, List.replicate_succ, List.cons_append]
      | some first =>
          exact ⟨0, first, fillFrom (some first) keys, rfl, fillFrom_some_forall first keys⟩

/-- One key anywhere is enough to fill every gap. -/
theorem fillGaps_forall_isSome {keys : List (Option α)} {key : α} (member : some key ∈ keys) :
    ∀ filled ∈ fillGaps keys, filled.isSome := by
  rcases fillForward_eq_append member with ⟨open_, first, filled, shape, present⟩
  have last : ∃ key keys', (fillForward keys).reverse = some key :: keys' := by
    rw [shape, List.reverse_append, List.reverse_cons, List.append_assoc]
    cases backwards : filled.reverse with
    | nil => exact ⟨first, _, rfl⟩
    | cons final rest =>
        have inside : final ∈ filled := by
          rw [← List.mem_reverse, backwards]
          exact List.mem_cons_self
        rcases Option.isSome_iff_exists.mp (present final inside) with ⟨key, rfl⟩
        exact ⟨key, _, rfl⟩
  rcases last with ⟨key, keys', reversed⟩
  intro result inResult
  rw [fillGaps, fillBackward, reversed, List.mem_reverse, fillForward, fillFrom,
    List.mem_cons] at inResult
  rcases inResult with rfl | later
  · rfl
  · exact fillFrom_some_forall key keys' result later

/-- A key stays where it is. -/
theorem fillFrom_of_some {last : Option α} {keys : List (Option α)} {i : ℕ} {key : α}
    (present : keys[i]? = some (some key)) : (fillFrom last keys)[i]? = some (some key) := by
  induction keys generalizing last i with
  | nil => simp at present
  | cons head keys ih =>
      cases i with
      | zero =>
          simp only [List.getElem?_cons_zero, Option.some.injEq] at present
          subst present
          rfl
      | succ i =>
          rw [List.getElem?_cons_succ] at present
          cases head with
          | none => exact ih present
          | some first => exact ih present

theorem fillFrom_some_gap {keys : List (Option α)} {i : ℕ} (key : α)
    (gap : ∀ k ≤ i, keys[k]? = some none) : (fillFrom (some key) keys)[i]? = some (some key) := by
  induction keys generalizing i with
  | nil => simpa using gap 0 (Nat.zero_le i)
  | cons head keys ih =>
      have first : head = none := by simpa using gap 0 (Nat.zero_le i)
      subst first
      cases i with
      | zero => rfl
      | succ i =>
          apply ih
          intro k upTo
          simpa using gap (k + 1) (by omega)

/-- A key is carried over the gap behind it. -/
theorem fillFrom_carries {last : Option α} {keys : List (Option α)} {j i : ℕ} {key : α}
    (present : keys[j]? = some (some key)) (before : j ≤ i)
    (gap : ∀ k, j < k → k ≤ i → keys[k]? = some none) :
    (fillFrom last keys)[i]? = some (some key) := by
  induction keys generalizing last j i with
  | nil => simp at present
  | cons head keys ih =>
      cases j with
      | succ j =>
          cases i with
          | zero => omega
          | succ i =>
              have rest (last : Option α) : (fillFrom last keys)[i]? = some (some key) := by
                refine ih (by simpa using present) (by omega) ?_
                intro k after upTo
                simpa using gap (k + 1) (by omega) (by omega)
              cases head with
              | none => exact rest last
              | some first => exact rest (some first)
      | zero =>
          simp only [List.getElem?_cons_zero, Option.some.injEq] at present
          subst present
          rw [fillFrom]
          cases i with
          | zero => rfl
          | succ i =>
              rw [List.getElem?_cons_succ]
              apply fillFrom_some_gap
              intro k upTo
              simpa using gap (k + 1) (by omega) (by omega)

/-- The pass back changes nothing that the pass forward has filled. -/
theorem fillGaps_of_forward {keys : List (Option α)} {i : ℕ} {key : α}
    (filled : (fillForward keys)[i]? = some (some key)) :
    (fillGaps keys)[i]? = some (some key) := by
  have bound : i < (fillForward keys).length := (List.getElem?_eq_some_iff.mp filled).1
  rw [fillGaps, fillBackward, List.getElem?_reverse (by simpa using bound), fillForward]
  apply fillFrom_of_some
  rw [fillFrom_length, List.length_reverse, List.getElem?_reverse (by omega)]
  have same : (fillForward keys).length - 1 - ((fillForward keys).length - 1 - i) = i := by omega
  rw [same]
  exact filled

theorem fillGaps_of_some {keys : List (Option α)} {i : ℕ} {key : α}
    (present : keys[i]? = some (some key)) : (fillGaps keys)[i]? = some (some key) :=
  fillGaps_of_forward (fillFrom_of_some present)

theorem fillGaps_carries {keys : List (Option α)} {j i : ℕ} {key : α}
    (present : keys[j]? = some (some key)) (before : j ≤ i)
    (gap : ∀ k, j < k → k ≤ i → keys[k]? = some none) :
    (fillGaps keys)[i]? = some (some key) :=
  fillGaps_of_forward (fillFrom_carries present before gap)

variable {related : α → α → Prop}

theorem fillFrom_pairwise (reflexive : ∀ key, related key key) {last : Option α}
    {keys : List (Option α)} (ordered : (last :: keys).reduceOption.Pairwise related) :
    (last :: fillFrom last keys).reduceOption.Pairwise related := by
  induction keys generalizing last with
  | nil => exact ordered
  | cons head keys ih =>
      cases head with
      | none =>
          cases last with
          | none =>
              simp only [List.reduceOption_cons_of_none, fillFrom] at ordered ⊢
              simpa using @ih none (by simpa using ordered)
          | some key =>
              simp only [List.reduceOption_cons_of_none, List.reduceOption_cons_of_some, fillFrom]
                at ordered ⊢
              have filled := @ih (some key) (by simpa using ordered)
              simp only [List.reduceOption_cons_of_some] at filled
              apply List.pairwise_cons.mpr
              refine ⟨?_, filled⟩
              intro later member
              rcases List.mem_cons.mp member with rfl | inside
              · exact reflexive later
              · exact (List.pairwise_cons.mp filled).1 later inside
      | some first =>
          cases last with
          | none =>
              simp only [List.reduceOption_cons_of_none, List.reduceOption_cons_of_some, fillFrom]
                at ordered ⊢
              exact @ih (some first) (by simpa using ordered)
          | some key =>
              simp only [List.reduceOption_cons_of_some, fillFrom] at ordered ⊢
              rcases List.pairwise_cons.mp ordered with ⟨before, ordered⟩
              have filled := @ih (some first) (by simpa using ordered)
              simp only [List.reduceOption_cons_of_some] at filled
              apply List.pairwise_cons.mpr
              refine ⟨?_, filled⟩
              intro later member
              rcases List.mem_cons.mp member with rfl | inside
              · exact before later List.mem_cons_self
              · rcases mem_of_mem_fillFrom (List.reduceOption_mem_iff.mp inside) with old | carried
                · exact before later
                    (List.mem_cons_of_mem _ (List.reduceOption_mem_iff.mpr old))
                · simp only [Option.some.injEq] at carried
                  subst carried
                  exact before first List.mem_cons_self

theorem fillForward_pairwise (reflexive : ∀ key, related key key) {keys : List (Option α)}
    (ordered : keys.reduceOption.Pairwise related) :
    (fillForward keys).reduceOption.Pairwise related := by
  have filled := @fillFrom_pairwise α related reflexive none keys (by simpa using ordered)
  simpa [fillForward] using filled

/-- Filling keeps the order of the keys. -/
theorem fillGaps_pairwise (reflexive : ∀ key, related key key) {keys : List (Option α)}
    (ordered : keys.reduceOption.Pairwise related) :
    (fillGaps keys).reduceOption.Pairwise related := by
  have forward := fillForward_pairwise reflexive ordered
  have reversed : ((fillForward keys).reverse).reduceOption.Pairwise fun a b => related b a := by
    rw [List.reduceOption, List.filterMap_reverse]
    exact List.pairwise_reverse.mpr forward
  have backward := @fillForward_pairwise α (fun a b => related b a) reflexive _ reversed
  rw [fillGaps, fillBackward, List.reduceOption, List.filterMap_reverse]
  exact List.pairwise_reverse.mpr backward

end Fill

section Buckets

variable {α : Type u} {key : α → ℕ}

theorem filter_append_filter_of_least {least : ℕ} {elements : List α}
    (sorted : (elements.map key).Pairwise (· ≤ ·)) (bound : ∀ x ∈ elements, least ≤ key x) :
    elements.filter (fun x => key x = least) ++ elements.filter (fun x => least < key x) =
      elements := by
  induction elements with
  | nil => rfl
  | cons x elements ih =>
      rw [List.map_cons, List.pairwise_cons] at sorted
      rcases sorted with ⟨above, sorted⟩
      have rest := ih sorted fun y member => bound y (List.mem_cons_of_mem _ member)
      have first := bound x List.mem_cons_self
      rcases Nat.lt_or_eq_of_le first with larger | equal
      · have none : elements.filter (fun y => key y = least) = [] := by
          apply List.filter_eq_nil_iff.mpr
          intro y member
          have order := above (key y) (List.mem_map_of_mem member)
          simp only [decide_eq_true_eq]
          omega
        have all : elements.filter (fun y => least < key y) = elements := by
          simpa [none] using rest
        have different : key x ≠ least := by omega
        simp [larger, different, none, all]
      · simp [equal.symm, rest]

theorem flatMap_range'_filter_key {start count : ℕ} {elements : List α}
    (sorted : (elements.map key).Pairwise (· ≤ ·))
    (bound : ∀ x ∈ elements, start ≤ key x ∧ key x < start + count) :
    (List.range' start count).flatMap (fun bucket => elements.filter fun x => key x = bucket) =
      elements := by
  induction count generalizing start elements with
  | zero =>
      have empty : elements = [] := by
        apply List.eq_nil_iff_forall_not_mem.mpr
        intro x member
        have impossible := bound x member
        omega
      simp [empty]
  | succ count ih =>
      have larger := filter_append_filter_of_least sorted fun x member => (bound x member).1
      have sortedLarger : ((elements.filter fun x => start < key x).map key).Pairwise (· ≤ ·) := by
        apply List.Pairwise.sublist _ sorted
        exact List.filter_sublist.map key
      have rest := @ih (start + 1) (elements.filter fun x => start < key x) sortedLarger (by
          intro x member
          have inside := List.mem_filter.mp member
          have range := bound x inside.1
          simp only [decide_eq_true_eq] at inside
          omega)
      rw [List.range'_succ, List.flatMap_cons]
      conv_rhs => rw [← larger]
      congr 1
      rw [← rest]
      apply List.flatMap_congr
      intro bucket member
      rw [List.filter_filter]
      apply List.filter_congr
      intro x _
      have beyond := (List.mem_range'_1.mp member).1
      by_cases here : key x = bucket
      · have past : start < key x := by omega
        simp only [past, decide_true, Bool.and_true]
      · simp [here]

/-- Buckets of nondecreasing keys, taken in order, give the list back. -/
theorem flatMap_filter_key {count : ℕ} {elements : List α}
    (sorted : (elements.map key).Pairwise (· ≤ ·)) (bound : ∀ x ∈ elements, key x < count) :
    (List.range count).flatMap (fun bucket => elements.filter fun x => key x = bucket) =
      elements := by
  rw [List.range_eq_range']
  exact flatMap_range'_filter_key sorted fun x member =>
    ⟨Nat.zero_le _, by simpa using bound x member⟩

end Buckets

section Slices

variable {α β γ : Type*}

/-- Pieces that are as long as the parts of a second list are its slices. -/
theorem slice_of_flatMap {f : α → List β} {g : α → List γ} {pieces : List α}
    (lengths : ∀ x ∈ pieces, (f x).length = (g x).length) {k : ℕ} {x : α}
    (atK : pieces[k]? = some x) :
    f x = ((pieces.flatMap f).drop ((pieces.take k).flatMap g).length).take (g x).length := by
  induction pieces generalizing k with
  | nil => simp at atK
  | cons piece pieces ih =>
      have lengths := List.forall_mem_cons.mp lengths
      cases k with
      | zero =>
          rw [List.getElem?_cons_zero, Option.some_inj] at atK
          subst atK
          rw [List.flatMap_cons, ← lengths.1]
          simp
      | succ k =>
          rw [List.getElem?_cons_succ] at atK
          rw [ih lengths.2 atK, List.take_succ_cons, List.flatMap_cons, List.flatMap_cons,
            List.length_append, ← lengths.1, List.drop_append,
            List.drop_eq_nil_of_le (Nat.le_add_right _ _), List.nil_append,
            Nat.add_sub_cancel_left]

theorem flatten_slices {size : ℕ} (xs : List α) (n : ℕ) :
    ((List.range n).map fun k => (xs.drop (k * size)).take size).flatten = xs.take (n * size) := by
  induction n with
  | zero => simp
  | succ n ih =>
      rw [List.range_succ, List.map_append, List.flatten_append, ih]
      simp only [List.map_cons, List.map_nil, List.flatten_cons, List.flatten_nil,
        List.append_nil]
      rw [Nat.succ_mul, List.take_add]

/-- The slices of one size at its multiples are all of the list. -/
theorem flatten_slices_all {size : ℕ} (positive : 0 < size) (xs : List α) :
    ((List.range ((xs.length + size - 1) / size)).map fun k =>
      (xs.drop (k * size)).take size).flatten = xs := by
  rw [flatten_slices]
  apply List.take_of_length_le
  have cover := @Nat.lt_div_mul_add (xs.length + size - 1) size positive
  omega

end Slices

end Partition
