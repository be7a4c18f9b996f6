import Mathlib

/-!
# Words cut into fragments

A list is split at its separators into words. When it is also cut elsewhere, the words of the
whole are those of the parts, with the last word of one part glued to the first word of the next
(`splitOnP_append`). What is glued word by word on two sides stays related
(`forall₂_glue`), so that a description of the parts becomes one of the whole.

The elements of the whole are labelled once by their word and once by their fragment. Read side
by side, the runs of the first label give for every word the labels of its fragments
(`splitBy_zip_labels`).
-/

namespace Fragments

variable {α β γ : Type*}

/-- The last word of the first part and the first word of the second are one. -/
def glue : List (List α) → List (List α) → List (List α)
  | [], words => words
  | [word], [] => [word]
  | [word], first :: words => (word ++ first) :: words
  | word :: next :: front, words => word :: glue (next :: front) words

section Glue

variable {word : List α} {front back : List (List α)}

theorem glue_cons (some : front ≠ []) : glue (word :: front) back = word :: glue front back := by
  cases front with
  | nil => exact absurd rfl some
  | cons next front => rfl

theorem flatten_glue : (glue front back).flatten = front.flatten ++ back.flatten := by
  fun_induction glue front back with
  | case1 => rfl
  | case2 => simp
  | case3 word first words => simp
  | case4 word next front words ih =>
      rw [List.flatten_cons, ih, @List.flatten_cons _ word, List.append_assoc]

theorem forall₂_glue {other otherBack : List (List β)} {related : List α → List β → Prop}
    (append : ∀ {xs xs' ys ys'}, related xs ys → related xs' ys' →
      related (xs ++ xs') (ys ++ ys'))
    (fronts : List.Forall₂ related front other) (backs : List.Forall₂ related back otherBack) :
    List.Forall₂ related (glue front back) (glue other otherBack) := by
  induction fronts with
  | nil => exact backs
  | @cons word otherWord front other here rest ih =>
      cases rest with
      | nil =>
          cases backs with
          | nil => exact .cons here .nil
          | cons first backs => exact .cons (append here first) backs
      | cons next rest => exact .cons here ih

theorem splitOnP_append {p : α → Bool} (xs ys : List α) :
    (xs ++ ys).splitOnP p = glue (xs.splitOnP p) (ys.splitOnP p) := by
  induction xs with
  | nil =>
      cases split : ys.splitOnP p with
      | nil => exact absurd split (List.splitOnP_ne_nil p ys)
      | cons first words => simp [split, glue]
  | cons x xs ih =>
      rw [List.cons_append, List.splitOnP_cons_eq_if_modifyHead,
        List.splitOnP_cons_eq_if_modifyHead, ih]
      split
      · exact (glue_cons (List.splitOnP_ne_nil p xs)).symm
      · cases split : xs.splitOnP p with
        | nil => exact absurd split (List.splitOnP_ne_nil p xs)
        | cons word front =>
            cases front with
            | nil => cases ys.splitOnP p <;> rfl
            | cons next front => rfl

theorem splitOn_append [BEq α] {separator : α} (xs ys : List α) :
    (xs ++ ys).splitOn separator = glue (xs.splitOn separator) (ys.splitOn separator) := by
  simp only [List.splitOn_eq_splitOnP]
  exact splitOnP_append xs ys

/-- The words are all of the list but for the separators. -/
theorem flatten_splitOn [BEq α] {separator : α} (xs : List α) :
    (xs.splitOn separator).flatten = xs.filter (· != separator) := by
  induction xs with
  | nil => rfl
  | cons x xs ih =>
      rw [List.splitOn_cons_eq_if_modifyHead]
      split
      · next isSeparator => simp [bne, isSeparator, ih]
      · next isOther =>
        rw [List.filter_cons_of_pos (by simp [bne, isOther]), ← ih]
        cases split : xs.splitOn separator with
        | nil => exact absurd split (List.splitOn_ne_nil separator xs)
        | cons word words => simp

end Glue

section Runs

variable [DecidableEq γ] {key : α → γ}

/-- Chunks with a key each, all different, are the runs of the whole, but for empty ones. -/
theorem splitBy_flatten_of_keys {chunks : List (List α)}
    (constant : ∀ chunk ∈ chunks, ∀ x ∈ chunk, ∀ y ∈ chunk, key x = key y)
    (apart : chunks.Pairwise fun chunk later => ∀ x ∈ chunk, ∀ y ∈ later, key x ≠ key y) :
    chunks.flatten.splitBy (fun x y => key x == key y) = chunks.filter (! ·.isEmpty) := by
  rw [List.splitBy_eq_iff]
  refine ⟨?_, ?_, ?_, ?_⟩
  · rw [List.flatten_filter_not_isEmpty]
  · simp
  · intro chunk member
    apply List.Pairwise.isChain
    apply List.pairwise_of_forall_sublist
    intro x y pair
    rw [beq_iff_eq]
    exact constant chunk (List.mem_of_mem_filter member) x (pair.subset (by simp)) y
      (pair.subset (by simp))
  · apply List.Pairwise.isChain
    refine List.Pairwise.imp_of_mem ?_ (apart.filter _)
    intro chunk later isChunk isLater different
    have some : chunk ≠ [] := by simpa using (List.mem_filter.mp isChunk).2
    have someLater : later ≠ [] := by simpa using (List.mem_filter.mp isLater).2
    refine ⟨some, someLater, ?_⟩
    rw [beq_eq_false_iff_ne]
    exact different _ (List.getLast_mem some) _ (List.head_mem someLater)

end Runs

section Labels

variable {j r start : ℕ} {counts : List ℕ} {rows : List (List ℕ)}

/-- The numbers from `start` on, each as often as its count says. -/
def labels (start : ℕ) (counts : List ℕ) : List ℕ :=
  (counts.zipIdx start).flatMap fun (count, index) => List.replicate count index

/-- The labels that occur. -/
def occurring (start : ℕ) (counts : List ℕ) : List ℕ :=
  ((counts.zipIdx start).filter fun (count, _) => 0 < count).map Prod.snd

/-- For each word its number with the labels of its fragments. -/
def chunks : ℕ → ℕ → List (List ℕ) → List (List (ℕ × ℕ))
  | _, _, [] => []
  | r, j, counts :: rows =>
      (labels j counts).map (Prod.mk r) :: chunks (r + 1) (j + counts.length) rows

@[simp]
theorem labels_nil : labels start [] = [] := rfl

@[simp]
theorem labels_cons {count : ℕ} :
    labels start (count :: counts) = List.replicate count start ++ labels (start + 1) counts := rfl

theorem flatMap_zipIdx_fst (f : α → List β) (xs : List α) (start : ℕ) :
    ((xs.zipIdx start).flatMap fun (x, _) => f x) = xs.flatMap f := by
  rw [← List.flatMap_map, List.zipIdx_map_fst]

/-- How often an index is given out is how many keys its item has. -/
theorem flatMap_zipIdx_snd (keys : α → List β) (xs : List α) (start : ℕ) :
    ((xs.zipIdx start).flatMap fun (x, index) => (keys x).map fun _ => some index) =
      (labels start (xs.map fun x => (keys x).length)).map some := by
  induction xs generalizing start with
  | nil => rfl
  | cons x xs ih =>
      rw [List.zipIdx_cons, List.flatMap_cons, ih, List.map_cons, labels_cons, List.map_append,
        List.map_replicate]
      exact congrArg (· ++ _) (List.map_const' ..)

theorem labels_append {others : List ℕ} :
    labels start (counts ++ others) =
      labels start counts ++ labels (start + counts.length) others := by
  rw [labels, List.zipIdx_append, List.flatMap_append]
  rfl

@[simp]
theorem length_labels : (labels start counts).length = counts.sum := by
  induction counts generalizing start with
  | nil => rfl
  | cons count counts ih =>
      rw [labels_cons, List.length_append, List.length_replicate, ih, List.sum_cons]

theorem mem_labels {x : ℕ} : x ∈ labels start counts ↔ x ∈ occurring start counts := by
  simp only [labels, occurring, List.mem_flatMap, List.mem_map, List.mem_filter, Prod.exists,
    List.mem_replicate, exists_eq_right, decide_eq_true_eq, Nat.pos_iff_ne_zero]
  constructor
  · rintro ⟨count, index, member, some, rfl⟩
    exact ⟨count, member, some⟩
  · rintro ⟨count, member, some⟩
    exact ⟨count, x, member, some, rfl⟩

theorem occurring_pairwise : (occurring start counts).Pairwise (· < ·) := by
  apply List.Pairwise.sublist (List.Sublist.map Prod.snd List.filter_sublist)
  rw [List.zipIdx_map_snd]
  exact List.pairwise_lt_range' ..

theorem bounds_of_mem_occurring {x : ℕ} (member : x ∈ occurring start counts) :
    start ≤ x ∧ x < start + counts.length := by
  rcases List.mem_map.mp member with ⟨⟨count, index⟩, kept, rfl⟩
  have placed := List.mem_zipIdx (List.mem_of_mem_filter kept)
  omega

theorem bounds_of_mem_labels {x : ℕ} (member : x ∈ labels start counts) :
    start ≤ x ∧ x < start + counts.length :=
  bounds_of_mem_occurring (mem_labels.mp member)

theorem labels_pairwise : (labels start counts).Pairwise (· ≤ ·) := by
  induction counts generalizing start with
  | nil => exact List.Pairwise.nil
  | cons count counts ih =>
      rw [labels_cons, List.pairwise_append]
      refine ⟨List.pairwise_replicate.mpr (Or.inr le_rfl), ih, ?_⟩
      intro x isFirst y isLater
      rw [List.eq_of_mem_replicate isFirst]
      exact (Nat.le_succ start).trans (bounds_of_mem_labels isLater).1

theorem count_labels {k : ℕ} : (labels start counts).count (start + k) = counts.getD k 0 := by
  induction counts generalizing start k with
  | nil => rfl
  | cons count counts ih =>
      rw [labels_cons, List.count_append]
      cases k with
      | zero =>
          have later : (labels (start + 1) counts).count start = 0 := by
            apply List.count_eq_zero.mpr
            intro member
            have bound := (bounds_of_mem_labels member).1
            omega
          rw [Nat.add_zero, List.count_replicate_self, later]
          rfl
      | succ k =>
          have first : (List.replicate count start).count (start + (k + 1)) = 0 := by
            apply List.count_eq_zero.mpr
            intro member
            have same := List.eq_of_mem_replicate member
            omega
          have rest := @ih (start + 1) k
          rw [Nat.add_right_comm, Nat.add_assoc] at rest
          rw [first, rest, Nat.zero_add]
          rfl

theorem occurring_cons {count : ℕ} :
    occurring start (count :: counts) =
      (if 0 < count then [start] else []) ++ occurring (start + 1) counts := by
  by_cases some : 0 < count
  · simp [occurring, some]
  · simp [occurring, some]

theorem le_of_mem_chunks {chunk : List (ℕ × ℕ)} {x : ℕ × ℕ} (isChunk : chunk ∈ chunks r j rows)
    (member : x ∈ chunk) : r ≤ x.1 := by
  induction rows generalizing r j with
  | nil => cases isChunk
  | cons counts rows ih =>
      rcases List.mem_cons.mp isChunk with rfl | later
      · rcases List.mem_map.mp member with ⟨label, -, rfl⟩
        exact le_rfl
      · exact (Nat.le_succ r).trans (ih later)

theorem chunks_constant {chunk : List (ℕ × ℕ)} (isChunk : chunk ∈ chunks r j rows) :
    ∀ x ∈ chunk, ∀ y ∈ chunk, x.1 = y.1 := by
  induction rows generalizing r j with
  | nil => cases isChunk
  | cons counts rows ih =>
      rcases List.mem_cons.mp isChunk with rfl | later
      · intro x isX y isY
        rcases List.mem_map.mp isX with ⟨label, -, rfl⟩
        rcases List.mem_map.mp isY with ⟨other, -, rfl⟩
        rfl
      · exact ih later

theorem chunks_apart :
    (chunks r j rows).Pairwise fun chunk later => ∀ x ∈ chunk, ∀ y ∈ later, x.1 ≠ y.1 := by
  induction rows generalizing r j with
  | nil => exact List.Pairwise.nil
  | cons counts rows ih =>
      refine List.Pairwise.cons ?_ ih
      intro later isLater x isX y isY
      rcases List.mem_map.mp isX with ⟨label, -, rfl⟩
      have beyond := le_of_mem_chunks isLater isY
      exact Nat.ne_of_lt beyond

/-- The word of a fragment is the one that its number falls in. -/
theorem getElem?_of_mem_chunks {word fragment : ℕ}
    (member : (word, fragment) ∈ (chunks r j rows).flatten) :
    j ≤ fragment ∧ (labels r (rows.map List.length))[fragment - j]? = some word := by
  induction rows generalizing r j with
  | nil => cases member
  | cons counts rows ih =>
      rw [chunks, List.flatten_cons, List.mem_append] at member
      rw [List.map_cons, labels_cons]
      rcases member with first | later
      · rcases List.mem_map.mp first with ⟨label, isLabel, same⟩
        cases same
        have bounds := bounds_of_mem_labels isLabel
        refine ⟨bounds.1, ?_⟩
        rw [List.getElem?_append_left (by rw [List.length_replicate]; omega),
          List.getElem?_replicate, if_pos (by omega)]
      · rcases ih later with ⟨bound, found⟩
        refine ⟨(Nat.le_add_right _ _).trans bound, ?_⟩
        rw [List.getElem?_append_right (by rw [List.length_replicate]; omega),
          List.length_replicate, Nat.sub_sub]
        exact found

theorem zip_replicate_length {x : β} (xs : List α) :
    (List.replicate xs.length x).zip xs = xs.map (Prod.mk x) := by
  induction xs with
  | nil => rfl
  | cons y xs ih =>
      rw [List.length_cons, List.replicate_succ, List.zip_cons_cons, ih, List.map_cons]

theorem zip_labels :
    (labels r (rows.map List.sum)).zip (labels j rows.flatten) = (chunks r j rows).flatten := by
  induction rows generalizing r j with
  | nil => rfl
  | cons counts rows ih =>
      rw [List.map_cons, labels_cons, List.flatten_cons, labels_append,
        List.zip_append (by simp), ih, chunks, List.flatten_cons]
      congr 1
      rw [← length_labels, zip_replicate_length]

/-- The runs of the word labels, of the words that have any element. -/
theorem splitBy_zip_labels :
    ((labels r (rows.map List.sum)).zip (labels j rows.flatten)).splitBy (fun x y => x.1 == y.1) =
      (chunks r j rows).filter (! ·.isEmpty) := by
  rw [zip_labels]
  exact splitBy_flatten_of_keys (fun _ => chunks_constant) chunks_apart

end Labels

end Fragments
