import Batchalign.Segmentation.Conservation

/-!
# Retraces stay with what they retrace

A retrace has no `%mor` word of its own. `split_utterance` gives it the number of the next
item that has one, before the gaps are filled; without a next one it is a gap like any
other, and takes the number that is carried forward.

Where an item ends up is told by its position in the parent: `placedPositions` lists, for
each child, the positions of the items it holds.
-/

namespace Batchalign.Segmentation

open Batchalign.Chat Partition

section Positions

variable {α : Type}

/-- A filtered list, by positions. -/
theorem filter_eq_positions (xs : List α) (p : α → Bool) :
    xs.filter p =
      ((List.range xs.length).filter fun i => xs[i]?.any p).filterMap (xs[·]?) := by
  induction xs using List.reverseRecOn with
  | nil => rfl
  | append_singleton xs x ih =>
      have front : ∀ i ∈ List.range xs.length, (xs ++ [x])[i]? = xs[i]? := by
        intro i inRange
        exact List.getElem?_append_left (List.mem_range.mp inRange)
      have last : (xs ++ [x])[xs.length]? = some x := by simp
      rw [List.length_append, List.length_singleton, List.range_succ, List.filter_append,
        List.filter_append, List.filterMap_append, ih]
      congr 1
      · have sameFilter : ((List.range xs.length).filter fun i => (xs ++ [x])[i]?.any p) =
            (List.range xs.length).filter fun i => xs[i]?.any p := by
          apply List.filter_congr
          intro i inRange
          rw [front i inRange]
        rw [sameFilter]
        apply List.filterMap_congr
        intro i member
        exact (front i (List.mem_filter.mp member).1).symm
      · cases kept : p x <;> simp [kept]

theorem dropWhile_filterMap {is : List ℕ} {f : ℕ → Option α} (p : α → Bool)
    (present : ∀ i ∈ is, (f i).isSome) :
    (is.filterMap f).dropWhile p = (is.dropWhile fun i => (f i).any p).filterMap f := by
  induction is with
  | nil => rfl
  | cons i is ih =>
      have split := List.forall_mem_cons.mp present
      rcases Option.isSome_iff_exists.mp split.1 with ⟨x, found⟩
      rw [List.filterMap_cons_some found, List.dropWhile_cons, List.dropWhile_cons, found,
        Option.any_some]
      split
      · exact ih split.2
      · rw [List.filterMap_cons_some found]

/-- What the test does not drop stays. -/
theorem mem_dropWhile_of_not {p : α → Bool} {xs : List α} {x : α} (member : x ∈ xs)
    (stays : p x = false) : x ∈ xs.dropWhile p := by
  rw [← List.takeWhile_append_dropWhile (p := p) (l := xs), List.mem_append] at member
  rcases member with taken | dropped
  · rw [List.mem_takeWhile_imp taken] at stays
    cases stays
  · exact dropped

/-- Neither is anything after it dropped. -/
theorem mem_dropWhile_of_lt {p : ℕ → Bool} {is : List ℕ} {i j : ℕ}
    (ordered : is.Pairwise (· < ·)) (memberI : i ∈ is) (memberJ : j ∈ is) (after : i < j)
    (stays : p i = false) : j ∈ is.dropWhile p := by
  have keeps := mem_dropWhile_of_not memberI stays
  rw [← List.takeWhile_append_dropWhile (p := p) (l := is)] at ordered memberJ
  rcases List.mem_append.mp memberJ with taken | dropped
  · have before := (List.pairwise_append.mp ordered).2.2 j taken i keeps
    omega
  · exact dropped

end Positions

section Placement

/-- The positions of the items with a number. -/
def positionsOf (itemGroups : List (Option ℕ)) (group : ℕ) : List ℕ :=
  (List.range itemGroups.length).filter fun i => itemGroups[i]?.any (·.getD 0 = group)

/-- The positions of the items in each kept group, with its number. -/
def placedPositions (content : List UtteranceContent) (itemGroups : List (Option ℕ))
    (maxGroup : ℕ) : List (ℕ × List ℕ) :=
  (List.range (maxGroup + 1)).filterMap fun group =>
    let kept := (positionsOf itemGroups group).dropWhile fun i =>
      content[i]?.any UtteranceContent.isSeparator
    if kept.isEmpty then none else some (group, kept)

variable {content : List UtteranceContent} {itemGroups : List (Option ℕ)}

theorem positionsOf_pairwise (group : ℕ) : (positionsOf itemGroups group).Pairwise (· < ·) :=
  List.pairwise_lt_range.filter _

theorem mem_positionsOf {i group : ℕ} (found : itemGroups[i]? = some (some group)) :
    i ∈ positionsOf itemGroups group := by
  have bound := (List.getElem?_eq_some_iff.mp found).1
  apply List.mem_filter.mpr
  refine ⟨List.mem_range.mpr bound, ?_⟩
  rw [found]
  simp

theorem groupContent_positions (sameLength : itemGroups.length = content.length) (maxGroup : ℕ) :
    groupContent content itemGroups maxGroup = (List.range (maxGroup + 1)).map fun group =>
      (positionsOf itemGroups group).filterMap (content[·]?) := by
  apply List.map_congr_left
  intro group _
  have length : (content.zip itemGroups).length = itemGroups.length := by
    rw [List.length_zip, sameLength, min_self]
  have pair (i : ℕ) (bound : i < itemGroups.length) :
      (content.zip itemGroups)[i]? = some (content[i], itemGroups[i]) := by
    rw [List.getElem?_eq_getElem (length.symm ▸ bound), List.getElem_zip]
  rw [filter_eq_positions, List.map_filterMap, length, positionsOf]
  have sameFilter : ((List.range itemGroups.length).filter fun i =>
        (content.zip itemGroups)[i]?.any fun item => item.2.getD 0 = group) =
      (List.range itemGroups.length).filter fun i => itemGroups[i]?.any (·.getD 0 = group) := by
    apply List.filter_congr
    intro i inRange
    have bound := List.mem_range.mp inRange
    rw [pair i bound, List.getElem?_eq_getElem bound]
    rfl
  rw [sameFilter]
  apply List.filterMap_congr
  intro i member
  have bound := List.mem_range.mp (List.mem_filter.mp member).1
  rw [pair i bound, List.getElem?_eq_getElem (sameLength ▸ bound)]
  rfl

theorem zipIdx_map_range {α : Type} (f : ℕ → α) (n : ℕ) :
    ((List.range n).map f).zipIdx = (List.range n).map fun k => (f k, k) := by
  apply List.ext_getElem?
  intro k
  by_cases bound : k < n
  · simp [bound]
  · simp [bound]

theorem keptGroups_positions (sameLength : itemGroups.length = content.length) (maxGroup : ℕ) :
    keptGroups (groupContent content itemGroups maxGroup) =
      (placedPositions content itemGroups maxGroup).map fun child =>
        (child.1, child.2.filterMap (content[·]?)) := by
  rw [groupContent_positions sameLength, keptGroups, zipIdx_map_range, List.filterMap_map,
    placedPositions, List.map_filterMap]
  apply List.filterMap_congr
  intro group _
  have present : ∀ i ∈ positionsOf itemGroups group, (content[i]?).isSome := by
    intro i member
    have bound := List.mem_range.mp (List.mem_filter.mp member).1
    rw [List.getElem?_eq_getElem (sameLength ▸ bound)]
    rfl
  have keeps : ∀ i ∈ (positionsOf itemGroups group).dropWhile fun i =>
      content[i]?.any UtteranceContent.isSeparator, (content[i]?).isSome := by
    intro i member
    exact present i ((List.dropWhile_suffix _).subset member)
  simp only [Function.comp_apply]
  rw [dropWhile_filterMap _ present]
  generalize (positionsOf itemGroups group).dropWhile _ = kept at keeps
  cases kept with
  | nil => rfl
  | cons i kept =>
      rcases Option.isSome_iff_exists.mp (keeps i List.mem_cons_self) with ⟨item, found⟩
      simp [found]

theorem mem_placedPositions {group i maxGroup : ℕ} (below : group ≤ maxGroup)
    (member : i ∈ (positionsOf itemGroups group).dropWhile fun i =>
      content[i]?.any UtteranceContent.isSeparator) :
    (group, (positionsOf itemGroups group).dropWhile fun i =>
      content[i]?.any UtteranceContent.isSeparator) ∈
        placedPositions content itemGroups maxGroup := by
  apply List.mem_filterMap.mpr
  refine ⟨group, List.mem_range.mpr (by omega), ?_⟩
  have filled : ((positionsOf itemGroups group).dropWhile fun i =>
      content[i]?.any UtteranceContent.isSeparator).isEmpty = false :=
    List.isEmpty_eq_false_iff.mpr (List.ne_nil_of_mem member)
  simp only [filled, Bool.false_eq_true, if_false]

theorem eq_of_mem_placedPositions {group maxGroup : ℕ} {positions : List ℕ}
    (member : (group, positions) ∈ placedPositions content itemGroups maxGroup) :
    positions = (positionsOf itemGroups group).dropWhile fun i =>
      content[i]?.any UtteranceContent.isSeparator := by
  rcases List.mem_filterMap.mp member with ⟨number, _, found⟩
  dsimp only at found
  split at found
  · cases found
  · cases found
    rfl

theorem placedPositions_numbers (maxGroup : ℕ) :
    ((placedPositions content itemGroups maxGroup).map Prod.fst).Pairwise (· < ·) := by
  rw [placedPositions, List.map_filterMap]
  apply List.Pairwise.filterMap _ _ List.pairwise_lt_range
  intro first second less left isLeft right isRight
  rcases Option.map_eq_some_iff.mp isLeft with ⟨_, kept, rfl⟩
  rcases Option.map_eq_some_iff.mp isRight with ⟨_, kept', rfl⟩
  dsimp only at kept kept'
  split at kept
  · cases kept
  · split at kept'
    · cases kept'
    · cases kept
      cases kept'
      exact less

theorem placedPositions_once (maxGroup : ℕ) :
    ((placedPositions content itemGroups maxGroup).flatMap Prod.snd).Nodup := by
  rw [List.nodup_flatMap]
  constructor
  · rintro ⟨group, positions⟩ member
    rw [eq_of_mem_placedPositions member]
    exact ((positionsOf_pairwise group).imp fun less => less.ne).sublist
      (List.dropWhile_sublist _)
  · have numbers : ((placedPositions content itemGroups maxGroup).map Prod.fst).Pairwise (· < ·) :=
      placedPositions_numbers maxGroup
    rw [List.pairwise_map] at numbers
    refine numbers.imp_of_mem ?_
    rintro ⟨first, left⟩ ⟨second, right⟩ isLeft isRight less i inLeft inRight
    rw [eq_of_mem_placedPositions isLeft] at inLeft
    rw [eq_of_mem_placedPositions isRight] at inRight
    have here := (List.mem_filter.mp ((List.dropWhile_suffix _).subset inLeft)).2
    have there := (List.mem_filter.mp ((List.dropWhile_suffix _).subset inRight)).2
    rcases Option.any_eq_true_iff_get _ _ |>.mp here with ⟨present, isFirst⟩
    rcases Option.any_eq_true_iff_get _ _ |>.mp there with ⟨_, isSecond⟩
    simp only [decide_eq_true_eq] at isFirst isSecond
    have same : first = second := isFirst.symm.trans isSecond
    dsimp only at less
    omega

end Placement

section Binding

theorem bindRetraces_getElem? {items : List UtteranceContent} {groups : List (Option ℕ)} {i : ℕ}
    {item : UtteranceContent} {group : Option ℕ} (atItem : items[i]? = some item)
    (atGroup : groups[i]? = some group) :
    (bindRetraces items groups)[i]? = some
      (if group.isSome || !item.isRetrace then group
      else (groups.drop (i + 1)).findSome? id) := by
  induction items generalizing groups i with
  | nil => simp at atItem
  | cons head items ih =>
      cases groups with
      | nil => simp at atGroup
      | cons first groups =>
          cases i with
          | zero =>
              simp only [List.getElem?_cons_zero, Option.some.injEq] at atItem atGroup
              subst atItem atGroup
              rfl
          | succ i =>
              rw [List.getElem?_cons_succ] at atItem atGroup
              exact ih atItem atGroup

theorem findSome?_drop_of_first {groups : List (Option ℕ)} {i j number : ℕ} (after : i < j)
    (atJ : groups[j]? = some (some number))
    (gap : ∀ k, i < k → k < j → groups[k]? = some none) :
    (groups.drop (i + 1)).findSome? id = some number := by
  induction groups generalizing i j with
  | nil => simp at atJ
  | cons head groups ih =>
      cases j with
      | zero => omega
      | succ j =>
          rw [List.getElem?_cons_succ] at atJ
          cases i with
          | succ i =>
              apply ih (by omega) atJ
              intro k later before
              simpa using gap (k + 1) (by omega) (by omega)
          | zero =>
              rw [List.drop_succ_cons, List.drop_zero]
              cases j with
              | zero =>
                  cases groups with
                  | nil => simp at atJ
                  | cons first groups =>
                      simp only [List.getElem?_cons_zero, Option.some.injEq] at atJ
                      subst atJ
                      rfl
              | succ j =>
                  cases groups with
                  | nil => simp at atJ
                  | cons first groups =>
                      have open_ : first = none := by simpa using gap 1 (by omega) (by omega)
                      subst open_
                      have rest := ih (i := 0) (j := j + 1) (by omega) atJ (by
                        intro k later before
                        simpa using gap (k + 1) (by omega) (by omega))
                      simpa using rest

end Binding

section Claimed

variable [Talkbank]

/-- Retraced material is outside the `%mor` domain. -/
structure RetracesUncounted : Prop where
  none : ∀ content, Talkbank.collectUtteranceContent [.retrace content] .mor = []

/-- The number an item has by its own words. -/
def ownNumber (utt : Utterance) (assignments : List ℕ) (i : ℕ) : Option ℕ :=
  (assignItems (buildWordToContentMap utt.items) assignments utt.items.length)[i]?.join

/-- Which items of the parent the children hold, by position: each child has the number of its
items, and no position is in two of them. -/
structure Placement (utt : Utterance) (children : List Utterance) (placed : List (ℕ × List ℕ)) :
    Prop where
  contents : children.map Utterance.items =
    placed.map fun child => child.2.filterMap (utt.items[·]?)
  numbers : (placed.map Prod.fst).Nodup
  once : (placed.flatMap Prod.snd).Nodup

/-- The item at `i` is in the child of the next item that is assigned, or else in the child of
the last one before it. -/
structure BoundForward (utt : Utterance) (assignments : List ℕ) (placed : List (ℕ × List ℕ))
    (i : ℕ) : Prop where
  next : ∀ j number, i < j → ownNumber utt assignments j = some number →
    (∀ k, i < k → k < j → ownNumber utt assignments k = none) →
    ∃ positions, (number, positions) ∈ placed ∧ i ∈ positions ∧ j ∈ positions
  last : (∀ j, i < j → ownNumber utt assignments j = none) →
    ∃ j number, j < i ∧ ownNumber utt assignments j = some number ∧
      (∀ k, j < k → k < i → ownNumber utt assignments k = none) ∧
      ∃ positions, (number, positions) ∈ placed ∧ i ∈ positions

variable {utt : Utterance} {assignments : List ℕ}

theorem assignItems_length :
    (assignItems (buildWordToContentMap utt.items) assignments utt.items.length).length =
      utt.items.length := by
  rw [assignItems_eq, firstWordGroups_length]

theorem assignItems_getElem? {i : ℕ} (bound : i < utt.items.length) :
    (assignItems (buildWordToContentMap utt.items) assignments utt.items.length)[i]? =
      some (ownNumber utt assignments i) := by
  have inside : i < (assignItems (buildWordToContentMap utt.items) assignments
      utt.items.length).length := by
    rwa [assignItems_length]
  rw [ownNumber, List.getElem?_eq_getElem inside]
  rfl

theorem lt_of_ownNumber {i number : ℕ} (own : ownNumber utt assignments i = some number) :
    i < utt.items.length := by
  have found := Option.join_eq_some_iff.mp own
  rw [← @assignItems_length _ utt assignments]
  exact (List.getElem?_eq_some_iff.mp found).1

theorem firstWordGroups_getElem? {assignments : List ℕ} {wordIdx i : ℕ}
    {items : List UtteranceContent} {item : UtteranceContent} (atItem : items[i]? = some item)
    (wordless : morCount item = 0) :
    (firstWordGroups assignments wordIdx items)[i]? = some none := by
  induction items generalizing wordIdx i with
  | nil => simp at atItem
  | cons head items ih =>
      cases i with
      | zero =>
          simp only [List.getElem?_cons_zero, Option.some.injEq] at atItem
          subst atItem
          simp [firstWordGroups, wordless]
      | succ i =>
          rw [List.getElem?_cons_succ] at atItem
          exact ih atItem

theorem ownNumber_retrace (uncounted : RetracesUncounted) {i : ℕ} {item : UtteranceContent}
    (atItem : utt.items[i]? = some item) (retrace : item.isRetrace = true) :
    ownNumber utt assignments i = none := by
  cases item with
  | retrace content =>
      have wordless : morCount (.retrace content) = 0 := by
        rw [morCount, uncounted.none]
        rfl
      rw [ownNumber, assignItems_eq, firstWordGroups_getElem? atItem wordless]
      rfl
  | _ => cases retrace

section Numbers

variable {i j number : ℕ} {item : UtteranceContent}

theorem contentItemGroups_own (own : ownNumber utt assignments j = some number) :
    (contentItemGroups utt.items assignments)[j]? = some (some number) := by
  have bound := lt_of_ownNumber own
  apply fillGaps_of_some
  rw [bindRetraces_getElem? (List.getElem?_eq_getElem bound)
    ((assignItems_getElem? bound).trans (congrArg some own))]
  rfl

/-- A retrace takes the number of the next item that has one. -/
theorem contentItemGroups_next (atItem : utt.items[i]? = some item)
    (retrace : item.isRetrace = true) (unassigned : ownNumber utt assignments i = none)
    (after : i < j) (own : ownNumber utt assignments j = some number)
    (gap : ∀ k, i < k → k < j → ownNumber utt assignments k = none) :
    (contentItemGroups utt.items assignments)[i]? = some (some number) := by
  have bound := (List.getElem?_eq_some_iff.mp atItem).1
  have boundJ := lt_of_ownNumber own
  apply fillGaps_of_some
  rw [bindRetraces_getElem? atItem ((assignItems_getElem? bound).trans (congrArg some unassigned)),
    retrace]
  have next := findSome?_drop_of_first after
    ((assignItems_getElem? boundJ).trans (congrArg some own)) (by
      intro k later before
      rw [assignItems_getElem? (by omega), gap k later before])
  simp [next]

/-- With no assigned item behind it, it takes the number carried forward. -/
theorem contentItemGroups_last (bound : i < utt.items.length) (before : j < i)
    (own : ownNumber utt assignments j = some number)
    (gap : ∀ k, j < k → ownNumber utt assignments k = none) :
    (contentItemGroups utt.items assignments)[i]? = some (some number) := by
  have boundJ := lt_of_ownNumber own
  apply fillGaps_carries (j := j)
  · rw [bindRetraces_getElem? (List.getElem?_eq_getElem boundJ)
      ((assignItems_getElem? boundJ).trans (congrArg some own))]
    rfl
  · omega
  · intro k later upTo
    have boundK : k < utt.items.length := by omega
    rw [bindRetraces_getElem? (List.getElem?_eq_getElem boundK)
      ((assignItems_getElem? boundK).trans (congrArg some (gap k later)))]
    have nothing : ((assignItems (buildWordToContentMap utt.items) assignments
        utt.items.length).drop (k + 1)).findSome? id = none := by
      apply List.findSome?_eq_none_iff.mpr
      intro group member
      rcases List.mem_iff_getElem?.mp member with ⟨m, found⟩
      rw [List.getElem?_drop] at found
      have inside : k + 1 + m < utt.items.length := by
        rw [← @assignItems_length _ utt assignments]
        exact (List.getElem?_eq_some_iff.mp found).1
      rw [assignItems_getElem? inside, gap _ (by omega), Option.some.injEq] at found
      exact found.symm
    simp [nothing]

/-- Some item is assigned, so one before the position is the last, if none follows it. -/
theorem exists_last_assigned (assigned : assignments ≠ [])
    (words : buildWordToContentMap utt.items ≠ [])
    (unassigned : ownNumber utt assignments i = none)
    (gap : ∀ j, i < j → ownNumber utt assignments j = none) :
    ∃ j number, j < i ∧ ownNumber utt assignments j = some number ∧
      ∀ k, j < k → ownNumber utt assignments k = none := by
  rcases exists_mem_firstWordGroups assigned words with ⟨group, member⟩
  rw [← assignItems_eq] at member
  rcases List.mem_iff_getElem?.mp member with ⟨m, found⟩
  have own : (ownNumber utt assignments m).isSome := by
    rw [ownNumber, found]
    rfl
  have before (k : ℕ) (present : (ownNumber utt assignments k).isSome) : k < i := by
    by_contra notBefore
    rcases Nat.lt_or_eq_of_le (Nat.le_of_not_lt notBefore) with later | rfl
    · rw [gap k later] at present
      cases present
    · rw [unassigned] at present
      cases present
  have greatest := Nat.findGreatest_spec (P := fun k => (ownNumber utt assignments k).isSome)
    (before m own).le own
  rcases Option.isSome_iff_exists.mp greatest with ⟨number, isNumber⟩
  refine ⟨_, number, before _ greatest, isNumber, ?_⟩
  intro k later
  by_contra present
  have isPresent := Option.isSome_iff_ne_none.mpr present
  have atMost := Nat.le_findGreatest (P := fun k => (ownNumber utt assignments k).isSome)
    (before k isPresent).le isPresent
  omega

end Numbers

omit [Talkbank] in
theorem placed_bound {i number : ℕ} {item : UtteranceContent} {itemGroups : List (Option ℕ)}
    {maxGroup : ℕ} (atItem : utt.items[i]? = some item) (retrace : item.isRetrace = true)
    (found : itemGroups[i]? = some (some number)) (below : number ≤ maxGroup) :
    ∃ positions, (number, positions) ∈ placedPositions utt.items itemGroups maxGroup ∧
      i ∈ positions ∧
      ∀ j, i < j → itemGroups[j]? = some (some number) → j ∈ positions := by
  have stays : utt.items[i]?.any UtteranceContent.isSeparator = false := by
    rw [atItem]
    cases item with
    | retrace content => rfl
    | _ => cases retrace
  have inside := mem_dropWhile_of_not (p := fun i => utt.items[i]?.any UtteranceContent.isSeparator)
    (mem_positionsOf found) stays
  refine ⟨_, mem_placedPositions below inside, inside, ?_⟩
  intro j after foundJ
  exact mem_dropWhile_of_lt (positionsOf_pairwise number) (mem_positionsOf found)
    (mem_positionsOf foundJ) after stays

/-- Unless the utterance stays whole, its items are placed in the children by their numbers,
and every retrace is in the child of the next assigned item, or else in that of the last. -/
theorem splitUtterance_bindsRetraces (uncounted : RetracesUncounted) (utt : Utterance)
    (assignments : List ℕ) :
    splitUtterance utt assignments = [utt] ∨
      ∃ placed, Placement utt (splitUtterance utt assignments) placed ∧
        ∀ (i : ℕ) (item : UtteranceContent), utt.items[i]? = some item → item.isRetrace = true →
          BoundForward utt assignments placed i := by
  cases split : splitGroups utt assignments with
  | none =>
      left
      simp only [splitUtterance, split]
  | some kept =>
      right
      rcases splitGroups_eq_some split with ⟨assigned, words, shape⟩
      have length := contentItemGroups_length utt.items assignments
      have children := splitUtterance_map_items split
      rw [shape, keptGroups_positions length, List.map_map] at children
      refine ⟨_, ⟨children, ?_, placedPositions_once _⟩, ?_⟩
      · exact (placedPositions_numbers _).imp fun less => less.ne
      · intro i item atItem retrace
        have unassigned : ownNumber utt assignments i = none :=
          ownNumber_retrace uncounted atItem retrace
        have bound := (List.getElem?_eq_some_iff.mp atItem).1
        have below (j number : ℕ)
            (found : (contentItemGroups utt.items assignments)[j]? = some (some number)) :
            number ≤ assignments.foldl max 0 :=
          le_foldl_max (contentItemGroups_mem (List.mem_of_getElem? found))
        constructor
        · intro j number after own gap
          have found := contentItemGroups_next atItem retrace unassigned after own gap
          rcases placed_bound atItem retrace found (below i number found) with
            ⟨positions, isPlaced, here, later⟩
          exact ⟨positions, isPlaced, here, later j after (contentItemGroups_own own)⟩
        · intro gap
          rcases exists_last_assigned assigned words unassigned gap with
            ⟨j, number, before, own, rest⟩
          have found := contentItemGroups_last bound before own rest
          rcases placed_bound atItem retrace found (below i number found) with
            ⟨positions, isPlaced, here, _⟩
          exact ⟨j, number, before, own, fun k later _ => rest k later, positions, isPlaced, here⟩

end Claimed

section Witness

open Chat.Documented

theorem documented_retracesUncounted : RetracesUncounted where
  none content := by
    simp [Talkbank.collectUtteranceContent, walkItems, walkItem]

/-- `mud dig [/] dig [/] dig fire`. -/
def digUtterance : Utterance :=
  Utterance.new (MainTier.new "PAR"
    [.word (.simple "mud"), .retrace [.word (.simple "dig")], .retrace [.word (.simple "dig")],
      .word (.simple "dig"), .word (.simple "fire")] .period)

theorem splitUtterance_bindsRetraces_dig :
    (splitUtterance digUtterance [0, 1, 1]).map Utterance.items =
        [digUtterance.items.take 1, digUtterance.items.drop 1] ∧
      (splitUtterance digUtterance [0, 1, 1] = [digUtterance] ∨
        ∃ placed, Placement digUtterance (splitUtterance digUtterance [0, 1, 1]) placed ∧
          ∀ (i : ℕ) (item : UtteranceContent), digUtterance.items[i]? = some item →
            item.isRetrace = true → BoundForward digUtterance [0, 1, 1] placed i) :=
  ⟨by rfl, splitUtterance_bindsRetraces documented_retracesUncounted digUtterance [0, 1, 1]⟩

end Witness

end Batchalign.Segmentation
