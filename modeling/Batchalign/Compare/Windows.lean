import Batchalign.Compare.Totals

/-!
# Where the windows of gold utterances lie

The mapping pass of `compare_one` with the windows it chooses. The main tokens stand in the
order of their utterances, so a window whose ends come from one utterance lies in that
utterance. The end of a window is where the next search starts, and no window grows to the
left beyond the start of its own search.
-/

namespace Batchalign.Compare

open Batchalign.Chat

section Majority

theorem mem_countValue {counts : List ValueCount} {value idx : ℕ} {entry : ValueCount}
    (member : entry ∈ countValue counts value idx) :
    entry.value = value ∨ ∃ old ∈ counts, old.value = entry.value := by
  simp only [countValue] at member
  split at member
  · rcases List.mem_map.mp member with ⟨old, isOld, rfl⟩
    refine .inr ⟨old, isOld, ?_⟩
    split <;> rfl
  · rcases List.mem_append.mp member with isOld | isNew
    · exact .inr ⟨entry, isOld, rfl⟩
    · rw [List.mem_singleton.mp isNew]
      exact .inl rfl

theorem countValue_ne_nil (counts : List ValueCount) (value idx : ℕ) :
    countValue counts value idx ≠ [] := by
  simp only [countValue]
  split
  · next counted =>
    intro empty
    rw [List.map_eq_nil_iff.mp empty] at counted
    simp at counted
  · simp

/-- Only values of the slice are counted. -/
theorem mem_of_mem_foldl_countValue (entries : List (ℕ × ℕ)) :
    ∀ (counts : List ValueCount) (entry : ValueCount),
      entry ∈ entries.foldl (fun counts (value, idx) => countValue counts value idx) counts →
      entry.value ∈ entries.map Prod.fst ∨ ∃ old ∈ counts, old.value = entry.value := by
  induction entries with
  | nil => exact fun counts entry member => .inr ⟨entry, member, rfl⟩
  | cons head rest ih =>
      intro counts entry member
      rcases ih _ entry member with inRest | ⟨old, isOld, same⟩
      · exact .inl (List.mem_cons_of_mem _ inRest)
      · rcases mem_countValue isOld with isHead | ⟨older, isOlder, sameOlder⟩
        · left
          rw [← same, isHead]
          exact List.mem_cons_self
        · exact .inr ⟨older, isOlder, sameOlder.trans same⟩

theorem mem_of_mem_valueCounts {slice : List ℕ} {entry : ValueCount}
    (member : entry ∈ valueCounts slice) : entry.value ∈ slice := by
  rcases mem_of_mem_foldl_countValue _ _ entry member with inSlice | ⟨old, isOld, -⟩
  · simpa using inSlice
  · cases isOld

theorem valueCounts_ne_nil {slice : List ℕ} (nonempty : slice ≠ []) : valueCounts slice ≠ [] := by
  rcases List.eq_nil_or_concat slice with empty | ⟨init, last, rfl⟩
  · exact absurd empty nonempty
  · simp only [valueCounts, List.concat_eq_append, List.zipIdx_append, List.foldl_append]
    exact countValue_ne_nil _ _ _

theorem ValueCount.max_eq_or (a b : ValueCount) : a.max b = a ∨ a.max b = b := by
  simp only [ValueCount.max]
  split
  · exact .inl rfl
  · exact .inr rfl

theorem foldl_max_mem (rest : List ValueCount) :
    ∀ first : ValueCount, rest.foldl ValueCount.max first ∈ first :: rest := by
  induction rest with
  | nil => exact fun first => List.mem_singleton.mpr rfl
  | cons head rest ih =>
      intro first
      rcases List.mem_cons.mp (ih (first.max head)) with isFirst | inRest
      · rw [List.foldl_cons, isFirst]
        rcases first.max_eq_or head with same | same <;> simp [same]
      · exact List.mem_cons_of_mem _ (List.mem_cons_of_mem _ inRest)

/-- The majority of a slice is one of its values. -/
theorem majorityValue_mem {slice : List ℕ} (nonempty : slice ≠ []) :
    majorityValue slice ∈ slice := by
  have counted := valueCounts_ne_nil nonempty
  have values := fun entry => @mem_of_mem_valueCounts slice entry
  simp only [majorityValue]
  cases counts : valueCounts slice with
  | nil => exact absurd counts counted
  | cons first rest =>
      apply values
      rw [counts]
      exact foldl_max_mem rest first

end Majority

section Slices

theorem getElem?_extract (values : List ℕ) (a b k : ℕ) :
    (values.extract a b)[k]? = if k < b - a then values[a + k]? else none := by
  simp [List.getElem?_take]

theorem length_extract {values : List ℕ} {a b : ℕ} (bound : b ≤ values.length) :
    (values.extract a b).length = b - a := by
  simp only [List.extract_eq_take_drop, List.length_take, List.length_drop]
  omega

theorem getElem?_extract_reverse {values : List ℕ} {a b k : ℕ} (bound : b ≤ values.length)
    (inside : k < b - a) : (values.extract a b).reverse[k]? = values[b - 1 - k]? := by
  rw [List.getElem?_reverse (by rw [length_extract bound]; exact inside), length_extract bound,
    getElem?_extract, if_pos (by omega)]
  congr 1
  omega

/-- The first value behind the leading others is the majority. -/
theorem getElem?_leadingOthers {majority : ℕ} {slice : List ℕ} (member : majority ∈ slice) :
    slice[leadingOthers majority slice]? = some majority := by
  induction slice with
  | nil => cases member
  | cons value rest ih =>
      simp only [leadingOthers] at ih ⊢
      by_cases same : value = majority
      · simp [same]
      · have inRest : majority ∈ rest :=
          (List.mem_cons.mp member).resolve_left fun eq => same eq.symm
        simpa [same] using ih inRest

theorem leadingOthers_lt {majority : ℕ} {slice : List ℕ} (member : majority ∈ slice) :
    leadingOthers majority slice < slice.length :=
  (List.getElem?_eq_some_iff.mp (getElem?_leadingOthers member)).1

/-- Nothing leads a slice of one value. -/
theorem leadingOthers_of_forall {value : ℕ} {slice : List ℕ} (one : ∀ v ∈ slice, v = value) :
    leadingOthers value slice = 0 := by
  cases slice with
  | nil => rfl
  | cons head rest => simp [leadingOthers, one head List.mem_cons_self]

/-- What is taken from the front of a slice while it is `value` stands there. -/
theorem getElem?_of_lt_takeWhile {value count k : ℕ} {slice : List ℕ}
    (inside : k < ((slice.take count).takeWhile (· == value)).length) :
    slice[k]? = some value := by
  rcases (List.takeWhile_prefix _).trans (List.take_prefix count slice) with ⟨rest, whole⟩
  rw [← whole, List.getElem?_append_left inside, List.getElem?_eq_getElem inside]
  congr 1
  simpa using List.mem_takeWhile_imp (List.getElem_mem inside)

end Slices

/-- A window of main tokens that exist and that all come from the utterance `uttIdx`. -/
structure WithinUtt (mainUtts : List ℕ) (window : ℕ × ℕ) (uttIdx : ℕ) : Prop where
  nonempty : window.1 < window.2
  bounded : window.2 ≤ mainUtts.length
  inside : ∀ k, window.1 ≤ k → k < window.2 → mainUtts[k]? = some uttIdx

namespace WithinUtt

variable {mainUtts : List ℕ} {window : ℕ × ℕ} {uttIdx : ℕ}

/-- In a sorted list it is enough that both ends come from the utterance. -/
theorem of_ends (sorted : mainUtts.Pairwise (· ≤ ·)) (nonempty : window.1 < window.2)
    (first : mainUtts[window.1]? = some uttIdx) (last : mainUtts[window.2 - 1]? = some uttIdx) :
    WithinUtt mainUtts window uttIdx := by
  rcases List.getElem?_eq_some_iff.mp first with ⟨firstBound, isFirst⟩
  rcases List.getElem?_eq_some_iff.mp last with ⟨lastBound, isLast⟩
  refine ⟨nonempty, by omega, ?_⟩
  intro k above below
  have bound : k < mainUtts.length := by omega
  have fromFirst : mainUtts[window.1] ≤ mainUtts[k] := by
    rcases above.eq_or_lt with same | later
    · simp [same]
    · exact List.pairwise_iff_getElem.mp sorted _ _ firstBound bound later
  have toLast : mainUtts[k] ≤ mainUtts[window.2 - 1] := by
    rcases (Nat.le_sub_one_of_lt below).eq_or_lt with same | earlier
    · simp [same]
    · exact List.pairwise_iff_getElem.mp sorted _ _ bound lastBound earlier
  rw [List.getElem?_eq_getElem bound]
  congr 1
  omega

theorem mem_extract (within : WithinUtt mainUtts window uttIdx) :
    ∀ value ∈ mainUtts.extract window.1 window.2, value = uttIdx := by
  intro value member
  rcases List.getElem?_of_mem member with ⟨k, found⟩
  rw [getElem?_extract] at found
  split at found
  · next inside =>
    rw [within.inside _ (by omega) (by omega)] at found
    exact (Option.some.inj found).symm
  · cases found

theorem extract_ne_nil (within : WithinUtt mainUtts window uttIdx) :
    mainUtts.extract window.1 window.2 ≠ [] := by
  have nonempty := within.nonempty
  apply List.ne_nil_of_length_pos
  rw [length_extract within.bounded]
  omega

theorem majorityValue_eq (within : WithinUtt mainUtts window uttIdx) :
    majorityValue (mainUtts.extract window.1 window.2) = uttIdx :=
  within.mem_extract _ (majorityValue_mem within.extract_ne_nil)

/-- A window of the tokens from `searchStart` on, in absolute positions. -/
theorem of_drop {searchStart : ℕ} (bound : searchStart ≤ mainUtts.length)
    (within : WithinUtt (mainUtts.drop searchStart) window uttIdx) :
    WithinUtt mainUtts (searchStart + window.1, searchStart + window.2) uttIdx := by
  have nonempty := within.nonempty
  have bounded := within.bounded
  rw [List.length_drop] at bounded
  refine ⟨by dsimp only; omega, by dsimp only; omega, ?_⟩
  intro k above below
  dsimp only at above below
  have found := within.inside (k - searchStart) (by omega) (by omega)
  rwa [List.getElem?_drop, Nat.add_sub_of_le (by omega)] at found

/-- Utterances of two windows are in the order of the windows. -/
theorem uttIdx_le {later : ℕ × ℕ} {laterIdx : ℕ} (sorted : mainUtts.Pairwise (· ≤ ·))
    (within : WithinUtt mainUtts window uttIdx) (withinLater : WithinUtt mainUtts later laterIdx)
    (before : window.2 ≤ later.1) : uttIdx ≤ laterIdx := by
  have nonempty := within.nonempty
  have nonemptyLater := withinLater.nonempty
  rcases List.getElem?_eq_some_iff.mp (within.inside window.1 le_rfl nonempty)
    with ⟨bound, isIdx⟩
  rcases List.getElem?_eq_some_iff.mp (withinLater.inside later.1 le_rfl nonemptyLater)
    with ⟨boundLater, isLaterIdx⟩
  rw [← isIdx, ← isLaterIdx]
  exact List.pairwise_iff_getElem.mp sorted _ _ bound boundLater (by omega)

end WithinUtt

section Search

variable {mainUtts : List ℕ}

/-- What is cut off at either end of a window is not of its majority utterance, and what is left
begins and ends in it. -/
structure ProjectsTo (mainUtts : List ℕ) (majority start stop : ℕ) (window : ℕ × ℕ) : Prop where
  start_le : start ≤ window.1
  nonempty : window.1 < window.2
  le_stop : window.2 ≤ stop
  notFront : majority ∉ mainUtts.extract start window.1
  notBack : majority ∉ mainUtts.extract window.2 stop
  first : mainUtts[window.1]? = some majority
  last : mainUtts[window.2 - 1]? = some majority

/-- The leading others are none of the majority. -/
theorem notMem_take_leadingOthers (majority : ℕ) (slice : List ℕ) :
    majority ∉ slice.take (leadingOthers majority slice) := by
  rw [leadingOthers, ← List.prefix_iff_eq_take.mp (List.takeWhile_prefix _)]
  intro member
  simpa using List.mem_takeWhile_imp member

theorem projectWindow_projectsTo {start stop : ℕ} (nonempty : start < stop)
    (bound : stop ≤ mainUtts.length) :
    ProjectsTo mainUtts (majorityValue (mainUtts.extract start stop)) start stop
      (projectWindow mainUtts start stop) := by
  have sliceNonempty : mainUtts.extract start stop ≠ [] := by
    apply List.ne_nil_of_length_pos
    rw [length_extract bound]
    omega
  have member := majorityValue_mem sliceNonempty
  simp only [projectWindow]
  generalize majorityValue (mainUtts.extract start stop) = majority at member ⊢
  have first := getElem?_leadingOthers member
  have few := leadingOthers_lt member
  have notFront := notMem_take_leadingOthers majority (mainUtts.extract start stop)
  generalize leadingOthers majority (mainUtts.extract start stop) = leading at first few notFront ⊢
  rw [length_extract bound] at few
  rw [getElem?_extract, if_pos few] at first
  -- the value at the new start is still in the slice that is cut at its end
  have memberRest : majority ∈ (mainUtts.extract (start + leading) stop).reverse := by
    apply List.mem_reverse.mpr
    apply List.mem_iff_getElem?.mpr
    refine ⟨0, ?_⟩
    rw [getElem?_extract, if_pos (by omega)]
    exact first
  have last := getElem?_leadingOthers memberRest
  have fewRest := leadingOthers_lt memberRest
  have notBack := notMem_take_leadingOthers majority
    (mainUtts.extract (start + leading) stop).reverse
  generalize leadingOthers majority (mainUtts.extract (start + leading) stop).reverse = trailing
    at last fewRest notBack ⊢
  rw [List.length_reverse, length_extract bound] at fewRest
  rw [getElem?_extract_reverse bound fewRest] at last
  refine ⟨Nat.le_add_right _ _, by dsimp only; omega, Nat.sub_le _ _, ?_, ?_, first, ?_⟩
  · intro inside
    apply notFront
    rw [List.extract_eq_take_drop] at inside ⊢
    rw [List.take_take]
    convert inside using 2
    omega
  · intro inside
    apply notBack
    rw [List.take_reverse, List.mem_reverse, length_extract bound, List.extract_eq_take_drop,
      List.drop_take, List.drop_drop]
    rw [List.extract_eq_take_drop] at inside
    convert inside using 2
    · omega
    · congr 1
      omega
  · convert last using 2
    omega

/-- A projected window has its ends, and so all its tokens, in the majority utterance. -/
theorem projectWindow_within (sorted : mainUtts.Pairwise (· ≤ ·)) {start stop : ℕ}
    (nonempty : start < stop) (bound : stop ≤ mainUtts.length) :
    ∃ uttIdx, WithinUtt mainUtts (projectWindow mainUtts start stop) uttIdx := by
  have projects := projectWindow_projectsTo nonempty bound
  exact ⟨_, .of_ends sorted projects.nonempty projects.first projects.last⟩

theorem mem_candidateWindows {goldLen mainLen : ℕ} {window : ℕ × ℕ}
    (member : window ∈ candidateWindows goldLen mainLen) :
    window.1 < window.2 ∧ window.2 ≤ mainLen := by
  simp only [candidateWindows, List.mem_flatMap, List.mem_range'_1, List.mem_map,
    List.mem_range] at member
  rcases member with ⟨span, ⟨atLeast, atMost⟩, start, below, rfl⟩
  dsimp only
  omega

variable [UnicodeCase]

/-- Nothing was found yet, or a window of one utterance. -/
def BestSegment.Sound (mainUtts : List ℕ) (best : BestSegment) : Prop :=
  best.overlap < 0 ∨ ∃ uttIdx, WithinUtt mainUtts best.window uttIdx

/-- The considered window is taken, or the best so far stays as it is. -/
theorem BestSegment.consider_sound {gold main : List String} {best : BestSegment}
    {window : ℕ × ℕ} {uttIdx : ℕ} (sound : best.Sound mainUtts)
    (within : WithinUtt mainUtts window uttIdx) :
    (best.consider gold main window).Sound mainUtts := by
  have taken : ∃ uttIdx, WithinUtt mainUtts window uttIdx := ⟨uttIdx, within⟩
  rcases window with ⟨ts, te⟩
  simp only [BestSegment.consider]
  split
  · exact .inr taken
  · split
    · split
      · exact .inr taken
      · split
        · split
          · exact .inr taken
          · split
            · exact .inr taken
            · exact sound
        · exact sound
    · exact sound

/-- The search gives the empty window at its start or a window of one utterance. -/
theorem findBestSegment_within (sorted : mainUtts.Pairwise (· ≤ ·)) {gold main : List String}
    (sameLength : main.length = mainUtts.length) :
    findBestSegment gold main mainUtts = (0, 0) ∨
      ∃ uttIdx, WithinUtt mainUtts (findBestSegment gold main mainUtts) uttIdx := by
  simp only [findBestSegment]
  split
  · exact .inl rfl
  · split
    · exact .inl rfl
    · next found =>
      right
      refine Or.resolve_left ?_ (not_lt_of_ge (not_le.mp found).le)
      apply List.foldlRecOn
        (motive := fun best : BestSegment => best.Sound mainUtts)
      · exact .inl (Int.negSucc_lt_zero 0)
      · rintro best sound ⟨start, stop⟩ member
        rcases mem_candidateWindows member with ⟨nonempty, bound⟩
        rcases projectWindow_within sorted nonempty (sameLength ▸ bound) with ⟨uttIdx, within⟩
        dsimp only
        rw [if_neg (not_le.mpr within.nonempty)]
        exact BestSegment.consider_sound sound within

/-- The snap cuts nothing off a window of one utterance; it grows within that utterance, and
not beyond `searchStart`. -/
theorem snapWindowToMajorityUtt_within {absStart absEnd searchStart uttIdx : ℕ}
    (conformedMain goldTokens : List String) (fromStart : searchStart ≤ absStart)
    (within : WithinUtt mainUtts (absStart, absEnd) uttIdx) :
    WithinUtt mainUtts (snapWindowToMajorityUtt absStart absEnd searchStart conformedMain
        mainUtts goldTokens) uttIdx ∧
      searchStart ≤ (snapWindowToMajorityUtt absStart absEnd searchStart conformedMain
        mainUtts goldTokens).1 := by
  have nonempty := not_le.mpr within.nonempty
  have bounded := within.bounded
  have uncut : leadingOthers uttIdx (mainUtts.extract absStart absEnd).reverse = 0 := by
    apply leadingOthers_of_forall
    exact fun value member => within.mem_extract value (List.mem_reverse.mp member)
  dsimp only at nonempty bounded
  simp only [snapWindowToMajorityUtt, within.majorityValue_eq, uncut, Nat.sub_zero,
    if_neg nonempty]
  generalize (List.takeWhile AlignItem.isDelete _).length = leadingRefs
  -- the tokens it grows by, last first
  set grown := (((mainUtts.extract searchStart absStart).reverse.take leadingRefs).takeWhile
    (· == uttIdx)).length with grownEq
  have startBound : absStart ≤ mainUtts.length := by omega
  have few : grown ≤ absStart - searchStart := by
    calc grown ≤ ((mainUtts.extract searchStart absStart).reverse.take leadingRefs).length :=
          (List.takeWhile_prefix _).length_le
      _ ≤ (mainUtts.extract searchStart absStart).reverse.length := List.length_take_le' _ _
      _ = absStart - searchStart := by rw [List.length_reverse, length_extract startBound]
  refine ⟨⟨by dsimp only; omega, bounded, ?_⟩, by omega⟩
  intro k above below
  dsimp only at above below
  by_cases old : absStart ≤ k
  · exact within.inside k old below
  · have found := getElem?_of_lt_takeWhile (show absStart - 1 - k < grown by omega)
    rw [getElem?_extract_reverse startBound (by omega)] at found
    rwa [show absStart - 1 - (absStart - 1 - k) = k by omega] at found

/-- A gold utterance gets no window and the search stays where it is, or it gets a window of one
utterance behind the start of its search. -/
theorem goldWindow_cases (sorted : mainUtts.Pairwise (· ≤ ·)) {conformedMain : List String}
    (sameLength : conformedMain.length = mainUtts.length) {searchStart : ℕ}
    (bound : searchStart ≤ mainUtts.length) (goldTokens : List String) :
    goldWindow conformedMain mainUtts searchStart goldTokens = (searchStart, searchStart) ∨
      ∃ uttIdx, WithinUtt mainUtts (goldWindow conformedMain mainUtts searchStart goldTokens)
          uttIdx ∧
        searchStart ≤ (goldWindow conformedMain mainUtts searchStart goldTokens).1 := by
  have sortedRest : (mainUtts.drop searchStart).Pairwise (· ≤ ·) :=
    sorted.sublist (List.drop_sublist _ _)
  have sameRest : (conformedMain.drop searchStart).length = (mainUtts.drop searchStart).length := by
    simp [sameLength]
  simp only [goldWindow]
  rcases findBestSegment_within sortedRest sameRest with empty | ⟨uttIdx, within⟩
  · left
    rw [empty]
    simp [snapWindowToMajorityUtt]
  · right
    refine ⟨uttIdx, ?_⟩
    exact snapWindowToMajorityUtt_within conformedMain goldTokens (Nat.le_add_right _ _)
      (within.of_drop bound)

end Search

section Steps

/-- One gold utterance of the mapping pass: where its search starts, its window, and where the
next search starts. -/
structure GoldStep where
  searchStart : ℕ
  window : Option (ℕ × ℕ)
  nextStart : ℕ
deriving DecidableEq, Repr

/-- The main utterance of the step. -/
def GoldStep.target (mainUtts : List ℕ) (step : GoldStep) : Option ℕ :=
  step.window.map fun window => majorityValue (mainUtts.extract window.1 window.2)

/-- What every step keeps: its window starts no earlier than its search, ends where the next
search starts, and lies in one utterance, which is its target. -/
structure GoldStep.Sound (mainUtts : List ℕ) (step : GoldStep) : Prop where
  advances : step.searchStart ≤ step.nextStart
  bounded : step.nextStart ≤ mainUtts.length
  window : ∀ window ∈ step.window, step.searchStart ≤ window.1 ∧ window.2 = step.nextStart ∧
    ∃ uttIdx, WithinUtt mainUtts window uttIdx ∧ step.target mainUtts = some uttIdx

/-- The steps are sound and each starts where the one before has ended, or later. -/
structure GoldStepsFrom (mainUtts : List ℕ) (searchStart : ℕ) (steps : List GoldStep) : Prop where
  sound : ∀ step ∈ steps, step.Sound mainUtts
  behind : ∀ step ∈ steps, searchStart ≤ step.searchStart
  ordered : steps.Pairwise fun first second => first.nextStart ≤ second.searchStart

theorem GoldStepsFrom.cons {mainUtts : List ℕ} {searchStart nextStart : ℕ}
    {window : Option (ℕ × ℕ)} {steps : List GoldStep}
    (sound : (GoldStep.mk searchStart window nextStart).Sound mainUtts)
    (rest : GoldStepsFrom mainUtts nextStart steps) :
    GoldStepsFrom mainUtts searchStart (⟨searchStart, window, nextStart⟩ :: steps) where
  sound := List.forall_mem_cons.mpr ⟨sound, rest.sound⟩
  behind := by
    intro later member
    rcases List.mem_cons.mp member with rfl | inRest
    · exact le_rfl
    · exact sound.advances.trans (rest.behind later inRest)
  ordered := List.pairwise_cons.mpr ⟨rest.behind, rest.ordered⟩

/-- The windows of the steps are disjoint and increasing. -/
theorem GoldStepsFrom.windows_disjoint {mainUtts : List ℕ} {searchStart : ℕ}
    {steps : List GoldStep} (fromStart : GoldStepsFrom mainUtts searchStart steps) :
    (steps.filterMap GoldStep.window).Pairwise fun first second => first.2 ≤ second.1 := by
  rw [List.pairwise_filterMap]
  refine fromStart.ordered.imp_of_mem ?_
  intro first second firstMem secondMem ordered window isWindow later isLater
  have atEnd := ((fromStart.sound first firstMem).window window isWindow).2.1
  have behind := ((fromStart.sound second secondMem).window later isLater).1
  omega

/-- The targets of the steps do not decrease. -/
theorem GoldStepsFrom.targets_nondecreasing {mainUtts : List ℕ} {searchStart : ℕ}
    {steps : List GoldStep} (sorted : mainUtts.Pairwise (· ≤ ·))
    (fromStart : GoldStepsFrom mainUtts searchStart steps) :
    (steps.filterMap (GoldStep.target mainUtts)).Pairwise (· ≤ ·) := by
  rw [List.pairwise_filterMap]
  refine fromStart.ordered.imp_of_mem ?_
  intro first second firstMem secondMem ordered target isTarget later isLater
  rcases Option.map_eq_some_iff.mp isTarget with ⟨window, isWindow, -⟩
  rcases Option.map_eq_some_iff.mp isLater with ⟨laterWindow, isLaterWindow, -⟩
  rcases (fromStart.sound first firstMem).window window isWindow with
    ⟨-, atEnd, uttIdx, within, isUtt⟩
  rcases (fromStart.sound second secondMem).window laterWindow isLaterWindow with
    ⟨behind, -, laterIdx, withinLater, isLaterUtt⟩
  cases isUtt.symm.trans isTarget
  cases isLaterUtt.symm.trans isLater
  exact within.uttIdx_le sorted withinLater (by omega)

variable [UnicodeCase]

/-- `goldToMain` with the windows it chooses. -/
def goldSteps (conformedMain : List String) (mainUtts : List ℕ) :
    ℕ → List (List String) → List GoldStep
  | _, [] => []
  | searchStart, goldTokens :: rest =>
      if goldTokens.isEmpty then
        ⟨searchStart, none, searchStart⟩ :: goldSteps conformedMain mainUtts searchStart rest
      else
        let window := goldWindow conformedMain mainUtts searchStart goldTokens
        ⟨searchStart, if window.1 < window.2 then some window else none, window.2⟩ ::
          goldSteps conformedMain mainUtts window.2 rest

theorem goldToMain_eq_targets (conformedMain : List String) (mainUtts : List ℕ)
    (golds : List (List String)) : ∀ searchStart,
    goldToMain conformedMain mainUtts searchStart golds =
      (goldSteps conformedMain mainUtts searchStart golds).map (GoldStep.target mainUtts) := by
  induction golds with
  | nil => exact fun _ => rfl
  | cons goldTokens rest ih =>
      intro searchStart
      simp only [goldToMain, goldSteps]
      split
      · rw [List.map_cons, ih]
        rfl
      · rw [List.map_cons, ih, GoldStep.target]
        split <;> rfl

theorem goldSteps_from {mainUtts : List ℕ} (sorted : mainUtts.Pairwise (· ≤ ·))
    {conformedMain : List String} (sameLength : conformedMain.length = mainUtts.length)
    (golds : List (List String)) : ∀ searchStart ≤ mainUtts.length,
    GoldStepsFrom mainUtts searchStart (goldSteps conformedMain mainUtts searchStart golds) := by
  induction golds with
  | nil => exact fun _ _ => ⟨by simp [goldSteps], by simp [goldSteps], .nil⟩
  | cons goldTokens rest ih =>
      intro searchStart bound
      simp only [goldSteps]
      split
      · -- no tokens: the utterance is skipped
        apply GoldStepsFrom.cons
        · exact ⟨le_rfl, bound, by simp⟩
        · exact ih searchStart bound
      · rcases goldWindow_cases sorted sameLength bound goldTokens with
          empty | ⟨uttIdx, within, fromStart⟩
        · rw [empty]
          simp only [lt_self_iff_false, if_false]
          apply GoldStepsFrom.cons
          · exact ⟨le_rfl, bound, by simp⟩
          · exact ih searchStart bound
        · generalize goldWindow conformedMain mainUtts searchStart goldTokens = window
            at within fromStart ⊢
          rw [if_pos within.nonempty]
          apply GoldStepsFrom.cons
          · refine ⟨fromStart.trans within.nonempty.le, within.bounded, ?_⟩
            rintro _ ⟨⟩
            refine ⟨fromStart, rfl, uttIdx, within, ?_⟩
            simp [GoldStep.target, within.majorityValue_eq]
          · exact ih window.2 within.bounded

end Steps

section Transcripts

/-- Lists put together in the order of a key that their elements share. -/
theorem pairwise_flatMap_of_key {α β : Type} {xs : List α} {f : α → List β} {index : α → ℕ}
    {key : β → ℕ} (ordered : xs.Pairwise fun first second => index first ≤ index second)
    (keyed : ∀ x ∈ xs, ∀ y ∈ f x, key y = index x) :
    (xs.flatMap f).Pairwise fun first second => key first ≤ key second := by
  apply List.pairwise_flatMap.mpr
  constructor
  · intro x member
    apply List.pairwise_of_forall_mem_list
    intro first isFirst second isSecond
    rw [keyed x member first isFirst, keyed x member second isSecond]
  · refine ordered.imp_of_mem ?_
    intro x y xMember yMember le first isFirst second isSecond
    rw [keyed x xMember first isFirst, keyed y yMember second isSecond]
    exact le

variable [UnicodeCase] [Talkbank]

/-- The tokens of a transcript stand in the order of their utterances. -/
theorem compareToks_sorted (chat : ChatFile) :
    ((compareToks (extractWords chat)).map CompareTok.uttIdx).Pairwise (· ≤ ·) := by
  have utterances : chat.utterances.zipIdx.Pairwise fun first second => first.2 ≤ second.2 := by
    have positions : (chat.utterances.zipIdx.map Prod.snd).Pairwise (· < ·) := by
      rw [List.zipIdx_map_snd]
      exact List.pairwise_lt_range'
    exact (List.pairwise_map.mp positions).imp le_of_lt
  have words : (extractWords chat).Pairwise fun first second => first.uttIdx ≤ second.uttIdx := by
    apply pairwise_flatMap_of_key utterances
    rintro ⟨utt, uttIdx⟩ - word member
    rcases List.mem_filterMap.mp member with ⟨raw, -, isWord⟩
    simp only at isWord
    split at isWord
    · cases isWord
    · cases isWord
      rfl
  rw [compareToks_eq, List.pairwise_map]
  apply pairwise_flatMap_of_key words
  intro word _ tok member
  rcases List.mem_map.mp member with ⟨text, -, rfl⟩
  rfl

/-- The steps of the mapping pass over two transcripts. -/
def mappingSteps (mainAst goldAst : ChatFile) : List GoldStep :=
  let main := compareToks (extractWords mainAst)
  let gold := compareToks (extractWords goldAst)
  goldSteps (main.map CompareTok.text) (main.map CompareTok.uttIdx) 0
    (((List.range goldAst.utterances.length).map (toksOfUtt gold)).map
      fun toks => toks.map CompareTok.text)

/-- The mapping of gold to main utterances is monotone. -/
structure MonotoneMapping (mainUtts : List ℕ) (steps : List GoldStep)
    (targets : List (Option ℕ)) : Prop where
  targets_eq : targets = steps.map (GoldStep.target mainUtts)
  sound : ∀ step ∈ steps, step.Sound mainUtts
  disjoint : (steps.filterMap GoldStep.window).Pairwise fun first second => first.2 ≤ second.1
  nondecreasing : (targets.filterMap id).Pairwise (· ≤ ·)

/-- For any two transcripts, the gold utterances get disjoint windows in the order of the main
tokens, each in bounds and within one main utterance, and the main utterances they map to do not
decrease. -/
theorem goldTargets_monotone (mainAst goldAst : ChatFile) :
    MonotoneMapping ((compareToks (extractWords mainAst)).map CompareTok.uttIdx)
      (mappingSteps mainAst goldAst) (goldTargets mainAst goldAst) := by
  have sorted := compareToks_sorted mainAst
  set mainUtts := (compareToks (extractWords mainAst)).map CompareTok.uttIdx with mainUttsEq
  have fromStart : GoldStepsFrom mainUtts 0 (mappingSteps mainAst goldAst) := by
    apply goldSteps_from sorted
    · simp [mainUttsEq]
    · exact Nat.zero_le _
  have targets : goldTargets mainAst goldAst =
      (mappingSteps mainAst goldAst).map (GoldStep.target mainUtts) :=
    goldToMain_eq_targets _ _ _ 0
  refine ⟨targets, fromStart.sound, fromStart.windows_disjoint, ?_⟩
  rw [targets, List.filterMap_map]
  exact fromStart.targets_nondecreasing sorted

end Transcripts

end Batchalign.Compare
