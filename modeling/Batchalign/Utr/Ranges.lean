import Batchalign.Utr.FastPath

/-!
# The plan stays in bounds

Whatever the aligner matches, the collectors index inside their vectors, and the plan has
one range for each utterance with token indices that exist.
-/

namespace Batchalign.Utr

open Batchalign.Alignment GreedyEmbedding

section Bounds

/-- One range for each utterance, of existing tokens. -/
structure RangesFit (uttRanges : UtrTokenRanges) (uttCount tokenCount : ℕ) : Prop where
  length : uttRanges.length = uttCount
  inside : ∀ uttRange ∈ uttRanges, ∀ range ∈ uttRange,
    range.1 < tokenCount ∧ range.2 < tokenCount

theorem rangesFit_replicate (uttCount tokenCount : ℕ) :
    RangesFit (List.replicate uttCount none) uttCount tokenCount where
  length := List.length_replicate
  inside uttRange member range isRange := by
    rw [List.eq_of_mem_replicate member] at isRange
    cases isRange

theorem updateUttRange_inside {uttRange : Option (ℕ × ℕ)} {referenceIdx tokenCount : ℕ}
    (inside : ∀ range ∈ uttRange, range.1 < tokenCount ∧ range.2 < tokenCount)
    (exists_ : referenceIdx < tokenCount) :
    ∀ range ∈ updateUttRange uttRange referenceIdx,
      range.1 < tokenCount ∧ range.2 < tokenCount := by
  intro range isRange
  cases uttRange with
  | none =>
      cases isRange
      exact ⟨exists_, exists_⟩
  | some previous =>
      have bounds := inside previous rfl
      cases isRange
      constructor <;> dsimp only <;> split <;> omega

theorem recordMatch_fits {wordToUtt : List ℕ} {uttRanges : UtrTokenRanges}
    {uttCount tokenCount payloadIdx referenceIdx : ℕ}
    (fits : RangesFit uttRanges uttCount tokenCount) (utts : ∀ utt ∈ wordToUtt, utt < uttCount)
    (word : payloadIdx < wordToUtt.length) (token : referenceIdx < tokenCount) :
    ∃ recorded, recordMatch wordToUtt uttRanges payloadIdx referenceIdx = some recorded ∧
      RangesFit recorded uttCount tokenCount := by
  have uttBound : wordToUtt[payloadIdx] < uttRanges.length := by
    rw [fits.length]
    exact utts _ (List.getElem_mem word)
  refine ⟨uttRanges.set wordToUtt[payloadIdx]
    (updateUttRange uttRanges[wordToUtt[payloadIdx]] referenceIdx), ?_, ?_, ?_⟩
  · simp only [recordMatch, List.getElem?_eq_getElem word, Option.bind_eq_bind, Option.bind_some,
      List.getElem?_eq_getElem uttBound]
  · rw [List.length_set, fits.length]
  · intro uttRange member
    rcases List.mem_or_eq_of_mem_set member with old | rfl
    · exact fits.inside uttRange old
    · exact updateUttRange_inside (fits.inside _ (List.getElem_mem uttBound)) token

theorem recordMatches_fit {wordToUtt : List ℕ} {uttRanges : UtrTokenRanges}
    {uttCount tokenCount : ℕ} (fits : RangesFit uttRanges uttCount tokenCount)
    (utts : ∀ utt ∈ wordToUtt, utt < uttCount) {pairs : List (ℕ × ℕ)}
    (bounds : ∀ pair ∈ pairs, pair.1 < wordToUtt.length ∧ pair.2 < tokenCount) :
    ∃ recorded, pairs.foldlM (fun uttRanges pair =>
        recordMatch wordToUtt uttRanges pair.1 pair.2) uttRanges = some recorded ∧
      RangesFit recorded uttCount tokenCount := by
  induction pairs generalizing uttRanges with
  | nil => exact ⟨uttRanges, rfl, fits⟩
  | cons pair pairs ih =>
      have bounds := List.forall_mem_cons.mp bounds
      rcases recordMatch_fits fits utts bounds.1.1 bounds.1.2 with ⟨recorded, isRecorded, fits⟩
      rcases ih fits bounds.2 with ⟨final, isFinal, fits⟩
      refine ⟨final, ?_, fits⟩
      rw [List.foldlM_cons, isRecorded]
      exact isFinal

variable {Threshold : Type} [Similarity Threshold]

theorem matchedPairs_bounds (words tokens : List String) (mode : MatchMode Threshold) :
    ∀ pair ∈ matchedPairs (align words tokens mode),
      pair.1 < words.length ∧ pair.2 < tokens.length := by
  intro pair member
  have indices := alignGeneric_indices words tokens mode
  have payload := (matchedPairs_fst_sublist (align words tokens mode)).subset
    (List.mem_map_of_mem member)
  have reference := (matchedPairs_snd_sublist (align words tokens mode)).subset
    (List.mem_map_of_mem member)
  rw [align, indices.1, List.mem_range] at payload
  rw [align, indices.2, List.mem_range] at reference
  exact ⟨payload, reference⟩

theorem greedyForwardMatchIndices_bounds {words tokens : List String} {positions : List ℕ}
    (found : greedyForwardMatchIndices words tokens = some positions) :
    positions.length = words.length ∧ ∀ position ∈ positions, position < tokens.length := by
  have fitting := (greedyForwardFrom_greedy found).embeds.fitting
  refine ⟨fitting.length_eq.symm, ?_⟩
  intro position member
  rcases List.mem_iff_getElem.mp member with ⟨index, bound, rfl⟩
  have fit := (List.forall₂_iff_get.mp fitting).2 index (by rw [fitting.length_eq]; exact bound)
    bound
  rcases fit with ⟨token, atPosition, _⟩
  exact (List.getElem?_eq_some_iff.mp atPosition).1

theorem collectUttRangesFromMatchIndices_fits {positions wordToUtt : List ℕ}
    {uttCount tokenCount : ℕ} (lengths : positions.length = wordToUtt.length)
    (inside : ∀ position ∈ positions, position < tokenCount)
    (utts : ∀ utt ∈ wordToUtt, utt < uttCount) :
    ∃ ranges, collectUttRangesFromMatchIndices positions wordToUtt uttCount = some ranges ∧
      RangesFit ranges uttCount tokenCount := by
  have bounds : ∀ pair ∈ positions.zipIdx.map Prod.swap,
      pair.1 < wordToUtt.length ∧ pair.2 < tokenCount := by
    intro pair member
    rcases List.mem_map.mp member with ⟨⟨position, index⟩, matched, rfl⟩
    have atIndex := List.mem_zipIdx' matched
    refine ⟨lengths ▸ atIndex.1, ?_⟩
    exact inside position (atIndex.2 ▸ List.getElem_mem _)
  rcases recordMatches_fit (rangesFit_replicate uttCount tokenCount) utts bounds with
    ⟨ranges, isRanges, fits⟩
  rw [List.foldlM_map] at isRanges
  exact ⟨ranges, isRanges, fits⟩

theorem tryUniqueExactSubsequenceRanges_fits {allWords asrTexts : List String}
    {wordToUtt : List ℕ} {uttCount : ℕ} (lengths : wordToUtt.length = allWords.length)
    (utts : ∀ utt ∈ wordToUtt, utt < uttCount) :
    ∃ answer, tryUniqueExactSubsequenceRanges allWords asrTexts wordToUtt uttCount =
        some answer ∧ ∀ ranges ∈ answer, RangesFit ranges uttCount asrTexts.length := by
  simp only [tryUniqueExactSubsequenceRanges]
  split
  · rename_i earliest latest forward backward
    by_cases differ : earliest ≠ latest
    · rw [if_pos differ]
      exact ⟨none, rfl, by simp⟩
    · rw [if_neg differ]
      have bounds := greedyForwardMatchIndices_bounds forward
      rcases collectUttRangesFromMatchIndices_fits (bounds.1.trans lengths.symm) bounds.2 utts with
        ⟨ranges, isRanges, fits⟩
      rw [isRanges]
      refine ⟨some ranges, rfl, ?_⟩
      rintro _ ⟨⟩
      exact fits
  · exact ⟨none, rfl, by simp⟩

/-- Planning never panics. -/
theorem planUtrAlignment_fits {allWords asrTexts : List String} {wordToUtt : List ℕ}
    {uttCount : ℕ} (lengths : wordToUtt.length = allWords.length)
    (utts : ∀ utt ∈ wordToUtt, utt < uttCount) (mode : MatchMode Threshold) :
    ∃ plan, planUtrAlignment allWords asrTexts wordToUtt uttCount mode = some plan ∧
      RangesFit plan.uttRanges uttCount asrTexts.length := by
  have start := rangesFit_replicate uttCount asrTexts.length
  have aligned : ∃ ranges, collectUttRangesFromAlignment (align allWords asrTexts mode)
      wordToUtt uttCount = some ranges ∧ RangesFit ranges uttCount asrTexts.length := by
    rw [collectUttRangesFromAlignment_eq]
    apply recordMatches_fit start utts
    rw [lengths]
    exact matchedPairs_bounds allWords asrTexts mode
  rcases aligned with ⟨globalRanges, isGlobal, globalFits⟩
  rcases @tryUniqueExactSubsequenceRanges_fits _ asrTexts _ _ lengths utts with
    ⟨answer, isAnswer, answerFits⟩
  have global : (collectUttRangesFromAlignment (align allWords asrTexts mode) wordToUtt
      uttCount).bind (fun uttRanges => some (⟨.globalDp, uttRanges⟩ : UtrAlignmentPlan)) =
      some ⟨.globalDp, globalRanges⟩ := by
    rw [isGlobal, Option.bind_some]
  cases mode with
  | fuzzy threshold => exact ⟨_, global, globalFits⟩
  | exact | caseInsensitive =>
      simp only [planUtrAlignment, Option.bind_eq_bind, isAnswer, Option.bind_some]
      cases answer with
      | none => exact ⟨_, global, globalFits⟩
      | some ranges => exact ⟨_, rfl, answerFits ranges rfl⟩

end Bounds

end Batchalign.Utr
