import Batchalign.Alignment.Correctness
import Batchalign.Library.GreedyEmbedding
import Batchalign.Utr.Planning

/-!
# The UTR fast path agrees with the aligner

The forward and the reverse scan are the two greedy embeddings of the words into
the tokens. An embedding of all words makes every optimal alignment match every
word, so the matched token indices of the aligner are an embedding too. When the
two scans agree there is only one, and both collectors fold over the same pairs.
-/

namespace Batchalign.Utr

open Batchalign.Alignment EditDistance GreedyEmbedding

section Scans

/-- The token at the position equals the word up to ASCII case. -/
def Fits (tokens : List String) (word : String) (position : ℕ) : Prop :=
  ∃ token, tokens[position]? = some token ∧ eqIgnoreAsciiCase word token = true

theorem nextMatchIndex_isLeast {word : String} {reference tokens : List String} {idx found : ℕ}
    (suffix : reference.drop idx = tokens)
    (scanned : nextMatchIndex word tokens idx = some found) :
    IsLeast {position | idx ≤ position ∧ Fits reference word position} found := by
  induction tokens generalizing idx with
  | nil => simp [nextMatchIndex] at scanned
  | cons token tokens ih =>
      have atIdx : reference[idx]? = some token := by
        have front := congrArg (·[0]?) suffix
        simpa using front
      simp only [nextMatchIndex] at scanned
      split at scanned
      · rename_i pair
        simp only [Option.some.injEq] at scanned
        subst scanned
        exact ⟨⟨le_rfl, token, atIdx, pair⟩, fun _ allowed => allowed.1⟩
      · rename_i mismatch
        have later : reference.drop (idx + 1) = tokens := by
          simpa using congrArg List.tail suffix
        rcases ih later scanned with ⟨⟨beyond, fit⟩, least⟩
        refine ⟨⟨by omega, fit⟩, ?_⟩
        intro position allowed
        rcases allowed with ⟨bound, token', atPosition, pair⟩
        apply least
        refine ⟨?_, token', atPosition, pair⟩
        rcases Nat.lt_or_eq_of_le bound with past | here
        · exact past
        · subst here
          rw [atIdx, Option.some.injEq] at atPosition
          subst atPosition
          exact absurd pair mismatch

theorem greedyForwardFrom_greedy {reference words : List String} {idx : ℕ} {positions : List ℕ}
    (scanned : greedyForwardFrom reference words idx = some positions) :
    Greedy (Fits reference) {position | idx ≤ position} words positions := by
  induction words generalizing idx positions with
  | nil =>
      simp only [greedyForwardFrom, Option.some.injEq] at scanned
      subst scanned
      exact .nil
  | cons word words ih =>
      simp only [greedyForwardFrom] at scanned
      split at scanned
      · cases scanned
      · rename_i found first
        rw [Option.map_eq_some_iff] at scanned
        rcases scanned with ⟨rest, scannedRest, rfl⟩
        have least := nextMatchIndex_isLeast rfl first
        refine .cons least ?_
        have beyond : {later | later ∈ {position | idx ≤ position} ∧ found < later} =
            {position | found + 1 ≤ position} := by
          have bound := least.1.1
          ext later
          simp only [Set.mem_ofPred_eq]
          omega
        rw [beyond]
        exact ih scannedRest

theorem previousMatchIndex_isGreatest {word : String} {reference : List String} {idx found : ℕ}
    (scanned : previousMatchIndex word reference idx = some found) :
    IsGreatest {position | position < idx ∧ Fits reference word position} found := by
  induction idx with
  | zero => simp [previousMatchIndex] at scanned
  | succ idx ih =>
      simp only [previousMatchIndex] at scanned
      split at scanned
      · rename_i pair
        simp only [Option.some.injEq] at scanned
        subst scanned
        rw [Option.any_eq_true] at pair
        refine ⟨⟨Nat.lt_succ_self _, pair⟩, ?_⟩
        intro position allowed
        exact Nat.le_of_lt_succ allowed.1
      · rename_i mismatch
        rcases ih scanned with ⟨⟨below, fit⟩, greatest⟩
        refine ⟨⟨by omega, fit⟩, ?_⟩
        intro position allowed
        rcases allowed with ⟨bound, fit'⟩
        apply greatest
        refine ⟨?_, fit'⟩
        rcases Nat.lt_or_eq_of_le (Nat.le_of_lt_succ bound) with before | here
        · exact before
        · subst here
          rw [Option.any_eq_true] at mismatch
          exact absurd fit' mismatch

theorem greedyReverseFrom_greedy {reference words : List String} {idx : ℕ} {positions : List ℕ}
    (scanned : greedyReverseFrom reference words idx = some positions) :
    GreedyFromEnd (Fits reference) {position | position < idx} words positions := by
  induction words generalizing idx positions with
  | nil =>
      simp only [greedyReverseFrom, Option.some.injEq] at scanned
      subst scanned
      exact .nil
  | cons word words ih =>
      simp only [greedyReverseFrom] at scanned
      split at scanned
      · cases scanned
      · rename_i found last
        rw [Option.map_eq_some_iff] at scanned
        rcases scanned with ⟨rest, scannedRest, rfl⟩
        have greatest := previousMatchIndex_isGreatest last
        refine Greedy.cons greatest ?_
        have before : {earlier : ℕ | earlier ∈ {position | position < idx} ∧ earlier < found} =
            {position | position < found} := by
          have bound : found < idx := greatest.1.1
          ext earlier
          simp only [Set.mem_ofPred_eq]
          omega
        have rest := ih scannedRest
        rw [← before] at rest
        exact rest

/-- When both scans return the same indices, these are the only embedding. -/
theorem unique_of_scans {words tokens : List String} {positions positions' : List ℕ}
    (forward : greedyForwardMatchIndices words tokens = some positions)
    (backward : greedyReverseMatchIndices words tokens = some positions)
    (embeds : Embeds (Fits tokens) Set.univ words positions') : positions' = positions := by
  have earliest := greedyForwardFrom_greedy forward
  simp only [greedyReverseMatchIndices, Option.map_eq_some_iff] at backward
  rcases backward with ⟨reversed, scanned, rfl⟩
  have latest := greedyReverseFrom_greedy scanned
  rw [← List.reverse_reverse reversed] at latest
  apply eq_of_greedy_both earliest latest
  · apply embeds.mono
    intro position _
    exact Nat.zero_le position
  · refine ⟨embeds.fitting, embeds.increasing, ?_⟩
    intro position member
    rcases List.forall₂_iff_get.mp embeds.fitting with ⟨_, fitting⟩
    rcases List.getElem_of_mem member with ⟨k, bound, rfl⟩
    rcases fitting k (by omega) bound with ⟨token, atPosition, _⟩
    exact (List.getElem?_eq_some_iff.mp atPosition).1

end Scans

section Matches

/-- Payload and reference index of every match, in order. -/
def matchedPairs (results : List AlignResult) : List (ℕ × ℕ) :=
  results.filterMap fun
    | .matchPair _ payloadIdx referenceIdx => some (payloadIdx, referenceIdx)
    | .extraPayload _ _ | .extraReference _ _ => none

theorem collectUttRangesFromAlignment_eq (alignment : List AlignResult) (wordToUtt : List ℕ)
    (uttCount : ℕ) :
    collectUttRangesFromAlignment alignment wordToUtt uttCount =
      (matchedPairs alignment).foldlM (fun uttRanges pair =>
        recordMatch wordToUtt uttRanges pair.1 pair.2) (List.replicate uttCount none) := by
  simp only [collectUttRangesFromAlignment]
  generalize List.replicate uttCount (none : Option (ℕ × ℕ)) = start
  induction alignment generalizing start with
  | nil => rfl
  | cons result alignment ih =>
      cases result with
      | matchPair key payloadIdx referenceIdx =>
          simp only [List.foldlM_cons, recordResult, matchedPairs, List.filterMap_cons]
          exact congrArg _ (funext ih)
      | extraPayload key payloadIdx => exact ih start
      | extraReference key referenceIdx => exact ih start

theorem matchedPairs_fst_sublist (results : List AlignResult) :
    ((matchedPairs results).map Prod.fst).Sublist (payloadIndices results) := by
  induction results with
  | nil => exact .slnil
  | cons result results ih =>
      cases result with
      | matchPair key payloadIdx referenceIdx => exact ih.cons_cons payloadIdx
      | extraPayload key payloadIdx => exact ih.cons payloadIdx
      | extraReference key referenceIdx => exact ih

theorem matchedPairs_snd_sublist (results : List AlignResult) :
    ((matchedPairs results).map Prod.snd).Sublist (referenceIndices results) := by
  induction results with
  | nil => exact .slnil
  | cons result results ih =>
      cases result with
      | matchPair key payloadIdx referenceIdx => exact ih.cons_cons referenceIdx
      | extraPayload key payloadIdx => exact ih
      | extraReference key referenceIdx => exact ih.cons referenceIdx

theorem unmatched_add_matchedPairs (results : List AlignResult) :
    unmatched results + 2 * (matchedPairs results).length =
      (payloadIndices results).length + (referenceIndices results).length := by
  induction results with
  | nil => rfl
  | cons result results ih =>
      cases result with
      | matchPair key payloadIdx referenceIdx =>
          simp only [unmatched_cons_matchPair]
          simp only [matchedPairs, payloadIndices, referenceIndices] at ih
          simp only [matchedPairs, payloadIndices, referenceIndices, List.filterMap_cons,
            List.length_cons]
          omega
      | extraPayload key payloadIdx =>
          simp only [unmatched_cons_extraPayload]
          simp only [matchedPairs, payloadIndices, referenceIndices] at ih
          simp only [matchedPairs, payloadIndices, referenceIndices, List.filterMap_cons,
            List.length_cons]
          omega
      | extraReference key referenceIdx =>
          simp only [unmatched_cons_extraReference]
          simp only [matchedPairs, payloadIndices, referenceIndices] at ih
          simp only [matchedPairs, payloadIndices, referenceIndices, List.filterMap_cons,
            List.length_cons]
          omega

theorem mem_matchedPairs {results : List AlignResult} {payloadIdx referenceIdx : ℕ}
    (member : (payloadIdx, referenceIdx) ∈ matchedPairs results) :
    ∃ key, .matchPair key payloadIdx referenceIdx ∈ results := by
  rcases List.mem_filterMap.mp member with ⟨result, inside, shape⟩
  cases result with
  | matchPair key payloadIdx' referenceIdx' =>
      simp only [Option.some.injEq, Prod.mk.injEq] at shape
      rcases shape with ⟨rfl, rfl⟩
      exact ⟨key, inside⟩
  | extraPayload key payloadIdx' => cases shape
  | extraReference key referenceIdx' => cases shape

theorem eq_zipIdx_of_fst_eq_range (pairs : List (ℕ × ℕ))
    (indexed : pairs.map Prod.fst = List.range pairs.length) :
    pairs = (pairs.map Prod.snd).zipIdx.map fun matched => (matched.2, matched.1) := by
  apply List.ext_getElem
  · simp
  · intro k bound bound'
    have first : pairs[k].1 = k := by
      have atK := congrArg (·[k]?) indexed
      simpa [bound] using atK
    apply Prod.ext
    · simpa using first
    · simp

variable {Threshold : Type} [Similarity Threshold]

variable (Threshold) in
/-- Words that embed into the tokens are a common subsequence of full length. -/
theorem commonLength_of_embeds {words tokens : List String} {positions : List ℕ}
    (embeds : Embeds (Fits tokens) Set.univ words positions) :
    CommonLength (refMatches (.caseInsensitive : MatchMode Threshold)) tokens words
      words.length := by
  have relaxed : Embeds (Fits tokens) {position | 0 ≤ position} words positions :=
    embeds.mono fun position _ => Nat.zero_le position
  rcases relaxed.exists_sublist with ⟨chosen, sub, matched⟩
  refine ⟨chosen, words, by simpa using sub, List.Sublist.refl words, ?_, ?_⟩
  · apply matched.flip.imp
    intro token word pair
    exact (eqIgnoreAsciiCase_comm token word).trans pair
  · exact matched.length_eq.symm

variable (Threshold) in
/-- A script of least cost then leaves no word unmatched. -/
theorem matchedPairs_length_of_embeds {words tokens : List String} {positions : List ℕ}
    (embeds : Embeds (Fits tokens) Set.univ words positions) :
    (matchedPairs (align words tokens (.caseInsensitive : MatchMode Threshold))).length =
      words.length := by
  have symmetric : SymmetricMatch (.caseInsensitive : MatchMode Threshold) String :=
    eqIgnoreAsciiCase_comm
  rcases alignGeneric_optimal symmetric words tokens with ⟨aligned, counted⟩
  have payload := aligned.payloadIndices_eq
  have reference := aligned.referenceIndices_eq
  rcases (commonLength_of_embeds Threshold embeds).exists_script with ⟨total, script, sum⟩
  have least := script.distance_le
  have count := unmatched_add_matchedPairs
    (alignGeneric words tokens (.caseInsensitive : MatchMode Threshold))
  have bound := (matchedPairs_fst_sublist
    (alignGeneric words tokens (.caseInsensitive : MatchMode Threshold))).length_le
  rw [payload, List.length_map, List.length_range'] at bound
  rw [counted, payload, reference, List.length_range', List.length_range'] at count
  change (matchedPairs
    (alignGeneric words tokens (.caseInsensitive : MatchMode Threshold))).length = words.length
  omega

variable (Threshold) in
/-- When the words embed into the tokens, the aligner matches every word and the matched
token indices are an embedding. -/
theorem align_matchedPairs_of_embeds {words tokens : List String} {positions : List ℕ}
    (embeds : Embeds (Fits tokens) Set.univ words positions) :
    let pairs := matchedPairs (align words tokens (.caseInsensitive : MatchMode Threshold))
    pairs.map Prod.fst = List.range words.length ∧
      Embeds (Fits tokens) Set.univ words (pairs.map Prod.snd) := by
  intro pairs
  have symmetric : SymmetricMatch (.caseInsensitive : MatchMode Threshold) String :=
    eqIgnoreAsciiCase_comm
  have aligned := (alignGeneric_optimal symmetric words tokens).1
  have full : pairs.length = words.length := matchedPairs_length_of_embeds Threshold embeds
  have fst : pairs.map Prod.fst = List.range words.length := by
    have fstSublist := matchedPairs_fst_sublist
      (alignGeneric words tokens (.caseInsensitive : MatchMode Threshold))
    rw [aligned.payloadIndices_eq, ← List.range_eq_range'] at fstSublist
    apply fstSublist.eq_of_length
    rw [List.length_map, List.length_range]
    exact full
  refine ⟨fst, ?_, ?_, fun _ _ => Set.mem_univ _⟩
  · apply List.forall₂_iff_get.mpr
    refine ⟨by rw [List.length_map]; exact full.symm, ?_⟩
    intro k wordBound pairBound
    rw [List.length_map] at pairBound
    have first : pairs[k].1 = k := by
      have atK := congrArg (·[k]?) fst
      simpa [pairBound, wordBound] using atK
    have member : (k, pairs[k].2) ∈ pairs := by
      have inside := List.getElem_mem pairBound
      rwa [← Prod.mk.eta (p := pairs[k]), first] at inside
    rcases mem_matchedPairs member with ⟨key, inside⟩
    rcases aligned.of_mem_matchPair inside with
      ⟨i, j, word, token, indexK, indexPosition, atWord, atToken, pair, _⟩
    rw [Nat.zero_add] at indexK indexPosition
    subst indexK
    rw [List.getElem?_eq_getElem wordBound, Option.some.injEq] at atWord
    subst atWord
    refine ⟨token, ?_, ?_⟩
    · simpa [indexPosition] using atToken
    · exact (eqIgnoreAsciiCase_comm _ _).trans pair
  · have sub := matchedPairs_snd_sublist
      (alignGeneric words tokens (.caseInsensitive : MatchMode Threshold))
    rw [aligned.referenceIndices_eq] at sub
    exact List.Pairwise.sublist sub List.pairwise_lt_range'

/-- When both scans agree, both collectors fold over the same pairs. -/
theorem collectUttRanges_eq_of_scans {words tokens : List String} {positions : List ℕ}
    (forward : greedyForwardMatchIndices words tokens = some positions)
    (backward : greedyReverseMatchIndices words tokens = some positions)
    (wordToUtt : List ℕ) (uttCount : ℕ) :
    collectUttRangesFromAlignment (align words tokens (.caseInsensitive : MatchMode Threshold))
        wordToUtt uttCount =
      collectUttRangesFromMatchIndices positions wordToUtt uttCount := by
  have embeds : Embeds (Fits tokens) Set.univ words positions :=
    (greedyForwardFrom_greedy forward).embeds.mono fun _ _ => Set.mem_univ _
  rcases align_matchedPairs_of_embeds Threshold embeds with ⟨fst, aligned⟩
  have unique := unique_of_scans forward backward aligned
  have indexed : (matchedPairs (align words tokens (.caseInsensitive : MatchMode Threshold))).map
      Prod.fst = List.range (matchedPairs
        (align words tokens (.caseInsensitive : MatchMode Threshold))).length := by
    have lengths := congrArg List.length fst
    simp only [List.length_map, List.length_range] at lengths
    rw [fst, lengths]
  rw [collectUttRangesFromAlignment_eq, eq_zipIdx_of_fst_eq_range _ indexed, unique,
    List.foldlM_map]
  rfl

theorem tryUniqueExactSubsequenceRanges_cases {allWords asrTexts : List String}
    {wordToUtt : List ℕ} {uttCount : ℕ} {ranges : UtrTokenRanges}
    (answered : tryUniqueExactSubsequenceRanges allWords asrTexts wordToUtt uttCount =
      some (some ranges)) :
    ∃ positions, greedyForwardMatchIndices allWords asrTexts = some positions ∧
      greedyReverseMatchIndices allWords asrTexts = some positions ∧
      collectUttRangesFromMatchIndices positions wordToUtt uttCount = some ranges := by
  simp only [tryUniqueExactSubsequenceRanges] at answered
  split at answered
  · rename_i earliest latest forward backward
    split at answered
    · cases answered
    · rename_i agree
      rw [not_not] at agree
      subst agree
      rw [Option.map_eq_some_iff] at answered
      rcases answered with ⟨ranges', collected, same⟩
      simp only [Option.some.injEq] at same
      subst same
      exact ⟨earliest, forward, backward, collected⟩
  · cases answered

/-- Without regard to case, the plan has the ranges of the global aligner on both paths. -/
theorem planUtrAlignment_ranges {allWords asrTexts : List String} {wordToUtt : List ℕ}
    {uttCount : ℕ} {plan : UtrAlignmentPlan}
    (planned : planUtrAlignment allWords asrTexts wordToUtt uttCount
      (.caseInsensitive : MatchMode Threshold) = some plan) :
    collectUttRangesFromAlignment
        (align allWords asrTexts (.caseInsensitive : MatchMode Threshold)) wordToUtt uttCount =
      some plan.uttRanges := by
  simp only [planUtrAlignment, Option.bind_eq_bind, Option.bind_eq_some_iff] at planned
  rcases planned with ⟨fast, tried, planned⟩
  cases fast with
  | some ranges =>
      simp only [Option.some.injEq] at planned
      subst planned
      rcases tryUniqueExactSubsequenceRanges_cases tried with
        ⟨positions, forward, backward, collected⟩
      exact (collectUttRanges_eq_of_scans forward backward wordToUtt uttCount).trans collected
  | none =>
      simp only [Option.bind_eq_some_iff, Option.some.injEq] at planned
      rcases planned with ⟨ranges, collected, rfl⟩
      exact collected

/-- Whenever the fast path answers, its ranges are those of the global aligner. -/
theorem tryUniqueExactSubsequenceRanges_eq_align {allWords asrTexts : List String}
    {wordToUtt : List ℕ} {uttCount : ℕ} {ranges : UtrTokenRanges}
    (answered : tryUniqueExactSubsequenceRanges allWords asrTexts wordToUtt uttCount =
      some (some ranges)) :
    collectUttRangesFromAlignment
        (align allWords asrTexts (.caseInsensitive : MatchMode Threshold)) wordToUtt uttCount =
      some ranges := by
  rcases tryUniqueExactSubsequenceRanges_cases answered with
    ⟨positions, forward, backward, collected⟩
  exact (collectUttRanges_eq_of_scans forward backward wordToUtt uttCount).trans collected

theorem tryUniqueExactSubsequenceRanges_eq_align_repeated :
    tryUniqueExactSubsequenceRanges ["No", "no", "more"] ["uh", "no", "NO", "so", "more"]
        [0, 0, 1] 2 = some (some [some (1, 2), some (4, 4)]) ∧
      collectUttRangesFromAlignment
        (align ["No", "no", "more"] ["uh", "no", "NO", "so", "more"]
          (.caseInsensitive : MatchMode ℚ)) [0, 0, 1] 2 = some [some (1, 2), some (4, 4)] := by
  have answered : tryUniqueExactSubsequenceRanges ["No", "no", "more"]
      ["uh", "no", "NO", "so", "more"] [0, 0, 1] 2 = some (some [some (1, 2), some (4, 4)]) := by
    decide
  exact ⟨answered, tryUniqueExactSubsequenceRanges_eq_align answered⟩

end Matches

end Batchalign.Utr
