import Batchalign.Alignment.Optimality

/-!
# Correctness of the aligner

Stripping a matching prefix and a matching suffix loses nothing, because a
matched pair at either end of both lists may be kept. With the optimality of
the Hirschberg core this makes the whole result an optimal alignment.

The stripping tests a payload item against a reference item and the dynamic
programs test a reference item against a payload item, so the match predicate
has to be symmetric.
-/

namespace Batchalign.Alignment

open EditDistance

section Stripping

variable {Threshold T : Type} [Alignable Threshold T]

/-- The match predicate of a mode does not depend on the order of its arguments. -/
def SymmetricMatch (mode : MatchMode Threshold) (T : Type) [Alignable Threshold T] : Prop :=
  ∀ a b : T, Alignable.isMatch a b mode = Alignable.isMatch b a mode

/-- Two lists match item by item, as the stripping tests them. -/
def ItemwiseMatch (mode : MatchMode Threshold) (payload reference : List T) : Prop :=
  List.Forall₂ (fun refItem payItem => refMatches mode refItem payItem = true) reference payload

variable {mode : MatchMode Threshold}

theorem matchingPrefix_spec (symmetric : SymmetricMatch mode T) (payload reference : List T) :
    matchingPrefix mode payload reference ≤ payload.length ∧
      matchingPrefix mode payload reference ≤ reference.length ∧
      ItemwiseMatch mode (payload.take (matchingPrefix mode payload reference))
        (reference.take (matchingPrefix mode payload reference)) := by
  induction payload generalizing reference with
  | nil => exact ⟨by simp [matchingPrefix], by simp [matchingPrefix], .nil⟩
  | cons payItem payload ih =>
      cases reference with
      | nil => exact ⟨by simp [matchingPrefix], by simp [matchingPrefix], .nil⟩
      | cons refItem reference =>
          rcases ih reference with ⟨payBound, refBound, pairs⟩
          by_cases pair : Alignable.isMatch payItem refItem mode = true
          · have longer : matchingPrefix mode (payItem :: payload) (refItem :: reference) =
                matchingPrefix mode payload reference + 1 := by
              simp [matchingPrefix, pair]
            rw [longer]
            refine ⟨by simpa using payBound, by simpa using refBound, ?_⟩
            rw [symmetric] at pair
            exact .cons pair pairs
          · have empty : matchingPrefix mode (payItem :: payload) (refItem :: reference) = 0 := by
              simp [matchingPrefix, pair]
            rw [empty]
            exact ⟨Nat.zero_le _, Nat.zero_le _, .nil⟩

/-- The same for the suffix, which the code counts on the reversed lists. -/
theorem matchingSuffix_spec (symmetric : SymmetricMatch mode T) (payload reference : List T) :
    let suffixLen := matchingPrefix mode payload.reverse reference.reverse
    suffixLen ≤ payload.length ∧ suffixLen ≤ reference.length ∧
      ItemwiseMatch mode (payload.drop (payload.length - suffixLen))
        (reference.drop (reference.length - suffixLen)) := by
  intro suffixLen
  rcases matchingPrefix_spec symmetric payload.reverse reference.reverse with
    ⟨payBound, refBound, pairs⟩
  rw [List.length_reverse] at payBound refBound
  refine ⟨payBound, refBound, ?_⟩
  rw [List.take_reverse, List.take_reverse] at pairs
  exact List.forall₂_reverse_iff.mp pairs

theorem OptimalFrom.matchPair_all {payload reference : List T}
    (pairs : ItemwiseMatch mode payload reference) (payOffset refOffset : ℕ) :
    Aligned mode payload reference payOffset refOffset
        (reference.zipIdx.map fun x =>
          .matchPair (Alignable.toKey Threshold x.1) (payOffset + x.2) (refOffset + x.2)) ∧
      unmatched (reference.zipIdx.map fun x =>
          .matchPair (Alignable.toKey Threshold x.1) (payOffset + x.2) (refOffset + x.2)) = 0 :=
  ⟨aligned_matchPair_all pairs payOffset refOffset 0,
    unmatched_matchPair_all reference.zipIdx (payOffset + ·) (refOffset + ·)⟩

theorem take_append_middle_append_drop {α : Type} (xs : List α) {n m : ℕ}
    (bound : n + m ≤ xs.length) :
    xs.take n ++ (xs.take (xs.length - m)).drop n ++ xs.drop (xs.length - m) = xs := by
  have front : xs.take n = (xs.take (xs.length - m)).take n := by
    rw [List.take_take, min_eq_left (by omega)]
  rw [front, List.take_append_drop, List.take_append_drop]

/-- Prefix, core and suffix compose to an optimal alignment of the whole lists. -/
theorem alignGeneric_optimal (symmetric : SymmetricMatch mode T) (payload reference : List T) :
    OptimalFrom mode payload reference 0 0 (alignGeneric payload reference mode) := by
  unfold alignGeneric
  extract_lets prefixLen suffixLen midPay midRef paySuffixStart refSuffixStart
  rcases matchingPrefix_spec symmetric payload reference with
    ⟨payPrefixBound, refPrefixBound, prefixPairs⟩
  rcases matchingSuffix_spec symmetric (payload.drop prefixLen) (reference.drop prefixLen) with
    ⟨paySuffixBound, refSuffixBound, suffixPairs⟩
  change suffixLen ≤ _ at paySuffixBound
  change suffixLen ≤ _ at refSuffixBound
  rw [List.length_drop] at paySuffixBound refSuffixBound
  have paySplit : payload.take prefixLen ++ midPay ++ payload.drop paySuffixStart = payload :=
    take_append_middle_append_drop payload (by omega)
  have refSplit :
      reference.take prefixLen ++ midRef ++ reference.drop refSuffixStart = reference :=
    take_append_middle_append_drop reference (by omega)
  have suffixMatch : ItemwiseMatch mode (payload.drop paySuffixStart)
      (reference.drop refSuffixStart) := by
    rw [List.drop_drop, List.drop_drop, List.length_drop, List.length_drop] at suffixPairs
    have payStart : prefixLen + (payload.length - prefixLen - suffixLen) = paySuffixStart := by
      omega
    have refStart : prefixLen + (reference.length - prefixLen - suffixLen) = refSuffixStart := by
      omega
    rwa [← payStart, ← refStart]
  have payFrontLength : (payload.take prefixLen).length = prefixLen := by
    rw [List.length_take]
    exact min_eq_left payPrefixBound
  have refFrontLength : (reference.take prefixLen).length = prefixLen := by
    rw [List.length_take]
    exact min_eq_left refPrefixBound
  have payMidLength : (payload.take prefixLen ++ midPay).length = paySuffixStart := by
    simp only [List.length_append, payFrontLength, midPay, List.length_drop, List.length_take]
    omega
  have refMidLength : (reference.take prefixLen ++ midRef).length = refSuffixStart := by
    simp only [List.length_append, refFrontLength, midRef, List.length_drop, List.length_take]
    omega
  rcases OptimalFrom.matchPair_all prefixPairs 0 0 with ⟨front, frontCount⟩
  rcases OptimalFrom.matchPair_all suffixMatch paySuffixStart refSuffixStart with
    ⟨back, backCount⟩
  rcases hirschberg_optimal mode midPay midRef prefixLen prefixLen with ⟨core, coreCount⟩
  simp only [Nat.zero_add] at front frontCount
  refine ⟨?_, ?_⟩
  · have coreShifted : Aligned mode midPay midRef (0 + (payload.take prefixLen).length)
        (0 + (reference.take prefixLen).length)
        (hirschberg mode midPay midRef prefixLen prefixLen) := by
      rwa [Nat.zero_add, Nat.zero_add, payFrontLength, refFrontLength]
    have backShifted : Aligned mode (payload.drop paySuffixStart) (reference.drop refSuffixStart)
        (0 + (payload.take prefixLen ++ midPay).length)
        (0 + (reference.take prefixLen ++ midRef).length)
        ((reference.drop refSuffixStart).zipIdx.map fun x =>
          .matchPair (Alignable.toKey Threshold x.1) (paySuffixStart + x.2)
            (refSuffixStart + x.2)) := by
      rwa [Nat.zero_add, Nat.zero_add, payMidLength, refMidLength]
    have whole := (front.append coreShifted).append backShifted
    rwa [paySplit, refSplit] at whole
  · rw [unmatched_append, unmatched_append, frontCount, backCount, coreCount, Nat.zero_add,
      Nat.add_zero]
    conv_rhs => rw [← paySplit, ← refSplit]
    rw [distance_append_of_matched_right suffixMatch, distance_append_of_matched_left prefixPairs]

end Stripping

section Indices

variable {Threshold T : Type} [Alignable Threshold T]

theorem payloadIndices_append (results results' : List AlignResult) :
    payloadIndices (results ++ results') = payloadIndices results ++ payloadIndices results' :=
  List.filterMap_append

theorem referenceIndices_append (results results' : List AlignResult) :
    referenceIndices (results ++ results') =
      referenceIndices results ++ referenceIndices results' :=
  List.filterMap_append

theorem payloadIndices_matchPair_all (reference : List T) (payOffset refOffset start : ℕ) :
    payloadIndices ((reference.zipIdx start).map fun x =>
      .matchPair (Alignable.toKey Threshold x.1) (payOffset + x.2) (refOffset + x.2)) =
      List.range' (payOffset + start) reference.length := by
  induction reference generalizing start with
  | nil => rfl
  | cons refItem reference ih =>
      have rest := ih (start + 1)
      simp only [payloadIndices] at rest
      simp only [payloadIndices, List.zipIdx_cons, List.map_cons, List.filterMap_cons, rest,
        List.length_cons, List.range'_succ, Nat.add_assoc]

theorem referenceIndices_matchPair_all (reference : List T) (payOffset refOffset start : ℕ) :
    referenceIndices ((reference.zipIdx start).map fun x =>
      .matchPair (Alignable.toKey Threshold x.1) (payOffset + x.2) (refOffset + x.2)) =
      List.range' (refOffset + start) reference.length := by
  induction reference generalizing start with
  | nil => rfl
  | cons refItem reference ih =>
      have rest := ih (start + 1)
      simp only [referenceIndices] at rest
      simp only [referenceIndices, List.zipIdx_cons, List.map_cons, List.filterMap_cons, rest,
        List.length_cons, List.range'_succ, Nat.add_assoc]

theorem matchingPrefix_le (mode : MatchMode Threshold) (payload reference : List T) :
    matchingPrefix mode payload reference ≤ payload.length ∧
      matchingPrefix mode payload reference ≤ reference.length := by
  have taken := (List.takeWhile_sublist (l := payload.zip reference)
    (fun x => Alignable.isMatch x.1 x.2 mode)).length_le
  rw [List.length_zip] at taken
  simp only [matchingPrefix]
  omega

theorem range'_three (front middle back : ℕ) :
    List.range' 0 front ++ List.range' front middle ++ List.range' (front + middle) back =
      List.range (front + middle + back) := by
  have first := @List.range'_append 0 front middle 1
  have second := @List.range'_append 0 (front + middle) back 1
  simp only [Nat.zero_add, Nat.one_mul] at first second
  rw [first, second, List.range_eq_range']

/-- Every payload and every reference index occurs once, in order, whatever the match
predicate is. -/
theorem alignGeneric_indices (payload reference : List T) (mode : MatchMode Threshold) :
    payloadIndices (alignGeneric payload reference mode) = List.range payload.length ∧
      referenceIndices (alignGeneric payload reference mode) = List.range reference.length := by
  unfold alignGeneric
  extract_lets prefixLen suffixLen midPay midRef paySuffixStart refSuffixStart
  have prefixBounds := matchingPrefix_le mode payload reference
  have suffixBounds := matchingPrefix_le mode (payload.drop prefixLen).reverse
    (reference.drop prefixLen).reverse
  simp only [List.length_reverse, List.length_drop] at suffixBounds
  change prefixLen ≤ _ ∧ prefixLen ≤ _ at prefixBounds
  change suffixLen ≤ _ ∧ suffixLen ≤ _ at suffixBounds
  have core := (hirschberg_optimal mode midPay midRef prefixLen prefixLen).1
  have front := @payloadIndices_matchPair_all Threshold T _ (reference.take prefixLen) 0 0 0
  have frontRef := @referenceIndices_matchPair_all Threshold T _ (reference.take prefixLen) 0 0 0
  simp only [Nat.zero_add, List.length_take, min_eq_left prefixBounds.2] at front frontRef
  have midPayLength : midPay.length = paySuffixStart - prefixLen := by
    simp only [midPay, paySuffixStart, List.length_drop, List.length_take]
    omega
  have midRefLength : midRef.length = refSuffixStart - prefixLen := by
    simp only [midRef, refSuffixStart, List.length_drop, List.length_take]
    omega
  constructor
  · rw [payloadIndices_append, payloadIndices_append, core.payloadIndices_eq, front,
      payloadIndices_matchPair_all, midPayLength, List.length_drop]
    have pieces := range'_three prefixLen (paySuffixStart - prefixLen) suffixLen
    have start : prefixLen + (paySuffixStart - prefixLen) = paySuffixStart := by omega
    have total : paySuffixStart + suffixLen = payload.length := by omega
    have rest : reference.length - refSuffixStart = suffixLen := by omega
    rw [start, total] at pieces
    rw [Nat.add_zero, rest, pieces]
  · rw [referenceIndices_append, referenceIndices_append, core.referenceIndices_eq, frontRef,
      referenceIndices_matchPair_all, midRefLength, List.length_drop]
    have pieces := range'_three prefixLen (refSuffixStart - prefixLen) suffixLen
    have start : prefixLen + (refSuffixStart - prefixLen) = refSuffixStart := by omega
    have total : refSuffixStart + suffixLen = reference.length := by omega
    have rest : reference.length - refSuffixStart = suffixLen := by omega
    rw [start, total] at pieces
    rw [Nat.add_zero, rest, pieces]

end Indices

section Entry

variable {Threshold T : Type} [Alignable Threshold T]

/-- What a valid alignment of minimal cost is, in terms of the result list alone. -/
structure ValidOptimalAlignment (mode : MatchMode Threshold) (payload reference : List T)
    (results : List AlignResult) : Prop where
  payload_once : payloadIndices results = List.range payload.length
  reference_once : referenceIndices results = List.range reference.length
  pairs_match : ∀ key payloadIdx referenceIdx,
    .matchPair key payloadIdx referenceIdx ∈ results →
      ∃ payItem refItem, payload[payloadIdx]? = some payItem ∧
        reference[referenceIdx]? = some refItem ∧
        Alignable.isMatch payItem refItem mode = true
  unmatched_least :
    IsLeast {total | Script unitGap (refMatches mode) reference payload total} (unmatched results)
  unmatched_common : ∀ length,
    IsGreatest {length | CommonLength (refMatches mode) reference payload length} length →
      unmatched results + 2 * length = payload.length + reference.length

theorem OptimalFrom.validOptimal {mode : MatchMode Threshold} {payload reference : List T}
    {results : List AlignResult} (symmetric : SymmetricMatch mode T)
    (optimal : OptimalFrom mode payload reference 0 0 results) :
    ValidOptimalAlignment mode payload reference results := by
  rcases optimal with ⟨aligned, counted⟩
  refine ⟨?_, ?_, ?_, ?_, ?_⟩
  · rw [aligned.payloadIndices_eq, List.range_eq_range']
  · rw [aligned.referenceIndices_eq, List.range_eq_range']
  · intro key payloadIdx referenceIdx member
    rcases aligned.of_mem_matchPair member with
      ⟨i, j, payItem, refItem, rfl, rfl, atPay, atRef, pair, _⟩
    rw [symmetric] at pair
    exact ⟨payItem, refItem, by simpa using atPay, by simpa using atRef, pair⟩
  · rw [counted]
    exact distance_isLeast unitGap (refMatches mode) reference payload
  · intro length longest
    rw [counted, distance_add_of_isGreatest longest, Nat.add_comm]

theorem eqIgnoreAsciiCase_comm (a b : String) :
    eqIgnoreAsciiCase a b = eqIgnoreAsciiCase b a := by
  simp only [eqIgnoreAsciiCase]
  exact Bool.beq_comm

/-- On characters every mode is symmetric: fuzzy matching folds case only. -/
theorem symmetricMatch_char (mode : MatchMode Threshold) : SymmetricMatch mode Char := by
  intro a b
  cases mode with
  | exact =>
      change (a == b) = (b == a)
      exact Bool.beq_comm
  | caseInsensitive | fuzzy _ =>
      change (a.toLower == b.toLower) = (b.toLower == a.toLower)
      exact Bool.beq_comm

/-- `align` and `align_chars` return a valid alignment of minimal cost. -/
theorem align_validOptimal :
    (∀ (Threshold : Type) [Similarity Threshold] (mode : MatchMode Threshold)
        (payload reference : List String), SymmetricMatch mode String →
        ValidOptimalAlignment mode payload reference (align payload reference mode)) ∧
      ∀ (Threshold : Type) (mode : MatchMode Threshold) (payload reference : List Char),
        ValidOptimalAlignment mode payload reference (alignChars payload reference mode) := by
  refine ⟨?_, ?_⟩
  · intro Threshold _ mode payload reference symmetric
    exact (alignGeneric_optimal symmetric payload reference).validOptimal symmetric
  · intro Threshold mode payload reference
    have symmetric := symmetricMatch_char mode
    exact (alignGeneric_optimal symmetric payload reference).validOptimal symmetric

/-- A similarity that agrees with Jaro-Winkler on equal words and on words without a
common letter. -/
instance equalOrDisjoint : Similarity ℚ where
  toLowercase := String.map Char.toLower
  jaroWinkler a b := if a = b then 1 else 0
  atLeast similarity threshold := decide (threshold ≤ similarity)

theorem jaroWinkler_equalOrDisjoint_comm (a b : String) :
    (Similarity.jaroWinkler a b : ℚ) = Similarity.jaroWinkler b a := by
  change (if a = b then (1 : ℚ) else 0) = if b = a then 1 else 0
  by_cases same : a = b
  · rw [if_pos same, if_pos same.symm]
  · rw [if_neg same, if_neg (Ne.symm same)]

theorem symmetricMatch_equalOrDisjoint (mode : MatchMode ℚ) : SymmetricMatch mode String := by
  intro a b
  cases mode with
  | exact =>
      change (a == b) = (b == a)
      exact Bool.beq_comm
  | caseInsensitive => exact eqIgnoreAsciiCase_comm a b
  | fuzzy threshold =>
      simp only [Alignable.isMatch]
      rw [eqIgnoreAsciiCase_comm a b, jaroWinkler_equalOrDisjoint_comm]

theorem align_validOptimal_fuzzy :
    ValidOptimalAlignment (.fuzzy (9 / 10 : ℚ)) ["um", "So", "yes"] ["we", "so", "yes"]
      (align ["um", "So", "yes"] ["we", "so", "yes"] (.fuzzy (9 / 10 : ℚ))) :=
  align_validOptimal.1 ℚ _ _ _ (symmetricMatch_equalOrDisjoint _)

end Entry

end Batchalign.Alignment
