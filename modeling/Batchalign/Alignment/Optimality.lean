import Batchalign.Alignment.Costs

/-!
# Alignments are valid and optimal

`Aligned` reads a result list in order: it consumes the payload and the
reference from the front, one index at a time, and a match consumes a matching
pair. The traceback, the Hirschberg recursion and the stripped prefix and
suffix all produce aligned results, and results of adjacent slices concatenate.
In each case the number of unmatched entries is the edit distance, so the
composed result is optimal.
-/

namespace Batchalign.Alignment

open EditDistance

def AlignResult.isMatchPair : AlignResult → Bool
  | .matchPair _ _ _ => true
  | .extraPayload _ _ | .extraReference _ _ => false

/-- The number of unmatched entries. -/
def unmatched (results : List AlignResult) : ℕ :=
  results.countP fun result => !result.isMatchPair

/-- The payload indices that occur, in order. -/
def payloadIndices (results : List AlignResult) : List ℕ :=
  results.filterMap fun
    | .matchPair _ payloadIdx _ => some payloadIdx
    | .extraPayload _ payloadIdx => some payloadIdx
    | .extraReference _ _ => none

/-- The reference indices that occur, in order. -/
def referenceIndices (results : List AlignResult) : List ℕ :=
  results.filterMap fun
    | .matchPair _ _ referenceIdx => some referenceIdx
    | .extraPayload _ _ => none
    | .extraReference _ referenceIdx => some referenceIdx

section Aligned

variable {Threshold T : Type} [Alignable Threshold T]

/-- The results align the payload and the reference from the given offsets on. -/
inductive Aligned (mode : MatchMode Threshold) :
    List T → List T → ℕ → ℕ → List AlignResult → Prop where
  | nil {payOffset refOffset} : Aligned mode [] [] payOffset refOffset []
  | matchPair {payItem refItem payload reference payOffset refOffset results}
      (pair : Alignable.isMatch refItem payItem mode = true)
      (rest : Aligned mode payload reference (payOffset + 1) (refOffset + 1) results) :
      Aligned mode (payItem :: payload) (refItem :: reference) payOffset refOffset
        (.matchPair (Alignable.toKey Threshold refItem) payOffset refOffset :: results)
  | extraPayload {payItem payload reference payOffset refOffset results}
      (rest : Aligned mode payload reference (payOffset + 1) refOffset results) :
      Aligned mode (payItem :: payload) reference payOffset refOffset
        (.extraPayload (Alignable.toKey Threshold payItem) payOffset :: results)
  | extraReference {refItem payload reference payOffset refOffset results}
      (rest : Aligned mode payload reference payOffset (refOffset + 1) results) :
      Aligned mode payload (refItem :: reference) payOffset refOffset
        (.extraReference (Alignable.toKey Threshold refItem) refOffset :: results)

variable {mode : MatchMode Threshold}

theorem Aligned.append {payload reference payload' reference' : List T}
    {payOffset refOffset : ℕ} {results results' : List AlignResult}
    (left : Aligned mode payload reference payOffset refOffset results)
    (right : Aligned mode payload' reference' (payOffset + payload.length)
      (refOffset + reference.length) results') :
    Aligned mode (payload ++ payload') (reference ++ reference') payOffset refOffset
      (results ++ results') := by
  induction left with
  | nil => simpa using right
  | matchPair pair _ ih =>
      apply Aligned.matchPair pair
      apply ih
      simpa [Nat.add_assoc, Nat.add_comm 1] using right
  | extraPayload _ ih =>
      apply Aligned.extraPayload
      apply ih
      simpa [Nat.add_assoc, Nat.add_comm 1] using right
  | extraReference _ ih =>
      apply Aligned.extraReference
      apply ih
      simpa [Nat.add_assoc, Nat.add_comm 1] using right

@[simp]
theorem unmatched_nil : unmatched [] = 0 := rfl

@[simp]
theorem unmatched_cons_matchPair (key : String) (payloadIdx referenceIdx : ℕ)
    (results : List AlignResult) :
    unmatched (.matchPair key payloadIdx referenceIdx :: results) = unmatched results := by
  simp [unmatched, AlignResult.isMatchPair]

@[simp]
theorem unmatched_cons_extraPayload (key : String) (payloadIdx : ℕ)
    (results : List AlignResult) :
    unmatched (.extraPayload key payloadIdx :: results) = unmatched results + 1 := by
  simp [unmatched, AlignResult.isMatchPair]

@[simp]
theorem unmatched_cons_extraReference (key : String) (referenceIdx : ℕ)
    (results : List AlignResult) :
    unmatched (.extraReference key referenceIdx :: results) = unmatched results + 1 := by
  simp [unmatched, AlignResult.isMatchPair]

@[simp]
theorem unmatched_append (results results' : List AlignResult) :
    unmatched (results ++ results') = unmatched results + unmatched results' := by
  simp [unmatched]

@[simp]
theorem unmatched_reverse (results : List AlignResult) :
    unmatched results.reverse = unmatched results := by
  simp [unmatched]

theorem Aligned.script {payload reference : List T} {payOffset refOffset : ℕ}
    {results : List AlignResult}
    (aligned : Aligned mode payload reference payOffset refOffset results) :
    Script unitGap (refMatches mode) reference payload (unmatched results) := by
  induction aligned with
  | nil => exact .nil
  | matchPair pair _ ih =>
      rw [unmatched_cons_matchPair]
      exact ih.keep pair
  | extraPayload _ ih =>
      rw [unmatched_cons_extraPayload]
      exact ih.insert
  | extraReference _ ih =>
      rw [unmatched_cons_extraReference]
      exact ih.drop

theorem Aligned.payloadIndices_eq {payload reference : List T} {payOffset refOffset : ℕ}
    {results : List AlignResult}
    (aligned : Aligned mode payload reference payOffset refOffset results) :
    payloadIndices results = List.range' payOffset payload.length := by
  induction aligned with
  | nil => rfl
  | matchPair _ _ ih => simpa [payloadIndices, List.range'_succ] using ih
  | extraPayload _ ih => simpa [payloadIndices, List.range'_succ] using ih
  | extraReference _ ih => simpa [payloadIndices] using ih

theorem Aligned.referenceIndices_eq {payload reference : List T} {payOffset refOffset : ℕ}
    {results : List AlignResult}
    (aligned : Aligned mode payload reference payOffset refOffset results) :
    referenceIndices results = List.range' refOffset reference.length := by
  induction aligned with
  | nil => rfl
  | matchPair _ _ ih => simpa [referenceIndices, List.range'_succ] using ih
  | extraPayload _ ih => simpa [referenceIndices] using ih
  | extraReference _ ih => simpa [referenceIndices, List.range'_succ] using ih

/-- A match entry names a payload item and a reference item that match, and carries the
reference item's key. -/
theorem Aligned.of_mem_matchPair {payload reference : List T} {payOffset refOffset : ℕ}
    {results : List AlignResult}
    (aligned : Aligned mode payload reference payOffset refOffset results)
    {key : String} {payloadIdx referenceIdx : ℕ}
    (member : AlignResult.matchPair key payloadIdx referenceIdx ∈ results) :
    ∃ i j payItem refItem, payloadIdx = payOffset + i ∧ referenceIdx = refOffset + j ∧
      payload[i]? = some payItem ∧ reference[j]? = some refItem ∧
      Alignable.isMatch refItem payItem mode = true ∧
      key = Alignable.toKey Threshold refItem := by
  induction aligned with
  | nil => simp at member
  | @matchPair payItem refItem _ _ _ _ _ pair _ ih =>
      rw [List.mem_cons] at member
      rcases member with here | later
      · simp only [AlignResult.matchPair.injEq] at here
        rcases here with ⟨rfl, rfl, rfl⟩
        exact ⟨0, 0, payItem, refItem, rfl, rfl, rfl, rfl, pair, rfl⟩
      · rcases ih later with ⟨i, j, payItem, refItem, rfl, rfl, atPay, atRef, pair, rfl⟩
        exact ⟨i + 1, j + 1, payItem, refItem, by omega, by omega, by simpa using atPay,
          by simpa using atRef, pair, rfl⟩
  | extraPayload _ ih =>
      rw [List.mem_cons] at member
      rcases member with here | later
      · cases here
      · rcases ih later with ⟨i, j, payItem, refItem, rfl, rfl, atPay, atRef, pair, rfl⟩
        exact ⟨i + 1, j, payItem, refItem, by omega, rfl, by simpa using atPay, atRef, pair, rfl⟩
  | extraReference _ ih =>
      rw [List.mem_cons] at member
      rcases member with here | later
      · cases here
      · rcases ih later with ⟨i, j, payItem, refItem, rfl, rfl, atPay, atRef, pair, rfl⟩
        exact ⟨i, j + 1, payItem, refItem, rfl, by omega, atPay, by simpa using atRef, pair, rfl⟩

end Aligned

section Traceback

variable {Threshold T : Type} [Alignable Threshold T]

/-- Everything a table entry other than the start entry can say: its action, where it
leads, and how the distance decreases on the way. -/
inductive CellMove (mode : MatchMode Threshold) (payload reference : List T) :
    ℕ → ℕ → Prop where
  | matched {i j refItem payItem cost} (atRef : reference[i]? = some refItem)
      (atPay : payload[j]? = some payItem)
      (pair : Alignable.isMatch refItem payItem mode = true)
      (entry : cellAt mode payload reference (i + 1) (j + 1) = ⟨cost, .matched, i, j⟩)
      (shorter : prefixDistance mode payload reference (i + 1) (j + 1) =
        prefixDistance mode payload reference i j) :
      CellMove mode payload reference (i + 1) (j + 1)
  | substitution {i j refItem payItem cost} (atRef : reference[i]? = some refItem)
      (atPay : payload[j]? = some payItem)
      (entry : cellAt mode payload reference (i + 1) (j + 1) = ⟨cost, .substitution, i, j⟩)
      (shorter : prefixDistance mode payload reference (i + 1) (j + 1) =
        prefixDistance mode payload reference i j + 2) :
      CellMove mode payload reference (i + 1) (j + 1)
  | extraReference {i j refItem cost} (atRef : reference[i]? = some refItem)
      (entry : cellAt mode payload reference (i + 1) j = ⟨cost, .extraReference, i, j⟩)
      (shorter : prefixDistance mode payload reference (i + 1) j =
        prefixDistance mode payload reference i j + 1) :
      CellMove mode payload reference (i + 1) j
  | extraPayload {i j payItem cost} (atPay : payload[j]? = some payItem)
      (entry : cellAt mode payload reference i (j + 1) = ⟨cost, .extraPayload, i, j⟩)
      (shorter : prefixDistance mode payload reference i (j + 1) =
        prefixDistance mode payload reference i j + 1) :
      CellMove mode payload reference i (j + 1)

theorem cellMove (mode : MatchMode Threshold) (payload reference : List T) {i j : ℕ}
    (refBound : i ≤ reference.length) (payBound : j ≤ payload.length) (moving : i > 0 ∨ j > 0) :
    CellMove mode payload reference i j := by
  cases i with
  | zero =>
      cases j with
      | zero => omega
      | succ j =>
          apply CellMove.extraPayload (List.getElem?_eq_getElem payBound) rfl
          simp [prefixDistance, unitGap]
          omega
  | succ i =>
      cases j with
      | zero =>
          apply CellMove.extraReference (List.getElem?_eq_getElem refBound) rfl
          simp [prefixDistance, unitGap]
          omega
      | succ j =>
          have entry := cellAt_succ mode payload reference refBound payBound
          have shorter := prefixDistance_succ mode payload reference refBound payBound
          have atRef := List.getElem?_eq_getElem refBound
          have atPay := List.getElem?_eq_getElem payBound
          simp only [nextCell] at entry
          simp only [Nat.add_sub_cancel] at entry
          split at entry
          · rename_i best
            by_cases pair : Alignable.isMatch reference[i] payload[j] mode = true
            · rw [if_pos pair] at entry
              apply CellMove.matched atRef atPay pair entry
              simp only [subCost, if_pos pair] at best shorter
              omega
            · rw [if_neg pair] at entry
              apply CellMove.substitution atRef atPay entry
              simp only [subCost, if_neg pair, costSub] at best shorter
              omega
          · split at entry
            · apply CellMove.extraReference atRef entry
              simp only [costGap] at *
              omega
            · apply CellMove.extraPayload atPay entry
              simp only [costGap] at *
              omega

theorem take_succ_eq_append {xs : List T} {x : T} {k : ℕ} (at_k : xs[k]? = some x) :
    xs.take (k + 1) = xs.take k ++ [x] := by
  rcases List.getElem?_eq_some_iff.mp at_k with ⟨bound, rfl⟩
  exact List.take_succ_eq_append_getElem bound

/-- From any entry, the traceback aligns the two prefixes and leaves unmatched exactly
what the distance between them says. The induction is on the fuel, of which every
step needs one unit and takes at least one off `i + j`. -/
theorem traceback_aligned (mode : MatchMode Threshold) (payload reference : List T)
    (payOffset refOffset : ℕ) (fuel i j : ℕ) (refBound : i ≤ reference.length)
    (payBound : j ≤ payload.length) (enough : i + j ≤ fuel) :
    Aligned mode (payload.take j) (reference.take i) payOffset refOffset
        (traceback Threshold (fillTable mode payload reference) payload reference payOffset
          refOffset fuel i j).reverse ∧
      unmatched (traceback Threshold (fillTable mode payload reference) payload reference
        payOffset refOffset fuel i j) = prefixDistance mode payload reference i j := by
  induction fuel generalizing i j with
  | zero =>
      have iZero : i = 0 := by omega
      have jZero : j = 0 := by omega
      subst iZero jZero
      exact ⟨.nil, by simp [traceback, unmatched, prefixDistance]⟩
  | succ fuel ih =>
      by_cases moving : i > 0 ∨ j > 0
      · rw [traceback, if_pos moving, fillTable_getD mode payload reference refBound payBound]
        cases cellMove mode payload reference refBound payBound moving with
        | @matched i j refItem payItem cost atRef atPay pair entry shorter =>
            rcases ih i j (by omega) (by omega) (by omega) with ⟨aligned, counted⟩
            have lengths : (payload.take j).length = j ∧ (reference.take i).length = i := by
              simp
              omega
            simp only [entry, emit, atRef, Option.map_some, Option.getD_some,
              List.cons_append, List.nil_append, List.reverse_cons]
            rw [take_succ_eq_append atPay, take_succ_eq_append atRef]
            refine ⟨aligned.append ?_, ?_⟩
            · rw [lengths.1, lengths.2]
              exact Aligned.nil.matchPair pair
            · rw [shorter, ← counted]
              simp
        | @substitution i j refItem payItem cost atRef atPay entry shorter =>
            rcases ih i j (by omega) (by omega) (by omega) with ⟨aligned, counted⟩
            have lengths : (payload.take j).length = j ∧ (reference.take i).length = i := by
              simp
              omega
            simp only [entry, emit, atRef, atPay, Option.map_some, Option.getD_some,
              List.cons_append, List.nil_append, List.reverse_cons, List.append_assoc]
            rw [take_succ_eq_append atPay, take_succ_eq_append atRef]
            refine ⟨aligned.append ?_, ?_⟩
            · rw [lengths.1, lengths.2]
              exact Aligned.nil.extraPayload.extraReference
            · rw [shorter, ← counted]
              simp
        | @extraReference i j refItem cost atRef entry shorter =>
            rcases ih i j (by omega) (by omega) (by omega) with ⟨aligned, counted⟩
            have lengths : (reference.take i).length = i := by
              simp
              omega
            simp only [entry, emit, atRef, Option.map_some, Option.getD_some,
              List.cons_append, List.nil_append, List.reverse_cons]
            rw [take_succ_eq_append atRef]
            constructor
            · have tail : Aligned mode ([] : List T) [refItem] (payOffset + (payload.take j).length)
                  (refOffset + (reference.take i).length)
                  [.extraReference (Alignable.toKey Threshold refItem) (refOffset + i)] := by
                rw [lengths]
                exact Aligned.nil.extraReference
              simpa using aligned.append tail
            · rw [shorter, ← counted]
              simp
        | @extraPayload i j payItem cost atPay entry shorter =>
            rcases ih i j (by omega) (by omega) (by omega) with ⟨aligned, counted⟩
            have lengths : (payload.take j).length = j := by
              simp
              omega
            simp only [entry, emit, atPay, Option.map_some, Option.getD_some,
              List.cons_append, List.nil_append, List.reverse_cons]
            rw [take_succ_eq_append atPay]
            constructor
            · have tail : Aligned mode [payItem] ([] : List T) (payOffset + (payload.take j).length)
                  (refOffset + (reference.take i).length)
                  [.extraPayload (Alignable.toKey Threshold payItem) (payOffset + j)] := by
                rw [lengths]
                exact Aligned.nil.extraPayload
              simpa using aligned.append tail
            · rw [shorter, ← counted]
              simp
      · have iZero : i = 0 := by omega
        have jZero : j = 0 := by omega
        subst iZero jZero
        rw [traceback, if_neg moving]
        exact ⟨.nil, by simp [unmatched, prefixDistance]⟩

/-- The results align the two lists and leave no more unmatched than necessary. -/
def OptimalFrom (mode : MatchMode Threshold) (payload reference : List T)
    (payOffset refOffset : ℕ) (results : List AlignResult) : Prop :=
  Aligned mode payload reference payOffset refOffset results ∧
    unmatched results = distance unitGap (refMatches mode) reference payload

theorem alignSmall_optimal (mode : MatchMode Threshold) (payload reference : List T)
    (payOffset refOffset : ℕ) :
    OptimalFrom mode payload reference payOffset refOffset
      (alignSmall mode payload reference payOffset refOffset) := by
  have traced := traceback_aligned mode payload reference payOffset refOffset
    (reference.length + payload.length) reference.length payload.length le_rfl le_rfl le_rfl
  rw [List.take_length, List.take_length] at traced
  refine ⟨traced.1, ?_⟩
  simp only [alignSmall]
  rw [unmatched_reverse, traced.2, prefixDistance, List.take_length, List.take_length,
    distance_reverse]

end Traceback

section Split

theorem bestSplit_foldl (total : ℕ → ℕ) (n : ℕ) :
    ∃ k ≤ n, (List.range (n + 1)).foldl
        (fun (state : ℕ × Option ℕ) k =>
          if state.2.all (total k < ·) then (k, some (total k)) else state) (0, none) =
        (k, some (total k)) ∧
      ∀ k' ≤ n, total k ≤ total k' := by
  induction n with
  | zero =>
      refine ⟨0, le_rfl, rfl, ?_⟩
      intro k' bound
      rw [Nat.le_zero.mp bound]
  | succ n ih =>
      rcases ih with ⟨k, bound, folded, least⟩
      rw [List.range_succ, List.foldl_append, folded, List.foldl_cons, List.foldl_nil]
      by_cases better : total (n + 1) < total k
      · refine ⟨n + 1, le_rfl, by simp [better], ?_⟩
        intro k' bound'
        rcases Nat.lt_or_ge n k' with last | earlier
        · rw [show k' = n + 1 by omega]
        · exact better.le.trans (least k' earlier)
      · refine ⟨k, by omega, by simp [better], ?_⟩
        intro k' bound'
        rcases Nat.lt_or_ge n k' with last | earlier
        · rw [show k' = n + 1 by omega]
          omega
        · exact least k' earlier

/-- The split loop ends at a position of least total cost. -/
theorem bestSplit_least (scoreLeft scoreRight : List ℕ) (payLen : ℕ) :
    (bestSplit scoreLeft scoreRight payLen).1 ≤ payLen ∧
      ∀ k ≤ payLen,
        scoreLeft.getD (bestSplit scoreLeft scoreRight payLen).1 0 +
            scoreRight.getD (payLen - (bestSplit scoreLeft scoreRight payLen).1) 0 ≤
          scoreLeft.getD k 0 + scoreRight.getD (payLen - k) 0 := by
  rcases bestSplit_foldl
    (fun k => scoreLeft.getD k 0 + scoreRight.getD (payLen - k) 0) payLen with
    ⟨k, bound, folded, least⟩
  have chosen : (bestSplit scoreLeft scoreRight payLen).1 = k := by
    simp only [bestSplit]
    exact congrArg Prod.fst folded
  rw [chosen]
  exact ⟨bound, least⟩

variable {Threshold T : Type} [Alignable Threshold T]

/-- Cutting the payload at the chosen split loses nothing against an optimal alignment. -/
theorem distance_bestSplit (mode : MatchMode Threshold) (payload reference : List T) (mid : ℕ) :
    let split := (bestSplit (rowCosts mode (reference.take mid) payload)
      (rowCostsRev mode (reference.drop mid) payload) payload.length).1
    split ≤ payload.length ∧
      distance unitGap (refMatches mode) reference payload =
        distance unitGap (refMatches mode) (reference.take mid) (payload.take split) +
          distance unitGap (refMatches mode) (reference.drop mid) (payload.drop split) := by
  intro split
  rcases bestSplit_least (rowCosts mode (reference.take mid) payload)
    (rowCostsRev mode (reference.drop mid) payload) payload.length with ⟨bound, least⟩
  refine ⟨bound, le_antisymm ?_ ?_⟩
  · have cut := distance_append_le_cut unitGap (refMatches mode) (reference.take mid)
      (reference.drop mid) payload split
    rwa [List.take_append_drop] at cut
  · rcases exists_distance_append unitGap (refMatches mode) (reference.take mid)
      (reference.drop mid) payload with ⟨position, inside, attained⟩
    have chosen := least position inside
    rw [rowCosts_getD mode _ payload bound, rowCostsRev_getD mode _ payload bound,
      rowCosts_getD mode _ payload inside, rowCostsRev_getD mode _ payload inside,
      ← attained, List.take_append_drop] at chosen
    exact chosen

end Split

section Recursion

variable {Threshold T : Type} [Alignable Threshold T]

theorem aligned_extraPayload_all (mode : MatchMode Threshold) (payload : List T)
    (payOffset refOffset start : ℕ) :
    Aligned mode payload ([] : List T) (payOffset + start) refOffset
      ((payload.zipIdx start).map fun x =>
        .extraPayload (Alignable.toKey Threshold x.1) (payOffset + x.2)) := by
  induction payload generalizing start with
  | nil => exact .nil
  | cons payItem payload ih => exact .extraPayload (ih (start + 1))

theorem aligned_extraReference_all (mode : MatchMode Threshold) (reference : List T)
    (payOffset refOffset start : ℕ) :
    Aligned mode ([] : List T) reference payOffset (refOffset + start)
      ((reference.zipIdx start).map fun x =>
        .extraReference (Alignable.toKey Threshold x.1) (refOffset + x.2)) := by
  induction reference generalizing start with
  | nil => exact .nil
  | cons refItem reference ih => exact .extraReference (ih (start + 1))

theorem aligned_matchPair_all {mode : MatchMode Threshold} {payload reference : List T}
    (pairs : List.Forall₂ (fun refItem payItem => refMatches mode refItem payItem = true)
      reference payload) (payOffset refOffset start : ℕ) :
    Aligned mode payload reference (payOffset + start) (refOffset + start)
      ((reference.zipIdx start).map fun x =>
        .matchPair (Alignable.toKey Threshold x.1) (payOffset + x.2) (refOffset + x.2)) := by
  induction pairs generalizing start with
  | nil => exact .nil
  | cons pair _ ih => exact .matchPair pair (ih (start + 1))

theorem unmatched_extraPayload_all (keyed : List (T × ℕ)) (payIdx : ℕ → ℕ) :
    unmatched (keyed.map fun x =>
      .extraPayload (Alignable.toKey Threshold x.1) (payIdx x.2)) = keyed.length := by
  induction keyed with
  | nil => rfl
  | cons head keyed ih => simpa using ih

theorem unmatched_extraReference_all (keyed : List (T × ℕ)) (refIdx : ℕ → ℕ) :
    unmatched (keyed.map fun x =>
      .extraReference (Alignable.toKey Threshold x.1) (refIdx x.2)) = keyed.length := by
  induction keyed with
  | nil => rfl
  | cons head keyed ih => simpa using ih

theorem unmatched_matchPair_all (keyed : List (T × ℕ)) (payIdx refIdx : ℕ → ℕ) :
    unmatched (keyed.map fun x =>
      .matchPair (Alignable.toKey Threshold x.1) (payIdx x.2) (refIdx x.2)) = 0 := by
  induction keyed with
  | nil => rfl
  | cons head keyed ih => simpa using ih

/-- Optimal alignments of the two sides of a cut that loses nothing concatenate. -/
theorem OptimalFrom.append_of_cut {mode : MatchMode Threshold} {payload reference : List T}
    {payOffset refOffset split mid : ℕ} {left right : List AlignResult}
    (payBound : split ≤ payload.length) (refBound : mid ≤ reference.length)
    (cut : distance unitGap (refMatches mode) reference payload =
      distance unitGap (refMatches mode) (reference.take mid) (payload.take split) +
        distance unitGap (refMatches mode) (reference.drop mid) (payload.drop split))
    (leftOptimal : OptimalFrom mode (payload.take split) (reference.take mid)
      payOffset refOffset left)
    (rightOptimal : OptimalFrom mode (payload.drop split) (reference.drop mid)
      (payOffset + split) (refOffset + mid) right) :
    OptimalFrom mode payload reference payOffset refOffset (left ++ right) := by
  rcases leftOptimal with ⟨leftAligned, leftCount⟩
  rcases rightOptimal with ⟨rightAligned, rightCount⟩
  have payLength : (payload.take split).length = split := by
    rw [List.length_take]
    exact min_eq_left payBound
  have refLength : (reference.take mid).length = mid := by
    rw [List.length_take]
    exact min_eq_left refBound
  refine ⟨?_, ?_⟩
  · have shifted : Aligned mode (payload.drop split) (reference.drop mid)
        (payOffset + (payload.take split).length) (refOffset + (reference.take mid).length)
        right := by
      rwa [payLength, refLength]
    have whole := leftAligned.append shifted
    rwa [List.take_append_drop, List.take_append_drop] at whole
  · rw [unmatched_append, leftCount, rightCount, cut]

/-- The recursion is on the reference: both halves of a split are shorter. -/
theorem hirschberg_optimal (mode : MatchMode Threshold) (payload reference : List T)
    (payOffset refOffset : ℕ) :
    OptimalFrom mode payload reference payOffset refOffset
      (hirschberg mode payload reference payOffset refOffset) := by
  induction size : reference.length using Nat.strong_induction_on
    generalizing payload reference payOffset refOffset with
  | h size' ih =>
      subst size
      rw [hirschberg]
      split
      · rename_i empty
        rw [List.isEmpty_iff] at empty
        subst empty
        refine ⟨aligned_extraPayload_all mode payload payOffset refOffset 0, ?_⟩
        rw [unmatched_extraPayload_all]
        simp [unitGap]
      · split
        · rename_i empty
          rw [List.isEmpty_iff] at empty
          subst empty
          refine ⟨aligned_extraReference_all mode reference payOffset refOffset 0, ?_⟩
          rw [unmatched_extraReference_all]
          simp [unitGap]
        · split
          · exact alignSmall_optimal mode payload reference payOffset refOffset
          · rename_i large
            rcases distance_bestSplit mode payload reference (reference.length / 2) with
              ⟨bound, cut⟩
            have long : 1 < reference.length := by
              by_contra short
              exact large (Or.inl (Nat.not_lt.mp short))
            refine OptimalFrom.append_of_cut bound (by omega) cut ?_ ?_
            · exact ih _ (by rw [List.length_take]; omega) _ _ _ _ rfl
            · exact ih _ (by rw [List.length_drop]; omega) _ _ _ _ rfl

end Recursion

end Batchalign.Alignment
