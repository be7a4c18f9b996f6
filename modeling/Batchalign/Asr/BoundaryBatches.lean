import Batchalign.Asr.BoundaryModel
import Batchalign.Library.Scatter

/-!
# Batched utterance boundaries

The batches hold the windows of all sequences, and every window adds the same scores to its
sequence as it would alone. Sums do not depend on the order of the windows, so that the batched
predictions are those of the sequences one by one.
-/

namespace Batchalign.Asr

open Scatter
open Batchalign.Morphosyntax (PythonText)

section Bounds

variable (model : BertUtteranceModel)

namespace BertUtteranceModel

theorem le_of_mem_boundsFrom {tokenCount start : ℕ} {bounds : ℕ × ℕ}
    (member : bounds ∈ model.boundsFrom tokenCount start) :
    bounds.2 ≤ bounds.1 + model.innerWindow := by
  fun_induction model.boundsFrom tokenCount start with
  | case1 start stop reached =>
      rw [List.mem_singleton.mp member]
      exact min_le_left _ _
  | case2 start stop more ih =>
      rcases List.mem_cons.mp member with rfl | later
      · exact min_le_left _ _
      · exact ih later

/-- Every token is in a window. -/
theorem exists_bounds {tokenCount start token : ℕ} (after : start ≤ token)
    (inside : token < tokenCount) :
    ∃ bounds ∈ model.boundsFrom tokenCount start, bounds.1 ≤ token ∧ token < bounds.2 := by
  fun_induction model.boundsFrom tokenCount start with
  | case1 start stop reached =>
      exact ⟨_, List.mem_cons_self, after, inside.trans_le reached⟩
  | case2 start stop more ih =>
      by_cases here : token < stop
      · exact ⟨_, List.mem_cons_self, after, here⟩
      · have next : start + model.stride ≤ token := by
          have overlap := model.stride_le
          omega
        rcases ih next with ⟨bounds, member, holds⟩
        exact ⟨bounds, List.mem_cons_of_mem _ member, holds⟩

theorem length_windowIds (inputIds : List ℕ) (start stop : ℕ) :
    (model.windowIds inputIds start stop).length =
      ((inputIds.take stop).drop start).length + 2 := by
  rw [windowIds, List.length_cons, List.length_append, List.length_singleton]

/-- No window is longer than the model can read. -/
theorem length_windowIds_le {inputIds : List ℕ} {bounds : ℕ × ℕ}
    (member : bounds ∈ model.boundsFrom inputIds.length 0) :
    (model.windowIds inputIds bounds.1 bounds.2).length ≤ model.maxPositions := by
  have short := model.le_of_mem_boundsFrom member
  have roomy := model.roomy
  have inner : model.innerWindow ≤ model.maxPositions - 2 := min_le_right _ _
  rw [length_windowIds, List.length_drop, List.length_take]
  omega

end BertUtteranceModel

end Bounds

section Tallies

theorem zipWith_add_swap (xs ys zs : List ℚ) :
    List.zipWith (· + ·) (List.zipWith (· + ·) xs ys) zs =
      List.zipWith (· + ·) (List.zipWith (· + ·) xs zs) ys := by
  apply List.ext_getElem?
  intro i
  simp only [List.getElem?_zipWith]
  cases xs[i]? <;> cases ys[i]? <;> cases zs[i]? <;> simp [add_right_comm]

/-- It makes no difference which window is added first. -/
theorem Tally.add_swap (tally : Tally) (start stop start' stop' : ℕ) (rows rows' : List (List ℚ)) :
    (tally.add start stop rows).add start' stop' rows' =
      (tally.add start' stop' rows').add start stop rows := by
  rw [Tally.add, Tally.add, Tally.add, Tally.add]
  congr 1
  · apply List.ext_getElem?
    intro token
    simp only [List.getElem?_mapIdx]
    cases tally.accumulated[token]? with
    | none => rfl
    | some sums =>
        simp only [Option.map_some]
        by_cases first : start ≤ token ∧ token < stop
        · by_cases second : start' ≤ token ∧ token < stop'
          · simp only [if_pos first, if_pos second, zipWith_add_swap]
          · simp only [if_pos first, if_neg second]
        · by_cases second : start' ≤ token ∧ token < stop'
          · simp only [if_neg first, if_pos second]
          · simp only [if_neg first, if_neg second]
  · apply List.ext_getElem?
    intro token
    simp only [List.getElem?_mapIdx]
    cases tally.counts[token]? with
    | none => rfl
    | some count => simp only [Option.map_some]; split <;> split <;> rfl

variable (model : BertUtteranceModel)

namespace BertUtteranceModel

/-- What a window adds to the tally of its sequence. -/
def rowsOf (ids : List ℕ) (innerCount : ℕ) : List (List ℚ) :=
  ((model.score ids).take (innerCount + 1)).drop 1

def perform (tally : Tally) (window : Window) : Tally :=
  tally.add window.start window.stop (model.rowsOf window.ids window.innerCount)

instance : RightCommutative model.perform where
  right_comm tally _ _ := tally.add_swap _ _ _ _ _ _

/-- The window with these bounds. -/
def windowAt (inputIds : List ℕ) (sequence : ℕ) (bounds : ℕ × ℕ) : Window :=
  ⟨((inputIds.take bounds.2).drop bounds.1).length + 2, sequence, bounds.1, bounds.2,
    ((inputIds.take bounds.2).drop bounds.1).length, model.windowIds inputIds bounds.1 bounds.2⟩

/-- The tally of all windows of a sequence, one after the other. -/
def tallyOf (inputIds : List ℕ) : Tally :=
  ((model.boundsFrom inputIds.length 0).map (model.windowAt inputIds 0)).foldl model.perform
    (Tally.zero inputIds.length model.numLabels)

/-- Of a row of a padded batch the scores of its tokens are read. -/
theorem logits_rows {windows : List (List ℕ)} {length pad row innerCount : ℕ} {ids : List ℕ}
    (fits : length ≤ model.maxPositions) (short : ∀ ids ∈ windows, ids.length ≤ length)
    (isRow : windows[row]? = some ids) (size : ids.length = innerCount + 2) :
    (((model.logits (windows.map (paddedRow length pad)) (windows.map (maskRow length))).getD row
      []).take (innerCount + 1)).drop 1 = model.rowsOf ids innerCount := by
  have whole := model.realPositions windows length pad fits short row ids isRow
  rw [rowsOf, ← whole, List.take_take, min_eq_left (by omega)]

theorem predictWordActions_eq (words : List String) :
    model.predictWordActions words =
      wordActionsOf words (model.encode words)
        (model.tallyOf ((model.encode words).map Prod.fst)) := by
  rw [predictWordActions, tallyOf, List.foldl_map]
  dsimp only
  congr 1
  apply List.foldl_ext
  rintro tally ⟨start, stop⟩ member
  have fits := model.length_windowIds_le member
  have short : ∀ ids ∈ [model.windowIds ((model.encode words).map Prod.fst) start stop],
      ids.length ≤ (model.windowIds ((model.encode words).map Prod.fst) start stop).length := by
    rw [List.forall_mem_singleton]
  have alone := @logits_rows model _ _ 0 0 _ _ fits short rfl (model.length_windowIds _ start stop)
  rw [List.map_singleton, List.map_singleton, paddedRow, maskRow, Nat.sub_self,
    List.replicate_zero, List.append_nil, List.append_nil] at alone
  exact congrArg (tally.add start stop) alone

end BertUtteranceModel

end Tallies

section Batches

/-- A batch that fits: no window is longer than its rows, and the model can read them. -/
structure Fits (bound : ℕ) (batch : List Window × ℕ) : Prop where
  short : ∀ window ∈ batch.1, window.length ≤ batch.2
  readable : batch.2 ≤ bound

theorem fillBatch_spec {bound maxBatchSize maxBatchTokens paddedLength : ℕ}
    {batch windows : List Window} (fits : Fits bound (batch, paddedLength))
    (readable : ∀ window ∈ windows, window.length ≤ bound) :
    Fits bound (fillBatch maxBatchSize maxBatchTokens batch paddedLength windows).1 ∧
      (fillBatch maxBatchSize maxBatchTokens batch paddedLength windows).1.1 ++
        (fillBatch maxBatchSize maxBatchTokens batch paddedLength windows).2 = batch ++ windows := by
  fun_induction fillBatch maxBatchSize maxBatchTokens batch paddedLength windows with
  | case1 => exact ⟨fits, rfl⟩
  | case2 => exact ⟨fits, rfl⟩
  | case3 batch paddedLength candidate rest _ length _ ih =>
      rcases List.forall_mem_cons.mp readable with ⟨first, later⟩
      have grown : Fits bound (batch ++ [candidate], length) := by
        refine ⟨List.forall_mem_append.mpr ⟨?_, ?_⟩, max_le fits.readable first⟩
        · exact fun window member => (fits.short window member).trans (le_max_left _ _)
        · exact List.forall_mem_singleton.mpr (le_max_right _ _)
      have next := ih grown later
      rw [List.append_assoc, List.singleton_append] at next
      exact next
  | case4 => exact ⟨fits, rfl⟩

/-- The batches take all windows, in order. -/
theorem batchesFrom_spec {bound maxBatchSize maxBatchTokens : ℕ} (positive : 0 < maxBatchSize)
    {windows : List Window} (readable : ∀ window ∈ windows, window.length ≤ bound) :
    (∀ batch ∈ batchesFrom positive maxBatchTokens windows, Fits bound batch) ∧
      (batchesFrom positive maxBatchTokens windows).flatMap Prod.fst = windows := by
  fun_induction batchesFrom positive maxBatchTokens windows with
  | case1 => exact ⟨List.forall_mem_nil _, rfl⟩
  | case2 window windows ih =>
      have empty : Fits bound ([], 0) := ⟨List.forall_mem_nil _, Nat.zero_le bound⟩
      have filled := @fillBatch_spec bound maxBatchSize maxBatchTokens 0 [] (window :: windows)
        empty readable
      rw [List.nil_append] at filled
      have left : ∀ other ∈ (fillBatch maxBatchSize maxBatchTokens [] 0 (window :: windows)).2,
          other.length ≤ bound := by
        intro other member
        apply readable
        rw [← filled.2]
        exact List.mem_append_right _ member
      have rest := ih left
      refine ⟨List.forall_mem_cons.mpr ⟨filled.1, rest.1⟩, ?_⟩
      rw [List.flatMap_cons, rest.2]
      exact filled.2

variable (model : BertUtteranceModel)

namespace BertUtteranceModel

/-- A window whose ids are as many as it says. -/
def Sized (window : Window) : Prop :=
  window.ids.length = window.innerCount + 2 ∧ window.length = window.innerCount + 2

/-- The work of a window for its sequence. -/
def workOf (window : Window) : ℕ × Window := (window.sequence, window)

/-- A forward pass does the work of its windows. -/
theorem runWindows_eq {batch : List Window × ℕ} (fits : Fits model.maxPositions batch)
    (sized : ∀ window ∈ batch.1, Sized window) (tallies : List Tally) :
    model.runWindows tallies batch =
      (batch.1.map workOf).foldl (deliver model.perform) tallies := by
  have numbered : batch.1.map workOf = batch.1.zipIdx.map fun x => workOf x.1 := by
    calc batch.1.map workOf = (batch.1.zipIdx.map Prod.fst).map workOf := by
          rw [List.zipIdx_map_fst]
      _ = _ := List.map_map
  rw [runWindows, numbered, List.foldl_map]
  apply List.foldl_ext
  rintro tallies ⟨window, row⟩ member
  have inBatch := List.mk_mem_zipIdx_iff_getElem?.mp member
  have isSized := sized window (List.mem_of_getElem? inBatch)
  have rows := @logits_rows model (batch.1.map Window.ids) batch.2 (model.padTokenId.getD 0) row
    window.innerCount window.ids fits.readable (by
      rw [List.forall_mem_map]
      intro other isOther
      have size := sized other isOther
      have short := fits.short other isOther
      rw [size.2] at short
      rw [size.1]
      exact short) (by rw [List.getElem?_map, inBatch]; rfl) isSized.1
  rw [List.map_map, List.map_map] at rows
  exact congrArg (fun rows => tallies.modify window.sequence fun tally =>
    tally.add window.start window.stop rows) rows

theorem foldl_runWindows {batches : List (List Window × ℕ)}
    (fits : ∀ batch ∈ batches, Fits model.maxPositions batch)
    (sized : ∀ window ∈ batches.flatMap Prod.fst, Sized window) (tallies : List Tally) :
    batches.foldl model.runWindows tallies =
      ((batches.flatMap Prod.fst).map workOf).foldl (deliver model.perform) tallies := by
  induction batches generalizing tallies with
  | nil => rfl
  | cons batch batches ih =>
      rw [List.flatMap_cons] at sized ⊢
      rcases List.forall_mem_append.mp sized with ⟨first, later⟩
      rcases List.forall_mem_cons.mp fits with ⟨fitsFirst, fitsLater⟩
      rw [List.foldl_cons, ih fitsLater later, model.runWindows_eq fitsFirst first, List.map_append,
        List.foldl_append]

theorem windowsOf_eq (inputIds : List ℕ) (sequence : ℕ) :
    model.windowsOf inputIds sequence =
      if inputIds.length = 0 then []
      else (model.boundsFrom inputIds.length 0).map (model.windowAt inputIds sequence) := rfl

theorem sized_windowsOf {inputIds : List ℕ} {sequence : ℕ} :
    ∀ window ∈ model.windowsOf inputIds sequence,
      Sized window ∧ window.sequence = sequence ∧ window.length ≤ model.maxPositions := by
  intro window member
  rw [windowsOf_eq] at member
  split at member
  · cases member
  · rcases List.mem_map.mp member with ⟨bounds, isBounds, rfl⟩
    have short := model.length_windowIds_le isBounds
    rw [length_windowIds] at short
    exact ⟨⟨model.length_windowIds _ _ _, rfl⟩, rfl, short⟩

/-- The windows of a sequence make its tally. -/
theorem foldl_windowsOf (inputIds : List ℕ) (sequence : ℕ) :
    (model.windowsOf inputIds sequence).foldl model.perform
      (Tally.zero inputIds.length model.numLabels) = model.tallyOf inputIds := by
  rw [windowsOf_eq, tallyOf]
  split
  · next empty =>
    rw [List.length_eq_zero_iff.mp empty, boundsFrom]
    rfl
  · rw [List.foldl_map, List.foldl_map]
    rfl

/-- The tallies after all batches are those of the sequences. -/
theorem tallies_eq {maxBatchSize : ℕ} (positive : 0 < maxBatchSize) (maxBatchTokens : ℕ)
    (encoded : List (List (ℕ × Option ℕ))) :
    (batchesFrom positive maxBatchTokens ((encoded.zipIdx.flatMap fun (tokens, sequence) =>
        model.windowsOf (tokens.map Prod.fst) sequence).insertionSort
          fun one other => one.length ≤ other.length)).foldl model.runWindows
        (encoded.map fun tokens => Tally.zero tokens.length model.numLabels) =
      encoded.map fun tokens => model.tallyOf (tokens.map Prod.fst) := by
  generalize all : (encoded.zipIdx.flatMap fun (tokens, sequence) =>
    model.windowsOf (tokens.map Prod.fst) sequence) = windows
  have order := List.perm_insertionSort (fun one other : Window => one.length ≤ other.length)
    windows
  have sound : ∀ window ∈ windows, Sized window ∧ window.length ≤ model.maxPositions := by
    intro window member
    rw [← all] at member
    rcases List.mem_flatMap.mp member with ⟨numbered, _, isWindow⟩
    rcases model.sized_windowsOf window isWindow with ⟨sized, _, short⟩
    exact ⟨sized, short⟩
  have works : windows.map workOf = encoded.zipIdx.flatMap fun x =>
      (model.windowsOf (x.1.map Prod.fst) x.2).map (Prod.mk x.2) := by
    rw [← all, List.map_flatMap]
    apply List.flatMap_congr
    rintro ⟨tokens, sequence⟩ _
    apply List.map_congr_left
    intro window member
    rw [workOf, (model.sized_windowsOf window member).2.1]
  rcases @batchesFrom_spec model.maxPositions maxBatchSize maxBatchTokens positive _
    (fun window member => (sound window (order.mem_iff.mp member)).2) with ⟨fits, taken⟩
  rw [model.foldl_runWindows fits (by
    rw [taken]
    exact fun window member => (sound window (order.mem_iff.mp member)).1), taken,
    foldl_deliver_of_perm (order.map workOf), works]
  apply List.ext_getElem?
  intro k
  have own := worksOf_numbered
    (fun tokens sequence => model.windowsOf (tokens.map Prod.fst) sequence) encoded 0 k
  rw [Nat.zero_add] at own
  rw [getElem?_foldl_deliver, own, List.getElem?_map, List.getElem?_map]
  cases encoded[k]? with
  | none => rfl
  | some tokens =>
      have whole := model.foldl_windowsOf (tokens.map Prod.fst) k
      rw [List.length_map] at whole
      exact congrArg some whole

/-- The words of many sequences get the actions they get alone. -/
theorem predictWordActionsBatch_eq {maxBatchSize : ℕ} (positive : 0 < maxBatchSize)
    (maxBatchTokens : ℕ) (sequences : List (List String)) :
    model.predictWordActionsBatch positive maxBatchTokens sequences =
      sequences.map model.predictWordActions := by
  rw [predictWordActionsBatch]
  dsimp only
  have zipped : sequences.zip ((sequences.map model.encode).zip
      ((sequences.map model.encode).map fun tokens => model.tallyOf (tokens.map Prod.fst))) =
        sequences.map fun words =>
          (words, model.encode words, model.tallyOf ((model.encode words).map Prod.fst)) := by
    rw [List.map_map, List.zip_map', ← List.map_prod_left_eq_zip]
    rfl
  rw [tallies_eq, zipped, List.map_map]
  apply List.map_congr_left
  intro words _
  exact (model.predictWordActions_eq words).symm

end BertUtteranceModel

end Batches

section Assignments

variable [PythonText] (model : BertUtteranceModel)

namespace BertUtteranceModel

theorem length_normalizeWordMapping (words : List String) :
    (normalizeWordMapping words).length ≤ words.length := by
  rw [normalizeWordMapping]
  exact (List.length_filterMap_le _ _).trans (List.length_zipIdx).le

omit [PythonText] in
theorem length_finalizeActions (words : List String) (originalIndices rawActions : List ℕ) :
    (finalizeActions words originalIndices rawActions).length = words.length := by
  have kept (writes : List (ℕ × ℕ)) (expanded : List ℕ) :
      (writes.foldl (fun expanded write => expanded.set write.1 write.2) expanded).length =
        expanded.length := by
    induction writes generalizing expanded with
    | nil => rfl
    | cons write writes ih => rw [List.foldl_cons, ih, List.length_set]
  exact (kept _ _).trans List.length_replicate

theorem length_predictActions (words : List String) :
    (model.predictActions words).length = words.length := by
  simp only [predictActions]
  split
  · exact List.length_replicate
  · exact length_finalizeActions _ _ _

/-- Sequences without two words to classify keep their zeros, the others get their actions. -/
theorem predictActionsBatch_eq (wordSequences : List (List String)) :
    model.predictActionsBatch wordSequences = wordSequences.map model.predictActions := by
  simp only [predictActionsBatch, predictWordActionsBatch_eq, List.map_map]
  generalize isActive : wordSequences.zipIdx.filterMap (fun x =>
    if (normalizeWordMapping x.1).length ≤ 1 then none
    else some (x.2, x.1, normalizeWordMapping x.1)) = active
  have works : active.map (fun a => (a.1, finalizeActions a.2.1 (a.2.2.map Prod.snd)
      (model.predictWordActions (a.2.2.map Prod.fst)))) =
        wordSequences.zipIdx.flatMap fun x =>
          (if (normalizeWordMapping x.1).length ≤ 1 then [] else [model.predictActions x.1]).map
            (Prod.mk x.2) := by
    rw [← isActive, List.map_filterMap, List.filterMap_eq_flatMap_toList]
    apply List.flatMap_congr
    rintro ⟨words, sequence⟩ _
    simp only [predictActions]
    split
    · rfl
    · rfl
  have written (states : List (List ℕ)) : (active.zip (active.map fun a =>
      model.predictWordActions (a.2.2.map Prod.fst))).foldl (fun results write =>
        results.set write.1.1
          (finalizeActions write.1.2.1 (write.1.2.2.map Prod.snd) write.2)) states =
      (active.map fun a => (a.1, finalizeActions a.2.1 (a.2.2.map Prod.snd)
        (model.predictWordActions (a.2.2.map Prod.fst)))).foldl
          (deliver fun _ actions => actions) states := by
    rw [← List.map_prod_left_eq_zip, List.foldl_map, List.foldl_map]
    apply List.foldl_ext
    intro results a _
    exact (deliver_overwrite results (a.1, _)).symm
  have unified (states : List (List ℕ)) :
      (if active.isEmpty then states else (active.zip (active.map fun a =>
        model.predictWordActions (a.2.2.map Prod.fst))).foldl (fun results write =>
          results.set write.1.1
            (finalizeActions write.1.2.1 (write.1.2.2.map Prod.snd) write.2)) states) =
        (wordSequences.zipIdx.flatMap fun x =>
          (if (normalizeWordMapping x.1).length ≤ 1 then [] else [model.predictActions x.1]).map
            (Prod.mk x.2)).foldl (deliver fun _ actions => actions) states := by
    rw [← works, ← written]
    split
    · next empty =>
      rw [List.isEmpty_iff.mp empty]
      rfl
    · rfl
  refine (unified _).trans ?_
  apply List.ext_getElem?
  intro k
  have own := worksOf_numbered (fun words _ =>
    if (normalizeWordMapping words).length ≤ 1 then [] else [model.predictActions words])
    wordSequences 0 k
  rw [Nat.zero_add] at own
  rw [getElem?_foldl_deliver, own, List.getElem?_map, List.getElem?_map]
  cases wordSequences[k]? with
  | none => rfl
  | some words =>
      simp only [Option.map_some, Option.getD_some, predictActions]
      split
      · rfl
      · rfl

omit [PythonText] in
theorem length_assignmentsFrom (group : ℕ) (actions : List ℕ) :
    (assignmentsFrom group actions).length = actions.length := by
  induction actions generalizing group with
  | nil => rfl
  | cons action actions ih => rw [assignmentsFrom, List.length_cons, ih, List.length_cons]

omit [PythonText] in
theorem head?_assignmentsFrom {group first : ℕ} {actions : List ℕ}
    (isFirst : first ∈ (assignmentsFrom group actions).head?) : first = group := by
  cases actions with
  | nil => cases isFirst
  | cons action actions =>
      cases isFirst
      rfl

omit [PythonText] in
/-- From one word to the next the group stays or grows by one. -/
theorem assignmentsFrom_steps (group : ℕ) (actions : List ℕ) :
    (assignmentsFrom group actions).IsChain fun one next => next = one ∨ next = one + 1 := by
  induction actions generalizing group with
  | nil => exact List.isChain_nil
  | cons action actions ih =>
      rw [assignmentsFrom, List.isChain_cons]
      refine ⟨?_, ih _⟩
      intro next isNext
      rw [head?_assignmentsFrom isNext]
      split
      · exact Or.inr rfl
      · exact Or.inl rfl

/-- One word or none needs no model. -/
theorem assignmentsFrom_predictActions (words : List String) :
    assignmentsFrom 0 (model.predictActions words) = model.predictAssignments words := by
  rw [predictAssignments]
  split
  · next short =>
    have few := (length_normalizeWordMapping words).trans short
    simp only [predictActions]
    rw [if_pos few]
    rcases Nat.le_one_iff_eq_zero_or_eq_one.mp short with none | one
    · rw [none]
      rfl
    · rw [one]
      rfl
  · rfl

/-- A group for each word, from 0 on, and never one left out. -/
structure Grows (words : List String) (assignments : List ℕ) : Prop where
  length : assignments.length = words.length
  start : ∀ first ∈ assignments.head?, first = 0
  steps : assignments.IsChain fun one next => next = one ∨ next = one + 1

theorem predictAssignments_grows (words : List String) :
    Grows words (model.predictAssignments words) := by
  rw [← assignmentsFrom_predictActions]
  exact ⟨(length_assignmentsFrom _ _).trans (model.length_predictActions words),
    fun first isFirst => head?_assignmentsFrom isFirst, assignmentsFrom_steps _ _⟩

omit [PythonText] in
/-- The windows of a sequence, for the model and for the tokens. -/
structure Covers (inputIds : List ℕ) : Prop where
  covered : ∀ token < inputIds.length, ∃ bounds ∈ model.boundsFrom inputIds.length 0,
    bounds.1 ≤ token ∧ token < bounds.2
  readable : ∀ bounds ∈ model.boundsFrom inputIds.length 0,
    (model.windowIds inputIds bounds.1 bounds.2).length ≤ model.maxPositions

/-- Batched predictions are the predictions of the sequences one by one, the windows cover the
tokens and can be read, and the groups grow by steps. -/
theorem predictAssignmentsBatch_eq (wordSequences : List (List String)) :
    model.predictAssignmentsBatch wordSequences =
        wordSequences.map model.predictAssignments ∧
      (∀ inputIds, model.Covers inputIds) ∧
      ∀ words, Grows words (model.predictAssignments words) := by
  refine ⟨?_, ?_, model.predictAssignments_grows⟩
  · rw [predictAssignmentsBatch, predictActionsBatch_eq, List.map_map]
    exact List.map_congr_left fun words _ => model.assignmentsFrom_predictActions words
  · exact fun inputIds => ⟨fun token inside => model.exists_bounds (Nat.zero_le token) inside,
      fun bounds member => model.length_windowIds_le member⟩

end BertUtteranceModel

end Assignments

end Batchalign.Asr
