import Batchalign.Morphosyntax.Basic

/-!
# The utterance model

`BertUtteranceModel` of `backends/asr/chatwhisper.py`, with `predict_assignments` for one sequence
of words and `predict_assignments_batch` for many. A sequence of tokens is read in overlapping
windows, and the scores of a token are averaged over the windows that it is in. Scores are
rational numbers, so that sums are exact.
-/

namespace Batchalign.Asr

open Batchalign.Morphosyntax (PythonText strip)

section Model

/-- A row of a padded batch. -/
def paddedRow (length pad : ℕ) (ids : List ℕ) : List ℕ :=
  ids ++ List.replicate (length - ids.length) pad

def maskRow (length : ℕ) (ids : List ℕ) : List ℕ :=
  List.replicate ids.length 1 ++ List.replicate (length - ids.length) 0

/-- The tokenizer and the classifier. The tokenizer returns the input ids and for each token the
word it belongs to, if any. The scores of the real positions of a row, which the mask shows, are
a function of the ids there. -/
structure BertUtteranceModel where
  encode : List String → List (ℕ × Option ℕ)
  clsTokenId : ℕ
  sepTokenId : ℕ
  padTokenId : Option ℕ
  maxPositions : ℕ
  numLabels : ℕ
  logits : List (List ℕ) → List (List ℕ) → List (List (List ℚ))
  score : List ℕ → List (List ℚ)
  wordsInRange : ∀ words, ∀ token ∈ encode words, ∀ word ∈ token.2, word < words.length
  roomy : 3 ≤ maxPositions
  realPositions : ∀ (windows : List (List ℕ)) (length pad : ℕ), length ≤ maxPositions →
    (∀ ids ∈ windows, ids.length ≤ length) → ∀ (row : ℕ) (ids : List ℕ), windows[row]? = some ids →
      ((logits (windows.map (paddedRow length pad)) (windows.map (maskRow length))).getD row
        []).take ids.length = score ids

theorem wordwise_inRange (words : List String) :
    ∀ token ∈ words.zipIdx.map fun (word, index) => (word.length, some index),
      ∀ word ∈ token.2, word < words.length := by
  intro token member word isWord
  rcases List.mem_map.mp member with ⟨⟨text, index⟩, numbered, rfl⟩
  cases isWord
  exact List.snd_lt_of_mem_zipIdx numbered

theorem tokenwise_real (f : ℕ → List ℚ) {windows : List (List ℕ)} {length pad row : ℕ}
    {ids : List ℕ} (isRow : windows[row]? = some ids) :
    (((windows.map (paddedRow length pad)).map (List.map f)).getD row []).take ids.length =
      ids.map f := by
  rw [List.getD_eq_getElem?_getD, List.getElem?_map, List.getElem?_map, isRow, Option.map_some,
    Option.map_some, Option.getD_some, paddedRow, List.map_append]
  exact List.take_left' (List.length_map f)

/-- A model with a token for each word, which scores each token by itself. -/
instance : Inhabited BertUtteranceModel where
  default :=
    { encode := fun words => words.zipIdx.map fun (word, index) => (word.length, some index)
      clsTokenId := 101
      sepTokenId := 102
      padTokenId := some 0
      maxPositions := 512
      numLabels := 1
      logits := fun inputIds _ => inputIds.map (List.map fun (id : ℕ) => [(id : ℚ)])
      score := List.map fun (id : ℕ) => [(id : ℚ)]
      wordsInRange := wordwise_inRange
      roomy := Nat.le_add_left 3 509
      realPositions := fun _ _ _ _ _ _ _ isRow => tokenwise_real (fun id => [(id : ℚ)]) isRow }

variable (model : BertUtteranceModel)

def BertUtteranceModel.innerWindow : ℕ := min 480 (model.maxPositions - 2)

def BertUtteranceModel.stride : ℕ :=
  if model.innerWindow ≤ 96 then model.innerWindow else model.innerWindow - 96

theorem BertUtteranceModel.innerWindow_pos : 0 < model.innerWindow := by
  have roomy := model.roomy
  rw [innerWindow]
  omega

theorem BertUtteranceModel.stride_pos : 0 < model.stride := by
  have inner := model.innerWindow_pos
  rw [stride]
  split <;> omega

theorem BertUtteranceModel.stride_le : model.stride ≤ model.innerWindow := by
  rw [stride]
  split <;> omega

/-- Start and end of the windows from `start` on: the loop `while True`. -/
def BertUtteranceModel.boundsFrom (tokenCount start : ℕ) : List (ℕ × ℕ) :=
  let stop := min (start + model.innerWindow) tokenCount
  if tokenCount ≤ stop then [(start, stop)]
  else (start, stop) :: BertUtteranceModel.boundsFrom tokenCount (start + model.stride)
termination_by tokenCount - start
decreasing_by
  have stride := model.stride_pos
  omega

end Model

section Words

variable [PythonText]

/-- `re.sub(r"[.?!,]", "", word)`. -/
def stripUtterancePunct (word : String) : String :=
  String.ofList (word.toList.filter fun c => ! ['.', '?', '!', ','].contains c)

/-- The normalized words with their places among the words. -/
def normalizeWordMapping (words : List String) : List (String × ℕ) :=
  words.zipIdx.filterMap fun (word, originalIndex) =>
    let lowered := strip (PythonText.lower word)
    if lowered.isEmpty then none
    else
      let cleaned := stripUtterancePunct lowered
      if cleaned.isEmpty then none else some (cleaned, originalIndex)

end Words

section Tally

/-- `accumulated` and `counts` of a sequence. -/
structure Tally where
  accumulated : List (List ℚ)
  counts : List ℚ
deriving DecidableEq, Repr

def Tally.zero (tokenCount numLabels : ℕ) : Tally :=
  ⟨List.replicate tokenCount (List.replicate numLabels 0), List.replicate tokenCount 0⟩

/-- `accumulated[start:end] += rows` and `counts[start:end] += 1.0`. -/
def Tally.add (tally : Tally) (start stop : ℕ) (rows : List (List ℚ)) : Tally where
  accumulated := tally.accumulated.mapIdx fun token sums =>
    if start ≤ token ∧ token < stop then
      List.zipWith (· + ·) sums (rows.getD (token - start) [])
    else sums
  counts := tally.counts.mapIdx fun token count =>
    if start ≤ token ∧ token < stop then count + 1 else count

/-- The first label with the highest score. -/
def argmax (scores : List ℚ) : ℕ := scores.findIdx fun score => scores.all (· ≤ score)

def Tally.tokenActions (tally : Tally) : List ℕ :=
  List.zipWith (fun sums count => argmax (sums.map (· / count))) tally.accumulated tally.counts

/-- Every word takes the action of the first of its tokens. -/
def placeActions : Option ℕ → List (Option ℕ × ℕ) → List ℕ → List ℕ
  | _, [], wordActions => wordActions
  | previous, (none, _) :: rest, wordActions => placeActions previous rest wordActions
  | previous, (some word, action) :: rest, wordActions =>
      if previous = some word then placeActions previous rest wordActions
      else placeActions (some word) rest (wordActions.set word action)

def wordActionsOf (words : List String) (tokens : List (ℕ × Option ℕ)) (tally : Tally) : List ℕ :=
  placeActions none ((tokens.map Prod.snd).zip tally.tokenActions)
    (List.replicate words.length 0)

end Tally

section Serial

namespace BertUtteranceModel

variable (model : BertUtteranceModel)

def windowIds (inputIds : List ℕ) (start stop : ℕ) : List ℕ :=
  model.clsTokenId :: ((inputIds.take stop).drop start ++ [model.sepTokenId])

/-- `_predict_word_actions`. -/
def predictWordActions (words : List String) : List ℕ :=
  let tokens := model.encode words
  let inputIds := tokens.map Prod.fst
  let tally := (model.boundsFrom inputIds.length 0).foldl
    (fun (tally : Tally) (start, stop) =>
      let ids := model.windowIds inputIds start stop
      let innerCount := ((inputIds.take stop).drop start).length
      let logits := (model.logits [ids] [List.replicate ids.length 1]).getD 0 []
      tally.add start stop ((logits.take (innerCount + 1)).drop 1))
    (Tally.zero inputIds.length model.numLabels)
  wordActionsOf words tokens tally

/-- Of two adjacent actions the earlier one is dropped. -/
def dropAdjacent : List ℕ → List ℕ
  | action :: next :: rest =>
      (if 0 < action ∧ 0 < next then 0 else action) :: dropAdjacent (next :: rest)
  | actions => actions

def finalizeActions (words : List String) (originalIndices rawActions : List ℕ) : List ℕ :=
  (originalIndices.zip (dropAdjacent rawActions)).foldl
    (fun expanded (originalIndex, action) => expanded.set originalIndex action)
    (List.replicate words.length 0)

variable [PythonText]

def predictActions (words : List String) : List ℕ :=
  let normalized := normalizeWordMapping words
  if normalized.length ≤ 1 then List.replicate words.length 0
  else finalizeActions words (normalized.map Prod.snd)
    (model.predictWordActions (normalized.map Prod.fst))

/-- The groups, with the boundary behind each word whose action ends an utterance. -/
def assignmentsFrom : ℕ → List ℕ → List ℕ
  | _, [] => []
  | currentGroup, action :: actions =>
      currentGroup ::
        assignmentsFrom (if [2, 3, 4].contains action then currentGroup + 1 else currentGroup)
          actions

def predictAssignments (words : List String) : List ℕ :=
  if words.length ≤ 1 then List.replicate words.length 0
  else assignmentsFrom 0 (model.predictActions words)

end BertUtteranceModel

end Serial

section Batched

/-- A window of a sequence; `length` is that of its ids. -/
structure Window where
  length : ℕ
  sequence : ℕ
  start : ℕ
  stop : ℕ
  innerCount : ℕ
  ids : List ℕ
deriving DecidableEq, Repr

/-- The inner loop, with the batch so far and its padded length. It leaves what does not fit. -/
def fillBatch (maxBatchSize maxBatchTokens : ℕ) :
    List Window → ℕ → List Window → (List Window × ℕ) × List Window
  | batch, paddedLength, [] => ((batch, paddedLength), [])
  | batch, paddedLength, candidate :: rest =>
      if batch.length < maxBatchSize then
        let candidateLength := max paddedLength candidate.length
        if ! batch.isEmpty && maxBatchTokens < candidateLength * (batch.length + 1) then
          ((batch, paddedLength), candidate :: rest)
        else fillBatch maxBatchSize maxBatchTokens (batch ++ [candidate]) candidateLength rest
      else ((batch, paddedLength), candidate :: rest)

theorem length_fillBatch (maxBatchSize maxBatchTokens : ℕ) (batch : List Window) (padded : ℕ)
    (windows : List Window) :
    (fillBatch maxBatchSize maxBatchTokens batch padded windows).2.length ≤ windows.length := by
  fun_induction fillBatch maxBatchSize maxBatchTokens batch padded windows with
  | case1 => exact le_rfl
  | case2 => exact le_rfl
  | case3 batch padded candidate rest _ _ _ ih => exact ih.trans (Nat.le_succ _)
  | case4 => exact le_rfl

/-- A batch takes the first window. -/
theorem length_fillBatch_lt {maxBatchSize : ℕ} (positive : 0 < maxBatchSize) (maxBatchTokens : ℕ)
    (window : Window) (windows : List Window) :
    (fillBatch maxBatchSize maxBatchTokens [] 0 (window :: windows)).2.length <
      (window :: windows).length := by
  rw [fillBatch, List.length_nil, if_pos positive]
  exact Nat.lt_succ_of_le (length_fillBatch ..)

/-- The outer loop. -/
def batchesFrom {maxBatchSize : ℕ} (positive : 0 < maxBatchSize) (maxBatchTokens : ℕ) :
    List Window → List (List Window × ℕ)
  | [] => []
  | window :: windows =>
      (fillBatch maxBatchSize maxBatchTokens [] 0 (window :: windows)).1 ::
        batchesFrom positive maxBatchTokens
          (fillBatch maxBatchSize maxBatchTokens [] 0 (window :: windows)).2
termination_by windows => windows.length
decreasing_by exact length_fillBatch_lt positive maxBatchTokens window windows

namespace BertUtteranceModel

variable (model : BertUtteranceModel)

/-- The windows of a sequence: the loop `while token_count`. -/
def windowsOf (inputIds : List ℕ) (sequence : ℕ) : List Window :=
  if inputIds.length = 0 then []
  else (model.boundsFrom inputIds.length 0).map fun (start, stop) =>
    let innerCount := ((inputIds.take stop).drop start).length
    ⟨innerCount + 2, sequence, start, stop, innerCount, model.windowIds inputIds start stop⟩

/-- One forward pass; every row is added to the tally of its sequence. -/
def runWindows (tallies : List Tally) (batch : List Window × ℕ) : List Tally :=
  let pad := model.padTokenId.getD 0
  let logits := model.logits (batch.1.map fun window => paddedRow batch.2 pad window.ids)
    (batch.1.map fun window => maskRow batch.2 window.ids)
  batch.1.zipIdx.foldl
    (fun tallies (window, row) => tallies.modify window.sequence fun tally =>
      tally.add window.start window.stop
        (((logits.getD row []).take (window.innerCount + 1)).drop 1))
    tallies

/-- `_predict_word_actions_batch`. -/
def predictWordActionsBatch {maxBatchSize : ℕ} (positive : 0 < maxBatchSize)
    (maxBatchTokens : ℕ) (sequences : List (List String)) : List (List ℕ) :=
  let encoded := sequences.map model.encode
  let windows := encoded.zipIdx.flatMap fun (tokens, sequence) =>
    model.windowsOf (tokens.map Prod.fst) sequence
  let sorted := windows.insertionSort fun one other => one.length ≤ other.length
  let tallies := (batchesFrom positive maxBatchTokens sorted).foldl model.runWindows
    (encoded.map fun tokens => Tally.zero tokens.length model.numLabels)
  (sequences.zip (encoded.zip tallies)).map fun (words, tokens, tally) =>
    wordActionsOf words tokens tally

variable [PythonText]

def predictActionsBatch (wordSequences : List (List String)) : List (List ℕ) :=
  let results := wordSequences.map fun words => List.replicate words.length 0
  let active := wordSequences.zipIdx.filterMap fun (words, sequence) =>
    let normalized := normalizeWordMapping words
    if normalized.length ≤ 1 then none else some (sequence, words, normalized)
  if active.isEmpty then results
  else
    let rawBatches := @predictWordActionsBatch model 32 (Nat.succ_pos 31) 2048
      (active.map fun (_, _, normalized) => normalized.map Prod.fst)
    (active.zip rawBatches).foldl
      (fun results ((sequence, words, normalized), rawActions) =>
        results.set sequence (finalizeActions words (normalized.map Prod.snd) rawActions))
      results

def predictAssignmentsBatch (wordSequences : List (List String)) : List (List ℕ) :=
  (model.predictActionsBatch wordSequences).map (assignmentsFrom 0)

end BertUtteranceModel

end Batched

end Batchalign.Asr
