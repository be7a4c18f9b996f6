import Batchalign.Alignment.Basic

/-!
# Planning one UTR pass

The planner of `batchalign-core/src/taskrunners/utr/strategy.rs`. It maps the
words of the transcript to ASR tokens, by a greedy embedding when that embedding
is the only one and by the global aligner otherwise, and collects for each
utterance the least and the greatest token index its words were mapped to.

Indexing a vector outside its bounds panics. A function that indexes returns
`none` where the source panics.
-/

namespace Batchalign.Utr

open Batchalign.Alignment

/-- Least and greatest matched token index of each utterance. -/
abbrev UtrTokenRanges := List (Option (ℕ × ℕ))

inductive UtrAlignmentStrategy where
  | uniqueExactSubsequence
  | globalDp
deriving DecidableEq, Repr

structure UtrAlignmentPlan where
  strategy : UtrAlignmentStrategy
  uttRanges : UtrTokenRanges
deriving DecidableEq, Repr

def updateUttRange (uttRange : Option (ℕ × ℕ)) (referenceIdx : ℕ) : Option (ℕ × ℕ) :=
  match uttRange with
  | some (minIdx, maxIdx) =>
      some (if referenceIdx < minIdx then referenceIdx else minIdx,
        if referenceIdx > maxIdx then referenceIdx else maxIdx)
  | none => some (referenceIdx, referenceIdx)

/-- The loop body both collectors share. -/
def recordMatch (wordToUtt : List ℕ) (uttRanges : UtrTokenRanges) (payloadIdx referenceIdx : ℕ) :
    Option UtrTokenRanges := do
  let uttIdx ← wordToUtt[payloadIdx]?
  let uttRange ← uttRanges[uttIdx]?
  some (uttRanges.set uttIdx (updateUttRange uttRange referenceIdx))

def collectUttRangesFromMatchIndices (matchedReferenceIndices wordToUtt : List ℕ)
    (uttCount : ℕ) : Option UtrTokenRanges :=
  matchedReferenceIndices.zipIdx.foldlM
    (fun uttRanges matched => recordMatch wordToUtt uttRanges matched.2 matched.1)
    (List.replicate uttCount none)

/-- The loop body of `collect_utt_ranges_from_alignment`. -/
def recordResult (wordToUtt : List ℕ) (uttRanges : UtrTokenRanges) :
    AlignResult → Option UtrTokenRanges
  | .matchPair _ payloadIdx referenceIdx =>
      recordMatch wordToUtt uttRanges payloadIdx referenceIdx
  | .extraPayload _ _ | .extraReference _ _ => some uttRanges

def collectUttRangesFromAlignment (alignment : List AlignResult) (wordToUtt : List ℕ)
    (uttCount : ℕ) : Option UtrTokenRanges :=
  alignment.foldlM (recordResult wordToUtt) (List.replicate uttCount none)

/-- The inner `while`: the first index from `idx` on whose token equals the word, where
`tokens` is the reference from `idx` on. -/
def nextMatchIndex (payloadWord : String) : List String → ℕ → Option ℕ
  | [], _ => none
  | token :: tokens, idx =>
      if eqIgnoreAsciiCase payloadWord token then some idx
      else nextMatchIndex payloadWord tokens (idx + 1)

def greedyForwardFrom (reference : List String) : List String → ℕ → Option (List ℕ)
  | [], _ => some []
  | payloadWord :: payload, referenceIdx =>
      match nextMatchIndex payloadWord (reference.drop referenceIdx) referenceIdx with
      | none => none
      | some found => (greedyForwardFrom reference payload (found + 1)).map (found :: ·)

def greedyForwardMatchIndices (payload reference : List String) : Option (List ℕ) :=
  greedyForwardFrom reference payload 0

/-- The inner `while` of the reverse scan: the last index below `idx` whose token equals
the word. -/
def previousMatchIndex (payloadWord : String) (reference : List String) : ℕ → Option ℕ
  | 0 => none
  | idx + 1 =>
      if (reference[idx]?).any (eqIgnoreAsciiCase payloadWord) then some idx
      else previousMatchIndex payloadWord reference idx

/-- The positions of the words read from the last one backwards, in that order. -/
def greedyReverseFrom (reference : List String) : List String → ℕ → Option (List ℕ)
  | [], _ => some []
  | payloadWord :: payload, referenceIdx =>
      match previousMatchIndex payloadWord reference referenceIdx with
      | none => none
      | some found => (greedyReverseFrom reference payload found).map (found :: ·)

def greedyReverseMatchIndices (payload reference : List String) : Option (List ℕ) :=
  (greedyReverseFrom reference payload.reverse reference.length).map List.reverse

/-- The outer option is the panic of the collector, the inner one the function's own. -/
def tryUniqueExactSubsequenceRanges (allWords asrTexts : List String) (wordToUtt : List ℕ)
    (uttCount : ℕ) : Option (Option UtrTokenRanges) :=
  match greedyForwardMatchIndices allWords asrTexts,
      greedyReverseMatchIndices allWords asrTexts with
  | some earliest, some latest =>
      if earliest ≠ latest then some none
      else (collectUttRangesFromMatchIndices earliest wordToUtt uttCount).map some
  | _, _ => some none

section Plan

variable {Threshold : Type} [Similarity Threshold]

def planUtrAlignment (allWords asrTexts : List String) (wordToUtt : List ℕ) (uttCount : ℕ)
    (dpMatchMode : MatchMode Threshold) : Option UtrAlignmentPlan := do
  let globalDp := do
    let uttRanges ← collectUttRangesFromAlignment (align allWords asrTexts dpMatchMode)
      wordToUtt uttCount
    some ⟨.globalDp, uttRanges⟩
  match dpMatchMode with
  | .exact | .caseInsensitive =>
      match ← tryUniqueExactSubsequenceRanges allWords asrTexts wordToUtt uttCount with
      | some uttRanges => some ⟨.uniqueExactSubsequence, uttRanges⟩
      | none => globalDp
  | .fuzzy _ => globalDp

end Plan

end Batchalign.Utr
