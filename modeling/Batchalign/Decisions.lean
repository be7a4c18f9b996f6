import Mathlib

/-!
# Decision records

What a stage notes about a decision a reader may want to review, from
`batchalign-core/src/decisions.rs`.
-/

namespace Batchalign.Decisions

inductive FaStrategy where
  | gapFilled
  | boundaryAveraged
  | lisRemoval
  | timingStripped
  | wordsTimingDropped
  | narrowBulletRescued
deriving DecidableEq, Repr

inductive UtrStrategy where
  | zeroDurationSkipped
  | unmatched
deriving DecidableEq, Repr

inductive MonotonicityStrategy where
  | endClamped
  | timingStripped
deriving DecidableEq, Repr

inductive MorphosyntaxStrategy where
  | notApplicable
  | misalignmentBug
  | mappingFailed
  | retokenizationFailed
  | injectionFailed
  | nlpNoSentences
deriving DecidableEq, Repr

inductive CorefStrategy where
  | sentenceIndexOutOfBounds
  | injectionFailed
deriving DecidableEq, Repr

inductive UtsegStrategy where
  | notApplicable
  | misalignmentBug
deriving DecidableEq, Repr

inductive DecisionStrategy where
  | fa (strategy : FaStrategy)
  | utr (strategy : UtrStrategy)
  | monotonicity (strategy : MonotonicityStrategy)
  | morphosyntax (strategy : MorphosyntaxStrategy)
  | coref (strategy : CorefStrategy)
  | utseg (strategy : UtsegStrategy)
deriving DecidableEq, Repr

structure DecisionRecord where
  lineIdx : ℕ
  speaker : String
  strategy : DecisionStrategy
  reason : String
  needsReview : Bool
deriving DecidableEq, Repr

end Batchalign.Decisions
