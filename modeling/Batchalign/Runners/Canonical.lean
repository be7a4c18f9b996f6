import Batchalign.Runners.Ai
import Batchalign.Runners.Annotations
import Batchalign.Runners.Compare
import Batchalign.Runners.Fa
import Batchalign.Runners.Media
import Batchalign.Runners.Morphosyntax
import Batchalign.Runners.Phonetic
import Batchalign.Runners.Speaker
import Batchalign.Runners.Utr

/-!
# The canonical runners

The runner of every task, and what is left of the value when it fails. Six runners change
the value in their last step only. The others write as they go, and keep the value if what
they have written by then was there already.
-/

namespace Batchalign.Runners

open Batchalign.Chat Batchalign.Alignment Batchalign.Compare Batchalign.Engine Batchalign.Utr

section Definitions

/-- The backends a dispatcher hands a task to. Two tasks dispatch more than once; their
answers are given for every dispatch. -/
structure Backends where
  ai : AiInput → BAResult AiOutput
  asr : AsrInput → BAResult AsrOutput
  fa : FaInput → BAResult FaOutput
  speaker : SpeakerInput → BAResult SpeakerOutput
  utSeg : ℕ → UtSegInput → BAResult UtSegOutput
  utr : AsrInput → BAResult AsrOutput
  morphotag : PairSide → ℕ → MorphosyntaxInput → BAResult MorphosyntaxOutput
  translate : TranslateInput → BAResult TranslateOutput
  coref : CorefInput → BAResult CorefOutput
  compare : CompareInput → BAResult CompareOutput
  convert : ConvertInput → BAResult MediaOutput
  phonetic : PhoneticInput → BAResult PhoneticOutput

variable (Threshold : Type) [Similarity Threshold] [Talkbank] [OverlapMarkers] [Float64]
  [ChatBuilder] [ChatDetails] [ChatFormat] [ValidationGates] [MediaAccess] [MorTiers] [PhoTiers]
  [AsrTranscripts] (backends : Backends)

def canonical : Task → Runner
  | .ai => aiRunner backends.ai
  | .asr => asrRunner backends.asr
  | .fa => faRunner backends.fa
  | .phonetic => phoneticRunner backends.phonetic
  | .speaker => speakerRunner backends.speaker
  | .utSeg => utSegRunner backends.utSeg
  | Task.morphosyntax => morphosyntaxRunner backends.morphotag
  | .translate => translateRunner backends.translate
  | .utr => utrRunner Threshold backends.utr
  | .coref => corefRunner backends.coref
  | .compare => compareRunner backends.compare
  | .convert => convertRunner backends.convert

end Definitions

section Failures

variable [Talkbank] [ChatDetails]

/-- The answers that cannot leave a transcript half annotated. -/
theorem corefRunner_keeps_iff (backend : CorefInput → BAResult CorefOutput) (value : BAValue) :
    KeepsValue (corefRunner backend) value ↔
      ∀ chat, value.chat? = some chat →
        ∀ output, backend (corefInput chat) = .ok output → AnswerFits chat output.annotations := by
  rw [corefRunner, onChat_keeps_iff]
  refine forall₂_congr fun chat _ => ?_
  rw [annotateChat_keeps_iff]
  cases backend (corefInput chat) <;> simp [Except.map]

variable [ChatBuilder]

theorem translateRunner_keeps_iff (backend : TranslateInput → BAResult TranslateOutput)
    (value : BAValue) :
    KeepsValue (translateRunner backend) value ↔
      ∀ chat, value.chat? = some chat →
        ∀ output, backend (translateInput chat) = .ok output →
          AnswerFits chat output.utterances := by
  rw [translateRunner, onChat_keeps_iff]
  refine forall₂_congr fun chat _ => ?_
  rw [annotateChat_keeps_iff]
  cases backend (translateInput chat) <;> simp [Except.map]

end Failures

section Segmenter

variable [Talkbank] [ChatBuilder]

theorem utSegRunner_keeps (answers : ℕ → UtSegInput → BAResult UtSegOutput) (value : BAValue) :
    KeepsValue (utSegRunner answers) value := by
  cases value with
  | chat chat =>
      show Keeps (utSegRunner answers (.chat chat)) (.chat chat)
      simp only [utSegRunner, utSegChat]
      split
      · exact keeps_error _ _ _
      · split
        · exact keeps_error _ _ _
        · exact keeps_ok _ _ _
  | failed sourceId error partialValue => exact keeps_ok _ _ _
  | _ => exact keeps_error _ _ _

end Segmenter

section Condition

variable [Talkbank] [OverlapMarkers] [Float64] [ChatBuilder] [ChatDetails] [ChatFormat]
  [ValidationGates] [MediaAccess] [MorTiers] [PhoTiers] [AsrTranscripts]

/-- The condition on value and answers under which a stage that fails leaves its input. -/
def LeavesLastGood (backends : Backends) (value : BAValue) : Task → Prop
  | .coref =>
      ∀ chat, value.chat? = some chat →
        ∀ output, backends.coref (corefInput chat) = .ok output →
          AnswerFits chat output.annotations
  | .translate =>
      ∀ chat, value.chat? = some chat →
        ∀ output, backends.translate (translateInput chat) = .ok output →
          AnswerFits chat output.utterances
  | .speaker =>
      ∀ chat, value.chat? = some chat →
        ∀ output, diarization backends.speaker chat = .ok output →
          ¬ LacksTemplate chat.ast output.segments
  | .fa =>
      ∀ chat, value.chat? = some chat →
        AlignmentFails backends.fa chat → ¬ AlignmentWrites backends.fa chat
  | Task.morphosyntax => TaggingKeeps backends.morphotag value
  | .compare =>
      ∀ pair, value = .paired pair →
        ∃ output, backends.compare (comparisonInput pair) = .ok output ∧
          (parseChat output.annotatedMain).isOk = true
  | .ai | .asr | .utSeg | .utr | .convert | .phonetic => True

variable {Threshold : Type} [Similarity Threshold]

theorem canonical_keeps_iff (backends : Backends) (task : Task) (value : BAValue) :
    KeepsValue (canonical Threshold backends task) value ↔
      LeavesLastGood backends value task := by
  cases task with
  | coref => exact corefRunner_keeps_iff backends.coref value
  | translate => exact translateRunner_keeps_iff backends.translate value
  | speaker => exact speakerRunner_keeps_iff backends.speaker value
  | fa => exact faRunner_keeps_iff backends.fa value
  | morphosyntax => exact morphosyntaxRunner_keeps_iff backends.morphotag value
  | compare => exact compareRunner_keeps_iff backends.compare value
  | ai => exact iff_true_intro (aiRunner_keeps backends.ai value)
  | asr => exact iff_true_intro (asrRunner_keeps backends.asr value)
  | utSeg => exact iff_true_intro (utSegRunner_keeps backends.utSeg value)
  | utr => exact iff_true_intro (utrRunner_keeps backends.utr value)
  | convert => exact iff_true_intro (convertRunner_keeps backends.convert value)
  | phonetic => exact iff_true_intro (phoneticRunner_keeps backends.phonetic value)

end Condition

end Batchalign.Runners
