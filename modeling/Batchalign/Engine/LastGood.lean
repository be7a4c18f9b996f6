import Batchalign.Chat.Documented
import Batchalign.Runners.Canonical
import Batchalign.Utr.Ordered

/-!
# What a failed stage leaves

`try_step` wraps the value as the runner left it. With the canonical runners that is the
value the stage was given exactly under the condition of `canonical_keeps_iff`.
-/

namespace Batchalign.Engine

open Batchalign.Chat Batchalign.Alignment Batchalign.Compare Batchalign.Runners Batchalign.Utr

section Failures

variable [ChatFormat] [ValidationGates]

theorem tryStep_error {inner : PipelineInner} {task : Task} {runner : Runner} {value : BAValue}
    {error : BAError} (isRunner : inner.runners task = some runner)
    (accepted : validateValueForStage task .pre value = .ok ())
    (fails : (runner value).result = .error error) :
    (tryStep inner task value).1 = .failed value.sourceId error (some (runner value).value) := by
  simp only [tryStep, isRunner, accepted, fails]

variable {Threshold : Type} [Similarity Threshold] [Talkbank] [OverlapMarkers] [Float64]
  [ChatBuilder] [ChatDetails] [MediaAccess] [MorTiers] [PhoTiers] [AsrTranscripts]

/-- A stage that fails in its runner keeps the last good value under the condition, and only
under it. -/
theorem tryStep_keepsLastGood_iff {inner : PipelineInner} {task : Task} {value : BAValue}
    (backends : Backends)
    (isCanonical : inner.runners task = some (canonical Threshold backends task))
    (accepted : validateValueForStage task .pre value = .ok ()) :
    (∀ error, (canonical Threshold backends task value).result = .error error →
        (tryStep inner task value).1 = .failed value.sourceId error (some value)) ↔
      LeavesLastGood backends value task := by
  have keeps : KeepsValue (canonical Threshold backends task) value ↔
      LeavesLastGood backends value task := canonical_keeps_iff backends task value
  rw [← keeps]
  refine forall₂_congr fun error fails => ?_
  rw [tryStep_error isCanonical accepted fails, BAValue.failed.injEq, Option.some.injEq]
  simp

end Failures

section Instances

open Documented

instance plainDetails : ChatDetails where
  skipsAlignment chat := chat.lines.any fun
    | .header (.other text) => text == "@Options:\tNoAlign"
    | _ => false
  conversationAnalysis chat := chat.lines.any fun
    | .header (.other text) => text == "@Options:\tCA"
    | _ => false
  clearMediaUnlinked lines := lines.map fun
    | .header (.other text) => .header (.other ((stripSuffix ", unlinked" text).getD text))
    | line => line
  stampProvenance lines stage engine :=
    let engineName := engine.getD "<unknown>"
    let stamp := s!"batchalign unknown | {stage}: {engineName} | now"
    lines.insertIdx (lines.findIdx Line.isUtterance) (.header (.comment stamp))
  terminatorText := writeTerminator
  lineText
    | .header header => (stripSuffix "\n" (writeHeader header)).getD ""
    | .utterance utt => writeUtterance utt
    | .other text => text

/-- No media file can be found. -/
instance noMedia : MediaAccess where
  siblingMedia _ := none
  preparePcm media := .error s!"audio_prep: open {media.path}"
  preparePcmInterleaved media := .error s!"audio_prep: open {media.path}"

/-- Chunks and relations are only counted. -/
instance countedTiers : MorTiers where
  tryAlignMorGra mors relations _ :=
    let chunks := mors.flatMap fun mor => mor.main :: mor.postClitics
    if chunks.length = relations.length then
      .ok (" ".intercalate (chunks.map fun word => s!"{word.pos}|{word.stem}"),
        " ".intercalate (relations.map fun relation =>
          s!"{relation.index}|{relation.head}|{relation.relation}"))
    else .error s!"{chunks.length} chunks, {relations.length} relations"
  alignMainToMor main content :=
    if (walkItems (some .mor) main.content.content).length =
        (splitWhitespace content).length then []
    else ["E705"]
  switchesLanguage _ _ := false

instance wordUnits : PhoTiers where
  collectTierItems items := (walkItems (some .pho) items).filterMap fun item =>
    (wordText item).map fun text => ⟨text, none⟩
  fromTokens tokens := " ".intercalate tokens

/-- A transcriber without a chat builder. -/
instance noTranscripts : AsrTranscripts where
  buildChatFromAsr _ _ _ := .error (.internal "build_chat: no utterances")

/-- The coreference backend returns a text too many, and no other backend is registered. -/
def surplusBackends : Backends where
  ai _ := .error (.internal "no backend")
  asr _ := .error (.internal "no backend")
  fa _ := .error (.internal "no backend")
  speaker _ := .error (.internal "no backend")
  utSeg _ _ := .error (.internal "no backend")
  utr _ := .error (.internal "no backend")
  morphotag _ _ _ := .error (.internal "no backend")
  translate _ := .error (.internal "no backend")
  coref input := .ok ⟨input.sourceId, ["(0)", "(1)"]⟩
  compare _ := .error (.internal "no backend")
  convert _ := .error (.internal "no backend")
  phonetic _ := .error (.internal "no backend")

def canonicalPipeline (backends : Backends) : PipelineInner where
  order := []
  runners task := some (canonical ℚ backends task)
  stampProvenance _ chat := chat
  trace := none

def sampleTurn : Chat := ⟨sampleMain, "talk", none⟩

def samplePair : Paired := ⟨sampleTurn, ⟨sampleGold, "talk", none⟩⟩

theorem tryStep_keepsLastGood_iff_sample :
    (∀ error, (canonical ℚ surplusBackends .coref (.chat sampleTurn)).result = .error error →
        (tryStep (canonicalPipeline surplusBackends) .coref (.chat sampleTurn)).1 =
          .failed "talk" error (some (.chat sampleTurn))) ↔
      LeavesLastGood surplusBackends (.chat sampleTurn) .coref :=
  tryStep_keepsLastGood_iff surplusBackends rfl (by decide +kernel)

/-- A surplus annotation leaves the tier of the first, and a comparison that fails leaves its
placeholder. -/
theorem tryStep_loses_lastGood :
    (∃ left, (tryStep (canonicalPipeline surplusBackends) .coref (.chat sampleTurn)).1 =
        .failed "talk" (.internal "Coref: utterance/output count mismatch (1 vs 2)")
          (some (.chat left)) ∧
      left.ast.utterances.map Utterance.dependentTiers = [[.userDefined "xcor" (some "(0)")]] ∧
      sampleTurn.ast.utterances.map Utterance.dependentTiers = [[]]) ∧
    (tryStep (canonicalPipeline surplusBackends) .compare (.paired samplePair)).1 =
      .failed "talk" (.internal "no backend")
        (some (.failed "talk" (.internal "compare: in-flight placeholder") none)) := by
  have corefAccepted :
      validateValueForStage .coref .pre (.chat sampleTurn) = .ok () := by decide +kernel
  have compareAccepted :
      validateValueForStage .compare .pre (.paired samplePair) = .ok () := by decide +kernel
  have mismatch : (canonical ℚ surplusBackends .coref (.chat sampleTurn)).result =
      .error (.internal "Coref: utterance/output count mismatch (1 vs 2)") := by decide +kernel
  constructor
  · refine ⟨{ sampleTurn with ast := (injectTiers corefTier sampleMain ["(0)", "(1)"]).2 }, ?_,
      by decide +kernel, rfl⟩
    exact @tryStep_error _ _ (canonicalPipeline surplusBackends) .coref _ _ _ rfl corefAccepted
      mismatch
  · exact @tryStep_error _ _ (canonicalPipeline surplusBackends) .compare _ _ _ rfl
      compareAccepted rfl

end Instances

end Batchalign.Engine
