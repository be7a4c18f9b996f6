import Batchalign.Compare.Artifact
import Batchalign.Runners.Surroundings

/-!
# The comparison runner

`apply` of `taskrunners/compare.rs`. The pair is taken out of the value, and a placeholder
stands there until the annotated transcript takes its place.
-/

namespace Batchalign.Runners

open Batchalign.Chat Batchalign.Compare

section Stripping

def isGraTier : DependentTier → Bool
  | .gra _ => true
  | _ => false

def isCompareTier : DependentTier → Bool
  | .userDefined label _ => label == "xsrep" || label == "xsmor" || label == "xcmp"
  | _ => false

def isCompareSummary : Line → Bool
  | .header (.comment text) =>
      "ba.compare.summary:".toList.isPrefixOf (text.toList.dropWhile isWhitespace)
  | _ => false

def withoutTiers (dropped : DependentTier → Bool) : Line → Line
  | .utterance utt =>
      .utterance { utt with dependentTiers := utt.dependentTiers.filter fun tier => !dropped tier }
  | line => line

def stripGraTiers (chat : ChatFile) : ChatFile :=
  { chat with lines := chat.lines.map (withoutTiers isGraTier) }

def stripCompareTiers (chat : ChatFile) : ChatFile :=
  { chat with
    lines := (chat.lines.filter fun line => !isCompareSummary line).map
      (withoutTiers isCompareTier) }

end Stripping

section Apply

variable [ChatFormat] [Float64]

def strippedText (chat : Chat) : String :=
  ChatFormat.toChat (stripCompareTiers (stripGraTiers chat.ast))

/-- What the backend is sent for a pair. -/
def comparisonInput (pair : Paired) : CompareInput where
  sourceId := pair.main.sourceId
  mainChat := strippedText pair.main
  goldChat := strippedText pair.gold

/-- The answer as values: the annotated transcript and the table. -/
def comparedValue (pair : Paired) (output : CompareOutput) : BAResult BAValue := do
  let annotated ← (parseChat output.annotatedMain).mapError fun error =>
    .worker s!"compare: failed to re-parse annotated_main: {error.display}"
  return .list [
    .chat { ast := annotated, sourceId := pair.main.sourceId, media := pair.main.media },
    .metrics (compareMetricsToArtifact output.metrics pair.main.sourceId)]

/-- The source puts the placeholder before it looks at the kind of the value, and puts back
only a value of another kind. -/
def compareRunner (backend : CompareInput → BAResult CompareOutput) (value : BAValue) :
    RunnerOutcome :=
  let sourceId := value.sourceId
  let started := [RunnerEvent.stageStarted sourceId .compare]
  let placeholder := BAValue.failed sourceId (.internal "compare: in-flight placeholder") none
  match value with
  | .paired pair =>
      match (backend (comparisonInput pair)).bind (comparedValue pair) with
      | .error error => ⟨.error error, placeholder, started⟩
      | .ok compared =>
          ⟨.ok (), compared, started ++ [.stageInjected pair.main.sourceId .compare ""]⟩
  | .failed _ _ _ =>
      ⟨.ok (), .failed sourceId (.internal "compare: upstream failure") none, started⟩
  | other =>
      ⟨.error (.internal s!"CompareTaskRunner expected BAValue::Paired, got {other.kind}"), other,
        started⟩

/-- A pair survives only a comparison that succeeds. -/
theorem compareRunner_keeps_iff (backend : CompareInput → BAResult CompareOutput)
    (value : BAValue) :
    KeepsValue (compareRunner backend) value ↔
      ∀ pair, value = .paired pair →
        ∃ output, backend (comparisonInput pair) = .ok output ∧
          (parseChat output.annotatedMain).isOk = true := by
  cases value with
  | paired pair =>
      have parses : ∀ output, (comparedValue pair output).isOk =
          (parseChat output.annotatedMain).isOk := by
        intro output
        simp only [comparedValue]
        cases parseChat output.annotatedMain <;> rfl
      simp only [KeepsValue, compareRunner, BAValue.paired.injEq, forall_eq']
      cases answered : backend (comparisonInput pair) with
      | error error =>
          refine ⟨fun keeps => ?_, fun succeeds => ?_⟩
          · cases keeps error rfl
          · rcases succeeds with ⟨output, isAnswer, _⟩
            cases isAnswer
      | ok output =>
          simp only [Except.bind, Except.ok.injEq, exists_eq_left']
          rw [← parses output]
          cases compared : comparedValue pair output with
          | error error =>
              refine ⟨fun keeps => ?_, fun succeeds => ?_⟩
              · cases keeps error rfl
              · cases succeeds
          | ok _ =>
              refine ⟨fun _ => rfl, fun _ error fails => ?_⟩
              cases fails
  | failed sourceId error partialValue =>
      refine ⟨fun _ pair isPair => ?_, fun _ error fails => ?_⟩
      · cases isPair
      · cases fails
  | _ =>
      refine ⟨fun _ pair isPair => ?_, fun _ _ _ => rfl⟩
      cases isPair

end Apply

end Batchalign.Runners
