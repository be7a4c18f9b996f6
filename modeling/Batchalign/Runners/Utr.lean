import Batchalign.Runners.Surroundings
import Batchalign.Utr.Slots

/-!
# The timing recovery runner

`apply` of `taskrunners/utr/mod.rs`. Review tiers are not asked for, so the decisions of the
pass are dropped.
-/

namespace Batchalign.Runners

open Batchalign.Chat Batchalign.Alignment Batchalign.Utr

section Utr

/-- Some utterance has a bullet that spans time. -/
def anyUtteranceAlreadyTimed (chat : ChatFile) : Bool :=
  chat.utterances.any fun utt =>
    utt.bullet.any fun bullet => bullet.timing.startMs < bullet.timing.endMs

def zeroDurationToleranceMs : ℕ := 20

def asrOutputToUtrTokens (out : AsrOutput) : List AsrTimingToken :=
  (out.segments.flatMap AsrSegment.words).filterMap fun word =>
    if word.endMs ≤ word.startMs ∨ word.endMs - word.startMs < zeroDurationToleranceMs then none
    else some ⟨word.text, word.startMs, word.endMs⟩

variable {Threshold : Type} [Similarity Threshold] [Talkbank] [OverlapMarkers] [Float64]
  [ChatBuilder] [ChatDetails] [MediaAccess]

/-- The pass never panics, by `runGlobalUtr_result`. -/
def recoverTiming (Threshold : Type) [Similarity Threshold] (chat : ChatFile)
    (tokens : List AsrTimingToken) : UtrResult × ChatFile :=
  (@globalUtrInject Threshold _ _ _ _ chat tokens).getD (.empty, chat)

def utrMedia (chat : Chat) : BAResult MediaInput :=
  mediaOf (.internal
    "UtrTaskRunner: chat has no attached media and no sibling audio file found") chat

def utrChat (Threshold : Type) [Similarity Threshold] (backend : AsrInput → BAResult AsrOutput)
    (chat : Chat) : RunnerOutcome :=
  let started := [RunnerEvent.stageStarted chat.sourceId .utr]
  if anyUtteranceAlreadyTimed chat.ast then
    ⟨.ok (), .chat chat, started ++ [.stageInjected chat.sourceId .utr
      "nothing to recover — all utterances already timed"]⟩
  else match (utrMedia chat).bind preparedAudio with
    | .error error => ⟨.error error, .chat chat, started⟩
    | .ok audio =>
        let stepped := started ++ [scaledTick chat.sourceId .utr 0 1]
        match backend ⟨chat.sourceId, audio, resolvePerFileLanguage chat, .default⟩ with
        | .error error => ⟨.error error, .chat chat, stepped⟩
        | .ok output =>
            let recovered := recoverTiming Threshold chat.ast (asrOutputToUtrTokens output)
            let lines := ChatDetails.clearMediaUnlinked recovered.2.lines
            let counts := recovered.1
            ⟨.ok (), .chat { chat with ast := { recovered.2 with lines := lines } },
              stepped ++ [scaledTick chat.sourceId .utr 1 1,
                .stageInjected chat.sourceId .utr
                  (s!"injected={counts.injected} skipped={counts.skipped} " ++
                    s!"unmatched={counts.unmatched}")]⟩

def utrRunner (Threshold : Type) [Similarity Threshold]
    (backend : AsrInput → BAResult AsrOutput) : Runner :=
  onChat (fun kind => .internal s!"UtrTaskRunner: expected BAValue::Chat, got {kind}")
    (utrChat Threshold backend)

/-- Nothing fails once the pass has started. -/
theorem utrRunner_keeps (backend : AsrInput → BAResult AsrOutput) (value : BAValue) :
    KeepsValue (utrRunner Threshold backend) value := by
  apply onChat_keeps
  intro chat
  simp only [utrChat]
  split
  · exact keeps_ok _ _ _
  · split
    · exact keeps_error _ _ _
    · split
      · exact keeps_error _ _ _
      · exact keeps_ok _ _ _

end Utr

end Batchalign.Runners
