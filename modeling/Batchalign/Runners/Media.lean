import Batchalign.Runners.Surroundings

/-!
# The runners on media

`apply` of `taskrunners/asr.rs` and `taskrunners/convert.rs`. Building a transcript from the
answer of the recogniser is a parameter. The value is replaced in the last step.
-/

namespace Batchalign.Runners

section Media

structure ConvertInput where
  sourceId : String
  audio : PreparedAudio
deriving DecidableEq, Repr

/-- `build_chat_from_asr`. -/
class AsrTranscripts where
  buildChatFromAsr : MediaInput → LanguageSpec → AsrOutput → BAResult Chat

variable [MediaAccess]

def asrRunner [AsrTranscripts] (backend : AsrInput → BAResult AsrOutput) : Runner :=
  onMedia (fun kind => .internal s!"AsrTaskRunner: expected BAValue::Media, got {kind}")
    fun media =>
      let started := [RunnerEvent.stageStarted media.sourceId .asr]
      match preparedAudio media with
      | .error error => ⟨.error error, .media media, started⟩
      | .ok audio =>
          let language := media.language.elim .auto .code
          let stepped := started ++ [scaledTick media.sourceId .asr 0 1]
          match backend ⟨media.sourceId, audio, language, .default⟩ with
          | .error error => ⟨.error error, .media media, stepped⟩
          | .ok output =>
              let finished := stepped ++ [scaledTick media.sourceId .asr 1 1]
              match AsrTranscripts.buildChatFromAsr media language output with
              | .error error => ⟨.error error, .media media, finished⟩
              | .ok chat =>
                  ⟨.ok (), .chat { chat with media := some media },
                    finished ++ [.stageInjected media.sourceId .asr ""]⟩

def convertRunner (backend : ConvertInput → BAResult MediaOutput) : Runner :=
  onMedia (fun kind => .internal s!"ConvertTaskRunner expected BAValue::Media, got {kind}")
    fun media =>
      let started := [RunnerEvent.stageStarted media.sourceId .convert]
      match MediaAccess.preparePcmInterleaved media with
      | .error error =>
          ⟨.error (.internal s!"convert audio decode: {error}"), .media media, started⟩
      | .ok audio =>
          match backend ⟨media.sourceId, audio⟩ with
          | .error error => ⟨.error error, .media media, started⟩
          | .ok output =>
              ⟨.ok (), .mediaOutput output,
                started ++ [.stageInjected media.sourceId .convert ""]⟩

theorem asrRunner_keeps [AsrTranscripts] (backend : AsrInput → BAResult AsrOutput)
    (value : BAValue) : KeepsValue (asrRunner backend) value := by
  apply onMedia_keeps
  intro media
  dsimp only
  cases preparedAudio media with
  | error _ => exact keeps_error _ _ _
  | ok audio =>
      dsimp only
      split
      · exact keeps_error _ _ _
      · split
        · exact keeps_error _ _ _
        · exact keeps_ok _ _ _

theorem convertRunner_keeps (backend : ConvertInput → BAResult MediaOutput) (value : BAValue) :
    KeepsValue (convertRunner backend) value := by
  apply onMedia_keeps
  intro media
  dsimp only
  split
  · exact keeps_error _ _ _
  · split
    · exact keeps_error _ _ _
    · exact keeps_ok _ _ _

end Media

end Batchalign.Runners
