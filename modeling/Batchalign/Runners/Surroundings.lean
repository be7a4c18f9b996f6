import Batchalign.Library.InPlaceLoop
import Batchalign.Runners.UtSeg

/-!
# What the runners share

A runner is handed a value it may change, a dispatcher and a sink for events. Media files,
the decoder and the parts of the CHAT library that only single runners use are parameters.
Ticks that a backend reports on its own are not among the events.
-/

namespace Batchalign.Runners

open Batchalign.Chat InPlaceLoop

section Surroundings

/-- Finding and decoding media. The errors are given by their `{:#}` texts. -/
class MediaAccess where
  siblingMedia : Chat → Option MediaInput
  preparePcm : MediaInput → Except String PreparedAudio
  preparePcmInterleaved : MediaInput → Except String PreparedAudio

/-- Headers and texts of a transcript. -/
class ChatDetails where
  skipsAlignment : ChatFile → Bool
  conversationAnalysis : ChatFile → Bool
  clearMediaUnlinked : List Line → List Line
  stampProvenance : List Line → String → Option String → List Line
  terminatorText : Terminator → String
  lineText : Line → String

variable [ChatBuilder]

/-- `primary_language`, the first of the languages. -/
def primaryLanguage (chat : Chat) : Option String := (ChatBuilder.languages chat.ast).head?

def resolvePerFileLanguage (chat : Chat) : LanguageSpec :=
  (primaryLanguage chat).elim .perFile .code

variable [MediaAccess]

/-- The attached media, or a file next to the transcript. -/
def mediaOf (missing : BAError) (chat : Chat) : BAResult MediaInput :=
  match chat.media.or (MediaAccess.siblingMedia chat) with
  | some media => .ok media
  | none => .error missing

def preparedAudio (media : MediaInput) : BAResult PreparedAudio :=
  (MediaAccess.preparePcm media).mapError fun error => .internal s!"audio_prep: {error}"

end Surroundings

section Payloads

structure AsrOptions where
  numSpeakers : ℕ
  prompt : Option String
deriving DecidableEq, Repr

def AsrOptions.default : AsrOptions := ⟨0, none⟩

structure AsrInput where
  sourceId : String
  audio : PreparedAudio
  language : LanguageSpec
  options : AsrOptions
deriving DecidableEq, Repr

structure AsrOutput where
  sourceId : String
  segments : List AsrSegment
deriving DecidableEq, Repr

end Payloads

section Events

def progressScale : ℕ := 4

/-- The tick of `ScaledProgress` after some of the outer steps. -/
def scaledTick (sourceId : String) (task : Task) (steps outerTotal : ℕ) : RunnerEvent :=
  .stageTick sourceId task (steps * progressScale) (outerTotal * progressScale)

end Events

section Utterances

/-- The lines that are utterances. -/
def utterances : Kind Line Utterance where
  pick := Line.utterance?
  put := .utterance
  pick_put _ := rfl
  put_of_pick := by
    intro line utt isUtterance
    cases line with
    | utterance _ =>
        cases isUtterance
        rfl
    | header _ => cases isUtterance
    | other _ => cases isUtterance

variable [Talkbank]

def wordText : WordItem → Option String
  | .word word => some word.cleanedText
  | .replacedWord word _ => some word.cleanedText
  | .separator _ => none

/-- The words of an utterance with blanks between them. -/
def spokenText (utt : Utterance) : String :=
  " ".intercalate
    (((Talkbank.walkWords utt.items none).filterMap wordText).filter fun text => text ≠ "")

end Utterances

section Failures

/-- A run that fails leaves the value as it was. -/
def KeepsValue (runner : Runner) (value : BAValue) : Prop :=
  ∀ error, (runner value).result = .error error → (runner value).value = value

/-- An outcome that failed has the value it started from. -/
def Keeps (outcome : RunnerOutcome) (value : BAValue) : Prop :=
  ∀ error, outcome.result = .error error → outcome.value = value

theorem keeps_error (error : BAError) (value : BAValue) (events : List RunnerEvent) :
    Keeps ⟨.error error, value, events⟩ value :=
  fun _ _ => rfl

theorem keeps_ok (value after : BAValue) (events : List RunnerEvent) :
    Keeps ⟨.ok (), after, events⟩ value := by
  intro error fails
  cases fails

/-- A result is an error when it is not a success. -/
theorem failing_iff {α ε : Type} {result : Except ε α} {fails : Prop} {kept : Prop}
    (isOk : result.isOk = true ↔ ¬ fails) :
    (∀ error, result = .error error → kept) ↔ (fails → kept) := by
  cases result with
  | error error =>
      have isError : fails := by
        by_contra succeeds
        cases isOk.mpr succeeds
      exact ⟨fun holds _ => holds error rfl, fun holds _ _ => holds isError⟩
  | ok a =>
      have succeeds := isOk.mp rfl
      exact ⟨fun _ fails => absurd fails succeeds, fun _ error same => (by cases same)⟩

/-- A transcript with new content is the old one only if the content is. -/
theorem chat_withAst_eq_iff (chat : Chat) (ast : ChatFile) :
    BAValue.chat { chat with ast := ast } = .chat chat ↔ ast = chat.ast := by
  constructor
  · intro same
    exact congrArg Chat.ast (BAValue.chat.inj same)
  · intro same
    rw [same]

/-- A runner on transcripts. A value that has failed passes. -/
def onChat (refusal : String → BAError) (body : Chat → RunnerOutcome) : Runner
  | .chat chat => body chat
  | .failed sourceId error partialValue => ⟨.ok (), .failed sourceId error partialValue, []⟩
  | other => ⟨.error (refusal other.kind), other, []⟩

/-- A runner on media. -/
def onMedia (refusal : String → BAError) (body : MediaInput → RunnerOutcome) : Runner
  | .media media => body media
  | .failed sourceId error partialValue => ⟨.ok (), .failed sourceId error partialValue, []⟩
  | other => ⟨.error (refusal other.kind), other, []⟩

theorem onChat_keeps_iff {refusal : String → BAError} {body : Chat → RunnerOutcome}
    {value : BAValue} :
    KeepsValue (onChat refusal body) value ↔
      ∀ chat, value.chat? = some chat →
        ∀ error, (body chat).result = .error error → (body chat).value = .chat chat := by
  constructor
  · intro keeps chat isChat
    rw [BAValue.eq_of_chat? isChat] at keeps
    exact keeps
  · intro keeps error fails
    cases value with
    | chat chat => exact keeps chat rfl error fails
    | failed sourceId error partialValue => cases fails
    | _ => rfl

theorem onChat_keeps {refusal : String → BAError} {body : Chat → RunnerOutcome}
    (keeps : ∀ chat, Keeps (body chat) (.chat chat)) (value : BAValue) :
    KeepsValue (onChat refusal body) value :=
  onChat_keeps_iff.mpr fun chat _ => keeps chat

theorem onMedia_keeps {refusal : String → BAError} {body : MediaInput → RunnerOutcome}
    (keeps : ∀ media, Keeps (body media) (.media media)) (value : BAValue) :
    KeepsValue (onMedia refusal body) value := by
  cases value with
  | media media => exact keeps media
  | failed sourceId error partialValue => exact keeps_ok _ _ _
  | _ => exact keeps_error _ _ _

end Failures

end Batchalign.Runners
