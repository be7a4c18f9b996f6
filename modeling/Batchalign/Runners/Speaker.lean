import Batchalign.Runners.Surroundings
import Batchalign.Speaker.Codes

/-!
# The diarization runner

`apply` of `taskrunners/speaker.rs`. The lines are taken out of the transcript before the new
ones are put in, and the error about undeclared speakers comes in between.
-/

namespace Batchalign.Runners

open Batchalign.Chat Batchalign.Segmentation Batchalign.Speaker

section Definitions

structure SpeakerInput where
  sourceId : String
  audio : PreparedAudio
  numSpeakers : ℕ
deriving DecidableEq, Repr

/-- With the segments of its diarization. -/
structure SpeakerOutput where
  sourceId : String
  segments : List DiarizationSegment
deriving DecidableEq, Repr

variable [Talkbank] [MediaAccess]

def mediaForDiarization (chat : Chat) : BAResult MediaInput :=
  mediaOf (.internal ("SpeakerTaskRunner: chat has no attached media and no @Media/sibling " ++
    "media file was found")) chat

/-- From the transcript to the answer of the backend. -/
def diarization (backend : SpeakerInput → BAResult SpeakerOutput) (chat : Chat) :
    BAResult SpeakerOutput := do
  let media ← mediaForDiarization chat
  let audio ← preparedAudio media
  backend ⟨chat.sourceId, audio, 0⟩

def speakerChat (backend : SpeakerInput → BAResult SpeakerOutput) (chat : Chat) :
    RunnerOutcome :=
  let started :=
    if (mediaForDiarization chat).isOk then [RunnerEvent.stageStarted chat.sourceId .speaker]
    else []
  match diarization backend chat with
  | .error error => ⟨.error error, .chat chat, started⟩
  | .ok output =>
      let relabelled := relabelUtterancesByDiarization chat.ast output.segments
      let total := chat.ast.utterances.length
      let ticks := if output.segments.isEmpty then []
        else (List.range total).map fun idx =>
          RunnerEvent.stageTick chat.sourceId .speaker (idx + 1) total
      ⟨relabelled.1, .chat { chat with ast := relabelled.2 },
        started ++ ticks ++
          (if relabelled.1.isOk then [.stageInjected chat.sourceId .speaker ""] else [])⟩

def speakerRunner (backend : SpeakerInput → BAResult SpeakerOutput) : Runner :=
  onChat (fun kind => .internal s!"SpeakerTaskRunner: expected BAValue::Chat, got {kind}")
    (speakerChat backend)

end Definitions

section Failures

theorem codeSequence_nil (declared : List String) : codeSequence declared [] = [] := rfl

variable [Talkbank]

/-- A speaker must be declared where no participant is: some piece of an utterance is labelled
by the diarization, or has a speaker with one of the codes of the labels. -/
def LacksTemplate (chat : ChatFile) (segments : List DiarizationSegment) : Prop :=
  chat.participants.entries = [] ∧
    ∃ utt ∈ chat.utterances, ∃ piece ∈ splitUtterance utt (speakerAssignments utt segments),
      (assignedLabel segments piece).isSome = true ∨
        piece.main.speaker ∈ codeSequence [] segments

theorem firstCode_mem_iff (declared : List String) (segments : List DiarizationSegment)
    (piece : Utterance) :
    firstCode declared segments piece ∈ codeSequence declared segments ↔
      (assignedLabel segments piece).isSome = true ∨
        piece.main.speaker ∈ codeSequence declared segments := by
  cases assigned : assignedLabel segments piece with
  | none => simp [firstCode, assigned]
  | some label =>
      simp only [firstCode, assigned, Option.isSome_some, true_or, iff_true]
      exact codeOfLabel_mem (assignedLabel_mem assigned)

/-- A code is projected when some code of the sequence is carried. -/
theorem projected_eq_nil_iff (chat : ChatFile) (segments : List DiarizationSegment) :
    (speakerCodeRemap chat.participants.keys (speakerCodes chat.participants.keys segments)
        (usedSpeakerCodes (chat.lines.flatMap
          (labelLine segments (speakerCodes chat.participants.keys segments))))).map Prod.snd = [] ↔
      ∀ code ∈ codeSequence chat.participants.keys segments,
        code ∉ carriedCodes chat segments := by
  rw [List.map_eq_nil_iff, speakerCodeRemap, List.map_eq_nil_iff, List.zipIdx_eq_nil_iff,
    List.filter_eq_nil_iff, codes_map_snd]
  simp only [List.contains_iff_mem, mem_usedSpeakerCodes]

/-- Without participants, a carried code is one that lacks a template. -/
theorem lacksTemplate_iff (chat : ChatFile) (segments : List DiarizationSegment) :
    LacksTemplate chat segments ↔
      chat.participants.entries = [] ∧
        ∃ code ∈ codeSequence [] segments, code ∈ carriedCodes chat segments := by
  refine and_congr_right fun noParticipant => ?_
  have noKey : chat.participants.keys = [] := by
    rw [Participants.keys, noParticipant, List.map_nil]
  simp only [carriedCodes, noKey, List.mem_map, List.mem_flatMap]
  constructor
  · rintro ⟨utt, isUtt, piece, isPiece, labelled⟩
    exact ⟨_, (firstCode_mem_iff [] segments piece).mpr labelled, piece, ⟨utt, isUtt, isPiece⟩, rfl⟩
  · rintro ⟨code, inSequence, piece, ⟨utt, isUtt, isPiece⟩, rfl⟩
    exact ⟨utt, isUtt, piece, isPiece, (firstCode_mem_iff [] segments piece).mp inSequence⟩

/-- The only error, and what it leaves. -/
theorem relabel_of_lacksTemplate {chat : ChatFile} {segments : List DiarizationSegment}
    (lacks : LacksTemplate chat segments) :
    (relabelUtterancesByDiarization chat segments).1.isOk = false ∧
      (relabelUtterancesByDiarization chat segments).2 ≠ chat := by
  have hasUtterance : chat.lines ≠ [] := by
    rcases lacks with ⟨_, utt, isUtt, _⟩
    intro noLine
    simp [ChatFile.utterances, noLine] at isUtt
  rcases (lacksTemplate_iff chat segments).mp lacks with ⟨noParticipant, code, inSequence, carried⟩
  have noKey : chat.participants.keys = [] := by
    rw [Participants.keys, noParticipant, List.map_nil]
  have hasSegments : ¬ segments.isEmpty = true := by
    intro empty
    rw [List.isEmpty_iff.mp empty, codeSequence_nil] at inSequence
    cases inSequence
  have notDeclared : ¬ ((speakerCodeRemap chat.participants.keys
      (speakerCodes chat.participants.keys segments) (usedSpeakerCodes (chat.lines.flatMap
        (labelLine segments (speakerCodes chat.participants.keys segments))))).map
          Prod.snd).all chat.participants.containsKey = true := by
    intro all
    have nothing := (projected_eq_nil_iff chat segments).mp (by
      apply List.eq_nil_iff_forall_not_mem.mpr
      intro code member
      have known := List.all_eq_true.mp all code member
      rw [Participants.containsKey, noKey] at known
      cases known)
    rw [noKey] at nothing
    exact nothing code inSequence carried
  have noTemplate : chat.participants.values.head? = none := by
    rw [Participants.values, noParticipant]
    rfl
  simp only [relabelUtterancesByDiarization, hasSegments, notDeclared, noTemplate]
  refine ⟨rfl, fun same => ?_⟩
  exact hasUtterance (congrArg ChatFile.lines same).symm

theorem relabel_ok {chat : ChatFile} {segments : List DiarizationSegment}
    (declared : ¬ LacksTemplate chat segments) :
    (relabelUtterancesByDiarization chat segments).1 = .ok () := by
  simp only [relabelUtterancesByDiarization]
  split
  · rfl
  · split
    · rfl
    · rename_i hasSegments notDeclared
      cases template : chat.participants.values.head? with
      | some template => rfl
      | none =>
          have noParticipant : chat.participants.entries = [] := by
            rwa [Participants.values, List.head?_eq_none_iff, List.map_eq_nil_iff] at template
          have noKey : chat.participants.keys = [] := by
            rw [Participants.keys, noParticipant, List.map_nil]
          refine absurd ?_ declared
          rw [lacksTemplate_iff]
          refine ⟨noParticipant, ?_⟩
          by_contra nothing
          push Not at nothing
          apply notDeclared
          rw [← noKey] at nothing
          rw [(projected_eq_nil_iff chat segments).mpr nothing]
          rfl

variable [MediaAccess]

/-- Every failure after the diarization loses the lines. -/
theorem speakerRunner_keeps_iff (backend : SpeakerInput → BAResult SpeakerOutput)
    (value : BAValue) :
    KeepsValue (speakerRunner backend) value ↔
      ∀ chat, value.chat? = some chat →
        ∀ output, diarization backend chat = .ok output →
          ¬ LacksTemplate chat.ast output.segments := by
  rw [speakerRunner, onChat_keeps_iff]
  refine forall₂_congr fun chat _ => ?_
  simp only [speakerChat]
  cases answered : diarization backend chat with
  | error error =>
      refine ⟨fun _ output isAnswer => ?_, fun _ _ _ => rfl⟩
      cases isAnswer
  | ok output =>
      simp only [Except.ok.injEq, forall_eq', chat_withAst_eq_iff]
      constructor
      · intro keeps lacks
        rcases relabel_of_lacksTemplate lacks with ⟨fails, changed⟩
        cases result : (relabelUtterancesByDiarization chat.ast output.segments).1 with
        | error error => exact changed (keeps error result)
        | ok _ =>
            rw [result] at fails
            cases fails
      · intro declared error fails
        rw [relabel_ok declared] at fails
        cases fails

end Failures

end Batchalign.Runners
