import Batchalign.Errors
import Batchalign.Segmentation.Basic

/-!
# Relabelling by diarization

`relabel_utterances_by_diarization` of `batchalign-core/src/taskrunners/speaker.rs`.
Every word takes the diarization segment at its midpoint, utterances are split
where the speaker changes, and every piece is labelled again by the segment at
the midpoint of its own timing. The codes in use are then projected onto the
first declared codes.

Times are `u64`. The midpoint subtracts before it halves, which wraps when an
interval ends before it starts.
-/

namespace Batchalign.Speaker

open Batchalign.Chat Batchalign.Segmentation Partition

structure DiarizationSegment where
  startMs : ℕ
  endMs : ℕ
  speaker : String
deriving DecidableEq, Repr

section Timing

/-- `start_ms + (end_ms - start_ms) / 2` on `u64`. -/
def midpoint (startMs endMs : ℕ) : ℕ :=
  (startMs + (endMs + 2 ^ 64 - startMs) % 2 ^ 64 / 2) % 2 ^ 64

def absDiff (a b : ℕ) : ℕ := max a b - min a b

/-- How far a time lies from the nearer end of a segment. -/
def segmentDistance (timestampMs : ℕ) (segment : DiarizationSegment) : ℕ :=
  min (absDiff segment.startMs timestampMs) (absDiff segment.endMs timestampMs)

/-- The first segment that contains the time, or else the first of the nearest ones. -/
def segmentIndexAt (segments : List DiarizationSegment) (timestampMs : ℕ) : Option ℕ :=
  (segments.findIdx? fun segment =>
      timestampMs ≥ segment.startMs && timestampMs ≤ segment.endMs).or
    ((segments.zipIdx.argmin fun segment => segmentDistance timestampMs segment.1).map Prod.snd)

/-- The label of the segment at a time. -/
def labelAt (segments : List DiarizationSegment) (timestampMs : ℕ) : Option String :=
  (segmentIndexAt segments timestampMs).bind fun index =>
    segments[index]?.map DiarizationSegment.speaker

def bulletTiming (bullet : Option Bullet) : Option (ℕ × ℕ) :=
  bullet.map fun bullet => (bullet.timing.startMs, bullet.timing.endMs)

def wordTiming : WordItem → Option (ℕ × ℕ)
  | .word word => bulletTiming word.inlineBullet
  | .replacedWord word _ => bulletTiming word.inlineBullet
  | .separator _ => none

/-- One callback of the span computation. -/
def extendSpan (span timing : Option (ℕ × ℕ)) : Option (ℕ × ℕ) :=
  match timing with
  | none => span
  | some (s, e) =>
      match span with
      | none => some (s, e)
      | some (t0, t1) => some (min t0 s, max t1 e)

def timingSpan (timings : List (Option (ℕ × ℕ))) : Option (ℕ × ℕ) :=
  timings.foldl extendSpan none

def worSpan (wor : Option WorTier) : Option (ℕ × ℕ) :=
  wor.bind fun wor => timingSpan (wor.words.map fun word => wordTiming (.word word))

variable [Talkbank]

/-- The word span, from inline bullets or else from `%wor`. -/
def wordSpan (utterance : Utterance) : Option (ℕ × ℕ) :=
  (timingSpan ((Talkbank.walkWords utterance.items none).map wordTiming)).or
    (worSpan utterance.worTier)

/-- The guard `end_ms >= start_ms`. -/
def orderedTiming (timing : ℕ × ℕ) : Bool := timing.2 ≥ timing.1

def utteranceTimingMs (utterance : Utterance) : Option (ℕ × ℕ) :=
  ((wordSpan utterance).filter orderedTiming).or
    ((bulletTiming utterance.main.content.bullet).filter orderedTiming)

end Timing

section Assignments

variable [Talkbank]

/-- The timings the words are assigned by: inline bullets, or `%wor` when no walked word
has one. -/
def assignmentTimings (utterance : Utterance) : List (Option (ℕ × ℕ)) :=
  let timings := (Talkbank.walkWords utterance.items (some .mor)).map wordTiming
  if timings.all Option.isNone then
    match utterance.worTier with
    | some wor => wor.words.map fun word => wordTiming (.word word)
    | none => timings
  else timings

/-- The diarization label of every word, after both fills. -/
def wordLabels (utterance : Utterance) (segments : List DiarizationSegment) :
    List (Option String) :=
  let segmentIndices := (assignmentTimings utterance).map fun timing =>
    timing.bind fun (startMs, endMs) => segmentIndexAt segments (midpoint startMs endMs)
  (fillGaps segmentIndices).map fun index =>
    index.bind fun index => segments[index]?.map DiarizationSegment.speaker

/-- Count up whenever the label differs from the one before. -/
def numberRuns : Option String → ℕ → List (Option String) → List ℕ
  | _, _, [] => []
  | priorSpeaker, group, speaker :: speakers =>
      let group := if priorSpeaker.isSome && speaker != priorSpeaker then group + 1 else group
      group :: numberRuns speaker group speakers

def speakerAssignments (utterance : Utterance) (segments : List DiarizationSegment) : List ℕ :=
  numberRuns none 0 (wordLabels utterance segments)

end Assignments

section Codes

/-- `declared.get(index)`, or else a fresh `PAR` code. -/
def speakerCode (declared : List String) (index : ℕ) : String :=
  declared.getD index ("PAR" ++ toString index)

/-- The labels of the segments as a sorted set. -/
def diarizationLabels (segments : List DiarizationSegment) : List String :=
  ((segments.map DiarizationSegment.speaker).dedup).insertionSort (· ≤ ·)

/-- Label and code, in the order of the labels. -/
def speakerCodes (declared : List String) (segments : List DiarizationSegment) :
    List (String × String) :=
  (diarizationLabels segments).zipIdx.map fun label => (label.1, speakerCode declared label.2)

def Utterance.withSpeaker (utterance : Utterance) (speaker : String) : Utterance :=
  { utterance with main := { utterance.main with speaker := speaker } }

def Utterance.withBullet (utterance : Utterance) (bullet : Bullet) : Utterance :=
  { utterance with
    main := { utterance.main with content := { utterance.main.content with bullet := bullet } } }

variable [Talkbank]

/-- The child relabelling loop. -/
def relabelChild (segments : List DiarizationSegment) (codes : List (String × String))
    (child : Utterance) : Utterance :=
  match utteranceTimingMs child with
  | none => child
  | some (startMs, endMs) =>
      let child := Utterance.withBullet child (Bullet.new startMs endMs)
      match (labelAt segments (midpoint startMs endMs)).bind (List.lookup · codes) with
      | some code => Utterance.withSpeaker child code
      | none => child

/-- The pieces of one utterance after the first pass. -/
def labelledPieces (segments : List DiarizationSegment) (codes : List (String × String))
    (utterance : Utterance) : List Utterance :=
  (splitUtterance utterance (speakerAssignments utterance segments)).map
    (relabelChild segments codes)

def labelLine (segments : List DiarizationSegment) (codes : List (String × String)) :
    Line → List Line
  | .utterance utterance => (labelledPieces segments codes utterance).map .utterance
  | line => [line]

/-- The codes that some utterance carries. -/
def usedSpeakerCodes (lines : List Line) : List String :=
  ((lines.filterMap Line.utterance?).map fun utterance => utterance.main.speaker).eraseDups

/-- The codes in use, projected in order onto the first codes. -/
def speakerCodeRemap (declared : List String) (codes : List (String × String))
    (used : List String) : List (String × String) :=
  ((codes.map Prod.snd).filter used.contains).zipIdx.map fun code =>
    (code.1, speakerCode declared code.2)

def renameSpeaker (remap : List (String × String)) (utterance : Utterance) : Utterance :=
  match List.lookup utterance.main.speaker remap with
  | some projected => Utterance.withSpeaker utterance projected
  | none => utterance

def renameLine (remap : List (String × String)) : Line → Line
  | .utterance utterance => .utterance (renameSpeaker remap utterance)
  | line => line

end Codes

section Participants

/-- The participant declared for a code, with language and corpus of the template. -/
def newParticipant (template : Participant) (code : String) : Participant where
  code := code
  name := none
  role := "Participant"
  id :=
    { language := template.id.language, corpus := template.id.corpus, speaker := code,
      role := "Participant" }

/-- Declare the codes that are missing; the second result are the participants added. -/
def declareCodes (template : Participant) (participants : Participants) :
    List String → Participants × List Participant
  | [] => (participants, [])
  | code :: codes =>
      if participants.containsKey code then declareCodes template participants codes
      else
        let participant := newParticipant template code
        let declared := declareCodes template (participants.insert code participant) codes
        (declared.1, participant :: declared.2)

def participantEntries (participants : Participants) : List ParticipantEntry :=
  participants.values.map fun participant =>
    { speakerCode := participant.code, name := participant.name, role := participant.role }

def rewriteParticipantsHeader (entries : List ParticipantEntry) : Line → Line
  | .header (.participants _) => .header (.participants entries)
  | line => line

def Line.isIdHeader : Line → Bool
  | .header (.id _) => true
  | _ => false

/-- New `@ID` headers go behind the last one, or to the front. -/
def insertIdHeaders (added : List Participant) (lines : List Line) : List Line :=
  if added.isEmpty then lines
  else
    let insertAt := lines.length - lines.reverse.findIdx Line.isIdHeader
    let insertAt := if lines.any Line.isIdHeader then insertAt else 0
    lines.take insertAt ++ added.map (fun participant => .header (.id participant.id)) ++
      lines.drop insertAt

end Participants

section Relabel

variable [Talkbank]

/-- The result and the transcript left behind. On an error the lines have already been
taken out of the transcript. -/
def relabelUtterancesByDiarization (chat : ChatFile) (segments : List DiarizationSegment) :
    BAResult Unit × ChatFile :=
  if segments.isEmpty then (.ok (), chat)
  else
    let declared := chat.participants.keys
    let codes := speakerCodes declared segments
    let labelled := chat.lines.flatMap (labelLine segments codes)
    let remap := speakerCodeRemap declared codes (usedSpeakerCodes labelled)
    let renamed := labelled.map (renameLine remap)
    let projected := remap.map Prod.snd
    let finish (participants : Participants) (added : List Participant) : ChatFile :=
      { participants := participants
        lines := insertIdHeaders added
          (renamed.map (rewriteParticipantsHeader (participantEntries participants))) }
    if projected.all chat.participants.containsKey then
      (.ok (), finish chat.participants [])
    else
      match chat.participants.values.head? with
      | none =>
          (.error (.internal
            "SpeakerTaskRunner: cannot declare diarized speakers without a participant template"),
            { chat with lines := [] })
      | some template =>
          let declared := declareCodes template chat.participants projected
          (.ok (), finish declared.1 declared.2)

end Relabel

end Batchalign.Speaker
