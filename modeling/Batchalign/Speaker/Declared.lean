import Batchalign.Speaker.Apart
import Batchalign.Speaker.Pieces

/-!
# Every speaker is declared

`relabel_utterances_by_diarization` declares the codes that the second pass projects onto. A
piece that no label is found for keeps the speaker of its utterance, so every speaker is
declared afterwards if every one was before. The `@Participants` headers are rewritten from
the table, and each participant that is new gets an `@ID` header. A diarization without
segments changes nothing.
-/

namespace Batchalign.Speaker

open Batchalign.Chat Batchalign.Segmentation

section Table

variable {template : Participant} {participants : Participants}

theorem containsKey_iff {code : String} :
    participants.containsKey code = true ↔ code ∈ participants.keys := by
  simp [Participants.containsKey]

theorem insert_entries {code : String} (participant : Participant)
    (absent : participants.containsKey code = false) :
    (participants.insert code participant).entries =
      participants.entries ++ [(code, participant)] := by
  rw [Participants.insert, dif_pos absent]

/-- The missing codes are appended to the table, with the participants added. -/
theorem declareCodes_entries (codes : List String) :
    (declareCodes template participants codes).1.entries = participants.entries ++
      (declareCodes template participants codes).2.map fun participant =>
        (participant.code, participant) := by
  induction codes generalizing participants with
  | nil => simp [declareCodes]
  | cons code codes ih =>
      rw [declareCodes]
      split
      · exact ih
      · rename_i absent
        rw [Bool.not_eq_true] at absent
        dsimp only
        rw [ih, insert_entries _ absent, List.append_assoc, List.map_cons]
        rfl

theorem declareCodes_added {codes : List String} :
    ∀ participant ∈ (declareCodes template participants codes).2,
      participant = newParticipant template participant.code := by
  induction codes generalizing participants with
  | nil => simp [declareCodes]
  | cons code codes ih =>
      rw [declareCodes]
      split
      · exact ih
      · intro participant member
        rcases List.mem_cons.mp member with rfl | later
        · rfl
        · exact ih participant later

theorem declareCodes_keeps {codes : List String} {code : String}
    (known : code ∈ participants.keys) :
    code ∈ (declareCodes template participants codes).1.keys := by
  rw [Participants.keys, declareCodes_entries, List.map_append]
  exact List.mem_append_left _ known

theorem declareCodes_declares {codes : List String} :
    ∀ code ∈ codes, code ∈ (declareCodes template participants codes).1.keys := by
  induction codes generalizing participants with
  | nil => simp
  | cons first codes ih =>
      intro code member
      rw [declareCodes]
      split
      · rename_i known
        rcases List.mem_cons.mp member with rfl | later
        · exact declareCodes_keeps (containsKey_iff.mp known)
        · exact ih code later
      · rename_i absent
        rw [Bool.not_eq_true] at absent
        rcases List.mem_cons.mp member with rfl | later
        · apply declareCodes_keeps
          rw [Participants.keys, insert_entries _ absent]
          simp
        · exact ih code later

end Table

section Lines

theorem insertIdHeaders_split (added : List Participant) (lines : List Line) :
    ∃ front back, front ++ back = lines ∧
      insertIdHeaders added lines =
        front ++ added.map (fun participant => .header (.id participant.id)) ++ back := by
  unfold insertIdHeaders
  split
  · rename_i none
    rw [List.isEmpty_iff] at none
    exact ⟨lines, [], List.append_nil lines, by simp [none]⟩
  · exact ⟨_, _, List.take_append_drop _ lines, rfl⟩

variable [Talkbank]

/-- What stands for a line afterwards: the pieces of an utterance, and any other line as it
was, a `@Participants` header with the new entries. -/
def relabelledLine (chat : ChatFile) (segments : List DiarizationSegment)
    (entries : List ParticipantEntry) : Line → List Line
  | .utterance utterance => (relabelledPieces chat segments utterance).map .utterance
  | line => [rewriteParticipantsHeader entries line]

theorem rewritten_lines (chat : ChatFile) (segments : List DiarizationSegment)
    (entries : List ParticipantEntry) (lines : List Line) :
    let codes := speakerCodes chat.participants.keys segments
    let remap := speakerCodeRemap chat.participants.keys codes
      (usedSpeakerCodes (chat.lines.flatMap (labelLine segments codes)))
    ((lines.flatMap (labelLine segments codes)).map (renameLine remap)).map
        (rewriteParticipantsHeader entries) =
      lines.flatMap (relabelledLine chat segments entries) := by
  intro codes remap
  rw [List.map_map, List.map_flatMap]
  apply List.flatMap_congr
  intro line _
  cases line with
  | utterance utterance =>
      simp only [labelLine, relabelledLine, relabelledPieces, List.map_map]
      rfl
  | header header => rfl
  | other text => rfl

theorem relabelledLines_notUtterances (chat : ChatFile) (segments : List DiarizationSegment)
    (entries : List ParticipantEntry) (lines : List Line) :
    (lines.flatMap (relabelledLine chat segments entries)).filter (! ·.isUtterance) =
      (lines.filter (! ·.isUtterance)).map (rewriteParticipantsHeader entries) := by
  induction lines with
  | nil => rfl
  | cons line lines ih =>
      rw [List.flatMap_cons, List.filter_append, ih, List.filter_cons]
      cases line with
      | utterance utterance =>
          have pieces : (relabelledLine chat segments entries (.utterance utterance)).filter
              (! ·.isUtterance) = [] := by
            apply List.filter_eq_nil_iff.mpr
            intro line member
            rcases List.mem_map.mp member with ⟨piece, _, rfl⟩
            simp [Line.isUtterance]
          rw [pieces]
          rfl
      | header header => cases header <;> rfl
      | other text => rfl

end Lines

section Result

variable [Talkbank]

/-- How the transcript is left. -/
structure SpeakersDeclared (chat : ChatFile) (segments : List DiarizationSegment)
    (result : ChatFile) : Prop where
  headers : ∀ entries, .header (.participants entries) ∈ result.lines →
    entries = participantEntries result.participants
  added : ∃ (added : List Participant) (front back : List Line),
    result.participants.entries = chat.participants.entries ++
        added.map (fun participant => (participant.code, participant)) ∧
      (∀ participant ∈ added, participant.id.speaker = participant.code) ∧
      result.lines =
        front ++ added.map (fun participant => .header (.id participant.id)) ++ back ∧
      front ++ back = chat.lines.flatMap
        (relabelledLine chat segments (participantEntries result.participants)) ∧
      (front ++ back).filter (! ·.isUtterance) = (chat.lines.filter (! ·.isUtterance)).map
        (rewriteParticipantsHeader (participantEntries result.participants))

theorem rewritten_headers {chat : ChatFile} {segments : List DiarizationSegment}
    {entries listed : List ParticipantEntry} {lines : List Line}
    (member : .header (.participants listed) ∈
      lines.flatMap (relabelledLine chat segments entries)) : listed = entries := by
  rcases List.mem_flatMap.mp member with ⟨line, _, inside⟩
  cases line with
  | utterance utterance =>
      rcases List.mem_map.mp inside with ⟨piece, _, same⟩
      cases same
  | other text =>
      cases List.mem_singleton.mp inside
  | header header =>
      have same := List.mem_singleton.mp inside
      cases header <;> cases same
      rfl

/-- The table with the participants added, and the lines made from it. -/
theorem speakersDeclared_of_lines {chat result : ChatFile} {segments : List DiarizationSegment}
    (added : List Participant)
    (table : result.participants.entries = chat.participants.entries ++
      added.map fun participant => (participant.code, participant))
    (ids : ∀ participant ∈ added, participant.id.speaker = participant.code)
    (lines : result.lines = insertIdHeaders added (chat.lines.flatMap
      (relabelledLine chat segments (participantEntries result.participants)))) :
    SpeakersDeclared chat segments result := by
  rcases insertIdHeaders_split added (chat.lines.flatMap
    (relabelledLine chat segments (participantEntries result.participants))) with
    ⟨front, back, whole, shape⟩
  rw [shape] at lines
  constructor
  · intro entries member
    rw [lines, List.mem_append, List.mem_append] at member
    have notId : .header (.participants entries) ∉
        added.map fun participant => Line.header (.id participant.id) := by
      intro isId
      rcases List.mem_map.mp isId with ⟨participant, _, same⟩
      cases same
    apply @rewritten_headers _ chat segments _ _ chat.lines
    rw [← whole, List.mem_append]
    rcases member with (inFront | isId) | inBack
    · exact Or.inl inFront
    · exact (notId isId).elim
    · exact Or.inr inBack
  · refine ⟨added, front, back, table, ids, lines, whole, ?_⟩
    rw [whole, relabelledLines_notUtterances]

/-- The codes of the second pass. -/
def projectedCodes (chat : ChatFile) (segments : List DiarizationSegment) : List String :=
  (speakerCodeRemap chat.participants.keys (speakerCodes chat.participants.keys segments)
    (usedSpeakerCodes (chat.lines.flatMap
      (labelLine segments (speakerCodes chat.participants.keys segments))))).map Prod.snd

/-- The table afterwards has all old and all projected codes. -/
theorem relabel_result {chat : ChatFile} {segments : List DiarizationSegment}
    (diarized : segments ≠ []) (participants : chat.participants.entries ≠ []) :
    SpeakersDeclared chat segments (relabelUtterancesByDiarization chat segments).2 ∧
      ∀ code, code ∈ chat.participants.keys ∨ code ∈ projectedCodes chat segments →
        code ∈ (relabelUtterancesByDiarization chat segments).2.participants.keys := by
  rcases List.exists_cons_of_ne_nil participants with ⟨first, rest, entries⟩
  have template : chat.participants.values.head? = some first.2 := by
    simp [Participants.values, entries]
  have nonempty : segments.isEmpty = false := List.isEmpty_eq_false_iff.mpr diarized
  simp only [relabelUtterancesByDiarization, nonempty, Bool.false_eq_true, if_false, template]
  split
  · rename_i known
    refine ⟨speakersDeclared_of_lines [] (by simp) (by simp) ?_, ?_⟩
    · exact congrArg (insertIdHeaders []) (rewritten_lines chat segments _ chat.lines)
    · rintro code (old | projected)
      · exact old
      · exact containsKey_iff.mp (List.all_eq_true.mp known code projected)
  · refine ⟨speakersDeclared_of_lines _ (declareCodes_entries _) ?_ ?_, ?_⟩
    · intro participant member
      rw [declareCodes_added participant member]
      rfl
    · exact congrArg (insertIdHeaders _) (rewritten_lines chat segments _ chat.lines)
    · rintro code (old | projected)
      · exact declareCodes_keeps old
      · exact declareCodes_declares code projected

theorem splitUtterance_speaker {utterance child : Utterance} {assignments : List ℕ}
    (isChild : child ∈ splitUtterance utterance assignments) :
    child.main.speaker = utterance.main.speaker := by
  cases split : splitGroups utterance assignments with
  | none =>
      simp only [splitUtterance, split, List.mem_singleton] at isChild
      rw [isChild]
  | some kept =>
      rcases List.mem_iff_getElem?.mp isChild with ⟨k, atK⟩
      have length := congrArg List.length (splitUtterance_map_items split)
      rw [List.length_map, List.length_map] at length
      have bound : k < kept.length := by
        rw [← length]
        exact (List.getElem?_eq_some_iff.mp atK).1
      exact (splitUtterance_child split (List.getElem?_eq_getElem bound) atK).2.1

/-- A piece has a projected code, or else the speaker of its utterance. -/
theorem finalSpeaker_declared {chat : ChatFile} {segments : List DiarizationSegment}
    {utterance piece : Utterance} (present : utterance ∈ chat.utterances)
    (member : piece ∈ relabelledPieces chat segments utterance) :
    piece.main.speaker = utterance.main.speaker ∨
      piece.main.speaker ∈ projectedCodes chat segments := by
  rcases relabelledPieces_speaker member with ⟨child, isChild, _, speaker⟩
  rw [speaker, finalSpeaker]
  have carried := firstCode_mem_carriedCodes present isChild
  by_cases sequence :
      firstCode chat.participants.keys segments child ∈ codeSequence chat.participants.keys segments
  · right
    have found := lookup_remap chat segments (firstCode chat.participants.keys segments child)
    rw [if_pos ⟨sequence, carried⟩] at found ⊢
    rcases List.lookup_eq_some_iff.mp found with ⟨before, after, shape, _⟩
    rw [projectedCodes, shape, List.map_append, List.map_cons]
    exact List.mem_append_right _ List.mem_cons_self
  · left
    rw [if_neg fun both => sequence both.1]
    cases assigned : assignedLabel segments child with
    | none =>
        rw [firstCode, assigned]
        exact splitUtterance_speaker isChild
    | some label =>
        rw [firstCode, assigned] at sequence
        exact (sequence (codeOfLabel_mem (assignedLabel_mem assigned))).elim

/-- If every speaker was declared, every speaker is. The headers list the table, each new
participant has one new `@ID` header, and the other lines are kept in order. A diarization
without segments leaves the transcript as it was. -/
theorem relabel_declares {chat : ChatFile} {segments : List DiarizationSegment}
    (participants : chat.participants.entries ≠ [])
    (declared : ∀ utterance ∈ chat.utterances,
      chat.participants.containsKey utterance.main.speaker = true) :
    (relabelUtterancesByDiarization chat segments).1 = .ok () ∧
      (∀ utterance ∈ (relabelUtterancesByDiarization chat segments).2.utterances,
        (relabelUtterancesByDiarization chat segments).2.participants.containsKey
          utterance.main.speaker = true) ∧
      (segments ≠ [] →
        SpeakersDeclared chat segments (relabelUtterancesByDiarization chat segments).2) ∧
      (segments = [] → (relabelUtterancesByDiarization chat segments).2 = chat) := by
  have succeeds : (relabelUtterancesByDiarization chat segments).1 = .ok () :=
    relabel_succeeds participants
  have unchanged : segments = [] → (relabelUtterancesByDiarization chat segments).2 = chat := by
    rintro rfl
    rfl
  refine ⟨succeeds, ?_, fun diarized => (relabel_result diarized participants).1, unchanged⟩
  by_cases diarized : segments = []
  · rw [unchanged diarized]
    exact declared
  · intro piece member
    rw [relabel_utterances diarized succeeds] at member
    rcases List.mem_flatMap.mp member with ⟨utterance, present, isPiece⟩
    apply containsKey_iff.mpr
    apply (relabel_result diarized participants).2
    rcases finalSpeaker_declared present isPiece with same | projected
    · left
      rw [same]
      exact containsKey_iff.mp (declared utterance present)
    · exact Or.inr projected

end Result

section Witness

open Chat.Documented

def targetChild : Participant where
  code := "CHI"
  name := none
  role := "Target_Child"
  id := { language := "eng", corpus := none, speaker := "CHI", role := "Target_Child" }

/-- The header also lists `MOT`, for whom there is no `@ID` header and no participant. -/
def headerOfTwo : ChatFile where
  participants := ⟨[("CHI", targetChild)], by decide⟩
  lines := [.header (.participants [⟨"CHI", none, "Target_Child"⟩, ⟨"MOT", none, "Mother"⟩]),
    .header (.id targetChild.id), .utterance (plainUtterance "CHI" [timedItem "hi" 0 400])]

theorem headerOfTwo_speakers : ∀ utterance ∈ headerOfTwo.utterances,
    headerOfTwo.participants.containsKey utterance.main.speaker = true := by
  decide

/-- Without segments the header goes on listing a code that is no participant. -/
theorem header_unlike_table :
    headerOfTwo.participants.entries ≠ [] ∧
      (∀ utterance ∈ headerOfTwo.utterances,
        headerOfTwo.participants.containsKey utterance.main.speaker = true) ∧
      (relabelUtterancesByDiarization headerOfTwo []).1 = .ok () ∧
      ∃ entries, .header (.participants entries) ∈
          (relabelUtterancesByDiarization headerOfTwo []).2.lines ∧
        entries ≠ participantEntries
          (relabelUtterancesByDiarization headerOfTwo []).2.participants :=
  ⟨by decide, headerOfTwo_speakers, rfl, _, List.mem_cons_self, by decide⟩

theorem relabel_declares_two :
    (relabelUtterancesByDiarization headerOfTwo [⟨0, 400, "speaker-a"⟩]).1 = .ok () ∧
      SpeakersDeclared headerOfTwo [⟨0, 400, "speaker-a"⟩]
        (relabelUtterancesByDiarization headerOfTwo [⟨0, 400, "speaker-a"⟩]).2 := by
  have result := @relabel_declares _ headerOfTwo [⟨0, 400, "speaker-a"⟩] (by decide)
    headerOfTwo_speakers
  exact ⟨result.1, result.2.2.1 (by decide)⟩

end Witness

end Batchalign.Speaker
