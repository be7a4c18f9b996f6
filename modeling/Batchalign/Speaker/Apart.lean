import Batchalign.Speaker.Codes

/-!
# When labels stay apart and untimed utterances keep their speaker

Two labels can meet because a fresh code is a declared one. An untimed utterance
is renamed when its speaker is the code of a label and the code of an earlier
label is carried by nobody. Both conditions are exact.
-/

namespace Batchalign.Speaker

open Batchalign.Chat Batchalign.Segmentation Partition

section Untimed

theorem timingSpan_of_forall_none {timings : List (Option (ℕ × ℕ))}
    (untimed : ∀ timing ∈ timings, timing = none) : timingSpan timings = none := by
  simp only [timingSpan]
  induction timings with
  | nil => rfl
  | cons timing timings ih =>
      rw [List.foldl_cons, untimed timing List.mem_cons_self]
      exact ih fun timing member => untimed timing (List.mem_cons_of_mem _ member)

theorem numberRuns_none {labels : List (Option String)} (group : ℕ)
    (unlabelled : ∀ label ∈ labels, label = none) :
    ∀ assignment ∈ numberRuns none group labels, assignment = group := by
  induction labels with
  | nil => simp [numberRuns]
  | cons label labels ih =>
      have first := unlabelled label List.mem_cons_self
      subst first
      intro assignment member
      simp only [numberRuns, Option.isSome_none, Bool.false_and, Bool.false_eq_true, if_false,
        List.mem_cons] at member
      rcases member with here | later
      · exact here
      · exact ih (fun label inside => unlabelled label (List.mem_cons_of_mem _ inside))
          assignment later

variable [Talkbank]

/-- No inline word bullet, no timed `%wor` word and no main bullet. -/
structure Untimed (utterance : Utterance) : Prop where
  inline : ∀ domain, ∀ item ∈ Talkbank.walkWords utterance.items domain, wordTiming item = none
  wor : ∀ tier, utterance.worTier = some tier → ∀ word ∈ tier.words, word.inlineBullet = none
  bullet : utterance.main.content.bullet = none

theorem Untimed.timing {utterance : Utterance} (untimed : Untimed utterance) :
    utteranceTimingMs utterance = none := by
  have inline : timingSpan ((Talkbank.walkWords utterance.items none).map wordTiming) = none := by
    apply timingSpan_of_forall_none
    intro timing member
    rcases List.mem_map.mp member with ⟨item, inside, rfl⟩
    exact untimed.inline none item inside
  have span : wordSpan utterance = none := by
    simp only [wordSpan, inline, worSpan]
    cases tier : utterance.worTier with
    | none => rfl
    | some wor =>
        apply timingSpan_of_forall_none
        intro timing member
        rcases List.mem_map.mp member with ⟨word, inside, rfl⟩
        simp [wordTiming, bulletTiming, untimed.wor wor tier word inside]
  simp [utteranceTimingMs, span, untimed.bullet, bulletTiming]

theorem Untimed.assignmentTimings {utterance : Utterance} (untimed : Untimed utterance) :
    ∀ timing ∈ assignmentTimings utterance, timing = none := by
  have inline : ((Talkbank.walkWords utterance.items (some .mor)).map wordTiming).all
      Option.isNone = true := by
    simp only [List.all_map, List.all_eq_true]
    intro item member
    simp [untimed.inline (some .mor) item member]
  intro timing member
  simp only [Speaker.assignmentTimings, inline, if_true] at member
  cases tier : utterance.worTier with
  | none =>
      simp only [tier] at member
      rcases List.mem_map.mp member with ⟨item, inside, rfl⟩
      exact untimed.inline (some .mor) item inside
  | some wor =>
      simp only [tier] at member
      rcases List.mem_map.mp member with ⟨word, inside, rfl⟩
      simp [wordTiming, bulletTiming, untimed.wor wor tier word inside]

theorem splitUtterance_of_constant {utterance : Utterance} {assignments : List ℕ} {group : ℕ}
    (constant : ∀ assignment ∈ assignments, assignment = group) :
    splitUtterance utterance assignments = [utterance] := by
  have unsplit : splitGroups utterance assignments = none := by
    simp only [splitGroups]
    split
    · rfl
    · have same : assignments.all (· == assignments.headD 0) = true := by
        rw [List.all_eq_true]
        intro assignment member
        cases assignments with
        | nil => cases member
        | cons first rest =>
            rw [constant assignment member, List.headD_cons, constant first List.mem_cons_self]
            exact beq_self_eq_true group
      rw [if_pos same]
  simp only [splitUtterance, unsplit]

/-- An untimed utterance is not split. -/
theorem Untimed.split {utterance : Utterance} (untimed : Untimed utterance)
    (segments : List DiarizationSegment) :
    splitUtterance utterance (speakerAssignments utterance segments) = [utterance] := by
  apply @splitUtterance_of_constant _ _ _ 0
  apply numberRuns_none
  intro label member
  simp only [wordLabels, List.mem_map] at member
  rcases member with ⟨index, filled, rfl⟩
  cases index with
  | none => rfl
  | some index =>
      have original := mem_of_mem_fillGaps filled
      rcases List.mem_map.mp original with ⟨timing, inside, found⟩
      rw [untimed.assignmentTimings timing inside] at found
      cases found

end Untimed

section Exact

variable [Talkbank]

/-- Utterances assigned to different labels have different speakers. -/
def LabelsApart (chat : ChatFile) (segments : List DiarizationSegment) : Prop :=
  ∀ u ∈ (relabelUtterancesByDiarization chat segments).2.utterances,
    ∀ v ∈ (relabelUtterancesByDiarization chat segments).2.utterances,
      ∀ label label', assignedLabel segments u = some label →
        assignedLabel segments v = some label' → label ≠ label' →
          u.main.speaker ≠ v.main.speaker

/-- Every piece of an untimed utterance has the speaker of the utterance. -/
def UntimedKept (chat : ChatFile) (segments : List DiarizationSegment) : Prop :=
  ∀ utterance ∈ chat.utterances, Untimed utterance →
    ∀ piece ∈ relabelledPieces chat segments utterance,
      piece.main.speaker = utterance.main.speaker

/-- Some piece of some utterance is assigned to the label. -/
def Assigned (chat : ChatFile) (segments : List DiarizationSegment) (label : String) : Prop :=
  ∃ utterance ∈ chat.utterances,
    ∃ child ∈ splitUtterance utterance (speakerAssignments utterance segments),
      assignedLabel segments child = some label

/-- No two assigned labels have ranks with one code. -/
def RanksApart (chat : ChatFile) (segments : List DiarizationSegment) : Prop :=
  ∀ label label', Assigned chat segments label → Assigned chat segments label' →
    label ≠ label' →
      ¬ SameCode chat.participants.keys
        (carriedRank chat segments (codeOfLabel chat.participants.keys segments label))
        (carriedRank chat segments (codeOfLabel chat.participants.keys segments label'))

/-- Where the speaker of an untimed utterance is the code of a label, all codes before it
are carried. -/
def EarlierCarried (chat : ChatFile) (segments : List DiarizationSegment) : Prop :=
  ∀ utterance ∈ chat.utterances, Untimed utterance →
    utterance.main.speaker ∈ codeSequence chat.participants.keys segments →
      ∀ code ∈ (codeSequence chat.participants.keys segments).takeWhile
        (· ≠ utterance.main.speaker), code ∈ carriedCodes chat segments

theorem finalSpeaker_of_assigned {chat : ChatFile} {segments : List DiarizationSegment}
    {label : String} (assigned : Assigned chat segments label) :
    finalSpeaker chat segments (codeOfLabel chat.participants.keys segments label) =
      speakerCode chat.participants.keys
        (carriedRank chat segments (codeOfLabel chat.participants.keys segments label)) := by
  rcases assigned with ⟨utterance, present, child, inside, isLabel⟩
  have carried := firstCode_mem_carriedCodes present inside
  simp only [firstCode, isLabel] at carried
  exact if_pos ⟨codeOfLabel_mem (assignedLabel_mem isLabel), carried⟩

theorem labelsApart_iff {chat : ChatFile} {segments : List DiarizationSegment}
    (diarized : segments ≠ [])
    (succeeded : (relabelUtterancesByDiarization chat segments).1 = .ok ()) :
    LabelsApart chat segments ↔ RanksApart chat segments := by
  constructor
  · intro apart label label' assigned assigned' different same
    rw [← speakerCode_eq_iff chat.participants.keys_nodup, ← finalSpeaker_of_assigned assigned,
      ← finalSpeaker_of_assigned assigned'] at same
    rcases assigned with ⟨utterance, present, child, inside, isLabel⟩
    rcases assigned' with ⟨utterance', present', child', inside', isLabel'⟩
    rcases @mem_relabelledPieces _ chat segments utterance child inside with
      ⟨piece, member, labelled, speaker⟩
    rcases @mem_relabelledPieces _ chat segments utterance' child' inside' with
      ⟨piece', member', labelled', speaker'⟩
    rw [firstCode, isLabel] at speaker
    rw [firstCode, isLabel'] at speaker'
    rw [LabelsApart, relabel_utterances diarized succeeded] at apart
    apply apart piece (List.mem_flatMap.mpr ⟨utterance, present, member⟩) piece'
      (List.mem_flatMap.mpr ⟨utterance', present', member'⟩) label label'
      (labelled.trans isLabel) (labelled'.trans isLabel') different
    rw [speaker, speaker']
    exact same
  · intro apart
    rw [LabelsApart, relabel_utterances diarized succeeded]
    intro u memberU v memberV label label' isLabel isLabel' different same
    rcases List.mem_flatMap.mp memberU with ⟨utterance, present, member⟩
    rcases List.mem_flatMap.mp memberV with ⟨utterance', present', member'⟩
    rcases relabelledPieces_speaker member with ⟨child, inside, labelled, speaker⟩
    rcases relabelledPieces_speaker member' with ⟨child', inside', labelled', speaker'⟩
    rw [labelled] at isLabel
    rw [labelled'] at isLabel'
    have assigned : Assigned chat segments label := ⟨utterance, present, child, inside, isLabel⟩
    have assigned' : Assigned chat segments label' :=
      ⟨utterance', present', child', inside', isLabel'⟩
    apply apart label label' assigned assigned' different
    rw [firstCode, isLabel] at speaker
    rw [firstCode, isLabel'] at speaker'
    rw [← speakerCode_eq_iff chat.participants.keys_nodup, ← finalSpeaker_of_assigned assigned,
      ← finalSpeaker_of_assigned assigned']
    exact speaker.symm.trans (same.trans speaker')

/-- A carried code of the sequence keeps its place exactly when all before it are carried. -/
theorem finalSpeaker_eq_self_iff {chat : ChatFile} {segments : List DiarizationSegment}
    {code : String} (known : code ∈ codeSequence chat.participants.keys segments)
    (carried : code ∈ carriedCodes chat segments) :
    finalSpeaker chat segments code = code ↔
      ∀ earlier ∈ (codeSequence chat.participants.keys segments).takeWhile (· ≠ code),
        earlier ∈ carriedCodes chat segments := by
  have position := getElem?_takeWhile_length known
  have bound := (List.getElem?_eq_some_iff.mp position).1
  rw [codeSequence_length] at bound
  rw [codeSequence_getElem? _ _ bound, Option.some.injEq] at position
  rw [finalSpeaker, if_pos ⟨known, carried⟩]
  have rankLe : carriedRank chat segments code ≤ ((codeSequence chat.participants.keys
      segments).takeWhile (· ≠ code)).length := List.countP_le_length
  constructor
  · intro kept
    have all : carriedRank chat segments code = ((codeSequence chat.participants.keys
        segments).takeWhile (· ≠ code)).length := by
      by_contra different
      have earlier : carriedRank chat segments code < ((codeSequence chat.participants.keys
          segments).takeWhile (· ≠ code)).length := by omega
      -- A smaller rank is a position before the first occurrence of the code.
      have entry := List.getElem_mem earlier
      have notCode := List.mem_takeWhile_imp entry
      rw [(List.takeWhile_prefix _).getElem] at notCode
      have value := codeSequence_getElem? chat.participants.keys segments (earlier.trans bound)
      rw [List.getElem?_eq_getElem (by rw [codeSequence_length]; omega), Option.some.injEq,
        kept] at value
      simp [value] at notCode
    have counted := List.countP_eq_length.mp all
    intro earlier member
    simpa using counted earlier member
  · intro all
    have rank : carriedRank chat segments code = ((codeSequence chat.participants.keys
        segments).takeWhile (· ≠ code)).length := by
      apply List.countP_eq_length.mpr
      intro earlier member
      simpa using all earlier member
    rw [rank, position]

theorem untimedKept_iff (chat : ChatFile) (segments : List DiarizationSegment) :
    UntimedKept chat segments ↔ EarlierCarried chat segments := by
  have single : ∀ utterance, utterance ∈ chat.utterances → Untimed utterance →
      utterance.main.speaker ∈ carriedCodes chat segments ∧
      ((∀ piece ∈ relabelledPieces chat segments utterance,
        piece.main.speaker = utterance.main.speaker) ↔
          finalSpeaker chat segments utterance.main.speaker = utterance.main.speaker) := by
    intro utterance present untimed
    have unsplit := untimed.split segments
    have code : firstCode chat.participants.keys segments utterance = utterance.main.speaker := by
      simp [firstCode, assignedLabel, untimed.timing]
    have inside : utterance ∈ splitUtterance utterance (speakerAssignments utterance segments) := by
      rw [unsplit]
      exact List.mem_singleton_self _
    refine ⟨?_, ?_, ?_⟩
    · rw [← code]
      exact firstCode_mem_carriedCodes present inside
    · intro kept
      rcases @mem_relabelledPieces _ chat segments utterance utterance inside with
        ⟨piece, member, _, speaker⟩
      rw [code] at speaker
      exact speaker.symm.trans (kept piece member)
    · intro kept piece member
      rcases relabelledPieces_speaker member with ⟨child, inside', _, speaker⟩
      rw [unsplit, List.mem_singleton] at inside'
      subst inside'
      rw [code] at speaker
      exact speaker.trans kept
  constructor
  · intro kept utterance present untimed known
    rcases single utterance present untimed with ⟨carried, pieces⟩
    exact (finalSpeaker_eq_self_iff known carried).mp (pieces.mp (kept utterance present untimed))
  · intro earlier utterance present untimed
    rcases single utterance present untimed with ⟨carried, pieces⟩
    apply pieces.mpr
    by_cases known : utterance.main.speaker ∈ codeSequence chat.participants.keys segments
    · exact (finalSpeaker_eq_self_iff known carried).mpr (earlier utterance present untimed known)
    · exact if_neg fun both => known both.1

/-- When the stage succeeds, labels stay apart and untimed utterances keep their speaker
exactly under the two conditions; without participants nothing is relabelled. -/
theorem codes_apart_iff {chat : ChatFile} {segments : List DiarizationSegment}
    (diarized : segments ≠ []) :
    ((relabelUtterancesByDiarization chat segments).1 = .ok () →
      (relabelUtterancesByDiarization chat segments).2.utterances =
          chat.utterances.flatMap (relabelledPieces chat segments) ∧
        LabelsApart chat segments ∧ UntimedKept chat segments) ↔
      chat.participants.entries = [] ∨
        (RanksApart chat segments ∧ EarlierCarried chat segments) := by
  constructor
  · intro kept
    by_cases participants : chat.participants.entries = []
    · exact Or.inl participants
    · have succeeded := @relabel_succeeds _ chat segments participants
      rcases kept succeeded with ⟨_, apart, untimed⟩
      exact Or.inr ⟨(labelsApart_iff diarized succeeded).mp apart,
        (untimedKept_iff chat segments).mp untimed⟩
  · intro condition succeeded
    refine ⟨relabel_utterances diarized succeeded, ?_⟩
    rcases condition with participants | ⟨apart, earlier⟩
    · have nobody : ∀ code, code ∈ codeSequence chat.participants.keys segments →
          code ∉ carriedCodes chat segments :=
        fun _ => carried_empty_of_succeeds diarized participants succeeded
      refine ⟨(labelsApart_iff diarized succeeded).mpr ?_,
        (untimedKept_iff chat segments).mpr ?_⟩
      · intro label _ assigned _ _
        rcases assigned with ⟨utterance, present, child, inside, isLabel⟩
        have carried := firstCode_mem_carriedCodes present inside
        simp only [firstCode, isLabel] at carried
        exact absurd carried (nobody _ (codeOfLabel_mem (assignedLabel_mem isLabel)))
      · intro utterance present untimed known
        have inside : utterance ∈
            splitUtterance utterance (speakerAssignments utterance segments) := by
          rw [untimed.split segments]
          exact List.mem_singleton_self _
        have carried := firstCode_mem_carriedCodes present inside
        have code : firstCode chat.participants.keys segments utterance =
            utterance.main.speaker := by
          simp [firstCode, assignedLabel, untimed.timing]
        rw [code] at carried
        exact absurd carried (nobody _ known)
    · exact ⟨(labelsApart_iff diarized succeeded).mpr apart,
        (untimedKept_iff chat segments).mpr earlier⟩

end Exact

section Failing

/-- A participant without further data. -/
def plainParticipant (code : String) : String × Participant :=
  (code,
    { code := code, name := none, role := "Participant",
      id := { language := "eng", corpus := none, speaker := code, role := "Participant" } })

def timedItem (text : String) (startMs endMs : ℕ) : UtteranceContent :=
  .word (Documented.timedWord text startMs endMs)

def plainUtterance (speaker : String) (content : List UtteranceContent) : Utterance :=
  Utterance.new (MainTier.new speaker content .period)

/-- The only declared code is the fresh code of the second label. -/
def collidingChat : ChatFile where
  participants := ⟨[plainParticipant "PAR1"], by decide⟩
  lines :=
    [.utterance (plainUtterance "PAR1" [timedItem "hello" 0 400]),
      .utterance (plainUtterance "PAR1" [timedItem "there" 500 900])]

def collidingSegments : List DiarizationSegment :=
  [⟨0, 400, "speaker-a"⟩, ⟨500, 900, "speaker-b"⟩]

/-- Nothing is assigned to the first label, and the untimed utterance has the second code. -/
def renamedChat : ChatFile where
  participants := ⟨[plainParticipant "PAR0", plainParticipant "PAR1"], by decide⟩
  lines :=
    [.utterance (plainUtterance "PAR0" [timedItem "hello" 500 900]),
      .utterance (plainUtterance "PAR1" [.word (Word.simple "there")])]

def renamedSegments : List DiarizationSegment :=
  [⟨5000, 6000, "speaker-a"⟩, ⟨500, 900, "speaker-b"⟩]

theorem renamed_untimed : Untimed (plainUtterance "PAR1" [.word (Word.simple "there")]) where
  inline domain item member := by
    have only : item = .word (Word.simple "there") := by
      simpa [Talkbank.walkWords, Documented.walkItems, Documented.walkItem, plainUtterance,
        Utterance.new, MainTier.new] using member
    rw [only]
    rfl
  wor tier isTier := by
    simp [Utterance.worTier, plainUtterance, Utterance.new] at isTier
  bullet := rfl

theorem codes_not_apart :
    (relabelUtterancesByDiarization collidingChat collidingSegments).1 = .ok () ∧
      ¬ LabelsApart collidingChat collidingSegments ∧
      (relabelUtterancesByDiarization renamedChat renamedSegments).1 = .ok () ∧
      ¬ UntimedKept renamedChat renamedSegments := by
  refine ⟨by decide, ?_, by decide, ?_⟩
  · intro apart
    have first := List.getElem_mem (n := 0) (show 0 <
      (relabelUtterancesByDiarization collidingChat
        collidingSegments).2.utterances.length by decide)
    have second := List.getElem_mem (n := 1) (show 1 <
      (relabelUtterancesByDiarization collidingChat
        collidingSegments).2.utterances.length by decide)
    apply apart _ first _ second "speaker-a" "speaker-b" (by decide) (by decide) (by decide)
    decide
  · intro kept
    have second := List.getElem_mem (n := 1) (show 1 < renamedChat.utterances.length by decide)
    have piece := List.getElem_mem (n := 0) (show 0 < (relabelledPieces renamedChat renamedSegments
      renamedChat.utterances[1]).length by decide)
    have renamed := kept _ second renamed_untimed _ piece
    revert renamed
    decide

theorem codes_apart_iff_colliding :
    ((relabelUtterancesByDiarization collidingChat collidingSegments).1 = .ok () →
      (relabelUtterancesByDiarization collidingChat collidingSegments).2.utterances =
          collidingChat.utterances.flatMap (relabelledPieces collidingChat collidingSegments) ∧
        LabelsApart collidingChat collidingSegments ∧
        UntimedKept collidingChat collidingSegments) ↔
      collidingChat.participants.entries = [] ∨
        (RanksApart collidingChat collidingSegments ∧
          EarlierCarried collidingChat collidingSegments) :=
  codes_apart_iff (by decide)

end Failing

end Batchalign.Speaker
