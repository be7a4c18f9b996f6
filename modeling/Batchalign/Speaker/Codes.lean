import Batchalign.Chat.Documented
import Batchalign.Speaker.Basic

/-!
# Which codes the labels end up with

After the first pass a piece carries the code of its label, or the speaker of its
utterance when it has no timing. The second pass renames every carried code to
the code at its rank among the carried ones. Both passes index the same sequence
of codes, the declared ones followed by fresh ones, and a fresh code can be a
declared one.

`codes_apart_iff` gives the exact condition under which labels stay apart and
untimed utterances keep their speaker.
-/

namespace Batchalign.Speaker

open Batchalign.Chat Batchalign.Segmentation Partition

section Sequence

/-- Two indices have one code: they are the same, or one is fresh and its code is declared
at the other. -/
def SameCode (declared : List String) (a b : ℕ) : Prop :=
  a = b ∨ (declared.length ≤ b ∧ declared[a]? = some ("PAR" ++ toString b)) ∨
    (declared.length ≤ a ∧ declared[b]? = some ("PAR" ++ toString a))

theorem speakerCode_of_lt {declared : List String} {index : ℕ} (bound : index < declared.length) :
    speakerCode declared index = declared[index] := by
  simp [speakerCode, bound]

theorem speakerCode_of_le {declared : List String} {index : ℕ} (bound : declared.length ≤ index) :
    speakerCode declared index = "PAR" ++ toString index := by
  simp [speakerCode, bound]

theorem freshCode_injective {a b : ℕ} (same : "PAR" ++ toString a = "PAR" ++ toString b) :
    a = b := by
  have digits := (String.append_right_inj "PAR").mp same
  exact Nat.repr_inj.mp digits

theorem speakerCode_eq_iff {declared : List String} (nodup : declared.Nodup) (a b : ℕ) :
    speakerCode declared a = speakerCode declared b ↔ SameCode declared a b := by
  simp only [SameCode]
  rcases Nat.lt_or_ge a declared.length with aDeclared | aFresh
  · rcases Nat.lt_or_ge b declared.length with bDeclared | bFresh
    · rw [speakerCode_of_lt aDeclared, speakerCode_of_lt bDeclared, nodup.getElem_inj_iff]
      omega
    · rw [speakerCode_of_lt aDeclared, speakerCode_of_le bFresh,
        List.getElem?_eq_getElem aDeclared]
      simp only [Option.some.injEq]
      constructor
      · intro same
        exact Or.inr (Or.inl ⟨bFresh, same⟩)
      · rintro (rfl | ⟨_, same⟩ | ⟨aFresh, _⟩)
        · omega
        · exact same
        · omega
  · rcases Nat.lt_or_ge b declared.length with bDeclared | bFresh
    · rw [speakerCode_of_le aFresh, speakerCode_of_lt bDeclared,
        List.getElem?_eq_getElem bDeclared]
      simp only [Option.some.injEq]
      constructor
      · intro same
        exact Or.inr (Or.inr ⟨aFresh, same.symm⟩)
      · rintro (rfl | ⟨bFresh, _⟩ | ⟨_, same⟩)
        · omega
        · omega
        · exact same.symm
    · rw [speakerCode_of_le aFresh, speakerCode_of_le bFresh,
        List.getElem?_eq_none aFresh, List.getElem?_eq_none bFresh]
      constructor
      · intro same
        exact Or.inl (freshCode_injective same)
      · rintro (rfl | ⟨_, impossible⟩ | ⟨_, impossible⟩)
        · rfl
        · cases impossible
        · cases impossible

theorem lookup_zipIdx (keys : List String) (value : ℕ → String) (key : String) (start : ℕ) :
    List.lookup key ((keys.zipIdx start).map fun x => (x.1, value x.2)) =
      if key ∈ keys then some (value (start + keys.idxOf key)) else none := by
  induction keys generalizing start with
  | nil => rfl
  | cons head keys ih =>
      rw [List.zipIdx_cons, List.map_cons, List.lookup_cons]
      by_cases here : key = head
      · subst here
        simp
      · have different : (key == head) = false := by simpa using here
        simp only [different, ih, List.mem_cons, here, false_or]
        rw [List.idxOf_cons_ne _ (Ne.symm here), Nat.add_right_comm, Nat.add_assoc]

theorem idxOf_filter_eq_countP (keep : String → Bool) (key : String) (keys : List String)
    (kept : keep key = true) :
    (keys.filter keep).idxOf key = (keys.takeWhile (· ≠ key)).countP keep := by
  induction keys with
  | nil => rfl
  | cons head keys ih =>
      by_cases here : head = key
      · subst here
        simp [kept]
      · by_cases keepHead : keep head = true
        · simp [keepHead, here, ih, List.idxOf_cons_ne]
        · simp [keepHead, here, ih]

theorem getElem?_takeWhile_length {key : String} {keys : List String} (known : key ∈ keys) :
    keys[(keys.takeWhile (· ≠ key)).length]? = some key := by
  induction keys with
  | nil => cases known
  | cons head keys ih =>
      by_cases here : head = key
      · simp [here]
      · rcases List.mem_cons.mp known with same | later
        · exact absurd same.symm here
        · simpa [here] using ih later

end Sequence

section Labels

/-- The codes of the labels, in the order of the labels. -/
def codeSequence (declared : List String) (segments : List DiarizationSegment) : List String :=
  (diarizationLabels segments).zipIdx.map fun label => speakerCode declared label.2

def codeOfLabel (declared : List String) (segments : List DiarizationSegment) (label : String) :
    String :=
  speakerCode declared ((diarizationLabels segments).idxOf label)

theorem mem_diarizationLabels {segments : List DiarizationSegment} {label : String} :
    label ∈ diarizationLabels segments ↔ ∃ segment ∈ segments, segment.speaker = label := by
  simp [diarizationLabels]

theorem labelAt_mem {segments : List DiarizationSegment} {timestampMs : ℕ} {label : String}
    (found : labelAt segments timestampMs = some label) : label ∈ diarizationLabels segments := by
  simp only [labelAt, Option.bind_eq_some_iff, Option.map_eq_some_iff] at found
  rcases found with ⟨index, _, segment, atIndex, rfl⟩
  exact mem_diarizationLabels.mpr ⟨segment, List.mem_of_getElem? atIndex, rfl⟩

theorem lookup_speakerCodes (declared : List String) (segments : List DiarizationSegment)
    (label : String) :
    List.lookup label (speakerCodes declared segments) =
      if label ∈ diarizationLabels segments then some (codeOfLabel declared segments label)
      else none := by
  simpa [codeOfLabel, speakerCodes] using
    lookup_zipIdx (diarizationLabels segments) (speakerCode declared) label 0

theorem codes_map_snd (declared : List String) (segments : List DiarizationSegment) :
    (speakerCodes declared segments).map Prod.snd = codeSequence declared segments := by
  simp [speakerCodes, codeSequence]

theorem codeSequence_getElem? (declared : List String) (segments : List DiarizationSegment)
    {index : ℕ} (bound : index < (diarizationLabels segments).length) :
    (codeSequence declared segments)[index]? = some (speakerCode declared index) := by
  simp [codeSequence, bound]

theorem codeSequence_length (declared : List String) (segments : List DiarizationSegment) :
    (codeSequence declared segments).length = (diarizationLabels segments).length := by
  simp [codeSequence]

theorem codeOfLabel_mem {declared : List String} {segments : List DiarizationSegment}
    {label : String} (known : label ∈ diarizationLabels segments) :
    codeOfLabel declared segments label ∈ codeSequence declared segments :=
  List.mem_of_getElem? (codeSequence_getElem? declared segments (List.idxOf_lt_length_of_mem known))

end Labels

section FirstPass

variable [Talkbank]

/-- The label an utterance is assigned to, by the midpoint of its timing. -/
def assignedLabel (segments : List DiarizationSegment) (utterance : Utterance) : Option String :=
  (utteranceTimingMs utterance).bind fun (startMs, endMs) =>
    labelAt segments (midpoint startMs endMs)

theorem assignedLabel_mem {segments : List DiarizationSegment} {utterance : Utterance}
    {label : String} (assigned : assignedLabel segments utterance = some label) :
    label ∈ diarizationLabels segments := by
  simp only [assignedLabel, Option.bind_eq_some_iff] at assigned
  rcases assigned with ⟨timing, _, found⟩
  exact labelAt_mem found

@[simp]
theorem wordSpan_withBullet (utterance : Utterance) (bullet : Bullet) :
    wordSpan (Utterance.withBullet utterance bullet) = wordSpan utterance := rfl

@[simp]
theorem utteranceTimingMs_withSpeaker (utterance : Utterance) (speaker : String) :
    utteranceTimingMs (Utterance.withSpeaker utterance speaker) = utteranceTimingMs utterance := rfl

/-- Setting the bullet to the timing does not change the timing. -/
theorem utteranceTimingMs_withBullet {utterance : Utterance} {startMs endMs : ℕ}
    (timed : utteranceTimingMs utterance = some (startMs, endMs)) :
    utteranceTimingMs (Utterance.withBullet utterance (Bullet.new startMs endMs)) =
      some (startMs, endMs) := by
  have ordered : orderedTiming (startMs, endMs) = true := by
    simp only [utteranceTimingMs, Option.or_eq_some_iff, Option.filter_eq_some_iff] at timed
    rcases timed with fromWords | fromBullet
    · exact fromWords.2
    · exact fromBullet.2.2
  have newBullet : (bulletTiming (some (Bullet.new startMs endMs))).filter orderedTiming =
      some (startMs, endMs) := by
    simp [bulletTiming, Bullet.new, ordered]
  have same : utteranceTimingMs (Utterance.withBullet utterance (Bullet.new startMs endMs)) =
      ((wordSpan utterance).filter orderedTiming).or (some (startMs, endMs)) := by
    rw [← newBullet]
    rfl
  rw [same]
  cases fromWords : (wordSpan utterance).filter orderedTiming with
  | none => rfl
  | some span =>
      rw [utteranceTimingMs, fromWords] at timed
      exact timed

@[simp]
theorem utteranceTimingMs_relabelChild (segments : List DiarizationSegment)
    (codes : List (String × String)) (child : Utterance) :
    utteranceTimingMs (relabelChild segments codes child) = utteranceTimingMs child := by
  unfold relabelChild
  split
  · rfl
  · rename_i startMs endMs timed
    simp only []
    split
    · rw [utteranceTimingMs_withSpeaker, utteranceTimingMs_withBullet timed, timed]
    · rw [utteranceTimingMs_withBullet timed, timed]

@[simp]
theorem assignedLabel_relabelChild (segments : List DiarizationSegment)
    (codes : List (String × String)) (child : Utterance) :
    assignedLabel segments (relabelChild segments codes child) = assignedLabel segments child := by
  simp [assignedLabel]

@[simp]
theorem assignedLabel_renameSpeaker (segments : List DiarizationSegment)
    (remap : List (String × String)) (utterance : Utterance) :
    assignedLabel segments (renameSpeaker remap utterance) = assignedLabel segments utterance := by
  simp only [renameSpeaker]
  split <;> rfl

/-- The code a piece carries after the first pass. -/
def firstCode (declared : List String) (segments : List DiarizationSegment)
    (piece : Utterance) : String :=
  match assignedLabel segments piece with
  | some label => codeOfLabel declared segments label
  | none => piece.main.speaker

theorem relabelChild_speaker (declared : List String) (segments : List DiarizationSegment)
    (child : Utterance) :
    (relabelChild segments (speakerCodes declared segments) child).main.speaker =
      firstCode declared segments child := by
  simp only [relabelChild, firstCode, assignedLabel]
  cases timed : utteranceTimingMs child with
  | none => rfl
  | some timing =>
      simp only [Option.bind_some]
      cases found : labelAt segments (midpoint timing.1 timing.2) with
      | none => rfl
      | some label =>
          simp only [Option.bind_some, lookup_speakerCodes, if_pos (labelAt_mem found)]
          rfl

end FirstPass

section SecondPass

theorem renameSpeaker_speaker (remap : List (String × String)) (utterance : Utterance) :
    (renameSpeaker remap utterance).main.speaker =
      (List.lookup utterance.main.speaker remap).getD utterance.main.speaker := by
  simp only [renameSpeaker]
  cases List.lookup utterance.main.speaker remap <;> rfl

variable [Talkbank]

/-- The pieces an utterance ends up as. -/
def relabelledPieces (chat : ChatFile) (segments : List DiarizationSegment)
    (utterance : Utterance) : List Utterance :=
  let declared := chat.participants.keys
  let codes := speakerCodes declared segments
  let remap := speakerCodeRemap declared codes
    (usedSpeakerCodes (chat.lines.flatMap (labelLine segments codes)))
  (labelledPieces segments codes utterance).map (renameSpeaker remap)

/-- The codes the pieces carry after the first pass. -/
def carriedCodes (chat : ChatFile) (segments : List DiarizationSegment) : List String :=
  (chat.utterances.flatMap fun utterance =>
    splitUtterance utterance (speakerAssignments utterance segments)).map
      (firstCode chat.participants.keys segments)

/-- How many carried codes come before a code in the sequence of codes. -/
def carriedRank (chat : ChatFile) (segments : List DiarizationSegment) (code : String) : ℕ :=
  ((codeSequence chat.participants.keys segments).takeWhile (· ≠ code)).countP
    (carriedCodes chat segments).contains

theorem utterances_labelLine (segments : List DiarizationSegment) (codes : List (String × String))
    (lines : List Line) :
    (lines.flatMap (labelLine segments codes)).filterMap Line.utterance? =
      (lines.filterMap Line.utterance?).flatMap (labelledPieces segments codes) := by
  induction lines with
  | nil => rfl
  | cons line lines ih =>
      rw [List.flatMap_cons, List.filterMap_append, ih, List.filterMap_cons]
      cases line with
      | utterance utterance =>
          simp only [labelLine, Line.utterance?, List.flatMap_cons, List.filterMap_map]
          congr 1
          rw [show Line.utterance? ∘ Line.utterance = some from rfl, List.filterMap_some]
      | header header => rfl
      | other text => rfl

theorem mem_usedSpeakerCodes (chat : ChatFile) (segments : List DiarizationSegment)
    (code : String) :
    code ∈ usedSpeakerCodes (chat.lines.flatMap
        (labelLine segments (speakerCodes chat.participants.keys segments))) ↔
      code ∈ carriedCodes chat segments := by
  rw [usedSpeakerCodes, List.mem_eraseDups, utterances_labelLine, carriedCodes,
    List.map_flatMap, List.map_flatMap]
  have pieces : ∀ utterance : Utterance,
      (labelledPieces segments (speakerCodes chat.participants.keys segments) utterance).map
        (fun utterance => utterance.main.speaker) =
      (splitUtterance utterance (speakerAssignments utterance segments)).map
        (firstCode chat.participants.keys segments) := by
    intro utterance
    rw [labelledPieces, List.map_map]
    apply List.map_congr_left
    intro child _
    exact relabelChild_speaker _ segments child
  simp only [pieces]
  rfl

/-- The second pass sends a carried code of the sequence to the code at its rank. -/
theorem lookup_remap (chat : ChatFile) (segments : List DiarizationSegment) (code : String) :
    List.lookup code (speakerCodeRemap chat.participants.keys
        (speakerCodes chat.participants.keys segments)
        (usedSpeakerCodes (chat.lines.flatMap
          (labelLine segments (speakerCodes chat.participants.keys segments))))) =
      if code ∈ codeSequence chat.participants.keys segments ∧ code ∈ carriedCodes chat segments
      then some (speakerCode chat.participants.keys (carriedRank chat segments code))
      else none := by
  have sameKeep : (usedSpeakerCodes (chat.lines.flatMap
      (labelLine segments (speakerCodes chat.participants.keys segments)))).contains =
      (carriedCodes chat segments).contains := by
    funext code
    rw [Bool.eq_iff_iff]
    simpa using mem_usedSpeakerCodes chat segments code
  simp only [speakerCodeRemap]
  rw [codes_map_snd, sameKeep, lookup_zipIdx]
  simp only [List.mem_filter, List.contains_eq_mem, decide_eq_true_eq, Nat.zero_add]
  split
  · rename_i present
    rw [idxOf_filter_eq_countP _ _ _ (by simpa using present.2)]
    simp [carriedRank]
  · rfl

/-- The speaker a piece ends up with. -/
def finalSpeaker (chat : ChatFile) (segments : List DiarizationSegment) (code : String) : String :=
  if code ∈ codeSequence chat.participants.keys segments ∧ code ∈ carriedCodes chat segments then
    speakerCode chat.participants.keys (carriedRank chat segments code)
  else code

theorem relabelledPieces_speaker {chat : ChatFile} {segments : List DiarizationSegment}
    {utterance piece : Utterance} (member : piece ∈ relabelledPieces chat segments utterance) :
    ∃ child ∈ splitUtterance utterance (speakerAssignments utterance segments),
      assignedLabel segments piece = assignedLabel segments child ∧
      piece.main.speaker =
        finalSpeaker chat segments (firstCode chat.participants.keys segments child) := by
  simp only [relabelledPieces, labelledPieces, List.map_map, List.mem_map] at member
  rcases member with ⟨child, inside, rfl⟩
  refine ⟨child, inside, ?_, ?_⟩
  · simp
  · rw [Function.comp_apply, renameSpeaker_speaker, relabelChild_speaker, lookup_remap]
    simp only [finalSpeaker]
    split <;> rfl

theorem mem_relabelledPieces {chat : ChatFile} {segments : List DiarizationSegment}
    {utterance child : Utterance}
    (inside : child ∈ splitUtterance utterance (speakerAssignments utterance segments)) :
    ∃ piece ∈ relabelledPieces chat segments utterance,
      assignedLabel segments piece = assignedLabel segments child ∧
      piece.main.speaker =
        finalSpeaker chat segments (firstCode chat.participants.keys segments child) := by
  refine ⟨_, List.mem_map_of_mem (List.mem_map_of_mem inside), ?_, ?_⟩
  · simp
  · rw [renameSpeaker_speaker, relabelChild_speaker, lookup_remap]
    simp only [finalSpeaker]
    split <;> rfl

theorem firstCode_mem_carriedCodes {chat : ChatFile} {segments : List DiarizationSegment}
    {utterance child : Utterance} (present : utterance ∈ chat.utterances)
    (inside : child ∈ splitUtterance utterance (speakerAssignments utterance segments)) :
    firstCode chat.participants.keys segments child ∈ carriedCodes chat segments :=
  List.mem_map_of_mem (List.mem_flatMap.mpr ⟨utterance, present, inside⟩)

end SecondPass

section Output

theorem utterances_insertIdHeaders (added : List Participant) (lines : List Line) :
    (insertIdHeaders added lines).filterMap Line.utterance? =
      lines.filterMap Line.utterance? := by
  unfold insertIdHeaders
  split
  · rfl
  · extract_lets insertAt insertAt'
    have headers : (added.map fun participant => Line.header (.id participant.id)).filterMap
        Line.utterance? = [] := by
      apply List.filterMap_eq_nil_iff.mpr
      intro line member
      rcases List.mem_map.mp member with ⟨participant, _, rfl⟩
      rfl
    rw [List.filterMap_append, List.filterMap_append, headers, List.append_nil,
      ← List.filterMap_append, List.take_append_drop]

theorem utterances_rewriteParticipantsHeader (entries : List ParticipantEntry)
    (lines : List Line) :
    (lines.map (rewriteParticipantsHeader entries)).filterMap Line.utterance? =
      lines.filterMap Line.utterance? := by
  rw [List.filterMap_map]
  apply List.filterMap_congr
  intro line _
  cases line with
  | header header => cases header <;> rfl
  | utterance utterance => rfl
  | other text => rfl

theorem utterances_renameLine (remap : List (String × String)) (lines : List Line) :
    (lines.map (renameLine remap)).filterMap Line.utterance? =
      (lines.filterMap Line.utterance?).map (renameSpeaker remap) := by
  rw [List.filterMap_map, List.map_filterMap]
  apply List.filterMap_congr
  intro line _
  cases line <;> rfl

variable [Talkbank]

/-- When the stage succeeds, the utterances are the pieces of the old ones, in order. -/
theorem relabel_utterances {chat : ChatFile} {segments : List DiarizationSegment}
    (diarized : segments ≠ [])
    (succeeded : (relabelUtterancesByDiarization chat segments).1 = .ok ()) :
    (relabelUtterancesByDiarization chat segments).2.utterances =
      chat.utterances.flatMap (relabelledPieces chat segments) := by
  have renamed : ∀ remap : List (String × String), ((chat.lines.flatMap
      (labelLine segments (speakerCodes chat.participants.keys segments))).map
        (renameLine remap)).filterMap Line.utterance? =
      chat.utterances.flatMap fun utterance =>
        (labelledPieces segments (speakerCodes chat.participants.keys segments) utterance).map
          (renameSpeaker remap) := by
    intro remap
    rw [utterances_renameLine, utterances_labelLine, List.map_flatMap]
    rfl
  have nonempty : segments.isEmpty = false := by simpa using diarized
  simp only [relabelUtterancesByDiarization] at succeeded ⊢
  simp only [nonempty, Bool.false_eq_true, if_false] at succeeded ⊢
  split
  · rw [ChatFile.utterances, utterances_insertIdHeaders, utterances_rewriteParticipantsHeader,
      renamed]
    rfl
  · rename_i undeclared
    rw [if_neg undeclared] at succeeded
    cases template : chat.participants.values.head? with
    | none => simp [template] at succeeded
    | some first =>
        simp only
        rw [ChatFile.utterances, utterances_insertIdHeaders, utterances_rewriteParticipantsHeader,
          renamed]
        rfl

/-- The stage fails only without any participant. -/
theorem relabel_succeeds {chat : ChatFile} {segments : List DiarizationSegment}
    (participants : chat.participants.entries ≠ []) :
    (relabelUtterancesByDiarization chat segments).1 = .ok () := by
  rcases List.exists_cons_of_ne_nil participants with ⟨first, rest, entries⟩
  have template : chat.participants.values.head? = some first.2 := by
    simp [Participants.values, entries]
  simp only [relabelUtterancesByDiarization]
  split
  · rfl
  · simp only [template]
    split <;> rfl

theorem carried_empty_of_succeeds {chat : ChatFile} {segments : List DiarizationSegment}
    (diarized : segments ≠ []) (participants : chat.participants.entries = [])
    (succeeded : (relabelUtterancesByDiarization chat segments).1 = .ok ()) {code : String}
    (known : code ∈ codeSequence chat.participants.keys segments) :
    code ∉ carriedCodes chat segments := by
  intro carried
  have nonempty : segments.isEmpty = false := by simpa using diarized
  have found := lookup_remap chat segments code
  rw [if_pos ⟨known, carried⟩] at found
  have undeclared : ∀ code, chat.participants.containsKey code = false := by
    simp [Participants.containsKey, Participants.keys, participants]
  have template : chat.participants.values.head? = none := by
    simp [Participants.values, participants]
  simp only [relabelUtterancesByDiarization] at succeeded
  simp only [nonempty, Bool.false_eq_true, if_false, template] at succeeded
  split at succeeded
  · rename_i all
    rcases List.lookup_eq_some_iff.mp found with ⟨front, back, shape, _⟩
    rw [shape] at all
    simp [undeclared] at all
  · cases succeeded

end Output

end Batchalign.Speaker
