import Batchalign.Asr.Transcript

/-!
# No word fails the gate

The sanitiser runs last. What it leaves of a word is legal, whatever the grammar, so that the
bridge to a transcript never meets a word the gate refuses.
-/

namespace Batchalign.Asr

open Batchalign.Runners Fallible

section Greedy

variable [ChatGrammar]

theorem isLegal_eq (text : String) : isLegal text = (structuralCheck text).isOk := by
  unfold isLegal ChatWordText.tryFrom
  split
  · rename_i check
    simp only [check]
    rfl
  · rename_i check
    simp only [check]
    rfl

/-- What the greedy rebuild has kept is nothing or legal. -/
theorem rebuild_legal (characters sanitized : List Char)
    (kept : sanitized = [] ∨ isLegal (String.ofList sanitized)) :
    characters.foldl keepLegal sanitized = [] ∨
      isLegal (String.ofList (characters.foldl keepLegal sanitized)) := by
  induction characters generalizing sanitized with
  | nil => exact kept
  | cons character characters ih =>
      apply ih
      unfold keepLegal
      split
      · rename_i legal
        exact Or.inr legal
      · exact kept

theorem rebuild_sublist (characters sanitized : List Char) :
    (characters.foldl keepLegal sanitized).Sublist (sanitized ++ characters) := by
  induction characters generalizing sanitized with
  | nil => simp
  | cons character characters ih =>
      apply (ih (keepLegal sanitized character)).trans
      rw [← List.singleton_append, ← List.append_assoc]
      apply List.Sublist.append_right
      unfold keepLegal
      split
      · exact List.Sublist.refl _
      · exact List.sublist_append_left _ _

theorem rebuild_extends (characters sanitized : List Char) :
    sanitized.Sublist (characters.foldl keepLegal sanitized) := by
  induction characters generalizing sanitized with
  | nil => exact List.Sublist.refl _
  | cons character characters ih =>
      apply List.Sublist.trans _ (ih (keepLegal sanitized character))
      unfold keepLegal
      split
      · exact List.sublist_append_left _ _
      · exact List.Sublist.refl _

/-- The rebuild keeps nothing exactly when no character is legal alone. -/
theorem rebuild_eq_nil_iff (characters : List Char) :
    characters.foldl keepLegal [] = [] ↔
      ∀ character ∈ characters, ¬ isLegal (String.singleton character) := by
  induction characters with
  | nil => simp
  | cons character characters ih =>
      have step : keepLegal [] character =
          if isLegal (String.singleton character) then [character] else [] := rfl
      rw [List.foldl_cons, List.forall_mem_cons, ← ih, step]
      by_cases legal : isLegal (String.singleton character) = true
      · have longer := (rebuild_extends characters [character]).length_le
        rw [if_pos legal]
        constructor
        · intro empty
          rw [empty] at longer
          cases longer
        · rintro ⟨illegal, _⟩
          exact absurd legal illegal
      · rw [if_neg legal]
        constructor
        · intro empty
          exact ⟨legal, empty⟩
        · rintro ⟨_, empty⟩
          exact empty

end Greedy

section Words

variable [ChatGrammar]

/-- What the sanitiser may make of a word. A legal word stays; another one keeps its times and
its kind and gets a legal text of some of its characters, or none of its characters can stand. -/
def SanitisedFrom (word : AsrWord) : Option AsrWord → Prop
  | some sanitised =>
      if isLegal word.text then sanitised = word
      else sanitised.text ≠ "" ∧ isLegal sanitised.text ∧
        sanitised.text.toList.Sublist word.text.toList ∧ sanitised.startMs = word.startMs ∧
        sanitised.endMs = word.endMs ∧ sanitised.kind = word.kind
  | none => ¬ isLegal word.text ∧ rebuildLegal word.text = "" ∧
      ∀ character ∈ word.text.toList, ¬ isLegal (String.singleton character)

theorem sanitizeChatIllegalWord_sanitised (word : AsrWord) :
    SanitisedFrom word (sanitizeChatIllegalWord word) := by
  unfold sanitizeChatIllegalWord
  by_cases legal : isLegal word.text = true
  · rw [if_pos legal, SanitisedFrom, if_pos legal]
  · rw [if_neg legal]
    by_cases empty : word.text.toList.foldl keepLegal [] = []
    · have dropped : rebuildLegal word.text = "" := by
        rw [rebuildLegal, empty]
      rw [dropped]
      exact ⟨legal, dropped, (rebuild_eq_nil_iff _).mp empty⟩
    · have kept : rebuildLegal word.text ≠ "" := by
        intro blank
        exact empty (by simpa [rebuildLegal] using congrArg String.toList blank)
      have notEmpty : (rebuildLegal word.text).isEmpty = false := by simpa using kept
      simp only [notEmpty, Bool.false_eq_true, if_false]
      rw [SanitisedFrom, if_neg legal]
      refine ⟨kept, ?_, ?_, rfl, rfl, rfl⟩
      · rcases rebuild_legal word.text.toList [] (Or.inl rfl) with nothing | stands
        · exact absurd nothing empty
        · exact stands
      · have sublist := rebuild_sublist word.text.toList []
        rwa [List.nil_append, ← String.toList_ofList (l := List.foldl _ _ _)] at sublist

theorem sanitised_legal {word sanitised : AsrWord}
    (kept : sanitizeChatIllegalWord word = some sanitised) : isLegal sanitised.text := by
  have fact := sanitizeChatIllegalWord_sanitised word
  rw [kept, SanitisedFrom] at fact
  split at fact
  · rename_i legal
    rwa [fact]
  · exact fact.2.1

variable [AsrTables] [Float64] [UnicodeCase] [UnicodeProperties]

theorem processRawAsr_legal {output : AsrOutput} {lang : String} {utterance : Utterance}
    (member : utterance ∈ processRawAsr output lang) {word : AsrWord}
    (inside : word ∈ utterance.words) : isLegal word.text := by
  have member := (List.mem_filter.mp member).1
  rcases List.mem_map.mp member with ⟨before, _, rfl⟩
  rcases List.mem_filterMap.mp inside with ⟨original, _, kept⟩
  exact sanitised_legal kept

end Words

section Bridge

variable [ChatGrammar]

/-- A word that passes the structural gate is described, whatever its language says. -/
theorem validateAsrWord_ok {word : AsrWord} (legal : isLegal word.text) (speakerId uttLang : String)
    (uttIdx wordIdx : ℕ) :
    ∃ desc, validateAsrWord word speakerId uttLang uttIdx wordIdx = .ok desc := by
  have accepted : ∃ text, ChatWordText.tryFrom word.text = .ok text := by
    cases attempt : ChatWordText.tryFrom word.text with
    | ok text => exact ⟨text, rfl⟩
    | error errors =>
        rw [isLegal, attempt] at legal
        cases legal
  rcases accepted with ⟨text, isText⟩
  unfold validateAsrWord gateWord fallbackOrFailWord
  rw [isText]
  cases ChatWordText.tryFromLang word.text uttLang with
  | ok checked => exact ⟨_, rfl⟩
  | error errors => exact ⟨_, rfl⟩

end Bridge

section Failures

variable [ChatBuilder]

def isWordFailure : TranscriptBuildError → Bool
  | .wordFailedValidation .. => true
  | .invalidLanguage .. => false

theorem languageCode_failure {language : String} {error : TranscriptBuildError}
    (failed : languageCode language = .error error) : isWordFailure error = false := by
  unfold languageCode at failed
  cases code : ChatBuilder.languageCode language with
  | ok code' =>
      rw [code] at failed
      cases failed
  | error source =>
      rw [code] at failed
      cases failed
      rfl

variable [ChatGrammar]

theorem describeUtterance_failure {participantIds : List String} {primary : String}
    {utterance : Utterance} {uttIdx : ℕ} {error : TranscriptBuildError}
    (legal : ∀ word ∈ utterance.words, isLegal word.text)
    (failed : describeUtterance participantIds primary utterance uttIdx = .error error) :
    isWordFailure error = false := by
  unfold describeUtterance at failed
  rcases bind_eq_error_iff.mp failed with language | ⟨uttLang, _, failed⟩
  · cases lang : utterance.lang with
    | none =>
        rw [lang] at language
        cases language
    | some declared =>
        rw [lang] at language
        exact languageCode_failure language
  · rcases bind_eq_error_iff.mp failed with words | ⟨descs, _, failed⟩
    · rcases mem_of_mapM_error words with ⟨⟨word, wordIdx⟩, member, isError⟩
      rcases validateAsrWord_ok (legal word (List.fst_mem_of_mem_zipIdx member)) _ uttLang uttIdx
        wordIdx with ⟨desc, isOk⟩
      cases isOk.symm.trans isError
    · cases failed

theorem transcript_failure {utterances : List Utterance} {participantIds langs : List String}
    {mediaName : Option String} {writeWor : Bool} {error : TranscriptBuildError}
    (legal : ∀ utterance ∈ utterances, ∀ word ∈ utterance.words, isLegal word.text)
    (failed : transcriptFromAsrUtterances utterances participantIds langs mediaName writeWor =
      .error error) : isWordFailure error = false := by
  unfold transcriptFromAsrUtterances at failed
  rcases bind_eq_error_iff.mp failed with language | ⟨primary, _, failed⟩
  · exact languageCode_failure language
  · rcases bind_eq_error_iff.mp failed with utts | ⟨descs, _, failed⟩
    · rcases mem_of_mapM_error utts with ⟨⟨utterance, uttIdx⟩, member, isError⟩
      exact describeUtterance_failure (legal utterance (List.fst_mem_of_mem_zipIdx member)) isError
    · cases failed

variable [AsrTables] [Float64] [UnicodeCase] [UnicodeProperties]

/-- What post-processing makes of any recording passes the word gate, and the sanitiser takes
no more from a word than the gate asks. -/
theorem processRawAsr_passes_gate :
    (∀ (output : AsrOutput) (lang : String) (participantIds langs : List String)
      (mediaName : Option String) (writeWor : Bool) (uttIdx wordIdx : ℕ)
      (speakerId wordText uttLang : String) (parseErrors : ParseErrors),
      transcriptFromAsrUtterances (processRawAsr output lang) participantIds langs mediaName
          writeWor ≠
        .error (.wordFailedValidation uttIdx wordIdx speakerId wordText uttLang parseErrors)) ∧
      ∀ word : AsrWord, SanitisedFrom word (sanitizeChatIllegalWord word) := by
  constructor
  · intro output lang participantIds langs mediaName writeWor uttIdx wordIdx speakerId wordText
      uttLang parseErrors failed
    have notWord := transcript_failure (fun utterance member word inside =>
      processRawAsr_legal member inside) failed
    cases notWord
  · exact sanitizeChatIllegalWord_sanitised

end Failures

end Batchalign.Asr
