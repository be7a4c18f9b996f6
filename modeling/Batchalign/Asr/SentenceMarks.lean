import Batchalign.Asr.Rev
import Batchalign.Asr.Sanitiser
import Batchalign.Asr.Unmarked

/-!
# The marks of the sentences

Rev ends a sentence with `.`, `?` or `!`. The words of a sentence go on without the mark, and
`retokenize` gives every turn of them a period; so what is written ends as Rev has ended it where
every sentence ends with a period, or with nothing, and makes one written turn.
-/

namespace Batchalign.Asr

open Batchalign.Chat Batchalign.Runners Fallible
open Batchalign.Morphosyntax (strip)

section Sentences

def isSentenceEnd (element : RevElement) : Bool :=
  element.type == .punct && sentEnd.contains (strip element.value)

variable [Float64]

/-- The word that an element gives to its sentence. -/
def keptWord (element : RevElement) : Option Batchalign.AsrWord :=
  if element.type = .punct then
    if strip element.value = "" then none else some (inlineWord (strip element.value))
  else if isSpokenElement element then some (revWord element) else none

/-- The words of the sentences. -/
def sentenceWords (elements : List RevElement) : List (List Batchalign.AsrWord) :=
  (elements.splitOnP isSentenceEnd).map (·.filterMap keptWord)

/-- The marks that Rev gives to the sentences; the last one has none. -/
def givenMarks (elements : List RevElement) : List (Option String) :=
  (elements.filter isSentenceEnd).map (fun element => some (strip element.value)) ++ [none]

/-- The sentences that have words, with their marks. -/
def spokenSentences (monologues : List RevMonologue) :
    List (List Batchalign.AsrWord × Option String) :=
  (monologues.flatMap fun mono =>
    (sentenceWords mono.elements).zip (givenMarks mono.elements)).filter (! ·.1.isEmpty)

theorem sentenceWords_end {element : RevElement} (isEnd : isSentenceEnd element = true)
    (elements : List RevElement) :
    sentenceWords (element :: elements) = [] :: sentenceWords elements := by
  rw [sentenceWords, List.splitOnP_cons_eq_if_modifyHead, if_pos isEnd]
  rfl

theorem sentenceWords_inside {element : RevElement} (inside : isSentenceEnd element = false)
    (elements : List RevElement) :
    sentenceWords (element :: elements) =
      (sentenceWords elements).modifyHead ((keptWord element).toList ++ ·) := by
  rcases List.exists_cons_of_ne_nil (List.splitOnP_ne_nil isSentenceEnd elements) with
    ⟨head, pieces, split⟩
  rw [sentenceWords, sentenceWords, List.splitOnP_cons_eq_if_modifyHead, inside, split]
  exact congrArg (· :: _) (filterMap_cons_toList keptWord element head)

theorem sentenceWords_length (elements : List RevElement) :
    (sentenceWords elements).length = (givenMarks elements).length := by
  induction elements with
  | nil => rfl
  | cons element elements ih =>
      rw [givenMarks, List.filter_cons]
      split
      · rename_i isEnd
        rw [sentenceWords_end isEnd, List.length_cons, ih]
        simp [givenMarks]
      · rename_i inside
        rw [sentenceWords_inside (by simpa using inside), List.length_modifyHead, ih]
        rfl

theorem zip_givenMarks (elements : List RevElement) :
    ((sentenceWords elements).zip (givenMarks elements)).map Prod.fst = sentenceWords elements := by
  apply List.map_fst_zip
  rw [sentenceWords_length]

theorem keptWord_text {element : RevElement} {word : Batchalign.AsrWord}
    (kept : keptWord element = some word) :
    word.text = strip element.value ∧ word.text ≠ "" ∧
      (element.type = .punct ∨ element.type = .text) := by
  unfold keptWord at kept
  split at kept
  · rename_i isPunct
    split at kept
    · cases kept
    · rename_i nonempty
      cases kept
      exact ⟨rfl, nonempty, Or.inl isPunct⟩
  · split at kept
    · rename_i spoken
      cases kept
      simp only [isSpokenElement, Bool.and_eq_true, bne_iff_ne, ne_eq, beq_iff_eq] at spoken
      exact ⟨rfl, spoken.1.2, Or.inr spoken.1.1⟩
    · cases kept

theorem sentenceWords_filled (elements : List RevElement) :
    ∀ words ∈ sentenceWords elements, ∀ word ∈ words, word.text ≠ "" := by
  intro words isSentence word member
  rcases List.mem_map.mp isSentence with ⟨piece, _, rfl⟩
  rcases List.mem_filterMap.mp member with ⟨element, _, kept⟩
  exact (keptWord_text kept).2.1

variable [RevCleanup] (speaker : Option String) (lang : String)

/-- The loop makes a segment of every sentence, and drops the mark. -/
theorem punctuatedSegments_eq (sentence : List Batchalign.AsrWord) (elements : List RevElement) :
    punctuatedSegments speaker lang sentence elements =
      ((sentenceWords elements).modifyHead (sentence ++ ·)).filterMap
        (flushSentence speaker lang) := by
  induction elements generalizing sentence with
  | nil =>
      change _ = [sentence ++ []].filterMap _
      rw [punctuatedSegments, List.append_nil, filterMap_cons_toList, List.filterMap_nil,
        List.append_nil]
  | cons element elements ih =>
      rcases List.exists_cons_of_ne_nil (show sentenceWords elements ≠ [] by
        simp [sentenceWords, List.splitOnP_ne_nil]) with ⟨head, pieces, split⟩
      rw [punctuatedSegments]
      by_cases isEnd : isSentenceEnd element = true
      · rw [sentenceWords_end isEnd]
        rw [isSentenceEnd, Bool.and_eq_true, beq_iff_eq] at isEnd
        rw [if_pos isEnd.1, if_pos isEnd.2, ih, split, List.modifyHead_cons, List.modifyHead_cons,
          filterMap_cons_toList _ (sentence ++ []), List.append_nil, List.nil_append]
      · have inside : isSentenceEnd element = false := by simpa using isEnd
        rw [isSentenceEnd, Bool.and_eq_true, beq_iff_eq, not_and] at isEnd
        have one (kept : List Batchalign.AsrWord) (isKept : (keptWord element).toList = kept) :
            punctuatedSegments speaker lang (sentence ++ kept) elements =
              ((sentenceWords (element :: elements)).modifyHead (sentence ++ ·)).filterMap
                (flushSentence speaker lang) := by
          rw [ih, sentenceWords_inside inside, isKept, split]
          simp only [List.modifyHead_cons, List.append_assoc]
        unfold keptWord at one
        split
        · rename_i isPunct
          rw [if_neg (isEnd isPunct)]
          rw [if_pos isPunct] at one
          split
          · rename_i nonempty
            exact one _ (by rw [if_neg nonempty]; rfl)
          · rename_i empty
            rw [← one [] (by rw [if_pos (not_not.mp empty)]; rfl), List.append_nil]
        · rename_i notPunct
          rw [if_neg notPunct] at one
          split
          · rename_i spoken
            exact one _ (by rw [if_pos spoken]; rfl)
          · rename_i silent
            rw [← one [] (by rw [if_neg silent]; rfl), List.append_nil]

omit [Float64] in
theorem flushSentence_words {sent : List Batchalign.AsrWord}
    (filled : ∀ word ∈ sent, word.text ≠ "") :
    (flushSentence speaker lang sent).map AsrSegment.words =
      if sent.isEmpty then none else some sent := by
  have same : sent.filter (·.text != "") = sent := by
    apply List.filter_eq_self.mpr
    intro word member
    simpa using filled word member
  unfold flushSentence
  rw [same]
  cases sent <;> rfl

theorem punctuatedSegments_words (elements : List RevElement) :
    (punctuatedSegments speaker lang [] elements).map AsrSegment.words =
      (sentenceWords elements).filter (! ·.isEmpty) := by
  have whole : (sentenceWords elements).modifyHead ([] ++ ·) = sentenceWords elements := by
    cases sentenceWords elements <;> rfl
  rw [punctuatedSegments_eq, whole, List.map_filterMap, ← List.filterMap_eq_filter]
  apply List.filterMap_congr
  intro words member
  rw [flushSentence_words speaker lang (sentenceWords_filled elements words member)]
  cases words <;> rfl

/-- In punctuated mode the segments are the sentences that have words. -/
theorem segmentsFromRev_words {monologues : List RevMonologue}
    (unsegmented : bertLangs.contains (toAsciiLowercase lang) = false)
    (punctuated : ∀ mono ∈ monologues, hasSentencePunct mono.elements = true) :
    (segmentsFromRev monologues lang).map AsrSegment.words =
      (spokenSentences monologues).map Prod.fst := by
  have each : ∀ mono ∈ monologues, (monologueSegments lang mono).map AsrSegment.words =
      (sentenceWords mono.elements).filter (! ·.isEmpty) := by
    intro mono member
    rw [monologueSegments, unsegmented, punctuated mono member]
    exact punctuatedSegments_words mono.speaker lang mono.elements
  rw [segmentsFromRev, List.map_flatMap, List.flatMap_congr each, spokenSentences,
    List.filter_flatMap, List.map_flatMap]
  apply List.flatMap_congr
  intro mono _
  rw [← zip_givenMarks mono.elements, List.filter_map]
  rw [zip_givenMarks]
  rfl

end Sentences

section Adapter

variable [Float64]

def wordElements (words : List Batchalign.AsrWord) : List AsrElement :=
  words.map fun word => postprocessElement word.text word.startMs word.endMs

theorem postprocessMonologue_elements {codes : List (String × String)} {segment : AsrSegment}
    {monologue : AsrMonologue} (ok : postprocessMonologue codes segment = .ok monologue) :
    monologue.elements = segmentElements segment := by
  unfold postprocessMonologue at ok
  split at ok
  · cases ok
  · split at ok
    · cases ok
    · cases ok
      rfl

/-- Every segment with words becomes a monologue of them. -/
theorem asrOutputForPostprocess_elements {segments : List AsrSegment}
    {codes : List (String × String)} {output : AsrOutput}
    (adapted : asrOutputForPostprocess segments codes = .ok output)
    (filled : ∀ segment ∈ segments, segment.words ≠ []) :
    output.monologues.map AsrMonologue.elements =
      (segments.map AsrSegment.words).map wordElements := by
  unfold asrOutputForPostprocess at adapted
  cases made : segments.mapM (postprocessMonologue codes) with
  | error error =>
      rw [made] at adapted
      cases adapted
  | ok monologues =>
      rw [made] at adapted
      cases adapted
      have each : monologues.map AsrMonologue.elements =
          (segments.map AsrSegment.words).map wordElements := by
        rw [map_of_mapM_ok (fun _ _ ok => postprocessMonologue_elements ok) made, List.map_map]
        apply List.map_congr_left
        intro segment member
        rw [segmentElements, if_neg (by simpa using filled segment member)]
        rfl
      have kept : monologues.filter (! ·.elements.isEmpty) = monologues := by
        apply List.filter_eq_self.mpr
        intro monologue member
        have isElements := List.mem_map_of_mem (f := AsrMonologue.elements) member
        rw [each, List.map_map] at isElements
        rcases List.mem_map.mp isElements with ⟨segment, isSegment, same⟩
        rw [← same]
        simpa [wordElements] using filled segment isSegment
      exact (congrArg (List.map AsrMonologue.elements) kept).trans each

end Adapter

section Endings

variable [ChatGrammar]

/-- The terminator of the utterance of some words; there is none where all are terminators. -/
def ending (texts : List String) : Option Terminator :=
  if texts.all ChatGrammar.isChatTerminator then none
  else some ((ChatGrammar.tryFromChatStr (texts.getLast?.getD ".")).getD .period)

theorem bracketed_eq_nil_iff (laws : DocumentedGrammar) (descs : List WordDesc) :
    bracketed 0 descs = [] ↔ (descs.map textOf).all ChatGrammar.isChatTerminator = true := by
  induction descs with
  | nil => simp [bracketed]
  | cons desc descs ih =>
      rw [bracketed, isBlank_eq_false laws, trim_textOf laws, List.map_cons, List.all_cons,
        Bool.false_or]
      split
      · rename_i terminator
        rw [terminator, Bool.true_and]
        exact ih
      · rename_i word
        rw [Bool.eq_false_iff.mpr word, Bool.false_and]
        split
        · simp
        · dsimp only
          split
          · rw [bracketRun, filter_isBlank laws]
            split <;> simp
          · simp

variable [WorGenerator]

theorem buildWordUtterance_terminator (laws : DocumentedGrammar) (speaker : String)
    (descs : List WordDesc) (writeWor : Bool) (startMs endMs : Option ℕ) :
    (buildWordUtterance speaker descs writeWor startMs endMs).map
        (fun utt => utt.main.content.terminator) =
      (ending (descs.map textOf)).map some := by
  unfold buildWordUtterance ending
  dsimp only
  rw [pushWords_eq]
  have empty : (bracketed 0 descs).map Block.content = [] ↔
      (descs.map textOf).all ChatGrammar.isChatTerminator = true := by
    rw [List.map_eq_nil_iff]
    exact bracketed_eq_nil_iff laws descs
  by_cases silent : (bracketed 0 descs).map Block.content = []
  · rw [if_pos (empty.mp silent), if_pos (by simp [BuildState.initial, silent])]
    rfl
  · rw [if_neg (silent ∘ empty.mpr), if_neg (by simpa [BuildState.initial] using silent)]
    rw [List.getLast?_map]
    rfl

variable [ChatBuilder]

/-- The utterances that are built end as their words do. -/
theorem builtUtterances_terminators (laws : DocumentedGrammar) {utterances : List Utterance}
    {participantIds langs : List String} {mediaName : Option String} {writeWor : Bool}
    {desc : TranscriptDescription}
    (described : transcriptFromAsrUtterances utterances participantIds langs mediaName writeWor =
      .ok desc) :
    (builtUtterances desc).map (fun utt => utt.main.content.terminator) =
      (utterances.filterMap fun utterance =>
        ending (utterance.words.map AsrWord.text)).map some := by
  unfold transcriptFromAsrUtterances at described
  rcases bind_eq_ok_iff.mp described with ⟨primary, _, described⟩
  rcases bind_eq_ok_iff.mp described with ⟨descs, isDescribed, described⟩
  cases described
  have rows : descs.map (fun row => ending ((row.words.getD []).map textOf)) =
      utterances.map fun utterance => ending (utterance.words.map AsrWord.text) := by
    conv_rhs => rw [← List.zipIdx_map_fst 0 utterances, List.map_map]
    apply map_of_mapM_ok (fun item row ok => ?_) isDescribed
    have kept := congrArg (List.map Prod.fst) (describeUtterance_words ok)
    rw [List.map_map, List.map_map] at kept
    exact congrArg ending kept
  rw [builtUtterances, List.map_filterMap, List.map_filterMap]
  simp only [buildWordUtterance_terminator laws]
  calc descs.filterMap (fun row => (ending ((row.words.getD []).map textOf)).map some)
      = (descs.map fun row => ending ((row.words.getD []).map textOf)).filterMap
          (Option.map some) := by rw [List.filterMap_map]; rfl
    _ = (utterances.map fun utterance => ending (utterance.words.map AsrWord.text)).filterMap
          (Option.map some) := by rw [rows]
    _ = utterances.filterMap fun utterance =>
          (ending (utterance.words.map AsrWord.text)).map some := by rw [List.filterMap_map]; rfl

end Endings

section Turns

/-- The word that `retokenize` ends a turn with. -/
def periodWord : AsrWord := AsrWord.new "." none none

theorem markRetraces_nil (words : List AsrWord) : markRetraces [] words = words := by
  induction words with
  | nil => rfl
  | cons word words ih =>
      rw [markRetraces.eq_def]
      dsimp only
      rw [ih, ite_self]

theorem markRetraces_period (isRetrace : List Bool) (words : List AsrWord) :
    markRetraces isRetrace (words ++ [periodWord]) =
      markRetraces isRetrace words ++ [periodWord] := by
  induction words generalizing isRetrace with
  | nil =>
      have last : markRetraces isRetrace [periodWord] = [periodWord] := by
        rw [markRetraces_cons_punct isRetrace [] (by decide)]
        cases isRetrace <;> rfl
      cases isRetrace <;> exact last
  | cons word words ih =>
      rw [List.cons_append]
      cases punct : isPunctOrTerminator word.text with
      | true =>
          rw [markRetraces_cons_punct _ _ punct, markRetraces_cons_punct _ _ punct, ih]
          rfl
      | false =>
          cases isRetrace with
          | nil =>
              rw [markRetraces_nil, markRetraces_nil]
              rfl
          | cons mark isRetrace =>
              rw [markRetraces_cons_content _ _ _ punct, markRetraces_cons_content _ _ _ punct, ih]
              rfl

theorem stripPunct_sublist (text : String) : (stripPunct text).toList.Sublist text.toList :=
  (trim_sublist _).trans (foldl_removeAll_sublist _ text)

theorem markRetraces_unmarked (isRetrace : List Bool) {words : List AsrWord}
    (unmarked : UnmarkedWords words) : UnmarkedWords (markRetraces isRetrace words) := by
  induction words generalizing isRetrace with
  | nil => cases isRetrace <;> exact unmarked
  | cons word words ih =>
      have split := List.forall_mem_cons.mp unmarked
      cases punct : isPunctOrTerminator word.text with
      | true =>
          rw [markRetraces_cons_punct _ _ punct]
          exact List.forall_mem_cons.mpr ⟨split.1, ih _ split.2⟩
      | false =>
          cases isRetrace with
          | nil =>
              rw [markRetraces_nil]
              exact unmarked
          | cons mark isRetrace =>
              rw [markRetraces_cons_content _ _ _ punct]
              refine List.forall_mem_cons.mpr ⟨?_, ih _ split.2⟩
              cases mark with
              | false => exact split.1
              | true => exact split.1.mono (stripPunct_sublist word.text).subset

theorem retraceWords_period {words : List AsrWord} (unmarked : UnmarkedWords words)
    (lang : String) : ∃ retraced, retraceWords (words ++ [periodWord]) lang =
      retraced ++ [periodWord] ∧ UnmarkedWords retraced := by
  unfold retraceWords
  dsimp only
  split
  · exact ⟨words, rfl, unmarked⟩
  · exact ⟨_, markRetraces_period _ words, markRetraces_unmarked _ unmarked⟩

variable [ChatGrammar]

/-- The period ends an utterance. -/
structure PeriodEnds : Prop where
  isTerminator : ChatGrammar.isChatTerminator "." = true
  parsed : ChatGrammar.tryFromChatStr "." = some .period

/-- The gate leaves something of a word of the turn beside its period. -/
def isWritten (turn : List AsrWord) (lang : String) : Bool :=
  (retraceWords (turnWords turn ++ [periodWord]) lang).dropLast.any fun word =>
    (sanitizeChatIllegalWord word).isSome

theorem sanitize_period (period : PeriodEnds) :
    sanitizeChatIllegalWord periodWord = some periodWord := by
  rw [sanitizeChatIllegalWord, if_pos]
  rw [isLegal_eq, periodWord, AsrWord.new, structuralCheck, if_pos period.isTerminator]
  rfl

theorem sanitize_unmarked {words : List AsrWord} (unmarked : UnmarkedWords words) :
    UnmarkedWords (words.filterMap sanitizeChatIllegalWord) := by
  intro kept member
  rcases List.mem_filterMap.mp member with ⟨word, isWord, isKept⟩
  have fact := sanitizeChatIllegalWord_sanitised word
  rw [isKept, SanitisedFrom] at fact
  split at fact
  · rw [fact]
    exact unmarked word isWord
  · exact (unmarked word isWord).mono fact.2.2.1.subset

/-- Every terminator has a mark. -/
theorem not_terminator_of_unmarked (laws : DocumentedGrammar) {text : String}
    (unmarked : Unmarked text) : ChatGrammar.isChatTerminator text = false := by
  have known : ∀ known ∈ chatTerminators, ¬ Unmarked known := by decide
  apply Bool.eq_false_iff.mpr
  intro terminator
  exact known text (laws.terminators text terminator) unmarked

/-- The utterance of a turn ends with its period if any word of it is written. -/
theorem ending_turn (laws : DocumentedGrammar) (period : PeriodEnds) {turn : List AsrWord}
    (unmarked : UnmarkedWords turn) (lang : String) :
    ending (((retraceWords (turnWords turn ++ [periodWord]) lang).filterMap
        sanitizeChatIllegalWord).map AsrWord.text) =
      if isWritten turn lang then some .period else none := by
  rcases retraceWords_period (turnWords_unmarked unmarked) lang with ⟨retraced, isRetraced, plain⟩
  rw [isWritten, isRetraced, List.dropLast_concat, List.filterMap_append, List.map_append]
  have last : [periodWord].filterMap sanitizeChatIllegalWord = [periodWord] :=
    List.filterMap_cons_some (sanitize_period period)
  rw [last, ending, List.map_singleton, List.getLast?_concat]
  change (if _ then none else some ((ChatGrammar.tryFromChatStr ".").getD .period)) = _
  rw [period.parsed]
  cases kept : retraced.filterMap sanitizeChatIllegalWord with
  | nil =>
      have dropped := List.filterMap_eq_nil_iff.mp kept
      have silent : (retraced.any fun word => (sanitizeChatIllegalWord word).isSome) = false := by
        simpa using dropped
      rw [silent, if_pos]
      · rfl
      · simpa [periodWord, AsrWord.new] using period.isTerminator
  | cons first rest =>
      have isFirst : first ∈ retraced.filterMap sanitizeChatIllegalWord := by
        rw [kept]
        exact List.mem_cons_self
      rcases List.mem_filterMap.mp isFirst with ⟨word, isWord, isKept⟩
      have spoken : (retraced.any fun word => (sanitizeChatIllegalWord word).isSome) = true :=
        List.any_eq_true.mpr ⟨word, isWord, by rw [isKept]; rfl⟩
      have plainFirst := not_terminator_of_unmarked laws (sanitize_unmarked plain first isFirst)
      rw [spoken, if_neg (by simp [plainFirst])]
      rfl

variable [UnicodeCase] [UnicodeProperties]

theorem finalizeUtterances_nil {lang : String} (notEng : lang ≠ "eng") :
    finalizeUtterances [] lang = [] := by
  simp [finalizeUtterances, applyDisfluencyReplacements, applyRetraceDetection,
    applyEnglishTranscribeRulesPostRetokenize, sanitizeChatIllegalCharsInUtterances, notEng]

theorem finalizeUtterances_append {lang : String} (notEng : lang ≠ "eng")
    (left right : List Utterance) :
    finalizeUtterances (left ++ right) lang =
      finalizeUtterances left lang ++ finalizeUtterances right lang := by
  simp [finalizeUtterances, applyDisfluencyReplacements, applyRetraceDetection,
    applyEnglishTranscribeRulesPostRetokenize, sanitizeChatIllegalCharsInUtterances, notEng]

/-- An utterance that the gate leaves empty has no ending. -/
theorem finalizeUtterances_one {lang : String} (notEng : lang ≠ "eng") (utterance : Utterance) :
    ((finalizeUtterances [utterance] lang).filterMap fun utterance =>
        ending (utterance.words.map AsrWord.text)) =
      (ending (((retraceWords utterance.words lang).filterMap sanitizeChatIllegalWord).map
        AsrWord.text)).toList := by
  have cleaned : finalizeUtterances [utterance] lang =
      [{ utterance with words :=
          (retraceWords utterance.words lang).filterMap sanitizeChatIllegalWord }].filter
        (! ·.words.isEmpty) := by
    simp [finalizeUtterances, applyDisfluencyReplacements, applyRetraceDetection,
      applyEnglishTranscribeRulesPostRetokenize, sanitizeChatIllegalCharsInUtterances, notEng]
  rw [cleaned]
  cases kept : (retraceWords utterance.words lang).filterMap sanitizeChatIllegalWord with
  | nil => rfl
  | cons first rest =>
      change [_].filterMap _ = _
      rw [filterMap_cons_toList, List.filterMap_nil, List.append_nil]

/-- The endings of the utterances of one turn. -/
theorem finalizeUtterances_turn (laws : DocumentedGrammar) (period : PeriodEnds) {lang : String}
    (notEng : lang ≠ "eng") {turn : List AsrWord} (unmarked : UnmarkedWords turn) (speaker : ℕ) :
    ((finalizeUtterances (retokenize speaker turn) lang).filterMap fun utterance =>
        ending (utterance.words.map AsrWord.text)) =
      List.replicate (if isWritten turn lang then 1 else 0) .period := by
  rw [retokenize_unmarked unmarked, flushRemaining]
  change ((finalizeUtterances (if (turnWords turn).isEmpty then [] else
    [⟨speaker, turnWords turn ++ [periodWord], none⟩]) lang).filterMap _) = _
  cases words : turnWords turn with
  | nil =>
      have unwritten : isWritten turn lang = false := by
        rw [isWritten, words]
        rfl
      rw [unwritten, List.isEmpty_nil, if_pos rfl, finalizeUtterances_nil notEng]
      rfl
  | cons first rest =>
      have one := finalizeUtterances_one notEng ⟨speaker, turnWords turn ++ [periodWord], none⟩
      rw [words] at one
      rw [List.isEmpty_cons, if_neg Bool.false_ne_true, one, ← words,
        ending_turn laws period unmarked lang]
      split <;> rfl

/-- Every written turn ends with a period. -/
theorem finalizeUtterances_endings (laws : DocumentedGrammar) (period : PeriodEnds) {lang : String}
    (notEng : lang ≠ "eng") {chunks : List PreparedMonologueChunk}
    (unmarked : ∀ chunk ∈ chunks, UnmarkedWords chunk.words) :
    ((finalizeUtterances (utterancesFromPreparedChunks chunks) lang).filterMap fun utterance =>
        ending (utterance.words.map AsrWord.text)) =
      List.replicate (chunks.countP fun chunk => isWritten chunk.words lang) .period := by
  induction chunks with
  | nil =>
      rw [utterancesFromPreparedChunks, List.flatMap_nil, finalizeUtterances_nil notEng]
      rfl
  | cons chunk chunks ih =>
      have split := List.forall_mem_cons.mp unmarked
      rw [utterancesFromPreparedChunks, List.flatMap_cons, finalizeUtterances_append notEng,
        List.filterMap_append, finalizeUtterances_turn laws period notEng split.1, List.countP_cons,
        Nat.add_comm, List.replicate_add]
      exact congrArg (_ ++ ·) (ih split.2)

end Turns

section Response

/-- The texts have no marks, and what stands inside of a sentence is a comma or has none. -/
structure PlainResponse (monologues : List RevMonologue) : Prop where
  texts : ∀ mono ∈ monologues, ∀ element ∈ mono.elements, element.type = .text →
    Unmarked element.value
  puncts : ∀ mono ∈ monologues, ∀ element ∈ mono.elements, element.type = .punct →
    isSentenceEnd element = false → InlineText (strip element.value)

def markTerminator (mark : Option String) : Terminator :=
  if mark = some "?" then .question else if mark = some "!" then .exclamation else .period

/-- A language with a segmenter is no other one. -/
theorem segmented_of_mem {code : String} (member : code ∈ bertLangs) :
    bertLangs.contains (toAsciiLowercase code) = true := by
  have lower : ∀ code ∈ bertLangs, code.toList.map Char.toLower = code.toList := by decide
  have same : toAsciiLowercase code = code := by
    rw [← String.toList_inj, toAsciiLowercase, String.toList_map, lower code member]
  rw [same]
  exact List.contains_iff_mem.mpr member

theorem strip_subset (text : String) : (strip text).toList ⊆ text.toList := by
  rw [strip, String.toList_ofList]
  intro c member
  exact (List.dropWhile_suffix _).subset ((List.rdropWhile_prefix _ _).subset member)

variable [Float64]

theorem spokenSentences_inline {monologues : List RevMonologue} (plain : PlainResponse monologues) :
    ∀ sentence ∈ spokenSentences monologues, ∀ element ∈ wordElements sentence.1,
      InlineText element.value := by
  intro sentence member element isElement
  rcases List.mem_map.mp isElement with ⟨word, isWord, rfl⟩
  rcases List.mem_flatMap.mp (List.mem_filter.mp member).1 with ⟨mono, isMono, inside⟩
  rcases List.mem_map.mp (List.of_mem_zip inside).1 with ⟨piece, isPiece, isWords⟩
  rw [← isWords] at isWord
  rcases List.mem_filterMap.mp isWord with ⟨source, inPiece, kept⟩
  rcases mem_of_mem_splitOnP isPiece inPiece with ⟨isSource, inner⟩
  rcases keptWord_text kept with ⟨isText, _, isKind⟩
  have inlineWord : InlineText word.text := by
    rw [isText]
    rcases isKind with punct | text
    · exact plain.puncts mono isMono source isSource punct inner
    · exact Or.inr ((plain.texts mono isMono source isSource text).mono (strip_subset _))
  exact inlineWord.mono (trim_sublist word.text).subset

variable [AsrTables] [UnicodeCase] [UnicodeProperties]

/-- The turns that the words of a sentence are cut into. -/
def sentenceTurns (words : List Batchalign.AsrWord) (lang : String) : List (List AsrWord) :=
  (prepareMonologue ⟨0, wordElements words⟩ lang).map PreparedMonologueChunk.words

theorem prepareMonologue_turns (monologue : AsrMonologue) (lang : String) :
    (prepareMonologue monologue lang).map PreparedMonologueChunk.words =
      (prepareMonologue ⟨0, monologue.elements⟩ lang).map PreparedMonologueChunk.words := by
  simp [prepareMonologue, finalizeWordsToChunks, Function.comp_def]

variable [ChatGrammar] [ChatBuilder] [RevCleanup] [WorGenerator]

/-- The utterances end as the sentences do exactly when no sentence is a question or an
exclamation, and there are as many written turns as sentences. -/
theorem built_marks_iff (laws : DocumentedGrammar) (period : PeriodEnds)
    (numbers : NumbersUnmarked) {alpha2Or3 : String → String} (english : alpha2Or3 "eng" = "en")
    (cantonese : alpha2Or3 "yue" = "yue") {lang : String}
    (unsegmented : bertLangs.contains (toAsciiLowercase (revCode alpha2Or3 lang)) = false)
    {monologues : List RevMonologue}
    (punctuated : ∀ mono ∈ monologues, hasSentencePunct mono.elements = true)
    (plain : PlainResponse monologues) {output : AsrOutput}
    (adapted : asrOutputForPostprocess (segmentsFromRev monologues (revCode alpha2Or3 lang))
      (speakerCodes (segmentsFromRev monologues (revCode alpha2Or3 lang))) = .ok output)
    {participantIds : List String} {mediaName : Option String} {desc : TranscriptDescription}
    (described : transcriptFromAsrUtterances (processRawAsr output lang) participantIds [lang]
      mediaName true = .ok desc) :
    (builtUtterances desc).map (fun utt => utt.main.content.terminator) =
        (spokenSentences monologues).map (fun sentence => some (markTerminator sentence.2)) ↔
      (∀ sentence ∈ spokenSentences monologues,
        sentence.2 ≠ some "?" ∧ sentence.2 ≠ some "!") ∧
      ((spokenSentences monologues).flatMap (sentenceTurns ·.1 lang)).countP (isWritten · lang) =
        (spokenSentences monologues).length := by
  have notEng : lang ≠ "eng" := by
    rintro rfl
    rw [revCode, if_neg (by decide), english, segmented_of_mem (by decide)] at unsegmented
    cases unsegmented
  have notYue : lang ≠ "yue" := by
    rintro rfl
    rw [revCode, if_neg (by decide), cantonese, segmented_of_mem (by decide)] at unsegmented
    cases unsegmented
  have words := segmentsFromRev_words _ unsegmented punctuated
  have filled : ∀ segment ∈ segmentsFromRev monologues (revCode alpha2Or3 lang),
      segment.words ≠ [] := by
    intro segment member
    have isWords := List.mem_map_of_mem (f := AsrSegment.words) member
    rw [words] at isWords
    rcases List.mem_map.mp isWords with ⟨sentence, isSentence, same⟩
    rw [← same]
    simpa using (List.mem_filter.mp isSentence).2
  have elements : output.monologues.map AsrMonologue.elements =
      (spokenSentences monologues).map (wordElements ·.1) := by
    rw [asrOutputForPostprocess_elements adapted filled, words, List.map_map]
    rfl
  have turns : (prepareAsrChunks output lang).map PreparedMonologueChunk.words =
      (spokenSentences monologues).flatMap (sentenceTurns ·.1 lang) := by
    rw [prepareAsrChunks, List.map_flatMap]
    simp only [prepareMonologue_turns]
    have byElements := congrArg (List.flatMap fun elements =>
      (prepareMonologue ⟨0, elements⟩ lang).map PreparedMonologueChunk.words) elements
    rwa [List.flatMap_map, List.flatMap_map] at byElements
  have unmarked : ∀ chunk ∈ prepareAsrChunks output lang, UnmarkedWords chunk.words := by
    intro chunk member
    rcases List.mem_flatMap.mp member with ⟨monologue, isMonologue, isChunk⟩
    have isElements := List.mem_map_of_mem (f := AsrMonologue.elements) isMonologue
    rw [elements] at isElements
    rcases List.mem_map.mp isElements with ⟨sentence, isSentence, same⟩
    refine prepareMonologue_unmarked numbers notEng notYue ?_ chunk isChunk
    rw [← same]
    exact spokenSentences_inline plain sentence isSentence
  have endings := finalizeUtterances_endings laws period notEng unmarked
  have count : (prepareAsrChunks output lang).countP (fun chunk => isWritten chunk.words lang) =
      ((spokenSentences monologues).flatMap (sentenceTurns ·.1 lang)).countP
        (isWritten · lang) := by
    rw [← turns, List.countP_map]
    rfl
  have isPeriod (mark : Option String) :
      some (markTerminator mark) = some Terminator.period ↔
        mark ≠ some "?" ∧ mark ≠ some "!" := by
    unfold markTerminator
    split
    · simp_all
    · split <;> simp_all
  rw [builtUtterances_terminators laws described, processRawAsr, endings, count,
    List.map_replicate, eq_comm, List.eq_replicate_iff, List.length_map, List.forall_mem_map,
    and_comm, eq_comm]
  simp only [isPeriod]

end Response

section Samples

open Documented Chat.Documented

instance plainCleanup : RevCleanup where
  cleanUtterance text _ := text

def twoLetterCode (code : String) : String :=
  if code = "eng" then "en" else if code = "spa" then "es" else code

/-- One word, and the mark after it. -/
def greeting (mark : String) : List RevMonologue :=
  [{ speaker := some "0"
     elements :=
      [{ type := .text, value := "hola", ts := some 1, endTs := some 2, confidence := none },
       { type := .punct, value := mark, ts := none, endTs := none, confidence := none }] }]

def greetingSegments (mark : String) : List AsrSegment :=
  segmentsFromRev (greeting mark) (revCode twoLetterCode "spa")

theorem greeting_plain {mark : String} (isEnd : strip mark ∈ sentEnd) :
    PlainResponse (greeting mark) where
  texts := by
    intro mono isMono element member isText
    rw [List.mem_singleton.mp isMono] at member
    rcases List.mem_cons.mp member with rfl | later
    · decide
    · rw [List.mem_singleton.mp later] at isText
      cases isText
  puncts := by
    intro mono isMono element member isPunct inner
    rw [List.mem_singleton.mp isMono] at member
    rcases List.mem_cons.mp member with rfl | later
    · cases isPunct
    · rw [List.mem_singleton.mp later, isSentenceEnd] at inner
      simp [isEnd] at inner

theorem plainTables_unmarked : NumbersUnmarked := by
  intro text lang unmarked
  change Unmarked (if _ then _ else _)
  split
  · decide
  · exact unmarked

/-- A question becomes a statement. -/
theorem question_ends_with_period :
    PlainResponse (greeting "?") ∧
      (∀ mono ∈ greeting "?", hasSentencePunct mono.elements = true) ∧
      ∃ output ∈ (asrOutputForPostprocess (greetingSegments "?")
        (speakerCodes (greetingSegments "?"))).toOption,
        ∃ desc ∈ (transcriptFromAsrUtterances (processRawAsr output "spa") ["PAR0"] ["spa"] none
          true).toOption,
          (builtUtterances desc).map (fun utt => utt.main.content.terminator) = [some .period] ∧
          (spokenSentences (greeting "?")).map (fun sentence => markTerminator sentence.2) =
            [.question] := by
  refine ⟨greeting_plain (by decide), ?_, ?_⟩
  · decide +kernel
  · decide +kernel

theorem statement_ends_with_period :
    ∃ output ∈ (asrOutputForPostprocess (greetingSegments ".")
        (speakerCodes (greetingSegments "."))).toOption,
      ∃ desc ∈ (transcriptFromAsrUtterances (processRawAsr output "spa") ["PAR0"] ["spa"] none
        true).toOption,
        (builtUtterances desc).map (fun utt => utt.main.content.terminator) =
          (spokenSentences (greeting ".")).map
            (fun sentence => some (markTerminator sentence.2)) := by
  have run : ∃ output ∈ (asrOutputForPostprocess (greetingSegments ".")
        (speakerCodes (greetingSegments "."))).toOption,
      ∃ desc ∈ (transcriptFromAsrUtterances (processRawAsr output "spa") ["PAR0"] ["spa"] none
        true).toOption, True := by
    decide +kernel
  rcases run with ⟨output, adapted, desc, described, _⟩
  refine ⟨output, adapted, desc, described, ?_⟩
  have punctuated : ∀ mono ∈ greeting ".", hasSentencePunct mono.elements = true := by
    decide +kernel
  have unsegmented :
      bertLangs.contains (toAsciiLowercase (revCode twoLetterCode "spa")) = false := by
    decide +kernel
  apply (built_marks_iff documentedGrammar ⟨rfl, rfl⟩ plainTables_unmarked
    (show twoLetterCode "eng" = "en" from rfl) rfl unsegmented punctuated
    (greeting_plain (by decide)) (ok_of_mem_toOption adapted) (ok_of_mem_toOption described)).mpr
  exact ⟨by decide +kernel, by decide +kernel⟩

end Samples

end Batchalign.Asr
