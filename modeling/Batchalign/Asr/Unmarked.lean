import Batchalign.Asr.Ordering
import Batchalign.Asr.Retraces
import Batchalign.Library.MemoTable

/-!
# Words without marks

A text has no mark when none of its characters ends a sentence or is made into what ends one.
Outside English and Cantonese the preparation keeps such words without marks, and a turn of them
is one utterance that is given its period.
-/

namespace Batchalign.Asr

open MemoTable (mem_of_lookup)

section Texts

def sentenceMarks : List Char := ['.', '?', '!', '。', '？', '！', '؟', '۔', '،', '؛']

def Unmarked (text : String) : Prop := ∀ c ∈ text.toList, c ∉ sentenceMarks

instance (text : String) : Decidable (Unmarked text) :=
  decidable_of_iff ((text.toList.all fun c => decide (c ∉ sentenceMarks)) = true)
    (by simp [Unmarked])

theorem unmarked_ofList {chars : List Char} :
    Unmarked (String.ofList chars) ↔ ∀ c ∈ chars, c ∉ sentenceMarks := by
  rw [Unmarked, String.toList_ofList]

theorem unmarked_append {left right : String} :
    Unmarked (left ++ right) ↔ Unmarked left ∧ Unmarked right := by
  rw [Unmarked, String.toList_append]
  exact List.forall_mem_append

theorem Unmarked.mono {text shorter : String} (unmarked : Unmarked text)
    (inside : shorter.toList ⊆ text.toList) : Unmarked shorter :=
  fun c member => unmarked c (inside member)

/-- The words of a list have no marks. -/
def UnmarkedWords (words : List AsrWord) : Prop := ∀ word ∈ words, Unmarked word.text

theorem UnmarkedWords.append {left right : List AsrWord} (unmarked : UnmarkedWords left)
    (unmarked' : UnmarkedWords right) : UnmarkedWords (left ++ right) :=
  List.forall_mem_append.mpr ⟨unmarked, unmarked'⟩

theorem UnmarkedWords.sublist {shorter longer : List AsrWord} (unmarked : UnmarkedWords longer)
    (kept : shorter.Sublist longer) : UnmarkedWords shorter :=
  fun word member => unmarked word (kept.subset member)

theorem trimMatches_sublist (strip : Char → Bool) (text : String) :
    (trimMatches strip text).toList.Sublist text.toList := by
  rw [trimMatches, String.toList_ofList]
  exact (List.rdropWhile_prefix _ _).sublist.trans (List.dropWhile_suffix _).sublist

theorem trimWordBoundaries_unmarked {words : List AsrWord} (unmarked : UnmarkedWords words)
    (strip : Char → Bool) : UnmarkedWords (trimWordBoundaries words strip) := by
  intro kept member
  rcases List.mem_filterMap.mp member with ⟨word, isWord, trimmed⟩
  unfold trimWordBoundary at trimmed
  dsimp only at trimmed
  split at trimmed
  · cases trimmed
  · cases trimmed
    exact (unmarked word isWord).mono (trimMatches_sublist strip word.text).subset

end Texts

section Splitting

theorem normalizedSplitSeparator_unmarked {c : Char} {separator : String}
    (plain : c ∉ sentenceMarks) (found : normalizedSplitSeparator c = some (some separator)) :
    separator = "," := by
  simp only [sentenceMarks, List.mem_cons, not_or] at plain
  simp only [normalizedSplitSeparator, List.contains_iff_mem, List.mem_cons, plain, if_false,
    or_false] at found
  split at found
  · cases found
    rfl
  · split at found <;> cases found

theorem flushCurrent_unmarked {current : List Char} (plain : ∀ c ∈ current, c ∉ sentenceMarks) :
    ∀ part ∈ flushCurrent current, Unmarked part.1 := by
  intro part member
  unfold flushCurrent at member
  split at member
  · cases member
  · rw [List.mem_singleton.mp member]
    exact unmarked_ofList.mpr plain

theorem splitParts_unmarked (lang : String) (skip : ℕ) {current chars : List Char}
    (plainCurrent : ∀ c ∈ current, c ∉ sentenceMarks) (plain : ∀ c ∈ chars, c ∉ sentenceMarks) :
    ∀ part ∈ splitParts lang skip current chars, Unmarked part.1 := by
  induction chars generalizing skip current with
  | nil =>
      cases skip <;> exact flushCurrent_unmarked plainCurrent
  | cons c chars ih =>
      have split := List.forall_mem_cons.mp plain
      have fresh : ∀ c ∈ ([] : List Char), c ∉ sentenceMarks := by simp
      cases skip with
      | succ skip => exact ih skip plainCurrent split.2
      | zero =>
          intro part member
          unfold splitParts at member
          split at member
          · rcases List.mem_cons.mp member with rfl | later
            · apply unmarked_ofList.mpr
              intro d inside
              exact plain d (List.mem_of_mem_take inside)
            · exact ih _ fresh split.2 part later
          · split at member
            · rcases List.mem_append.mp member with flushed | later
              · exact flushCurrent_unmarked plainCurrent part flushed
              · exact ih _ fresh split.2 part later
            · split at member
              · rename_i separator found
                rcases List.mem_append.mp member with front | later
                · rcases List.mem_append.mp front with flushed | isSeparator
                  · exact flushCurrent_unmarked plainCurrent part flushed
                  · rcases List.mem_map.mp isSeparator with ⟨text, isText, rfl⟩
                    rw [Option.mem_toList] at isText
                    rw [isText] at found
                    rw [normalizedSplitSeparator_unmarked split.1 found]
                    decide
                · exact ih _ fresh split.2 part later
              · refine ih _ ?_ split.2 part member
                exact List.forall_mem_append.mpr ⟨plainCurrent, by simpa using split.1⟩

theorem timeParts_texts (span : Option (ℤ × ℤ)) (total consumed : ℕ) (parts : List Part) :
    (timeParts span total consumed parts).map AsrWord.text = parts.map Prod.fst := by
  induction parts generalizing consumed with
  | nil => rfl
  | cons part parts ih =>
      rcases part with ⟨text, isSeparator⟩
      cases isSeparator with
      | true => exact congrArg (text :: ·) (ih consumed)
      | false => exact congrArg (text :: ·) (ih (consumed + charCount text))

theorem timeExpandedParts_texts (span : Option (ℤ × ℤ)) (total consumed : ℕ) (kind : WordKind)
    (parts : List String) :
    (timeExpandedParts span total kind consumed parts).map AsrWord.text = parts := by
  induction parts generalizing consumed with
  | nil => rfl
  | cons part parts ih => exact congrArg (part :: ·) (ih (consumed + charCount part))

/-- Words with given texts. -/
theorem unmarkedWords_of_texts {words : List AsrWord} {texts : List String}
    (same : words.map AsrWord.text = texts) (unmarked : ∀ text ∈ texts, Unmarked text) :
    UnmarkedWords words := by
  intro word member
  apply unmarked
  rw [← same]
  exact List.mem_map_of_mem member

variable [AsrTables]

theorem expandParts_other {lang : String} (notYue : lang ≠ "yue") (parts : List Part) :
    expandParts parts lang = parts := by
  have each : ∀ part ∈ parts,
      (if part.2 = true then [part] else expandLanguagePart part.1 lang) = [part] := by
    intro part _
    split
    · rfl
    · rename_i isText
      rw [expandLanguagePart, if_pos (by simp [notYue])]
      rw [← Bool.eq_false_iff.mpr isText]
  rw [expandParts, List.flatMap_congr each, List.flatMap_singleton']

theorem splitChunkWord_unmarked {word : AsrWord} {lang : String} (notYue : lang ≠ "yue")
    (unmarked : Unmarked word.text) : UnmarkedWords (splitChunkWord word lang) := by
  unfold splitChunkWord
  dsimp only
  split
  · intro other member
    rw [List.mem_singleton.mp member]
    exact unmarked
  · apply unmarkedWords_of_texts (timeParts_texts _ _ _ _)
    intro text member
    rcases List.mem_map.mp member with ⟨part, isPart, rfl⟩
    rw [expandParts_other notYue] at isPart
    exact splitParts_unmarked lang 0 (by simp) unmarked part isPart

theorem joinHyphen_unmarked {result : List AsrWord} {word : AsrWord} {lang : String}
    (notYue : lang ≠ "yue") (unmarked : UnmarkedWords result) (plain : Unmarked word.text) :
    UnmarkedWords (joinHyphen result word lang) := by
  rcases joinHyphen_cases result word lang with ⟨init, prev, rfl, _, joins⟩ | ⟨_, appends⟩
  · rw [joins]
    have parts := List.forall_mem_append.mp unmarked
    apply UnmarkedWords.append parts.1
    intro joined member
    rw [List.mem_singleton.mp member]
    exact unmarked_append.mpr ⟨parts.2 prev (List.mem_singleton_self _), plain⟩
  · rw [appends]
    exact unmarked.append (splitChunkWord_unmarked notYue plain)

theorem splitMultiwordTokens_unmarked {words : List AsrWord} {lang : String}
    (notYue : lang ≠ "yue") (unmarked : UnmarkedWords words) :
    UnmarkedWords (splitMultiwordTokens words lang) := by
  have fold (result : List AsrWord) (unmarkedResult : UnmarkedWords result) :
      UnmarkedWords (words.foldl (fun result word => joinHyphen result word lang) result) := by
    induction words generalizing result with
    | nil => exact unmarkedResult
    | cons word words ih =>
        have split := List.forall_mem_cons.mp unmarked
        exact ih split.2 _ (joinHyphen_unmarked notYue unmarkedResult split.1)
  exact fold [] (by simp [UnmarkedWords])

end Splitting

section Preparation

/-- The rendering of numbers brings no marks. -/
def NumbersUnmarked [AsrTables] : Prop :=
  ∀ text lang, Unmarked text → Unmarked (AsrTables.expandNumber text lang)

theorem splitPercentSuffixWords_unmarked [UnicodeCase] {words : List AsrWord}
    (unmarked : UnmarkedWords words) (lang : String) :
    UnmarkedWords (splitPercentSuffixWords words lang) := by
  have percentWords : ∀ entry ∈ percentWordByLang, Unmarked entry.2 := by decide
  intro part member
  rcases List.mem_flatMap.mp member with ⟨word, isWord, inside⟩
  unfold splitPercentSuffixWord at inside
  split at inside
  · rw [List.mem_singleton.mp inside]
    exact unmarked word isWord
  · rename_i digits found
    rcases List.mem_cons.mp inside with rfl | isPercent
    · have stripped := (Option.filter_eq_some_iff.mp found).1
      unfold stripSuffix at stripped
      split at stripped
      · cases stripped
        apply unmarked_ofList.mpr
        intro c isChar
        exact unmarked word isWord c (List.mem_of_mem_take isChar)
      · cases stripped
    · rcases List.mem_map.mp isPercent with ⟨percentWord, isWord, rfl⟩
      exact percentWords _ (mem_of_lookup (Option.mem_toList.mp isWord))

theorem splitWhitespace_unmarked {text : String} (unmarked : Unmarked text) :
    ∀ part ∈ splitWhitespace text, Unmarked part := by
  intro part member
  rcases List.mem_map.mp member with ⟨chars, inside, rfl⟩
  apply unmarked_ofList.mpr
  intro c isChar
  exact unmarked c (mem_of_mem_splitOnP (List.mem_filter.mp inside).1 isChar).1

theorem expandNumbersInWords_unmarked [AsrTables] (numbers : NumbersUnmarked)
    {words : List AsrWord} (unmarked : UnmarkedWords words) (lang : String) :
    UnmarkedWords (expandNumbersInWords words lang) := by
  intro part member
  rcases List.mem_flatMap.mp member with ⟨word, isWord, inside⟩
  have expanded := numbers word.text lang (unmarked word isWord)
  unfold expandNumbersInWord at inside
  dsimp only at inside
  split at inside
  · rw [List.mem_singleton.mp inside]
    exact expanded
  · exact unmarkedWords_of_texts (timeExpandedParts_texts _ _ _ _ _)
      (splitWhitespace_unmarked expanded) part inside

variable [AsrTables] [UnicodeCase] [UnicodeProperties]

theorem finalizeWordsToChunks_unmarked {words : List AsrWord} {lang : String}
    (notEng : lang ≠ "eng") (notYue : lang ≠ "yue") (unmarked : UnmarkedWords words)
    (speaker : ℕ) : ∀ chunk ∈ finalizeWordsToChunks words speaker lang,
      UnmarkedWords chunk.words := by
  intro chunk member
  unfold finalizeWordsToChunks applyEnglishTranscribeRulesPreRetokenize at member
  simp only [notYue, if_false, bne_iff_ne, ne_eq, notEng, not_false_eq_true, if_true] at member
  rcases List.mem_map.mp member with ⟨part, isPart, rfl⟩
  rcases splitOnLongPauses_sublist part (List.mem_filter.mp isPart).1 with ⟨turn, isTurn, inTurn⟩
  exact unmarked.sublist (inTurn.trans (splitLongTurns_sublist turn isTurn))

end Preparation

section Elements

/-- A text that is stripped at the ends of a word, or has no mark. -/
def InlineText (text : String) : Prop := (∀ c ∈ text.toList, isStrippable c = true) ∨ Unmarked text

/-- One or two such texts, as `mergeCompounds` joins them. -/
def JoinedText (text : String) : Prop :=
  ∃ left right, text = left ++ right ∧ InlineText left ∧ InlineText right

theorem InlineText.mono {text shorter : String} (isInline : InlineText text)
    (inside : shorter.toList ⊆ text.toList) : InlineText shorter :=
  isInline.imp (fun commas c member => commas c (inside member)) (·.mono inside)

theorem JoinedText.sublist {text shorter : String} (joined : JoinedText text)
    (kept : shorter.toList.Sublist text.toList) : JoinedText shorter := by
  rcases joined with ⟨left, right, rfl, inlineLeft, inlineRight⟩
  rw [String.toList_append] at kept
  rcases List.sublist_append_iff.mp kept with ⟨front, back, parts, inLeft, inRight⟩
  refine ⟨String.ofList front, String.ofList back, ?_, ?_, ?_⟩
  · rw [← String.ofList_append, ← parts, String.ofList_toList]
  · apply inlineLeft.mono
    rw [String.toList_ofList]
    exact inLeft.subset
  · apply inlineRight.mono
    rw [String.toList_ofList]
    exact inRight.subset

theorem JoinedText.stripped {text : String} (joined : JoinedText text) :
    Unmarked (trimMatches isStrippable text) := by
  rcases joined with ⟨left, right, rfl, inlineLeft, inlineRight⟩
  rw [trimMatches, String.toList_append]
  apply unmarked_ofList.mpr
  rcases inlineLeft with commas | plainLeft
  · rw [List.dropWhile_append_of_pos commas]
    rcases inlineRight with commas' | plainRight
    · rw [List.dropWhile_eq_nil_iff.mpr commas']
      simp
    · intro c member
      exact plainRight c
        ((List.dropWhile_suffix _).subset ((List.rdropWhile_prefix _ _).subset member))
  · rcases inlineRight with commas' | plainRight
    · intro c member
      rw [List.dropWhile_append] at member
      split at member
      · rw [List.dropWhile_eq_nil_iff.mpr commas'] at member
        cases member
      · rw [List.rdropWhile, List.reverse_append,
          List.dropWhile_append_of_pos (by simpa using commas')]
          at member
        exact plainLeft c ((List.dropWhile_suffix _).subset
          ((List.rdropWhile_prefix _ _).subset member))
    · intro c member
      have inside := (List.dropWhile_suffix _).subset ((List.rdropWhile_prefix _ _).subset member)
      exact List.forall_mem_append.mpr ⟨plainLeft, plainRight⟩ c inside

theorem mergeCompounds_joined [AsrTables] {elements : List AsrElement}
    (isInline : ∀ element ∈ elements, InlineText element.value) :
    ∀ element ∈ mergeCompounds elements, JoinedText element.value := by
  have alone {text : String} (one : InlineText text) : JoinedText text :=
    ⟨text, "", String.append_empty.symm, one, Or.inl (by simp)⟩
  induction elements using mergeCompounds.induct with
  | case1 first second elements compound ih =>
      have split := List.forall_mem_cons.mp isInline
      have split' := List.forall_mem_cons.mp split.2
      rw [mergeCompounds, if_pos compound]
      exact List.forall_mem_cons.mpr ⟨⟨_, _, rfl, split.1, split'.1⟩, ih split'.2⟩
  | case2 first second elements separate ih =>
      have split := List.forall_mem_cons.mp isInline
      rw [mergeCompounds, if_neg separate]
      exact List.forall_mem_cons.mpr ⟨alone split.1, ih split.2⟩
  | case3 elements short =>
      rw [mergeCompounds.eq_def]
      split
      · exact absurd rfl (short _ _ _)
      · exact fun element member => alone (isInline element member)

theorem stripSeparatorWords_unmarked [Float64] {elements : List AsrElement}
    (joined : ∀ element ∈ elements, JoinedText element.value) :
    UnmarkedWords (stripSeparatorWords (extractTimedWords elements)) := by
  intro kept member
  rcases List.mem_filterMap.mp member with ⟨word, isWord, trimmed⟩
  rcases List.mem_filterMap.mp isWord with ⟨element, isElement, extracted⟩
  have text : word.text = trim element.value := by
    unfold extractTimedWord at extracted
    dsimp only at extracted
    split at extracted
    · cases extracted
    · cases extracted
      rfl
  unfold trimWordBoundary at trimmed
  dsimp only at trimmed
  split at trimmed
  · cases trimmed
  · cases trimmed
    apply JoinedText.stripped
    rw [text]
    apply (joined element isElement).sublist
    exact trim_sublist element.value

variable [AsrTables] [Float64] [UnicodeCase] [UnicodeProperties]

/-- The turns of a monologue of such texts have no marks. -/
theorem prepareMonologue_unmarked (numbers : NumbersUnmarked) {monologue : AsrMonologue}
    {lang : String} (notEng : lang ≠ "eng") (notYue : lang ≠ "yue")
    (isInline : ∀ element ∈ monologue.elements, InlineText element.value) :
    ∀ chunk ∈ prepareMonologue monologue lang, UnmarkedWords chunk.words := by
  have same : stripEnglishTitlePeriodsOnElements (mergeCompounds monologue.elements) lang =
      mergeCompounds monologue.elements := by
    rw [stripEnglishTitlePeriodsOnElements, if_pos (by simpa using notEng)]
  have separated : UnmarkedWords (stripSeparatorWords (extractTimedWords
      (stripEnglishTitlePeriodsOnElements (mergeCompounds monologue.elements) lang))) := by
    rw [same]
    exact stripSeparatorWords_unmarked (mergeCompounds_joined isInline)
  have multiword : UnmarkedWords (unquotedWords monologue.elements lang) :=
    trimWordBoundaries_unmarked (splitMultiwordTokens_unmarked notYue
      (trimWordBoundaries_unmarked separated _)) _
  apply finalizeWordsToChunks_unmarked notEng notYue
  exact expandNumbersInWords_unmarked numbers (splitPercentSuffixWords_unmarked multiword lang) lang

end Elements

section Turns

theorem normalizeMarks_unmarked {text : String} (unmarked : Unmarked text) :
    Unmarked (normalizeMarks text) := by
  intro c member
  rw [normalizeMarks, String.toList_map] at member
  rcases List.mem_map.mp member with ⟨d, isChar, rfl⟩
  have plain := unmarked d isChar
  split
  · rename_i period
    rw [period] at plain
    exact absurd (by decide) plain
  · split
    · decide
    · exact plain

theorem isEndingPunct_unmarked {text : String} (unmarked : Unmarked text) :
    isEndingPunct text = false := by
  have known : ∀ known ∈ endingPunct ++ rtlPunct.map Prod.fst, ¬ Unmarked known := by decide
  apply Bool.eq_false_iff.mpr
  intro ending
  rw [isEndingPunct, Bool.or_eq_true, List.contains_iff_mem, List.contains_iff_mem] at ending
  exact known text (List.mem_append.mpr ending) unmarked

theorem endsWithEndingPunct_unmarked {text : String} (unmarked : Unmarked text) :
    endsWithEndingPunct text = false := by
  unfold endsWithEndingPunct
  cases isLast : text.toList.getLast? with
  | none => rfl
  | some c =>
      apply isEndingPunct_unmarked
      intro d member
      rw [String.toList_singleton, List.mem_singleton] at member
      rw [member]
      exact unmarked c (List.mem_of_getLast? isLast)

/-- The words of a turn as `retokenize` takes them. -/
def normalizedWords (turn : List AsrWord) : List AsrWord :=
  turn.map fun word => { word with text := normalizeMarks word.text }

theorem retokenize_unmarked {turn : List AsrWord} (unmarked : UnmarkedWords turn) (speaker : ℕ) :
    retokenize speaker turn = flushRemaining speaker (normalizedWords turn) := by
  have loop (buf : List AsrWord) :
      retokenizeFrom speaker buf turn = flushRemaining speaker (buf ++ normalizedWords turn) := by
    induction turn generalizing buf with
    | nil => rw [retokenizeFrom, normalizedWords, List.map_nil, List.append_nil]
    | cons word turn ih =>
        have split := List.forall_mem_cons.mp unmarked
        have plain := normalizeMarks_unmarked split.1
        rw [retokenizeFrom]
        dsimp only
        rw [isEndingPunct_unmarked plain, endsWithEndingPunct_unmarked plain]
        simp only [Bool.false_eq_true, if_false]
        rw [ih split.2, List.append_assoc]
        rfl
  exact loop []

/-- The words of the utterance of a turn, but for its period. -/
def turnWords (turn : List AsrWord) : List AsrWord :=
  (normalizedWords turn).rdropWhile (morPunct.contains ·.text)

theorem turnWords_unmarked {turn : List AsrWord} (unmarked : UnmarkedWords turn) :
    UnmarkedWords (turnWords turn) := by
  intro word member
  rcases List.mem_map.mp ((List.rdropWhile_prefix _ _).subset member) with ⟨original, isWord, rfl⟩
  exact normalizeMarks_unmarked (unmarked original isWord)

end Turns

end Batchalign.Asr
