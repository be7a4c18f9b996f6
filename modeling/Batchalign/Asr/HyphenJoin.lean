import Mathlib
import Batchalign.Asr.Timing
import Batchalign.Asr.Documented

/-!
# Joining hyphen-prefixed words

`split_multiword_tokens` puts a word that starts with a hyphen behind the last token it has
emitted, whatever that token came from. Each token is followed here with a flag that says
whether it was emitted as a separator; the flags say nothing new about the tokens
(`map_fst_taggedTokens`). The tokens of a list of words are those of its runs, a word with the
hyphen-prefixed words behind it (`taggedTokens_eq_runs`), so what a join does to a token is
decided run by run.
-/

namespace Batchalign.Asr

def startsWithHyphen (word : AsrWord) : Bool := word.text.toList.head? = some '-'

variable [AsrTables]

section Tags

/-- A token and whether it was emitted as a separator. -/
abbrev TaggedToken := AsrWord × Bool

def taggedPieces (word : AsrWord) (lang : String) : List TaggedToken :=
  (splitChunkWord word lang).zip ((multiwordParts word lang).map Prod.snd)

/-- A join keeps the flag of the token it extends. -/
def joinTagged (result : List TaggedToken) (word : AsrWord) (lang : String) : List TaggedToken :=
  match result.getLast? with
  | some (prev, isSeparator) =>
      if startsWithHyphen word then
        result.dropLast ++
          [({ prev with text := prev.text ++ word.text, endMs := word.endMs }, isSeparator)]
      else result ++ taggedPieces word lang
  | none => taggedPieces word lang

def taggedTokens (words : List AsrWord) (lang : String) : List TaggedToken :=
  words.foldl (fun result word => joinTagged result word lang) []

omit [AsrTables] in
theorem length_timeParts (span : Option (ℤ × ℤ)) (total consumed : ℕ) (parts : List Part) :
    (timeParts span total consumed parts).length = parts.length := by
  induction parts generalizing consumed with
  | nil => rfl
  | cons part parts ih =>
      rcases part with ⟨text, isSeparator⟩
      cases isSeparator <;> simp [timeParts, ih]

theorem length_splitChunkWord (word : AsrWord) (lang : String) :
    (splitChunkWord word lang).length = (multiwordParts word lang).length := by
  by_cases split : multiwordParts word lang = [(word.text, false)]
  · rw [splitChunkWord_unsplit split, split]
    rfl
  · rw [splitChunkWord_split split, length_timeParts]

theorem map_fst_taggedPieces (word : AsrWord) (lang : String) :
    (taggedPieces word lang).map Prod.fst = splitChunkWord word lang := by
  apply List.map_fst_zip
  simp [length_splitChunkWord]

theorem map_snd_taggedPieces (word : AsrWord) (lang : String) :
    (taggedPieces word lang).map Prod.snd = (multiwordParts word lang).map Prod.snd := by
  apply List.map_snd_zip
  simp [length_splitChunkWord]

theorem map_fst_joinTagged (result : List TaggedToken) (word : AsrWord) (lang : String) :
    (joinTagged result word lang).map Prod.fst = joinHyphen (result.map Prod.fst) word lang := by
  rcases List.eq_nil_or_concat' result with rfl | ⟨init, ⟨prev, isSeparator⟩, rfl⟩
  · exact map_fst_taggedPieces word lang
  · by_cases hyphen : startsWithHyphen word
    · have head : word.text.toList.head? = some '-' := by simpa [startsWithHyphen] using hyphen
      simp [joinTagged, joinHyphen, hyphen, head]
    · have head : ¬ word.text.toList.head? = some '-' := by simpa [startsWithHyphen] using hyphen
      simp [joinTagged, joinHyphen, hyphen, head, map_fst_taggedPieces]

/-- Without the flags the tokens are those of `split_multiword_tokens`. -/
theorem map_fst_taggedTokens (words : List AsrWord) (lang : String) :
    (taggedTokens words lang).map Prod.fst = splitMultiwordTokens words lang := by
  have fold : ∀ result : List TaggedToken,
      (words.foldl (fun result word => joinTagged result word lang) result).map Prod.fst =
        words.foldl (fun result word => joinHyphen result word lang)
          (result.map Prod.fst) := by
    induction words with
    | nil =>
        intro result
        rfl
    | cons word words ih =>
        intro result
        rw [List.foldl_cons, List.foldl_cons, ih, map_fst_joinTagged]
  exact fold []

end Tags

section Runs

/-- A word and the hyphen-prefixed words behind it, over the whole list. -/
def joinRuns : List AsrWord → List (AsrWord × List AsrWord)
  | [] => []
  | word :: words =>
      (word, words.takeWhile startsWithHyphen) :: joinRuns (words.dropWhile startsWithHyphen)
termination_by words => words.length
decreasing_by
  exact Nat.lt_succ_of_le (List.dropWhile_suffix startsWithHyphen).length_le

/-- A token with hyphen-prefixed words behind it. -/
def extend (token : TaggedToken) (joined : List AsrWord) : TaggedToken :=
  joined.foldl (fun token word =>
    ({ token.1 with text := token.1.text ++ word.text, endMs := word.endMs }, token.2)) token

/-- The tokens of a run: the last piece of the word takes the words behind it. -/
def runTokens (lang : String) (run : AsrWord × List AsrWord) : List TaggedToken :=
  (taggedPieces run.1 lang).dropLast ++
    ((taggedPieces run.1 lang).getLast?.map (extend · run.2)).toList

def hasPieces (lang : String) (word : AsrWord) : Bool := ! (multiwordParts word lang).isEmpty

theorem taggedPieces_eq_nil_iff {word : AsrWord} {lang : String} :
    taggedPieces word lang = [] ↔ hasPieces lang word = false := by
  rw [← List.map_eq_nil_iff (f := Prod.snd), map_snd_taggedPieces, List.map_eq_nil_iff]
  simp [hasPieces]

omit [AsrTables] in
/-- A token that has begun is a part. -/
theorem splitParts_ne_nil {lang : String} {current : List Char} (begun : current ≠ [])
    (chars : List Char) : splitParts lang 0 current chars ≠ [] := by
  induction chars generalizing current with
  | nil => simp [splitParts, flushCurrent, begun]
  | cons c chars ih =>
      have flushed : flushCurrent current ≠ [] := by simp [flushCurrent, begun]
      have isEmpty : current.isEmpty = false := by simpa using begun
      rw [splitParts]
      simp only [isEmpty, Bool.false_eq_true, if_false]
      split
      · simp [flushed]
      · split
        · simp [flushed]
        · exact ih (by simp)

theorem expandParts_ne_nil {parts : List Part} (nonempty : parts ≠ []) (lang : String) :
    expandParts parts lang ≠ [] := by
  rcases List.exists_cons_of_ne_nil nonempty with ⟨⟨text, isSeparator⟩, rest, rfl⟩
  intro empty
  have first := (List.append_eq_nil_iff.mp empty).1
  cases isSeparator with
  | true => cases first
  | false =>
      simp only [Bool.false_eq_true, if_false, expandLanguagePart] at first
      split at first
      · cases first
      · split at first
        · cases first
        · rename_i several
          simp only [List.map_eq_nil_iff] at first
          simp [first] at several

/-- The hyphen is no separator, so it begins a part. -/
theorem hasPieces_of_hyphen {word : AsrWord} (lang : String) (hyphen : startsWithHyphen word) :
    hasPieces lang word := by
  have head : word.text.toList.head? = some '-' := by simpa [startsWithHyphen] using hyphen
  rcases List.head?_eq_some_iff.mp head with ⟨chars, text⟩
  have noNumber : protectedPrefixLen ('-' :: chars) lang = none := by
    have noDigits : ordinalPorLength ('-' :: chars) = none := by
      simp [ordinalPorLength]
    simp [protectedPrefixLen, noDigits]
  have begins : splitParts lang 0 [] ('-' :: chars) = splitParts lang 0 ['-'] chars := by
    rw [splitParts]
    simp only [List.isEmpty_nil, if_true, noNumber]
    rfl
  have parts : multiwordParts word lang ≠ [] := by
    rw [multiwordParts, text, begins]
    exact expandParts_ne_nil (splitParts_ne_nil (by simp) chars) lang
  simpa [hasPieces] using parts

theorem joinTagged_start {result : List TaggedToken} {word : AsrWord} (lang : String)
    (starts : result = [] ∨ startsWithHyphen word = false) :
    joinTagged result word lang = result ++ taggedPieces word lang := by
  rcases List.eq_nil_or_concat' result with rfl | ⟨init, token, rfl⟩
  · rfl
  · rcases starts with empty | noHyphen
    · simp at empty
    · simp [joinTagged, noHyphen]

theorem foldl_joinTagged_hyphens (init : List TaggedToken) (token : TaggedToken)
    (lang : String) {joined : List AsrWord} (hyphens : ∀ word ∈ joined, startsWithHyphen word) :
    joined.foldl (fun result word => joinTagged result word lang) (init ++ [token]) =
      init ++ [extend token joined] := by
  induction joined generalizing token with
  | nil => rfl
  | cons word joined ih =>
      rcases List.forall_mem_cons.mp hyphens with ⟨hyphen, hyphens⟩
      have step : joinTagged (init ++ [token]) word lang =
          init ++ [({ token.1 with text := token.1.text ++ word.text, endMs := word.endMs },
            token.2)] := by
        simp [joinTagged, hyphen]
      rw [List.foldl_cons, step, ih _ hyphens]
      rfl

/-- A run appends its own tokens. -/
theorem foldl_joinTagged_run {result : List TaggedToken} {word : AsrWord} (lang : String)
    {joined : List AsrWord} (starts : result = [] ∨ startsWithHyphen word = false)
    (pieces : hasPieces lang word) (hyphens : ∀ word ∈ joined, startsWithHyphen word) :
    (word :: joined).foldl (fun result word => joinTagged result word lang) result =
      result ++ runTokens lang (word, joined) := by
  have nonempty : taggedPieces word lang ≠ [] := by
    intro empty
    rw [taggedPieces_eq_nil_iff.mp empty] at pieces
    cases pieces
  rcases List.eq_nil_or_concat' (taggedPieces word lang) with empty | ⟨init, token, made⟩
  · exact absurd empty nonempty
  · rw [List.foldl_cons, joinTagged_start lang starts, made, ← List.append_assoc,
      foldl_joinTagged_hyphens _ _ _ hyphens, runTokens, made]
    simp

/-- Words without pieces leave no token and start no run. -/
theorem foldl_joinTagged_filter (words : List AsrWord) (result : List TaggedToken)
    (lang : String) :
    words.foldl (fun result word => joinTagged result word lang) result =
      (words.filter (hasPieces lang)).foldl (fun result word => joinTagged result word lang)
        result := by
  induction words generalizing result with
  | nil => rfl
  | cons word words ih =>
      cases pieces : hasPieces lang word with
      | true => rw [List.filter_cons_of_pos pieces, List.foldl_cons, List.foldl_cons, ih]
      | false =>
          have noHyphen : startsWithHyphen word = false := by
            by_contra hyphen
            have some_ := hasPieces_of_hyphen lang (by simpa using hyphen)
            rw [pieces] at some_
            cases some_
          have unchanged : joinTagged result word lang = result := by
            rw [joinTagged_start lang (Or.inr noHyphen), taggedPieces_eq_nil_iff.mpr pieces,
              List.append_nil]
          rw [List.filter_cons_of_neg (by simp [pieces]), List.foldl_cons, unchanged, ih]

theorem foldl_joinTagged_runs {result : List TaggedToken} {words : List AsrWord} (lang : String)
    (starts : result = [] ∨ ∀ word ∈ words.head?, startsWithHyphen word = false)
    (pieces : ∀ word ∈ words, hasPieces lang word) :
    words.foldl (fun result word => joinTagged result word lang) result =
      result ++ (joinRuns words).flatMap (runTokens lang) := by
  induction words using joinRuns.induct generalizing result with
  | case1 => simp [joinRuns]
  | case2 word words ih =>
      have first : result = [] ∨ startsWithHyphen word = false := by
        apply starts.imp_right
        intro headed
        exact headed word rfl
      have stops : ∀ next ∈ (words.dropWhile startsWithHyphen).head?,
          startsWithHyphen next = false := by
        intro next isNext
        have first := List.head?_dropWhile_not startsWithHyphen words
        rw [isNext] at first
        simpa using first
      have run := foldl_joinTagged_run lang first (pieces word List.mem_cons_self)
        (fun next member => List.mem_takeWhile_imp member : ∀ next ∈
          words.takeWhile startsWithHyphen, startsWithHyphen next)
      have later : ∀ next ∈ words.dropWhile startsWithHyphen, hasPieces lang next := by
        intro next member
        exact pieces next (List.mem_cons_of_mem _ ((List.dropWhile_suffix _).mem member))
      calc (word :: words).foldl (fun result word => joinTagged result word lang) result
          = (words.dropWhile startsWithHyphen).foldl
              (fun result word => joinTagged result word lang)
              ((word :: words.takeWhile startsWithHyphen).foldl
                (fun result word => joinTagged result word lang) result) := by
            rw [← List.foldl_append, List.cons_append, List.takeWhile_append_dropWhile]
        _ = _ := by
            rw [run, ih (Or.inr stops) later, joinRuns, List.flatMap_cons, List.append_assoc]

/-- The tokens of the words are the tokens of their runs. -/
theorem taggedTokens_eq_runs (words : List AsrWord) (lang : String) :
    taggedTokens words lang =
      (joinRuns (words.filter (hasPieces lang))).flatMap (runTokens lang) := by
  rw [taggedTokens, foldl_joinTagged_filter, foldl_joinTagged_runs lang (Or.inl rfl),
    List.nil_append]
  intro word member
  exact (List.mem_filter.mp member).2

omit [AsrTables] in
theorem mem_joinRuns {words : List AsrWord} {run : AsrWord × List AsrWord}
    (member : run ∈ joinRuns words) :
    run.1 ∈ words ∧ ∀ word ∈ run.2, startsWithHyphen word := by
  induction words using joinRuns.induct with
  | case1 => simp [joinRuns] at member
  | case2 word words ih =>
      rw [joinRuns] at member
      rcases List.mem_cons.mp member with rfl | later
      · exact ⟨List.mem_cons_self, fun next inside => List.mem_takeWhile_imp inside⟩
      · rcases ih later with ⟨inside, hyphens⟩
        exact ⟨List.mem_cons_of_mem _ ((List.dropWhile_suffix _).mem inside), hyphens⟩

end Runs

section Pieces

/-- The tokens that end a sentence or stand between words. -/
def separatorTexts : List String := [".", "?", "!", ","]

/-- A token that was emitted as a separator still is one. -/
def Intact (token : TaggedToken) : Prop := token.2 = true → token.1.text ∈ separatorTexts

omit [AsrTables] in
theorem normalizedSplitSeparator_mem {c : Char} {text : String}
    (separates : normalizedSplitSeparator c = some (some text)) : text ∈ separatorTexts := by
  unfold normalizedSplitSeparator at separates
  split_ifs at separates <;> cases separates <;> decide

omit [AsrTables] in
theorem splitParts_separators (lang : String) (skip : ℕ) (current chars : List Char) :
    ∀ part ∈ splitParts lang skip current chars, part.2 = true → part.1 ∈ separatorTexts := by
  have flushed : ∀ current, ∀ part ∈ flushCurrent current, part.2 = false := by
    intro current part member
    unfold flushCurrent at member
    split at member
    · cases member
    · rw [List.mem_singleton.mp member]
  induction chars generalizing skip current with
  | nil =>
      intro part member isSeparator
      have text := flushed current part (by simpa [splitParts] using member)
      rw [text] at isSeparator
      cases isSeparator
  | cons c chars ih =>
      intro part member isSeparator
      have notFlushed : part ∉ flushCurrent current := by
        intro inside
        rw [flushed current part inside] at isSeparator
        cases isSeparator
      cases skip with
      | succ skip => exact ih skip current part (by simpa [splitParts] using member) isSeparator
      | zero =>
          rw [splitParts] at member
          split at member
          · rcases List.mem_cons.mp member with rfl | later
            · cases isSeparator
            · exact ih _ _ part later isSeparator
          · split at member
            · rcases List.mem_append.mp member with inside | later
              · exact absurd inside notFlushed
              · exact ih _ _ part later isSeparator
            · split at member
              · rename_i separator separates
                rcases List.mem_append.mp member with inside | later
                · rcases List.mem_append.mp inside with inside | marked
                  · exact absurd inside notFlushed
                  · rcases List.mem_map.mp marked with ⟨text, isText, rfl⟩
                    rw [Option.mem_toList] at isText
                    rw [isText] at separates
                    exact normalizedSplitSeparator_mem separates
                · exact ih _ _ part later isSeparator
              · exact ih _ _ part member isSeparator

theorem multiwordParts_separators {word : AsrWord} {lang : String} {part : Part}
    (member : part ∈ multiwordParts word lang) (isSeparator : part.2 = true) :
    part.1 ∈ separatorTexts := by
  rcases List.mem_flatMap.mp member with ⟨source, isSource, made⟩
  split at made
  · rw [List.mem_singleton.mp made] at isSeparator ⊢
    exact splitParts_separators _ _ _ _ source isSource isSeparator
  · unfold expandLanguagePart at made
    split at made
    · rw [List.mem_singleton.mp made] at isSeparator
      cases isSeparator
    · dsimp only at made
      split at made
      · rw [List.mem_singleton.mp made] at isSeparator
        cases isSeparator
      · rcases List.mem_map.mp made with ⟨token, _, rfl⟩
        cases isSeparator

omit [AsrTables] in
theorem texts_timeParts (span : Option (ℤ × ℤ)) (total consumed : ℕ) (parts : List Part) :
    (timeParts span total consumed parts).map AsrWord.text = parts.map Prod.fst := by
  induction parts generalizing consumed with
  | nil => rfl
  | cons part parts ih =>
      rcases part with ⟨text, isSeparator⟩
      cases isSeparator <;> simp [timeParts, ih, AsrWord.new]

/-- The pieces are the parts of the word, with times. -/
theorem map_text_taggedPieces (word : AsrWord) (lang : String) :
    (taggedPieces word lang).map (Prod.map AsrWord.text id) = multiwordParts word lang := by
  have texts : (splitChunkWord word lang).map AsrWord.text =
      (multiwordParts word lang).map Prod.fst := by
    by_cases split : multiwordParts word lang = [(word.text, false)]
    · rw [splitChunkWord_unsplit split, split]
      rfl
    · rw [splitChunkWord_split split, texts_timeParts]
  rw [taggedPieces, ← List.zip_map_left, texts]
  have parts := List.zip_unzip (multiwordParts word lang)
  rwa [List.unzip_eq_map] at parts

theorem taggedPieces_intact {word : AsrWord} {lang : String} :
    ∀ token ∈ taggedPieces word lang, Intact token := by
  intro token member isSeparator
  have isPart : Prod.map AsrWord.text id token ∈ multiwordParts word lang := by
    rw [← map_text_taggedPieces]
    exact List.mem_map_of_mem member
  exact multiwordParts_separators isPart isSeparator

theorem taggedPieces_paired {word : AsrWord} {lang : String} (paired : word.Paired) :
    ∀ token ∈ taggedPieces word lang, token.1.Paired := by
  intro token member
  exact splitChunkWord_paired paired lang token.1 (List.of_mem_zip member).1

/-- Whether the text pieces of a word get times. -/
def piecesTimed (word : AsrWord) (lang : String) : Bool :=
  if multiwordParts word lang = [(word.text, false)] then word.endMs.isSome
  else (timedSpan word.startMs word.endMs (totalTextChars (multiwordParts word lang))).isSome

omit [AsrTables] in
theorem timeParts_endMs (span : Option (ℤ × ℤ)) (total consumed : ℕ) (parts : List Part) :
    ∀ token ∈ (timeParts span total consumed parts).zip (parts.map Prod.snd),
      token.2 = false → token.1.endMs.isSome = span.isSome := by
  induction parts generalizing consumed with
  | nil =>
      intro token member
      cases member
  | cons part parts ih =>
      rcases part with ⟨text, isSeparator⟩
      intro token member isText
      cases isSeparator with
      | true =>
          rcases List.mem_cons.mp member with rfl | later
          · cases isText
          · exact ih _ token later isText
      | false =>
          rcases List.mem_cons.mp member with rfl | later
          · simp [AsrWord.new]
          · exact ih _ token later isText

theorem taggedPieces_endMs {word : AsrWord} {lang : String} :
    ∀ token ∈ taggedPieces word lang, token.2 = false →
      token.1.endMs.isSome = piecesTimed word lang := by
  intro token member isText
  rw [taggedPieces] at member
  by_cases split : multiwordParts word lang = [(word.text, false)]
  · rw [splitChunkWord_unsplit split, split] at member
    rw [List.mem_singleton.mp member, piecesTimed, if_pos split]
  · rw [splitChunkWord_split split] at member
    rw [piecesTimed, if_neg split, timeParts_endMs _ _ _ _ token member isText]

end Pieces

section Joins

omit [AsrTables]

theorem extend_concat (token : TaggedToken) (joined : List AsrWord) (closing : AsrWord) :
    extend token (joined ++ [closing]) =
      ({ (extend token joined).1 with
          text := (extend token joined).1.text ++ closing.text, endMs := closing.endMs },
        (extend token joined).2) :=
  List.foldl_append

theorem extend_kept (token : TaggedToken) (joined : List AsrWord) :
    (extend token joined).2 = token.2 ∧
      (extend token joined).1.startMs = token.1.startMs ∧
      token.1.text.toList.length ≤ (extend token joined).1.text.toList.length := by
  induction joined using List.reverseRecOn with
  | nil => exact ⟨rfl, rfl, le_rfl⟩
  | append_singleton joined closing ih =>
      rcases ih with ⟨flag, start, length⟩
      rw [extend_concat]
      refine ⟨flag, start, ?_⟩
      simp only [String.toList_append, List.length_append]
      omega

/-- What a hyphen-prefixed word was put behind is no separator. -/
theorem extended_not_separator {token : TaggedToken} {joined : List AsrWord} {closing : AsrWord}
    (isText : token.1.text ∈ separatorTexts) (hyphen : startsWithHyphen closing) :
    (extend token (joined ++ [closing])).1.text ∉ separatorTexts := by
  have single : ∀ text ∈ separatorTexts, text.toList.length = 1 := by decide
  have kept := (extend_kept token joined).2.2
  have closed : 0 < closing.text.toList.length := by
    have head : closing.text.toList.head? = some '-' := by simpa [startsWithHyphen] using hyphen
    rcases List.head?_eq_some_iff.mp head with ⟨chars, text⟩
    simp [text]
  intro isSeparator
  have length := single _ isSeparator
  rw [extend_concat] at length
  simp only [String.toList_append, List.length_append, single _ isText] at length kept
  omega

end Joins

section Claim

/-- Every separator is a separator, and every token has both of its times or neither. -/
def SpokenJoins (words : List AsrWord) (lang : String) : Prop :=
  ∀ token ∈ taggedTokens words lang, Intact token ∧ token.1.Paired

/-- The words behind the word of a run meet a text piece, and the last of them has an end
exactly if that piece has one. -/
def RunExtendsText (lang : String) (run : AsrWord × List AsrWord) : Prop :=
  ∀ closing ∈ run.2.getLast?,
    (multiwordParts run.1 lang).getLast?.map Prod.snd = some false ∧
      closing.endMs.isSome = piecesTimed run.1 lang

theorem runTokens_sound_iff {lang : String} {run : AsrWord × List AsrWord}
    (pieces : hasPieces lang run.1) (paired : run.1.Paired)
    (hyphens : ∀ word ∈ run.2, startsWithHyphen word) :
    (∀ token ∈ runTokens lang run, Intact token ∧ token.1.Paired) ↔ RunExtendsText lang run := by
  rcases run with ⟨word, joined⟩
  have intact : ∀ token ∈ taggedPieces word lang, Intact token ∧ token.1.Paired :=
    fun token member => ⟨taggedPieces_intact token member, taggedPieces_paired paired token member⟩
  have flags := congrArg List.getLast? (map_snd_taggedPieces word lang)
  rcases List.eq_nil_or_concat' (taggedPieces word lang) with empty | ⟨init, token, made⟩
  · rw [taggedPieces_eq_nil_iff.mp empty] at pieces
    cases pieces
  rw [made, List.map_append, List.map_singleton, List.getLast?_concat, List.getLast?_map] at flags
  rw [made, List.forall_mem_append, List.forall_mem_singleton] at intact
  have tokens : runTokens lang (word, joined) = init ++ [extend token joined] := by
    rw [runTokens, made]
    simp
  rw [tokens, List.forall_mem_append, List.forall_mem_singleton, RunExtendsText, ← flags,
    and_iff_right intact.1]
  rcases List.eq_nil_or_concat' joined with rfl | ⟨front, closing, rfl⟩
  · have unchanged : extend token [] = token := rfl
    simp [unchanged, intact.2]
  · have hyphen := hyphens closing (by simp)
    have isPiece : token ∈ taggedPieces word lang := by simp [made]
    have flagged := (extend_kept token (front ++ [closing])).1
    rw [List.getLast?_concat]
    simp only [Option.mem_some_iff, forall_eq', Option.some_inj]
    cases isSeparator : token.2 with
    | true =>
        -- The separator was extended.
        have glued := @extended_not_separator token front closing (intact.2.1 isSeparator) hyphen
        rw [isSeparator] at flagged
        simp [Intact, flagged, glued]
    | false =>
        rw [isSeparator] at flagged
        have opened : (extend token (front ++ [closing])).1.startMs.isSome =
            piecesTimed word lang := by
          rw [(extend_kept _ _).2.1, ← taggedPieces_endMs token isPiece isSeparator]
          exact intact.2.2
        have closed : (extend token (front ++ [closing])).1.endMs = closing.endMs := by
          rw [extend_concat]
        rw [Intact, AsrWord.Paired, flagged, opened, closed]
        simp [eq_comm]

/-- The hyphen join only extends spoken words exactly if it does so in every run. -/
theorem splitMultiwordTokens_joins_iff {words : List AsrWord} (lang : String)
    (paired : ∀ word ∈ words, word.Paired) :
    (taggedTokens words lang).map Prod.fst = splitMultiwordTokens words lang ∧
      (SpokenJoins words lang ↔
        ∀ run ∈ joinRuns (words.filter (hasPieces lang)), RunExtendsText lang run) := by
  refine ⟨map_fst_taggedTokens words lang, ?_⟩
  rw [SpokenJoins, taggedTokens_eq_runs, List.forall_mem_flatMap]
  apply forall₂_congr
  intro run member
  rcases mem_joinRuns member with ⟨inside, hyphens⟩
  rcases List.mem_filter.mp inside with ⟨isWord, pieces⟩
  exact runTokens_sound_iff pieces (paired run.1 isWord) hyphens

end Claim

end Batchalign.Asr

namespace Batchalign.Asr.Documented

/-- A compound that the recogniser has written as two words. -/
def wellKnown : List AsrWord :=
  [AsrWord.new "well" (some 0) (some 300), AsrWord.new "-known" (some 300) (some 700)]

theorem splitMultiwordTokens_joins_iff_wellKnown :
    (taggedTokens wellKnown "eng").map Prod.fst = splitMultiwordTokens wellKnown "eng" ∧
      (SpokenJoins wellKnown "eng" ↔
        ∀ run ∈ joinRuns (wellKnown.filter (hasPieces "eng")), RunExtendsText "eng" run) :=
  splitMultiwordTokens_joins_iff "eng" (by decide)

/-- The word before has ended a sentence. -/
def endedSentence : List AsrWord :=
  [AsrWord.new "hello." (some 0) (some 300), AsrWord.new "-world" (some 300) (some 700)]

/-- The word before was split into untimed tokens. -/
def untimedPhrase : List AsrWord :=
  [AsrWord.new "hello wide" none none, AsrWord.new "-world" (some 300) (some 700)]

/-- The period takes the word, and so loses the sentence; the untimed token takes an end. -/
theorem joins_not_spoken :
    ((∀ word ∈ endedSentence, word.Paired) ∧ ¬ SpokenJoins endedSentence "eng" ∧
      (splitMultiwordTokens endedSentence "eng").map AsrWord.text = ["hello", ".-world"]) ∧
    (∀ word ∈ untimedPhrase, word.Paired) ∧ ¬ SpokenJoins untimedPhrase "eng" ∧
      (splitMultiwordTokens untimedPhrase "eng").getLast?.map
        (fun word => (word.startMs, word.endMs)) = some (none, some 700) := by
  unfold SpokenJoins Intact
  decide +kernel

end Batchalign.Asr.Documented
