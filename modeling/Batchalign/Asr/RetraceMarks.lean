import Batchalign.Asr.Retraces

/-!
# Which words are marked as retraces

`apply_retrace_detection` word by word. The marks are kept by content position, that is, by
the number of content words before a word; the words that are no content take part in
nothing. A word is marked exactly when it is content, no filler, and lies in a phrase of
content words that is said again right after it.
-/

namespace Batchalign.Asr

/-- The word as a retrace. -/
def asRetrace (word : AsrWord) : AsrWord :=
  { word with kind := .retrace, text := stripPunct word.text }

/-- The content words in front of a position. -/
def contentPosition (words : List AsrWord) (i : ℕ) : ℕ :=
  (contentTexts (words.take i)).length

/-- `content[b..b+n]` equals `content[b+n..b+2n]` up to ASCII case. -/
def SaidTwice (content : List String) (b n : ℕ) : Prop :=
  b + 2 * n ≤ content.length ∧
    List.Forall₂ (fun first second => eqIgnoreAsciiCase first second = true)
      (content.extract b (b + n)) (content.extract (b + n) (b + 2 * n))

/-- A content word at content position `p` of a phrase that is said twice, and no filler. -/
def IsRetrace (minNgram : ℕ) (words : List AsrWord) (i : ℕ) (word : AsrWord) : Prop :=
  isPunctOrTerminator word.text = false ∧ isFiller word.text = false ∧
    ∃ b n, minNgram ≤ n ∧ b ≤ contentPosition words i ∧ contentPosition words i < b + n ∧
      SaidTwice (contentTexts words) b n

/-- The retraces are marked and every other word stays as it is, words that are no content and
the last content word among them. -/
structure MarksRetraces (minNgram : ℕ) (words marked : List AsrWord) : Prop where
  length : marked.length = words.length
  retrace : ∀ (i : ℕ) (word : AsrWord), words[i]? = some word →
    IsRetrace minNgram words i word → marked[i]? = some (asRetrace word)
  other : ∀ (i : ℕ) (word : AsrWord), words[i]? = some word →
    ¬ IsRetrace minNgram words i word → marked[i]? = some word
  noContent : ∀ (i : ℕ) (word : AsrWord), words[i]? = some word →
    isPunctOrTerminator word.text = true → marked[i]? = some word
  last : ∀ (i : ℕ) (word : AsrWord), words[i]? = some word →
    contentTexts (words.drop (i + 1)) = [] → marked[i]? = some word

section Positions

theorem contentTexts_append (front back : List AsrWord) :
    contentTexts (front ++ back) = contentTexts front ++ contentTexts back := by
  simp [contentTexts]

theorem contentTexts_split {words : List AsrWord} {i : ℕ} {word : AsrWord}
    (found : words[i]? = some word) (content : isPunctOrTerminator word.text = false) :
    contentTexts words =
      contentTexts (words.take i) ++ word.text :: contentTexts (words.drop (i + 1)) := by
  rcases List.getElem?_eq_some_iff.mp found with ⟨bound, rfl⟩
  rw [← contentTexts_cons_content _ content, ← contentTexts_append,
    ← List.drop_eq_getElem_cons bound, List.take_append_drop]

/-- The text of a content word stands at its content position. -/
theorem contentTexts_contentPosition {words : List AsrWord} {i : ℕ} {word : AsrWord}
    (found : words[i]? = some word) (content : isPunctOrTerminator word.text = false) :
    (contentTexts words)[contentPosition words i]? = some word.text := by
  rw [contentTexts_split found content, contentPosition, List.getElem?_append_right le_rfl,
    Nat.sub_self]
  rfl

theorem contentTexts_length_of_last {words : List AsrWord} {i : ℕ} {word : AsrWord}
    (found : words[i]? = some word) (content : isPunctOrTerminator word.text = false)
    (last : contentTexts (words.drop (i + 1)) = []) :
    (contentTexts words).length = contentPosition words i + 1 := by
  rw [contentTexts_split found content, last, List.length_append]
  rfl

theorem contentPosition_cons_punct {word : AsrWord} (words : List AsrWord) (i : ℕ)
    (punct : isPunctOrTerminator word.text = true) :
    contentPosition (word :: words) (i + 1) = contentPosition words i := by
  rw [contentPosition, List.take_succ_cons, contentTexts_cons_punct _ punct, contentPosition]

theorem contentPosition_cons_content {word : AsrWord} (words : List AsrWord) (i : ℕ)
    (content : isPunctOrTerminator word.text = false) :
    contentPosition (word :: words) (i + 1) = contentPosition words i + 1 := by
  rw [contentPosition, List.take_succ_cons, contentTexts_cons_content _ content,
    List.length_cons, contentPosition]

end Positions

section Application

/-- Each content word is rewritten by the mark at its content position. -/
theorem markRetraces_getElem? {isRetrace : List Bool} {words : List AsrWord}
    (long : (contentTexts words).length ≤ isRetrace.length) (i : ℕ) :
    (markRetraces isRetrace words)[i]? = words[i]?.map fun word =>
      if isPunctOrTerminator word.text = false ∧
          isRetrace[contentPosition words i]? = some true then asRetrace word
      else word := by
  induction words generalizing isRetrace i with
  | nil => cases isRetrace <;> rfl
  | cons word words ih =>
      cases content : isPunctOrTerminator word.text with
      | true =>
          rw [markRetraces_cons_punct _ _ content]
          rw [contentTexts_cons_punct words content] at long
          cases i with
          | zero => simp [content]
          | succ i =>
              rw [List.getElem?_cons_succ, List.getElem?_cons_succ, ih long,
                contentPosition_cons_punct words i content]
      | false =>
          rw [contentTexts_cons_content words content] at long
          cases isRetrace with
          | nil => simp at long
          | cons mark isRetrace =>
              rw [markRetraces_cons_content _ _ _ content]
              cases i with
              | zero => cases mark <;> simp [content, contentPosition, contentTexts, asRetrace]
              | succ i =>
                  rw [List.getElem?_cons_succ, List.getElem?_cons_succ,
                    ih (by simpa using long), contentPosition_cons_content words i content]
                  simp

end Application

section Specification

theorem nextMatches_iff_forall₂ {content : List String} {b n : ℕ}
    (fits : b + 2 * n ≤ content.length) :
    nextMatches content b b n = true ↔ SaidTwice content b n := by
  unfold SaidTwice nextMatches
  simp only [fits, true_and, List.all_eq_true, List.mem_range]
  rw [List.forall₂_iff_get]
  have lengths : (content.extract b (b + n)).length = n ∧
      (content.extract (b + n) (b + 2 * n)).length = n := by
    simp only [List.extract_eq_take_drop, List.length_take, List.length_drop]
    omega
  constructor
  · intro agree
    refine ⟨lengths.1.trans lengths.2.symm, ?_⟩
    intro k first second
    have texts := agree k (lengths.1 ▸ first)
    simpa [List.getD, List.getElem?_eq_getElem (show b + k < content.length by omega),
      List.getElem?_eq_getElem (show b + n + k < content.length by omega)] using texts
  · rintro ⟨_, agree⟩ k below
    have texts := agree k (lengths.1.symm ▸ below) (lengths.2.symm ▸ below)
    simpa [List.getD, List.getElem?_eq_getElem (show b + k < content.length by omega),
      List.getElem?_eq_getElem (show b + n + k < content.length by omega)] using texts

theorem repeated_iff {content : List String} {minNgram p : ℕ} :
    Repeated content minNgram p ↔
      (∃ b n, minNgram ≤ n ∧ b ≤ p ∧ p < b + n ∧ SaidTwice content b n) ∧
        isFiller (content.getD p "") = false := by
  apply and_congr_left
  intro _
  constructor
  · rintro ⟨b, lower, n, _, length, upper, fits, repeats⟩
    exact ⟨b, n, length, lower, upper, (nextMatches_iff_forall₂ fits).mp repeats⟩
  · rintro ⟨b, n, length, lower, upper, twice⟩
    have fits := twice.1
    exact ⟨b, lower, n, by omega, length, upper, fits, (nextMatches_iff_forall₂ fits).mpr twice⟩

theorem isRetrace_iff_repeated {minNgram i : ℕ} {words : List AsrWord} {word : AsrWord}
    (found : words[i]? = some word) (content : isPunctOrTerminator word.text = false) :
    IsRetrace minNgram words i word ↔
      Repeated (contentTexts words) minNgram (contentPosition words i) := by
  have atPosition := contentTexts_contentPosition found content
  rw [repeated_iff, IsRetrace, List.getD, atPosition, Option.getD_some]
  simp only [content, true_and]
  exact and_comm

theorem retraceWords_getElem? (words : List AsrWord) (lang : String) (i : ℕ) :
    (retraceWords words lang)[i]? = words[i]?.map fun word =>
      if isPunctOrTerminator word.text = false ∧
          Repeated (contentTexts words) (minNgram lang) (contentPosition words i) then
        asRetrace word
      else word := by
  unfold retraceWords
  dsimp only
  split
  · rename_i short
    have never := not_repeated_of_short (minNgram_pos lang) short
    simp [never]
  · have length := detectRetraces_length (contentTexts words) (minNgram lang)
    rw [markRetraces_getElem? length.ge]
    cases found : words[i]? with
    | none => rfl
    | some word =>
        simp only [Option.map_some]
        congr 1
        apply if_congr _ rfl rfl
        apply and_congr_right
        intro content
        have atPosition := contentTexts_contentPosition found content
        exact detectRetraces_isMarked_iff _ (List.getElem?_eq_some_iff.mp atPosition).1

theorem retraceWords_marksRetraces (words : List AsrWord) (lang : String) :
    MarksRetraces (minNgram lang) words (retraceWords words lang) := by
  have other (i : ℕ) (word : AsrWord) (found : words[i]? = some word)
      (unmarked : ¬ IsRetrace (minNgram lang) words i word) :
      (retraceWords words lang)[i]? = some word := by
    rw [retraceWords_getElem?, found, Option.map_some, if_neg]
    rintro ⟨content, repeated⟩
    exact unmarked ((isRetrace_iff_repeated found content).mpr repeated)
  refine ⟨?_, ?_, other, ?_, ?_⟩
  · apply Nat.le_antisymm
    · apply List.getElem?_eq_none_iff.mp
      rw [retraceWords_getElem?, List.getElem?_eq_none le_rfl, Option.map_none]
    · have none := List.getElem?_eq_none_iff.mpr (le_refl (retraceWords words lang).length)
      rw [retraceWords_getElem?, Option.map_eq_none_iff] at none
      exact List.getElem?_eq_none_iff.mp none
  · intro i word found retrace
    rw [retraceWords_getElem?, found, Option.map_some, if_pos]
    exact ⟨retrace.1, (isRetrace_iff_repeated found retrace.1).mp retrace⟩
  · intro i word found punct
    apply other i word found
    intro retrace
    rw [retrace.1] at punct
    cases punct
  · intro i word found last
    apply other i word found
    -- a phrase around the last content word would have to go on after it
    rintro ⟨content, _, b, n, length, lower, upper, fits, _⟩
    have positive := minNgram_pos lang
    have count := contentTexts_length_of_last found content last
    omega

/-- In every utterance the words are marked by the specification, and nothing else changes. -/
theorem applyRetraceDetection_marksRetraces (utterances : List Utterance) (lang : String) :
    List.Forall₂ (fun before after => after = { before with words := after.words } ∧
      MarksRetraces (minNgram lang) before.words after.words)
      utterances (applyRetraceDetection utterances lang) := by
  rw [applyRetraceDetection, List.forall₂_map_right_iff, List.forall₂_same]
  intro utterance _
  exact ⟨rfl, retraceWords_marksRetraces utterance.words lang⟩

end Specification

end Batchalign.Asr
