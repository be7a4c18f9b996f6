import Batchalign.Asr.Unmarked

/-!
# The parts of a Cantonese word

The first splitter cuts a word at whitespace and punctuation and a segment between two cuts in
its characters. The characters are those of the normalised segment. A segment that is not cut
again keeps its own text, and the stage that normalises the words comes later.
-/

namespace Batchalign.Asr

section Segments

def isSplitSeparator (c : Char) : Bool := isWhitespace c || (normalizedSplitSeparator c).isSome

/-- What stands between the separators of a text. -/
def segments (text : String) : List String :=
  ((text.toList.splitOnP isSplitSeparator).filter (! ·.isEmpty)).map String.ofList

theorem protectedPrefixLen_yue (chars : List Char) : protectedPrefixLen chars "yue" = none := by
  apply if_neg
  rw [toAsciiLowercase, ← String.toList_inj, String.toList_map]
  decide

theorem flushCurrent_texts (current : List Char) :
    ((flushCurrent current).filter (! ·.2)).map Prod.fst =
      (([current] : List (List Char)).filter (! ·.isEmpty)).map String.ofList := by
  cases current <;> rfl

theorem modifyHead_nil_append (pieces : List (List Char)) :
    pieces.modifyHead ([] ++ ·) = pieces :=
  congrFun List.modifyHead_id pieces

/-- The parts that are no separators are the segments, the first one after what stands before
the text. -/
theorem splitParts_texts (current chars : List Char) :
    ((splitParts "yue" 0 current chars).filter (! ·.2)).map Prod.fst =
      (((chars.splitOnP isSplitSeparator).modifyHead (current ++ ·)).filter (! ·.isEmpty)).map
        String.ofList := by
  induction chars generalizing current with
  | nil =>
      rw [splitParts, flushCurrent_texts, List.splitOnP_nil, List.modifyHead_cons,
        List.append_nil]
  | cons c chars ih =>
      have unprotected : (if current.isEmpty then protectedPrefixLen (c :: chars) "yue"
          else none) = none := by
        simp [protectedPrefixLen_yue]
      have fresh : ((splitParts "yue" 0 [] chars).filter (! ·.2)).map Prod.fst =
          ((chars.splitOnP isSplitSeparator).filter (! ·.isEmpty)).map String.ofList := by
        rw [ih, modifyHead_nil_append]
      have cut (isCut : isSplitSeparator c = true) :
          (((c :: chars).splitOnP isSplitSeparator).modifyHead (current ++ ·)) =
            current :: chars.splitOnP isSplitSeparator := by
        rw [List.splitOnP_cons_eq_if_modifyHead, if_pos isCut, List.modifyHead_cons,
          List.append_nil]
      rw [splitParts, unprotected]
      by_cases blank : isWhitespace c = true
      · have isCut : isSplitSeparator c = true := by simp [isSplitSeparator, blank]
        simp only [blank, if_true, List.filter_append, List.map_append, flushCurrent_texts, fresh,
          cut isCut]
        rw [← List.map_append, ← List.filter_append, List.singleton_append]
      · simp only [blank, Bool.false_eq_true, if_false]
        cases found : normalizedSplitSeparator c with
        | some separator =>
            have isCut : isSplitSeparator c = true := by simp [isSplitSeparator, found]
            have dropped : (separator.toList.map fun text => (text, true)).filter
                (fun part : Part => ! part.2) = [] := by
              simp
            simp only [List.filter_append, List.map_append, flushCurrent_texts, fresh,
              cut isCut, dropped, List.append_nil]
            rw [← List.map_append, ← List.filter_append, List.singleton_append]
        | none =>
            have inside : isSplitSeparator c = false := by simp [isSplitSeparator, found, blank]
            simp only
            rw [ih, List.splitOnP_cons_eq_if_modifyHead, inside]
            simp [List.modifyHead_modifyHead, Function.comp_def]

end Segments

section Parts

variable [AsrTables]

/-- The characters of the normalised segment, without punctuation and blanks. -/
def normalizedSegment (segment : String) : List Char :=
  (normalizeCantonese segment).toList.filter (! isCjkPunctOrSpace ·)

/-- A segment is cut when it has an ideograph and is more than one character. -/
def IsCut (segment : String) : Prop :=
  segment.toList.any isCjkIdeograph = true ∧ 1 < (normalizedSegment segment).length

instance (segment : String) : Decidable (IsCut segment) := instDecidableAnd

/-- The characters of a segment that is cut, and any other segment as it is. -/
def segmentTexts (segment : String) : List String :=
  if IsCut segment then (normalizedSegment segment).map String.singleton else [segment]

/-- The words of the parts that are no separators. -/
def textParts (word : AsrWord) : List AsrWord :=
  textWords (splitChunkWord word "yue") (multiwordParts word "yue")

theorem textParts_texts (word : AsrWord) :
    (textParts word).map AsrWord.text =
      ((multiwordParts word "yue").filter (! ·.2)).map Prod.fst := by
  by_cases split : multiwordParts word "yue" = [(word.text, false)]
  · rw [textParts, splitChunkWord_unsplit split, split]
    rfl
  · rw [textParts, splitChunkWord_split split, textWords_timeParts, timeParts_texts]

theorem expandLanguagePart_yue {segment : String}
    (plain : ∀ c ∈ segment.toList, c.isAlphanum = false) :
    expandLanguagePart segment "yue" = (segmentTexts segment).map (·, false) := by
  have noLetters : segment.toList.all (fun c => ! c.isAlpha && ! c.isDigit) = true := by
    apply List.all_eq_true.mpr
    intro c member
    simpa [Char.isAlphanum] using plain c member
  have tokens : cantoneseCharTokens segment =
      (normalizedSegment segment).map String.singleton :=
    rfl
  rw [expandLanguagePart, shouldSplitCantoneseChars, noLetters, tokens, segmentTexts]
  by_cases ideograph : segment.toList.any isCjkIdeograph = true
  · by_cases several : 1 < (normalizedSegment segment).length
    · rw [if_pos (show IsCut segment from ⟨ideograph, several⟩)]
      simp [ideograph, several]
    · rw [if_neg (show ¬ IsCut segment from fun cut => several cut.2)]
      simp [ideograph, Nat.not_lt.mp several]
  · rw [if_neg (show ¬ IsCut segment from fun cut => ideograph cut.1)]
    simp [ideograph]

theorem expandParts_texts {parts : List Part}
    (plain : ∀ part ∈ parts, part.2 = false → ∀ c ∈ part.1.toList, c.isAlphanum = false) :
    ((expandParts parts "yue").filter (! ·.2)).map Prod.fst =
      ((parts.filter (! ·.2)).map Prod.fst).flatMap segmentTexts := by
  induction parts with
  | nil => rfl
  | cons part parts ih =>
      rcases part with ⟨text, isSeparator⟩
      rcases List.forall_mem_cons.mp plain with ⟨first, later⟩
      have step := ih later
      rw [expandParts] at step ⊢
      cases isSeparator with
      | true => simpa using step
      | false =>
          have texts : (((segmentTexts text).map (·, false)).filter fun part : Part =>
              ! part.2).map Prod.fst = segmentTexts text := by
            simp [List.filter_map, Function.comp_def]
          simp only [List.flatMap_cons, Bool.false_eq_true, if_false,
            expandLanguagePart_yue (first rfl), List.filter_append, List.map_append, texts, step]
          rfl

/-- Without ASCII letters and digits, the texts of a word are those of its segments. -/
theorem textParts_segments {word : AsrWord}
    (plain : ∀ c ∈ word.text.toList, c.isAlphanum = false) :
    (textParts word).map AsrWord.text = (segments word.text).flatMap segmentTexts := by
  have texts : ((splitParts "yue" 0 [] word.text.toList).filter (! ·.2)).map Prod.fst =
      segments word.text := by
    rw [splitParts_texts, modifyHead_nil_append, segments]
  have plainParts : ∀ part ∈ splitParts "yue" 0 [] word.text.toList, part.2 = false →
      ∀ c ∈ part.1.toList, c.isAlphanum = false := by
    intro part member isText c inside
    have isSegment : part.1 ∈ segments word.text := by
      rw [← texts]
      exact List.mem_map_of_mem (List.mem_filter.mpr ⟨member, by simp [isText]⟩)
    rcases List.mem_map.mp isSegment with ⟨piece, isPiece, isText⟩
    rw [← isText, String.toList_ofList] at inside
    exact plain c (mem_of_mem_splitOnP (List.mem_filter.mp isPiece).1 inside).1
  rw [textParts_texts, multiwordParts, expandParts_texts plainParts, texts]

/-- The parts of a word without ASCII letters and digits. A segment that is cut gives its
normalised characters, any other one its own text, which the later stage normalises. -/
theorem textParts_characters (word : AsrWord)
    (plain : ∀ c ∈ word.text.toList, c.isAlphanum = false) :
    (textParts word).flatMap (·.text.toList) =
        (segments word.text).flatMap (fun segment =>
          if IsCut segment then normalizedSegment segment else segment.toList) ∧
      (normalizeCantoneseWords (textParts word)).map AsrWord.text =
        (segments word.text).flatMap (fun segment =>
          if IsCut segment then
            (normalizedSegment segment).map fun c => normalizeCantonese (String.singleton c)
          else [normalizeCantonese segment]) := by
  have texts := textParts_segments plain
  constructor
  · rw [← List.flatMap_map, texts, List.flatMap_assoc]
    apply List.flatMap_congr
    intro segment _
    unfold segmentTexts
    split
    · simp [List.flatMap_map]
    · simp
  · rw [normalizeCantoneseWords, List.map_map]
    change (textParts word).map (normalizeCantonese ∘ AsrWord.text) = _
    rw [← List.map_map, texts, List.map_flatMap]
    apply List.flatMap_congr
    intro segment _
    unfold segmentTexts
    split
    · simp [Function.comp_def]
    · simp

end Parts

section Examples

/-- One character. -/
def loneCharacter : AsrWord := AsrWord.new "系" none none

theorem loneCharacter_plain : ∀ c ∈ loneCharacter.text.toList, c.isAlphanum = false := by
  intro c member
  rw [List.mem_singleton.mp member]
  rfl

theorem textParts_characters_lone :
    (∀ c ∈ loneCharacter.text.toList, c.isAlphanum = false) ∧
      (textParts loneCharacter).flatMap (·.text.toList) = ['系'] ∧
      (normalizeCantoneseWords (textParts loneCharacter)).map AsrWord.text = ["係"] := by
  have characters := textParts_characters loneCharacter loneCharacter_plain
  refine ⟨loneCharacter_plain, ?_, ?_⟩
  · rw [characters.1]
    decide
  · rw [characters.2]
    decide

/-- The character is not normalised when it is cut off. -/
theorem loneCharacter_raw :
    ¬ (∀ word : AsrWord, (∀ c ∈ word.text.toList, c.isAlphanum = false) →
      (textParts word).flatMap (·.text.toList) =
        (segments word.text).flatMap normalizedSegment) := by
  intro normalises
  have texts := textParts_segments loneCharacter_plain
  have same := normalises loneCharacter loneCharacter_plain
  rw [← List.flatMap_map, texts] at same
  revert same
  decide

end Examples

end Batchalign.Asr
