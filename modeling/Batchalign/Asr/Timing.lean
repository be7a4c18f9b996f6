import Batchalign.Asr.Documented
import Batchalign.Library.Intervals

/-!
# Timing survives the splitters

The three stages that split words cut the interval of a word at positions that grow with the
text. The pieces tile it, and words in order stay in order, also across the hyphen join, as
long as a word has both of its times or none.
-/

namespace Batchalign.Asr

open Intervals

section Timed

/-- The interval of a word that has both times. -/
def AsrWord.timing? (word : AsrWord) : Option (ℤ × ℤ) :=
  match word.startMs, word.endMs with
  | some start, some stop => some (start, stop)
  | _, _ => none

def timings (words : List AsrWord) : List (ℤ × ℤ) := words.filterMap AsrWord.timing?

/-- Both times or none. -/
def AsrWord.Paired (word : AsrWord) : Prop := word.startMs.isSome = word.endMs.isSome

instance (word : AsrWord) : Decidable word.Paired := inferInstanceAs (Decidable (_ = _))

def InI64 (value : ℤ) : Prop :=
  -9223372036854775808 ≤ value ∧ value < 9223372036854775808

instance (value : ℤ) : Decidable (InI64 value) := inferInstanceAs (Decidable (_ ∧ _))

/-- The times are 64-bit numbers, and so is the length of the interval times `chars`. -/
def AsrWord.Fits (word : AsrWord) (chars : ℕ) : Prop :=
  ∀ start stop, word.timing? = some (start, stop) →
    InI64 start ∧ InI64 stop ∧ (stop - start) * chars < 9223372036854775808

instance (word : AsrWord) (chars : ℕ) : Decidable (word.Fits chars) :=
  decidable_of_iff (∀ interval ∈ word.timing?, InI64 interval.1 ∧ InI64 interval.2 ∧
    (interval.2 - interval.1) * chars < 9223372036854775808) (by simp [AsrWord.Fits])

theorem timing?_eq_some_iff {word : AsrWord} {start stop : ℤ} :
    word.timing? = some (start, stop) ↔ word.startMs = some start ∧ word.endMs = some stop := by
  unfold AsrWord.timing?
  cases word.startMs <;> cases word.endMs <;> simp

@[simp]
theorem timings_append (left right : List AsrWord) :
    timings (left ++ right) = timings left ++ timings right :=
  List.filterMap_append

@[simp]
theorem timings_nil : timings [] = [] := rfl

theorem timings_cons_timed {word : AsrWord} {interval : ℤ × ℤ}
    (timed : word.timing? = some interval) (words : List AsrWord) :
    timings (word :: words) = interval :: timings words :=
  List.filterMap_cons_some timed

theorem timings_cons_untimed {word : AsrWord} (untimed : word.timing? = none)
    (words : List AsrWord) : timings (word :: words) = timings words :=
  List.filterMap_cons_none untimed

theorem mem_timings {words : List AsrWord} {word : AsrWord} {interval : ℤ × ℤ}
    (member : word ∈ words) (timed : word.timing? = some interval) : interval ∈ timings words :=
  List.mem_filterMap.mpr ⟨word, member, timed⟩

theorem timing?_of_paired {word : AsrWord} (paired : word.Paired) {start : ℤ}
    (isStart : word.startMs = some start) : ∃ stop, word.timing? = some (start, stop) := by
  cases isStop : word.endMs with
  | none =>
      rw [AsrWord.Paired, isStart, isStop] at paired
      cases paired
  | some stop => exact ⟨stop, timing?_eq_some_iff.mpr ⟨isStart, isStop⟩⟩

theorem mem_timings_cons {word : AsrWord} {words : List AsrWord} {interval : ℤ × ℤ}
    (member : interval ∈ timings words) : interval ∈ timings (word :: words) := by
  rcases List.mem_filterMap.mp member with ⟨other, inside, timed⟩
  exact mem_timings (List.mem_cons_of_mem _ inside) timed

end Timed

section Interpolation

theorem quotient_between {span : ℤ} {total consumed : ℕ} (forward : 0 ≤ span)
    (bound : consumed ≤ total) :
    0 ≤ span * consumed / total ∧ span * consumed / total ≤ span := by
  have product : 0 ≤ span * consumed := mul_nonneg forward (Int.natCast_nonneg _)
  refine ⟨Int.ediv_nonneg product (Int.natCast_nonneg _), ?_⟩
  rcases Nat.eq_zero_or_pos total with rfl | positive
  · rw [Nat.cast_zero, Int.ediv_zero]
    exact forward
  · apply Int.ediv_le_of_le_mul (by exact_mod_cast positive)
    exact mul_le_mul_of_nonneg_left (by exact_mod_cast bound) forward

/-- Without overflow the position is the exact one. -/
theorem interpolate_eq {start span : ℤ} {total consumed : ℕ} (lower : InI64 start)
    (upper : InI64 (start + span)) (forward : 0 ≤ span)
    (fits : span * consumed < 9223372036854775808) (bound : consumed ≤ total) :
    interpolate start span total consumed = start + span * consumed / total := by
  have product : 0 ≤ span * consumed := mul_nonneg forward (Int.natCast_nonneg _)
  rcases quotient_between forward bound with ⟨nonneg, quotient⟩
  unfold InI64 at lower upper
  rw [interpolate, wrapI64_of_fits (by omega) fits, Int.tdiv_eq_ediv_of_nonneg product,
    wrapI64_of_fits (by omega) (by omega)]

variable {start span : ℤ} {total : ℕ}

/-- What keeps the positions of a span from wrapping. -/
structure SpanFits (start span : ℤ) (total : ℕ) : Prop where
  lower : InI64 start
  upper : InI64 (start + span)
  forward : 0 ≤ span
  product : span * total < 9223372036854775808

theorem SpanFits.interpolate_eq (fits : SpanFits start span total) {consumed : ℕ}
    (bound : consumed ≤ total) :
    interpolate start span total consumed = start + span * consumed / total := by
  have smaller : span * consumed ≤ span * total :=
    mul_le_mul_of_nonneg_left (by exact_mod_cast bound) fits.forward
  exact Asr.interpolate_eq fits.lower fits.upper fits.forward (smaller.trans_lt fits.product) bound

theorem SpanFits.monotone (fits : SpanFits start span total) (i j : ℕ) (le : i ≤ j)
    (bound : j ≤ total) :
    interpolate start span total i ≤ interpolate start span total j := by
  rcases Nat.eq_zero_or_pos total with rfl | positive
  · obtain rfl := Nat.le_zero.mp bound
    rw [Nat.le_zero.mp le]
  · have product : span * i ≤ span * j :=
      mul_le_mul_of_nonneg_left (by exact_mod_cast le) fits.forward
    rw [fits.interpolate_eq (le.trans bound), fits.interpolate_eq bound]
    exact Int.add_le_add_left (Int.ediv_le_ediv (by exact_mod_cast positive) product) _

theorem SpanFits.interpolate_zero (fits : SpanFits start span total) :
    interpolate start span total 0 = start := by
  rw [fits.interpolate_eq (Nat.zero_le _)]
  simp

theorem SpanFits.interpolate_total (fits : SpanFits start span total) (positive : 0 < total) :
    interpolate start span total total = start + span := by
  rw [fits.interpolate_eq le_rfl, Int.mul_ediv_cancel _ (by exact_mod_cast positive.ne')]

/-- The pieces of a span at the lengths of a text tile it. -/
theorem SpanFits.tiles (fits : SpanFits start span total) (positive : 0 < total)
    {lengths : List ℕ} (sum : lengths.sum = total) :
    Tiles start (start + span) (cuts (interpolate start span total) 0 lengths) := by
  have tiled := cuts_tiles lengths 0 fits.monotone (by rw [Nat.zero_add, sum])
  rwa [fits.interpolate_zero, fits.interpolate_total positive] at tiled

end Interpolation

section Parts

/-- The lengths of the parts that are no separators. -/
def textLengths (parts : List Part) : List ℕ :=
  (parts.filter (! ·.2)).map fun part => charCount part.1

theorem textLengths_texts (parts : List Part) :
    textLengths (parts.filter (! ·.2)) = textLengths parts := by
  simp [textLengths, List.filter_filter]

theorem timings_timeParts (start span : ℤ) (total consumed : ℕ) (parts : List Part) :
    timings (timeParts (some (start, span)) total consumed parts) =
      cuts (interpolate start span total) consumed (textLengths parts) := by
  induction parts generalizing consumed with
  | nil => rfl
  | cons part parts ih =>
      rcases part with ⟨text, isSeparator⟩
      cases isSeparator with
      | true => exact ih consumed
      | false =>
          rw [timeParts, timings_cons_timed (timing?_eq_some_iff.mpr ⟨rfl, rfl⟩), ih]
          rfl

theorem timings_timeParts_none (total consumed : ℕ) (parts : List Part) :
    timings (timeParts none total consumed parts) = [] := by
  induction parts generalizing consumed with
  | nil => rfl
  | cons part parts ih =>
      rcases part with ⟨text, isSeparator⟩
      cases isSeparator with
      | true => exact ih consumed
      | false => exact ih (consumed + charCount text)

theorem timeParts_paired (span : Option (ℤ × ℤ)) (total consumed : ℕ) (parts : List Part) :
    ∀ word ∈ timeParts span total consumed parts, word.Paired := by
  induction parts generalizing consumed with
  | nil =>
      intro word member
      cases member
  | cons part parts ih =>
      rcases part with ⟨text, isSeparator⟩
      intro word member
      cases isSeparator with
      | true =>
          rcases List.mem_cons.mp member with rfl | later
          · rfl
          · exact ih _ word later
      | false =>
          rcases List.mem_cons.mp member with rfl | later
          · simp [AsrWord.Paired, AsrWord.new]
          · exact ih _ word later

theorem timings_timeExpandedParts (start span : ℤ) (total consumed : ℕ) (kind : WordKind)
    (parts : List String) :
    timings (timeExpandedParts (some (start, span)) total kind consumed parts) =
      cuts (interpolate start span (max total 1)) consumed (parts.map charCount) := by
  induction parts generalizing consumed with
  | nil => rfl
  | cons part parts ih =>
      rw [timeExpandedParts, timings_cons_timed (timing?_eq_some_iff.mpr ⟨rfl, rfl⟩), ih]
      rfl

theorem timings_timeExpandedParts_none (total consumed : ℕ) (kind : WordKind)
    (parts : List String) :
    timings (timeExpandedParts none total kind consumed parts) = [] := by
  induction parts generalizing consumed with
  | nil => rfl
  | cons part parts ih => exact ih (consumed + charCount part)

/-- The words of the parts that are no separators. -/
def textWords (words : List AsrWord) (parts : List Part) : List AsrWord :=
  ((words.zip parts).filter (! ·.2.2)).map Prod.fst

theorem textWords_timeParts (span : Option (ℤ × ℤ)) (total consumed : ℕ) (parts : List Part) :
    textWords (timeParts span total consumed parts) parts =
      timeParts span total consumed (parts.filter (! ·.2)) := by
  induction parts generalizing consumed with
  | nil => rfl
  | cons part parts ih =>
      rcases part with ⟨text, isSeparator⟩
      cases isSeparator with
      | true => exact ih consumed
      | false => exact congrArg (AsrWord.new text _ _ :: ·) (ih (consumed + charCount text))

theorem timeParts_timed (start span : ℤ) (total consumed : ℕ) {parts : List Part}
    (texts : ∀ part ∈ parts, part.2 = false) :
    ∀ word ∈ timeParts (some (start, span)) total consumed parts, word.timing?.isSome := by
  induction parts generalizing consumed with
  | nil =>
      intro word member
      cases member
  | cons part parts ih =>
      rcases part with ⟨text, isSeparator⟩
      have split := List.forall_mem_cons.mp texts
      cases split.1
      intro word member
      rcases List.mem_cons.mp member with rfl | later
      · rfl
      · exact ih _ split.2 word later

theorem timeExpandedParts_timed (start span : ℤ) (total consumed : ℕ) (kind : WordKind)
    (parts : List String) :
    ∀ word ∈ timeExpandedParts (some (start, span)) total kind consumed parts,
      word.timing?.isSome := by
  induction parts generalizing consumed with
  | nil =>
      intro word member
      cases member
  | cons part parts ih =>
      intro word member
      rcases List.mem_cons.mp member with rfl | later
      · rfl
      · exact ih _ word later

/-- An interval with an exact length fits when its word does. -/
theorem AsrWord.Fits.span {word : AsrWord} {start stop : ℤ} {total : ℕ} (fits : word.Fits total)
    (timed : word.timing? = some (start, stop)) (forward : start ≤ stop) (positive : 0 < total) :
    SpanFits start (wrapI64 (stop - start)) total ∧
      start + wrapI64 (stop - start) = stop := by
  rcases fits start stop timed with ⟨lower, upper, product⟩
  have longer : (stop - start) * 1 ≤ (stop - start) * total :=
    mul_le_mul_of_nonneg_left (by exact_mod_cast positive) (by omega)
  have exact_ : wrapI64 (stop - start) = stop - start := by
    apply wrapI64_of_fits
    · omega
    · omega
  rw [exact_]
  refine ⟨⟨lower, ?_, by omega, product⟩, by omega⟩
  have same : start + (stop - start) = stop := by omega
  rwa [same]

theorem timedSpan_of_timed {word : AsrWord} {start stop : ℤ}
    (timed : word.timing? = some (start, stop)) (total : ℕ) :
    timedSpan word.startMs word.endMs total =
      if start < stop ∧ 0 < total then some (start, wrapI64 (stop - start)) else none := by
  rcases timing?_eq_some_iff.mp timed with ⟨isStart, isStop⟩
  rw [isStart, isStop]
  rfl

theorem timedSpan_of_untimed {word : AsrWord} (untimed : word.timing? = none) (total : ℕ) :
    timedSpan word.startMs word.endMs total = none := by
  unfold AsrWord.timing? at untimed
  unfold timedSpan
  cases isStart : word.startMs with
  | none => rfl
  | some start =>
      cases isStop : word.endMs with
      | none => rfl
      | some stop =>
          rw [isStart, isStop] at untimed
          cases untimed

end Parts

section FilledParts

/-- A part that is no separator has characters. -/
def Filled (part : Part) : Prop := part.2 = false → 0 < charCount part.1

theorem charCount_ofList (chars : List Char) : charCount (String.ofList chars) = chars.length := by
  rw [charCount, String.toList_ofList]

theorem flushCurrent_filled (current : List Char) :
    ∀ part ∈ flushCurrent current, Filled part := by
  intro part member _
  unfold flushCurrent at member
  cases current with
  | nil => cases member
  | cons c current =>
      rw [List.mem_singleton.mp member, charCount_ofList]
      exact Nat.succ_pos _

theorem protectedPrefixLen_pos {chars : List Char} {lang : String} {length : ℕ}
    (found : protectedPrefixLen chars lang = some length) : 0 < length := by
  unfold protectedPrefixLen at found
  split at found
  · have ordinal := (Option.filter_eq_some_iff.mp found).1
    unfold ordinalPorLength at ordinal
    dsimp only at ordinal
    split at ordinal
    · cases ordinal
    · split at ordinal
      · cases ordinal
        omega
      · cases ordinal
        omega
      · cases ordinal
  · cases found

theorem splitParts_filled (lang : String) (skip : ℕ) (current chars : List Char) :
    ∀ part ∈ splitParts lang skip current chars, Filled part := by
  induction chars generalizing skip current with
  | nil =>
      cases skip <;> exact flushCurrent_filled current
  | cons c chars ih =>
      cases skip with
      | succ skip => exact ih skip current
      | zero =>
          intro part member
          unfold splitParts at member
          split at member
          · rename_i length found
            have isProtected : protectedPrefixLen (c :: chars) lang = some length := by
              split at found
              · exact found
              · cases found
            rcases List.mem_cons.mp member with rfl | later
            · intro _
              have positive := protectedPrefixLen_pos isProtected
              rw [charCount_ofList, List.length_take, List.length_cons]
              omega
            · exact ih _ _ part later
          · split at member
            · rcases List.mem_append.mp member with flushed | later
              · exact flushCurrent_filled current part flushed
              · exact ih _ _ part later
            · split at member
              · rcases List.mem_append.mp member with front | later
                · rcases List.mem_append.mp front with flushed | separator
                  · exact flushCurrent_filled current part flushed
                  · rcases List.mem_map.mp separator with ⟨text, _, rfl⟩
                    intro isText
                    cases isText
                · exact ih _ _ part later
              · exact ih _ _ part member

variable [AsrTables]

theorem expandParts_filled {parts : List Part} (filled : ∀ part ∈ parts, Filled part)
    (lang : String) : ∀ part ∈ expandParts parts lang, Filled part := by
  intro part member
  rcases List.mem_flatMap.mp member with ⟨whole, isWhole, inside⟩
  split at inside
  · rw [List.mem_singleton.mp inside]
    exact filled whole isWhole
  · rename_i isText
    have kept : Filled (whole.1, false) := fun _ => filled whole isWhole (by simpa using isText)
    unfold expandLanguagePart at inside
    dsimp only at inside
    split at inside
    · rw [List.mem_singleton.mp inside]
      exact kept
    · split at inside
      · rw [List.mem_singleton.mp inside]
        exact kept
      · rcases List.mem_map.mp inside with ⟨token, isToken, rfl⟩
        rcases List.mem_map.mp isToken with ⟨c, _, rfl⟩
        intro _
        simp [charCount]

end FilledParts

section Words

variable [AsrTables]

/-- The parts of a word in the first splitter. -/
def multiwordParts (word : AsrWord) (lang : String) : List Part :=
  expandParts (splitParts lang 0 [] word.text.toList) lang

/-- The characters the first splitter shares an interval by. -/
def multiwordChars (word : AsrWord) (lang : String) : ℕ :=
  if multiwordParts word lang = [(word.text, false)] then 0
  else totalTextChars (multiwordParts word lang)

theorem splitChunkWord_unsplit {word : AsrWord} {lang : String}
    (unsplit : multiwordParts word lang = [(word.text, false)]) :
    splitChunkWord word lang = [word] :=
  if_pos unsplit

theorem splitChunkWord_split {word : AsrWord} {lang : String}
    (split : multiwordParts word lang ≠ [(word.text, false)]) :
    splitChunkWord word lang =
      timeParts (timedSpan word.startMs word.endMs (totalTextChars (multiwordParts word lang)))
        (totalTextChars (multiwordParts word lang)) 0 (multiwordParts word lang) :=
  if_neg split

theorem splitChunkWord_tiles {word : AsrWord} {lang : String} {start stop : ℤ}
    (fits : word.Fits (multiwordChars word lang)) (timed : word.timing? = some (start, stop))
    (forward : start < stop) (split : multiwordParts word lang ≠ [(word.text, false)])
    (positive : 0 < totalTextChars (multiwordParts word lang)) :
    Tiles start stop (timings (splitChunkWord word lang)) := by
  rw [multiwordChars, if_neg split] at fits
  rcases fits.span timed forward.le positive with ⟨spanFits, total⟩
  rw [splitChunkWord_split split, timedSpan_of_timed timed, if_pos ⟨forward, positive⟩,
    timings_timeParts]
  have sum : (textLengths (multiwordParts word lang)).sum =
      totalTextChars (multiwordParts word lang) := rfl
  have tiles := spanFits.tiles positive sum
  rwa [total] at tiles

theorem splitChunkWord_refines {word : AsrWord} {lang : String}
    (fits : word.Fits (multiwordChars word lang))
    (forward : ∀ start stop, word.timing? = some (start, stop) → start ≤ stop) :
    Refines AsrWord.timing? word (splitChunkWord word lang) := by
  unfold Refines
  by_cases split : multiwordParts word lang = [(word.text, false)]
  · rw [splitChunkWord_unsplit split]
    split
    · rename_i start stop timed
      rw [List.filterMap_cons_some timed]
      exact Within.whole (forward start stop timed)
    · rename_i untimed
      rw [List.filterMap_cons_none untimed, List.filterMap_nil]
  · split
    · rename_i start stop timed
      by_cases shared : start < stop ∧ 0 < totalTextChars (multiwordParts word lang)
      · exact (splitChunkWord_tiles fits timed shared.1 split shared.2).within
      · have empty : timings (splitChunkWord word lang) = [] := by
          rw [splitChunkWord_split split, timedSpan_of_timed timed, if_neg shared,
            timings_timeParts_none]
        rw [timings] at empty
        rw [empty]
        exact Within.nil
    · rename_i untimed
      rw [splitChunkWord_split split, timedSpan_of_untimed untimed]
      exact timings_timeParts_none _ _ _

theorem splitChunkWord_paired {word : AsrWord} (paired : word.Paired) (lang : String) :
    ∀ piece ∈ splitChunkWord word lang, piece.Paired := by
  intro piece member
  by_cases split : multiwordParts word lang = [(word.text, false)]
  · rw [splitChunkWord_unsplit split] at member
    rwa [List.mem_singleton.mp member]
  · rw [splitChunkWord_split split] at member
    exact timeParts_paired _ _ _ _ piece member

/-- The characters the number splitter shares an interval by. -/
def expandedChars (word : AsrWord) (lang : String) : ℕ :=
  ((splitWhitespace (AsrTables.expandNumber word.text lang)).map charCount).sum

theorem expandNumbersInWord_kept {word : AsrWord} {lang : String}
    (kept : containsWhitespace (AsrTables.expandNumber word.text lang) = false) :
    expandNumbersInWord word lang =
      [{ word with text := AsrTables.expandNumber word.text lang }] := by
  rw [expandNumbersInWord, kept]
  rfl

theorem expandNumbersInWord_split {word : AsrWord} {lang : String}
    (split : containsWhitespace (AsrTables.expandNumber word.text lang) = true) :
    expandNumbersInWord word lang =
      timeExpandedParts (timedSpan word.startMs word.endMs (expandedChars word lang))
        (expandedChars word lang) word.kind 0
        (splitWhitespace (AsrTables.expandNumber word.text lang)) := by
  rw [expandNumbersInWord, split]
  rfl

theorem expandNumbersInWord_tiles {word : AsrWord} {lang : String} {start stop : ℤ}
    (fits : word.Fits (expandedChars word lang)) (timed : word.timing? = some (start, stop))
    (forward : start < stop)
    (split : containsWhitespace (AsrTables.expandNumber word.text lang) = true)
    (positive : 0 < expandedChars word lang) :
    Tiles start stop (timings (expandNumbersInWord word lang)) := by
  rcases fits.span timed forward.le positive with ⟨spanFits, total⟩
  rw [expandNumbersInWord_split split, timedSpan_of_timed timed, if_pos ⟨forward, positive⟩,
    timings_timeExpandedParts, Nat.max_eq_left positive]
  have sum : ((splitWhitespace (AsrTables.expandNumber word.text lang)).map charCount).sum =
      expandedChars word lang := rfl
  have tiles := spanFits.tiles positive sum
  rwa [total] at tiles

theorem expandNumbersInWord_refines {word : AsrWord} {lang : String}
    (fits : word.Fits (expandedChars word lang))
    (forward : ∀ start stop, word.timing? = some (start, stop) → start ≤ stop) :
    Refines AsrWord.timing? word (expandNumbersInWord word lang) := by
  unfold Refines
  cases split : containsWhitespace (AsrTables.expandNumber word.text lang) with
  | false =>
      rw [expandNumbersInWord_kept split]
      have same (text : String) : ({ word with text := text } : AsrWord).timing? = word.timing? :=
        rfl
      split
      · rename_i start stop timed
        rw [List.filterMap_cons_some ((same _).trans timed)]
        exact Within.whole (forward start stop timed)
      · rename_i untimed
        rw [List.filterMap_cons_none ((same _).trans untimed), List.filterMap_nil]
  | true =>
      split
      · rename_i start stop timed
        by_cases shared : start < stop ∧ 0 < expandedChars word lang
        · exact (expandNumbersInWord_tiles fits timed shared.1 split shared.2).within
        · have empty : timings (expandNumbersInWord word lang) = [] := by
            rw [expandNumbersInWord_split split, timedSpan_of_timed timed, if_neg shared,
              timings_timeExpandedParts_none]
          rw [timings] at empty
          rw [empty]
          exact Within.nil
      · rename_i untimed
        rw [expandNumbersInWord_split split, timedSpan_of_untimed untimed]
        exact timings_timeExpandedParts_none _ _ _ _

end Words

section Percent

/-- The characters the percent splitter shares an interval by. -/
def percentChars (word : AsrWord) : ℕ := ((percentDigits word.text).map charCount).getD 0

theorem charCount_pos {text : String} (filled : text.isEmpty = false) : 0 < charCount text := by
  apply List.length_pos_iff.mpr
  intro empty
  rw [String.toList_eq_nil_iff.mp empty] at filled
  cases filled

theorem percentDigits_length {text digits : String} (found : percentDigits text = some digits) :
    0 < charCount digits ∧ charCount digits ≤ charCount text := by
  rcases Option.filter_eq_some_iff.mp found with ⟨stripped, isDigits⟩
  rw [Bool.and_eq_true, Bool.not_eq_true'] at isDigits
  refine ⟨charCount_pos isDigits.1, ?_⟩
  unfold stripSuffix at stripped
  split at stripped
  · cases stripped
    simp [charCount]
  · cases stripped

/-- The digits and the percent word meet at one position inside the interval. -/
theorem percentTimes_timed {word : AsrWord} {digits : String} {start stop : ℤ}
    (found : percentDigits word.text = some digits) (fits : word.Fits (percentChars word))
    (timed : word.timing? = some (start, stop)) (forward : start < stop) :
    ∃ middle, start ≤ middle ∧ middle ≤ stop ∧
      percentTimes word digits = ((some start, some middle), (some middle, some stop)) := by
  rcases percentDigits_length found with ⟨positive, bound⟩
  rcases timing?_eq_some_iff.mp timed with ⟨isStart, isStop⟩
  rw [percentChars, found, Option.map_some, Option.getD_some] at fits
  rcases fits.span timed forward.le positive with ⟨spanFits, total⟩
  have bound : charCount digits ≤ max (charCount word.text) 1 := bound.trans (Nat.le_max_left _ _)
  have position := interpolate_eq spanFits.lower spanFits.upper spanFits.forward spanFits.product
    bound
  rcases quotient_between spanFits.forward bound with ⟨nonneg, quotient⟩
  refine ⟨interpolate start (wrapI64 (stop - start)) (max (charCount word.text) 1)
    (charCount digits), ?_, ?_, ?_⟩
  · rw [position]
    omega
  · rw [position]
    omega
  · unfold percentTimes
    rw [isStart, isStop]
    exact if_pos forward

variable [UnicodeCase]

theorem splitPercentSuffixWord_split {word : AsrWord} {digits : String}
    (found : percentDigits word.text = some digits) (lang : String) :
    splitPercentSuffixWord word lang =
      AsrWord.new digits (percentTimes word digits).1.1 (percentTimes word digits).1.2 ::
        (languagePercentWord lang).toList.map fun percentWord =>
          AsrWord.new percentWord (percentTimes word digits).2.1
            (percentTimes word digits).2.2 := by
  rw [splitPercentSuffixWord, found]

theorem splitPercentSuffixWord_refines {word : AsrWord} (fits : word.Fits (percentChars word))
    (forward : ∀ start stop, word.timing? = some (start, stop) → start ≤ stop) (lang : String) :
    Refines AsrWord.timing? word (splitPercentSuffixWord word lang) := by
  unfold Refines
  cases found : percentDigits word.text with
  | none =>
      have kept : splitPercentSuffixWord word lang = [word] := by
        rw [splitPercentSuffixWord, found]
      rw [kept]
      split
      · rename_i start stop timed
        rw [List.filterMap_cons_some timed]
        exact Within.whole (forward start stop timed)
      · rename_i untimed
        rw [List.filterMap_cons_none untimed, List.filterMap_nil]
  | some digits =>
      rw [splitPercentSuffixWord_split found]
      split
      · rename_i start stop timed
        rcases (forward start stop timed).lt_or_eq with shared | empty
        · rcases percentTimes_timed found fits timed shared with ⟨middle, lower, upper, times⟩
          rw [times]
          cases languagePercentWord lang with
          | none =>
              have first := Within.whole lower
              exact ⟨first.inOrder, first.above, fun interval member =>
                (first.below interval member).trans upper⟩
          | some percentWord =>
              have tiles : Tiles start stop [(start, middle), (middle, stop)] :=
                ⟨rfl, lower, rfl, upper, rfl⟩
              exact tiles.within
        · rcases timing?_eq_some_iff.mp timed with ⟨isStart, isStop⟩
          have times : percentTimes word digits =
              ((some start, some stop), (none, none)) := by
            unfold percentTimes
            rw [isStart, isStop]
            exact if_neg empty.not_lt
          rw [times]
          cases languagePercentWord lang with
          | none => exact Within.whole empty.le
          | some percentWord => exact Within.whole empty.le
      · rename_i untimed
        have times : percentTimes word digits = ((word.startMs, word.endMs), (none, none)) := by
          unfold AsrWord.timing? at untimed
          unfold percentTimes
          split
          · rename_i isStart isStop
            rw [isStart, isStop] at untimed
            cases untimed
          · rfl
        have first : (AsrWord.new digits word.startMs word.endMs).timing? = none := untimed
        rw [times, List.filterMap_cons_none first]
        cases languagePercentWord lang with
        | none => rfl
        | some percentWord => rfl

end Percent

section Joining

/-- The words made so far are in order and before the words to come, and so is the start of the
last one, which a join can give a new end. -/
structure Joinable (result rest : List AsrWord) : Prop where
  inOrder : InOrder (timings result)
  before : ∀ earlier ∈ timings result, ∀ later ∈ timings rest, earlier.2 ≤ later.1
  last : ∀ init prev start, result = init ++ [prev] → prev.startMs = some start →
    (∀ earlier ∈ timings init, earlier.2 ≤ start) ∧ ∀ later ∈ timings rest, start ≤ later.1

/-- A word that keeps its start and takes the end of the next one fits in between. -/
theorem Joinable.join {init rest : List AsrWord} {prev word joined : AsrWord}
    (joinable : Joinable (init ++ [prev]) (word :: rest)) (paired : word.Paired)
    (inOrder : InOrder (timings (word :: rest))) (sameStart : joined.startMs = prev.startMs)
    (newEnd : joined.endMs = word.endMs) : Joinable (init ++ [joined]) rest := by
  have parts := inOrder_append_iff.mp (timings_append _ _ ▸ joinable.inOrder)
  have earlierBefore : ∀ earlier ∈ timings init, ∀ later ∈ timings rest, earlier.2 ≤ later.1 := by
    intro earlier first later after
    apply joinable.before earlier _ later (mem_timings_cons after)
    rw [timings_append]
    exact List.mem_append_left _ first
  have last : ∀ init' prev' start, init ++ [joined] = init' ++ [prev'] →
      prev'.startMs = some start → (∀ earlier ∈ timings init', earlier.2 ≤ start) ∧
        ∀ later ∈ timings rest, start ≤ later.1 := by
    intro init' prev' start isLast isStart
    rcases List.append_inj' isLast rfl with ⟨rfl, single⟩
    cases single
    rcases joinable.last init prev start rfl (sameStart ▸ isStart) with ⟨afterInit, beforeRest⟩
    exact ⟨afterInit, fun later after => beforeRest later (mem_timings_cons after)⟩
  cases timed : joined.timing? with
  | none =>
      have same : timings (init ++ [joined]) = timings init := by
        rw [timings_append, timings_cons_untimed timed, timings_nil, List.append_nil]
      rw [← same] at earlierBefore
      exact ⟨same ▸ parts.1, earlierBefore, last⟩
  | some interval =>
      rcases interval with ⟨start, stop⟩
      rcases timing?_eq_some_iff.mp timed with ⟨isStart, isStop⟩
      rcases joinable.last init prev start rfl (sameStart ▸ isStart) with ⟨afterInit, beforeRest⟩
      have began : ∃ began, word.timing? = some (began, stop) := by
        cases isBegan : word.startMs with
        | none =>
            rw [AsrWord.Paired, isBegan, ← newEnd, isStop] at paired
            cases paired
        | some began => exact ⟨began, timing?_eq_some_iff.mpr ⟨isBegan, newEnd ▸ isStop⟩⟩
      rcases began with ⟨began, timedWord⟩
      rw [timings_cons_timed timedWord] at beforeRest inOrder
      have through : start ≤ stop :=
        (beforeRest (began, stop) List.mem_cons_self).trans
          (inOrder.forward (began, stop) List.mem_cons_self)
      have following := (List.pairwise_cons.mp inOrder.pairwise).1
      have same : timings (init ++ [joined]) = timings init ++ [(start, stop)] := by
        rw [timings_append, timings_cons_timed timed, timings_nil]
      refine ⟨?_, ?_, last⟩
      · rw [same]
        refine inOrder_append_iff.mpr ⟨parts.1, inOrder_singleton through, ?_⟩
        intro earlier first later after
        rw [List.mem_singleton.mp after]
        exact afterInit earlier first
      · intro earlier first later after
        rw [same] at first
        rcases List.mem_append.mp first with inside | here
        · exact earlierBefore earlier inside later after
        · rw [List.mem_singleton.mp here]
          exact following later after

/-- The pieces of the next word go behind the words made so far. -/
theorem Joinable.append {result rest pieces : List AsrWord} {word : AsrWord}
    (joinable : Joinable result (word :: rest))
    (inOrder : InOrder (timings (word :: rest)))
    (refines : Refines AsrWord.timing? word pieces)
    (paired : ∀ piece ∈ pieces, piece.Paired) : Joinable (result ++ pieces) rest := by
  have across : ∀ earlier ∈ timings result, ∀ piece ∈ timings pieces, earlier.2 ≤ piece.1 := by
    intro earlier first piece member
    rcases refines.inside member with ⟨whole, timed, starts, _⟩
    exact (joinable.before earlier first whole (mem_timings List.mem_cons_self timed)).trans starts
  have following : ∀ piece ∈ timings pieces, ∀ later ∈ timings rest, piece.2 ≤ later.1 := by
    intro piece member later after
    rcases refines.inside member with ⟨whole, timed, _, stops⟩
    rw [timings_cons_timed timed] at inOrder
    exact stops.trans ((List.pairwise_cons.mp inOrder.pairwise).1 later after)
  refine ⟨?_, ?_, ?_⟩
  · rw [timings_append]
    exact inOrder_append_iff.mpr ⟨joinable.inOrder, refines.inOrder, across⟩
  · intro earlier first later after
    rw [timings_append] at first
    rcases List.mem_append.mp first with before | here
    · exact joinable.before earlier before later (mem_timings_cons after)
    · exact following earlier here later after
  · intro init prev start isLast isStart
    rcases List.eq_nil_or_concat' pieces with rfl | ⟨front, piece, rfl⟩
    · rw [List.append_nil] at isLast
      rcases joinable.last init prev start isLast isStart with ⟨afterInit, beforeRest⟩
      exact ⟨afterInit, fun later after => beforeRest later (mem_timings_cons after)⟩
    · rw [← List.append_assoc] at isLast
      rcases List.append_inj' isLast rfl with ⟨rfl, single⟩
      cases single
      rcases timing?_of_paired (paired prev (by simp)) isStart with ⟨stop, timed⟩
      have same : timings (front ++ [prev]) = timings front ++ [(start, stop)] := by
        rw [timings_append, timings_cons_timed timed, timings_nil]
      have ordered : InOrder (timings (front ++ [prev])) := refines.inOrder
      have parts := inOrder_append_iff.mp (same ▸ ordered)
      have here : (start, stop) ∈ timings (front ++ [prev]) := by
        rw [same]
        exact List.mem_append_right _ (List.mem_singleton_self _)
      constructor
      · intro earlier first
        rw [timings_append] at first
        rcases List.mem_append.mp first with before | inside
        · exact across earlier before (start, stop) here
        · exact parts.2.2 earlier inside (start, stop) (List.mem_singleton_self _)
      · intro later after
        exact (parts.2.1.forward (start, stop) (List.mem_singleton_self _)).trans
          (following (start, stop) here later after)

variable [AsrTables]

/-- A hyphen in front joins a word to the one before it; otherwise it is split and appended. -/
theorem joinHyphen_cases (result : List AsrWord) (word : AsrWord) (lang : String) :
    (∃ init prev, result = init ++ [prev] ∧ word.text.toList.head? = some '-' ∧
      joinHyphen result word lang =
        init ++ [{ prev with text := prev.text ++ word.text, endMs := word.endMs }]) ∨
      ((result = [] ∨ word.text.toList.head? ≠ some '-') ∧
        joinHyphen result word lang = result ++ splitChunkWord word lang) := by
  unfold joinHyphen
  rcases List.eq_nil_or_concat' result with rfl | ⟨init, prev, rfl⟩
  · exact Or.inr ⟨Or.inl rfl, rfl⟩
  · rw [List.getLast?_concat]
    by_cases hyphen : word.text.toList.head? = some '-'
    · exact Or.inl ⟨init, prev, rfl, hyphen, by simp [hyphen]⟩
    · exact Or.inr ⟨Or.inr hyphen, if_neg hyphen⟩

/-- Every word that is split on the way fits. -/
def SplitsFit (lang : String) : List AsrWord → List AsrWord → Prop
  | _, [] => True
  | result, word :: words =>
      (result = [] ∨ word.text.toList.head? ≠ some '-' → word.Fits (multiwordChars word lang)) ∧
        SplitsFit lang (joinHyphen result word lang) words

/-- The first splitter keeps words in order. -/
theorem joinHyphens_joinable {lang : String} {result words : List AsrWord}
    (joinable : Joinable result words) (inOrder : InOrder (timings words))
    (paired : ∀ word ∈ words, word.Paired) (fits : SplitsFit lang result words) :
    Joinable (words.foldl (fun result word => joinHyphen result word lang) result) [] := by
  induction words generalizing result with
  | nil => exact joinable
  | cons word words ih =>
      have pairedParts := List.forall_mem_cons.mp paired
      have rest : InOrder (timings words) := by
        cases timed : word.timing? with
        | none => rwa [timings_cons_untimed timed] at inOrder
        | some interval =>
            rw [timings_cons_timed timed] at inOrder
            exact ⟨(List.forall_mem_cons.mp inOrder.forward).2,
              (List.pairwise_cons.mp inOrder.pairwise).2⟩
      refine ih ?_ rest pairedParts.2 fits.2
      change Joinable (joinHyphen result word lang) words
      rcases joinHyphen_cases result word lang with
        ⟨init, prev, rfl, _, joins⟩ | ⟨splits, appends⟩
      · rw [joins]
        exact joinable.join pairedParts.1 inOrder rfl rfl
      · rw [appends]
        apply joinable.append inOrder _ (splitChunkWord_paired pairedParts.1 lang)
        apply splitChunkWord_refines (fits.1 splits)
        intro start stop timed
        exact inOrder.forward (start, stop) (mem_timings List.mem_cons_self timed)

instance SplitsFit.decidable (lang : String) :
    ∀ result words, Decidable (SplitsFit lang result words)
  | _, [] => inferInstanceAs (Decidable True)
  | result, word :: words =>
      @instDecidableAnd _ _ inferInstance
        (SplitsFit.decidable lang (joinHyphen result word lang) words)

theorem splitMultiwordTokens_inOrder {lang : String} {words : List AsrWord}
    (inOrder : InOrder (timings words)) (paired : ∀ word ∈ words, word.Paired)
    (fits : SplitsFit lang [] words) : InOrder (timings (splitMultiwordTokens words lang)) := by
  have joinable : Joinable [] words := by
    refine ⟨inOrder_nil, ?_, ?_⟩
    · intro earlier first
      cases first
    · intro init prev start isLast
      cases init <;> cases isLast
  exact (joinHyphens_joinable joinable inOrder paired fits).inOrder

end Joining

section Pieces

/-- The pieces of a timed word are timed, and if there are any, they tile its interval. -/
def PiecesTile (word : AsrWord) (pieces : List AsrWord) : Prop :=
  ∀ start stop, word.timing? = some (start, stop) → start < stop →
    (∀ piece ∈ pieces, piece.timing?.isSome) ∧ (pieces ≠ [] → Tiles start stop (timings pieces))

theorem splitWhitespace_filled {text part : String} (member : part ∈ splitWhitespace text) :
    0 < charCount part := by
  rcases List.mem_map.mp member with ⟨chars, inside, rfl⟩
  have filled := (List.mem_filter.mp inside).2
  rw [charCount_ofList]
  apply List.length_pos_iff.mpr
  rintro rfl
  cases filled

theorem splitsTile_percent [UnicodeCase] {word : AsrWord} {lang digits percentWord : String}
    (found : percentDigits word.text = some digits)
    (mapped : languagePercentWord lang = some percentWord) (fits : word.Fits (percentChars word)) :
    PiecesTile word (splitPercentSuffixWords [word] lang) := by
  intro start stop timed forward
  rcases percentTimes_timed found fits timed forward with ⟨middle, lower, upper, times⟩
  have pieces : splitPercentSuffixWords [word] lang =
      [AsrWord.new digits (some start) (some middle),
        AsrWord.new percentWord (some middle) (some stop)] := by
    unfold splitPercentSuffixWords
    rw [List.flatMap_singleton, splitPercentSuffixWord_split found, mapped, times]
    rfl
  rw [pieces]
  constructor
  · intro piece member
    rcases List.mem_pair.mp member with rfl | rfl <;> rfl
  · intro _
    exact ⟨rfl, lower, rfl, upper, rfl⟩

variable [AsrTables]

theorem splitsTile_multiword {word : AsrWord} {lang : String}
    (fits : word.Fits (multiwordChars word lang))
    (split : multiwordParts word lang ≠ [(word.text, false)]) :
    PiecesTile word
      (textWords (splitMultiwordTokens [word] lang) (multiwordParts word lang)) := by
  intro start stop timed forward
  have single : splitMultiwordTokens [word] lang = splitChunkWord word lang := rfl
  rw [single, splitChunkWord_split split, timedSpan_of_timed timed, textWords_timeParts]
  by_cases positive : 0 < totalTextChars (multiwordParts word lang)
  · rw [if_pos ⟨forward, positive⟩]
    have texts : ∀ part ∈ (multiwordParts word lang).filter (! ·.2), part.2 = false := by
      intro part member
      simpa using (List.mem_filter.mp member).2
    refine ⟨timeParts_timed _ _ _ _ texts, fun _ => ?_⟩
    have tiles := splitChunkWord_tiles fits timed forward split positive
    rw [splitChunkWord_split split, timedSpan_of_timed timed, if_pos ⟨forward, positive⟩,
      timings_timeParts] at tiles
    rwa [timings_timeParts, textLengths_texts]
  · have none_ : (multiwordParts word lang).filter (! ·.2) = [] := by
      apply List.filter_eq_nil_iff.mpr
      intro part member isText
      have filled := expandParts_filled (splitParts_filled lang 0 [] word.text.toList) lang part
        member (by simpa using isText)
      have inside : charCount part.1 ∈
          ((multiwordParts word lang).filter (! ·.2)).map fun part => charCount part.1 :=
        List.mem_map.mpr ⟨part, List.mem_filter.mpr ⟨member, isText⟩, rfl⟩
      have bound := List.le_sum_of_mem inside
      unfold totalTextChars at positive
      omega
    rw [none_]
    refine ⟨?_, fun filled => absurd rfl filled⟩
    intro piece member
    cases member

theorem splitsTile_numbers {word : AsrWord} {lang : String}
    (fits : word.Fits (expandedChars word lang))
    (split : containsWhitespace (AsrTables.expandNumber word.text lang) = true) :
    PiecesTile word (expandNumbersInWords [word] lang) := by
  intro start stop timed forward
  have single : expandNumbersInWords [word] lang = expandNumbersInWord word lang :=
    List.flatMap_singleton _ _
  rw [single]
  by_cases positive : 0 < expandedChars word lang
  · refine ⟨?_, fun _ => expandNumbersInWord_tiles fits timed forward split positive⟩
    rw [expandNumbersInWord_split split, timedSpan_of_timed timed, if_pos ⟨forward, positive⟩]
    exact timeExpandedParts_timed _ _ _ _ _ _
  · have none_ : splitWhitespace (AsrTables.expandNumber word.text lang) = [] := by
      apply List.eq_nil_iff_forall_not_mem.mpr
      intro part member
      have filled := splitWhitespace_filled member
      have bound := List.le_sum_of_mem (List.mem_map_of_mem (f := charCount) member)
      unfold expandedChars at positive
      omega
    rw [expandNumbersInWord_split split, none_]
    refine ⟨?_, fun filled => absurd rfl filled⟩
    intro piece member
    cases member

end Pieces

section Splitters

variable [AsrTables] [UnicodeCase]

/-- The three splitters in turn. -/
def splitWords (words : List AsrWord) (lang : String) : List AsrWord :=
  expandNumbersInWords (splitPercentSuffixWords (splitMultiwordTokens words lang) lang) lang

/-- Timed words with a length, one after the other, and no product that overflows. -/
structure OrderedInput (words : List AsrWord) (lang : String) : Prop where
  forward : ∀ interval ∈ timings words, interval.1 < interval.2
  chain : (timings words).IsChain fun earlier later => earlier.2 ≤ later.1
  multiword : SplitsFit lang [] words
  percent : ∀ word ∈ splitMultiwordTokens words lang, word.Fits (percentChars word)
  numbers : ∀ word ∈ splitPercentSuffixWords (splitMultiwordTokens words lang) lang,
    word.Fits (expandedChars word lang)

theorem splitWords_inOrder {words : List AsrWord} {lang : String}
    (input : OrderedInput words lang) (paired : ∀ word ∈ words, word.Paired) :
    InOrder (timings (splitWords words lang)) := by
  have ordered : InOrder (timings words) :=
    inOrder_of_isChain (fun interval member => (input.forward interval member).le) input.chain
  have first := splitMultiwordTokens_inOrder ordered paired input.multiword
  have forwards {words : List AsrWord} (ordered : InOrder (timings words)) {word : AsrWord}
      (member : word ∈ words) (start stop : ℤ) (timed : word.timing? = some (start, stop)) :
      start ≤ stop := ordered.forward (start, stop) (mem_timings member timed)
  have second : InOrder
      (timings (splitPercentSuffixWords (splitMultiwordTokens words lang) lang)) :=
    inOrder_refine (fun word member => splitPercentSuffixWord_refines (input.percent word member)
      (forwards first member) lang) first
  exact inOrder_refine (fun word member => expandNumbersInWord_refines (input.numbers word member)
    (forwards second member)) second

/-- Each splitter cuts a word that it splits without a gap and without an overlap. -/
structure SplitsTile (word : AsrWord) (lang : String) : Prop where
  multiword : word.Fits (multiwordChars word lang) →
    multiwordParts word lang ≠ [(word.text, false)] →
      PiecesTile word (textWords (splitMultiwordTokens [word] lang) (multiwordParts word lang))
  percent : ∀ digits percentWord, percentDigits word.text = some digits →
    languagePercentWord lang = some percentWord → word.Fits (percentChars word) →
      PiecesTile word (splitPercentSuffixWords [word] lang)
  numbers : word.Fits (expandedChars word lang) →
    containsWhitespace (AsrTables.expandNumber word.text lang) →
      PiecesTile word (expandNumbersInWords [word] lang)

/-- Splitting keeps timed words in order when no word has only one of its times, and each
splitter cuts a timed word into pieces that tile its interval. -/
theorem splitWords_keeps_timing (lang : String) :
    (∀ words, OrderedInput words lang → (∀ word ∈ words, word.Paired) →
      InOrder (timings (splitWords words lang))) ∧
      ∀ word : AsrWord, SplitsTile word lang := by
  constructor
  · intro words input paired
    exact splitWords_inOrder input paired
  · intro word
    refine ⟨splitsTile_multiword, ?_, splitsTile_numbers⟩
    intro digits percentWord found mapped fits
    exact splitsTile_percent found mapped fits

end Splitters

section Samples

open Documented Chat.Documented

/-- A word without an end takes one that lies before its start. -/
theorem hyphen_reverses : ¬ ∀ words : List AsrWord, OrderedInput words "eng" →
    InOrder (timings (splitWords words "eng")) := by
  intro claim
  have input : OrderedInput [AsrWord.new "x" (some 500) none, AsrWord.new "-y" (some 0) (some 100)]
      "eng" :=
    ⟨by decide +kernel, by decide +kernel, by decide +kernel, by decide +kernel,
      by decide +kernel⟩
  have reversed := (claim _ input).forward (500, 100) (by decide +kernel)
  omega

theorem splitWords_keeps_timing_sample :
    InOrder (timings (splitWords [AsrWord.new "well, so" (some 0) (some 700),
      AsrWord.new "-long" (some 700) (some 1000), AsrWord.new "80%" (some 1000) (some 1300),
      AsrWord.new "100" (some 1300) (some 2300)] "eng")) ∧
      Tiles 1300 2300
        (timings (expandNumbersInWords [AsrWord.new "100" (some 1300) (some 2300)] "eng")) := by
  constructor
  · exact (splitWords_keeps_timing "eng").1 _ ⟨by decide +kernel, by decide +kernel,
      by decide +kernel, by decide +kernel, by decide +kernel⟩ (by decide +kernel)
  · exact (((splitWords_keeps_timing "eng").2 (AsrWord.new "100" (some 1300) (some 2300))).numbers
      (by decide +kernel) (by decide +kernel) 1300 2300 rfl (by omega)).2 (by decide +kernel)

end Samples

end Batchalign.Asr
