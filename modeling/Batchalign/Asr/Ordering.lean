import Batchalign.Asr.Timing

/-!
# The times of an utterance

The elements of a monologue have times in order. Rounding keeps their order, the splitters cut
them into pieces in order, and every later stage only takes words out or cuts the list, so the
words of an utterance have times in order that an unsigned cast does not change.
-/

namespace Batchalign.Asr

open Intervals

section Rounding

/-- What is used of the rounding of floating point. -/
structure RoundsInOrder [Float64] : Prop where
  monotone : Monotone Float64.round
  zero : Float64.round 0 = 0

theorem roundHalfAway_monotone : Monotone roundHalfAway := by
  intro left right le
  unfold roundHalfAway
  split
  · rename_i nonneg
    rw [if_pos (nonneg.trans le)]
    exact Int.floor_mono (by linarith)
  · rename_i negative
    split
    · rename_i nonneg
      have below : ⌈left - 1 / 2⌉ ≤ 0 := Int.ceil_le.mpr (by push_cast; linarith)
      have above : 0 ≤ ⌊right + 1 / 2⌋ := Int.floor_nonneg.mpr (by linarith)
      exact below.trans above
    · exact Int.ceil_mono (by linarith)

theorem saturateI64_monotone : Monotone saturateI64 := by
  intro left right le
  unfold saturateI64
  omega

variable [Float64]

theorem toMillis_monotone (rounds : RoundsInOrder) : Monotone toMillis := by
  intro left right le
  apply saturateI64_monotone
  apply roundHalfAway_monotone
  apply rounds.monotone
  linarith

theorem toMillis_bounds (rounds : RoundsInOrder) {seconds : ℚ} (nonneg : 0 ≤ seconds) :
    0 ≤ toMillis seconds ∧ toMillis seconds ≤ 9223372036854775807 := by
  have zero : toMillis 0 = 0 := by
    rw [toMillis, zero_mul, rounds.zero]
    decide +kernel
  refine ⟨zero ▸ toMillis_monotone rounds nonneg, ?_⟩
  unfold toMillis saturateI64
  omega

end Rounding

section Bounds

/-- The times that both casts keep. -/
def IsTime (value : ℤ) : Prop := 0 ≤ value ∧ value ≤ 9223372036854775807

def AsrWord.Bounded (word : AsrWord) : Prop :=
  (∀ start ∈ word.startMs, IsTime start) ∧ ∀ stop ∈ word.endMs, IsTime stop

/-- The times are in order and stay what they are as unsigned numbers. -/
def Placed (words : List AsrWord) : Prop := Within 0 9223372036854775807 (timings words)

theorem placed_of_bounded {words : List AsrWord} (inOrder : InOrder (timings words))
    (bounded : ∀ word ∈ words, word.Bounded) : Placed words := by
  have ends : ∀ interval ∈ timings words, IsTime interval.1 ∧ IsTime interval.2 := by
    rintro ⟨start, stop⟩ member
    rcases List.mem_filterMap.mp member with ⟨word, isWord, timed⟩
    rcases timing?_eq_some_iff.mp timed with ⟨isStart, isStop⟩
    exact ⟨(bounded word isWord).1 start isStart, (bounded word isWord).2 stop isStop⟩
  refine ⟨inOrder, ?_, ?_⟩
  · intro interval member
    exact (ends interval member).1.1
  · intro interval member
    exact (ends interval member).2.2

/-- The word has the times of the other one. -/
def SameTimes (word other : AsrWord) : Prop :=
  word.startMs = other.startMs ∧ word.endMs = other.endMs

theorem SameTimes.timing? {word other : AsrWord} (same : SameTimes word other) :
    word.timing? = other.timing? := by
  rw [AsrWord.timing?, same.1, same.2]
  rfl

theorem filterMap_cons_toList {α β : Type} (f : α → Option β) (x : α) (xs : List α) :
    (x :: xs).filterMap f = (f x).toList ++ xs.filterMap f := by
  rw [List.filterMap_cons]
  cases f x <;> rfl

theorem timings_cons (word : AsrWord) (words : List AsrWord) :
    timings (word :: words) = word.timing?.toList ++ timings words :=
  filterMap_cons_toList AsrWord.timing? word words

theorem timings_map {change : AsrWord → AsrWord} (same : ∀ word, SameTimes (change word) word)
    (words : List AsrWord) : timings (words.map change) = timings words := by
  rw [timings, List.filterMap_map]
  apply List.filterMap_congr
  intro word _
  exact (same word).timing?

/-- A stage that takes words out, and keeps the times of the others. -/
theorem timings_filterMap_sublist {change : AsrWord → Option AsrWord}
    (same : ∀ word kept, change word = some kept → SameTimes kept word) (words : List AsrWord) :
    (timings (words.filterMap change)).Sublist (timings words) := by
  induction words with
  | nil => exact List.Sublist.refl _
  | cons word words ih =>
      rw [timings_cons]
      cases changed : change word with
      | none =>
          rw [List.filterMap_cons_none changed]
          exact ih.trans (List.sublist_append_right _ _)
      | some kept =>
          rw [List.filterMap_cons_some changed, timings_cons, (same word kept changed).timing?]
          exact List.Sublist.append (List.Sublist.refl _) ih

theorem timings_sublist {shorter longer : List AsrWord} (kept : shorter.Sublist longer) :
    (timings shorter).Sublist (timings longer) := kept.filterMap _

end Bounds

section Elements

/-- The times of an element that has both. -/
def AsrElement.timing? (element : AsrElement) : Option (ℚ × ℚ) :=
  match element.ts, element.endTs with
  | some start, some stop => some (start, stop)
  | _, _ => none

/-- The times of the timed elements are not negative, ordered and do not overlap. -/
structure OrderedElements (elements : List AsrElement) : Prop where
  nonneg : ∀ interval ∈ elements.filterMap AsrElement.timing?, 0 ≤ interval.1
  forward : ∀ interval ∈ elements.filterMap AsrElement.timing?, interval.1 < interval.2
  pairwise : (elements.filterMap AsrElement.timing?).Pairwise
    fun earlier later => earlier.2 ≤ later.1

theorem OrderedElements.sublist {shorter longer : List AsrElement}
    (ordered : OrderedElements longer)
    (kept : (shorter.filterMap AsrElement.timing?).Sublist
      (longer.filterMap AsrElement.timing?)) : OrderedElements shorter where
  nonneg interval member := ordered.nonneg interval (kept.subset member)
  forward interval member := ordered.forward interval (kept.subset member)
  pairwise := ordered.pairwise.sublist kept

theorem stripEnglishTitlePeriodsOnElements_timings [UnicodeCase] (elements : List AsrElement)
    (lang : String) :
    (stripEnglishTitlePeriodsOnElements elements lang).filterMap AsrElement.timing? =
      elements.filterMap AsrElement.timing? := by
  unfold stripEnglishTitlePeriodsOnElements
  split
  · rfl
  · rw [List.filterMap_map]
    rfl

/-- A merged element has the times of its first part. -/
theorem mergeCompounds_timings [AsrTables] (elements : List AsrElement) :
    ((mergeCompounds elements).filterMap AsrElement.timing?).Sublist
      (elements.filterMap AsrElement.timing?) := by
  induction elements using mergeCompounds.induct with
  | case1 first second elements compound ih =>
      rw [mergeCompounds, if_pos compound, filterMap_cons_toList, filterMap_cons_toList,
        filterMap_cons_toList]
      exact List.Sublist.append (List.Sublist.refl _)
        (ih.trans (List.sublist_append_right _ _))
  | case2 first second elements separate ih =>
      rw [mergeCompounds, if_neg separate, filterMap_cons_toList,
        filterMap_cons_toList _ first]
      exact List.Sublist.append (List.Sublist.refl _) ih
  | case3 elements short =>
      rw [mergeCompounds.eq_def]
      split
      · exact absurd rfl (short _ _ _)
      · exact List.Sublist.refl _

variable [Float64]

theorem normalizedTimingRange_some {ts endTs : Option ℚ} {start stop : ℤ}
    (range : normalizedTimingRange ts endTs = (some start, some stop)) :
    ∃ first last, ts = some first ∧ endTs = some last ∧ toMillis first = start ∧
      toMillis last = stop ∧ start < stop := by
  unfold normalizedTimingRange at range
  split at range
  · rename_i first last
    split at range
    · cases range
    · rename_i forward
      cases range
      exact ⟨first, last, rfl, rfl, rfl, rfl, not_le.mp forward⟩
  · cases range

theorem normalizedTimingRange_cases (ts endTs : Option ℚ) :
    normalizedTimingRange ts endTs = (none, none) ∨
      ∃ start stop, normalizedTimingRange ts endTs = (some start, some stop) := by
  unfold normalizedTimingRange
  split
  · split
    · exact Or.inl rfl
    · exact Or.inr ⟨_, _, rfl⟩
  · exact Or.inl rfl

/-- A word with times has those of its element, rounded; it has both or none. -/
theorem extractTimedWord_times {element : AsrElement} {word : AsrWord}
    (extracted : extractTimedWord element = some word) :
    (word.startMs = none ∧ word.endMs = none) ∨
      ∃ start stop, element.timing? = some (start, stop) ∧
        word.startMs = some (toMillis start) ∧ word.endMs = some (toMillis stop) ∧
        toMillis start < toMillis stop := by
  unfold extractTimedWord at extracted
  dsimp only at extracted
  split at extracted
  · cases extracted
  · cases extracted
    rcases normalizedTimingRange_cases element.ts element.endTs with untimed | ⟨start, stop, timed⟩
    · left
      rw [untimed]
      exact ⟨rfl, rfl⟩
    · right
      rcases normalizedTimingRange_some timed with ⟨first, last, isFirst, isLast, rfl, rfl, forward⟩
      rw [timed]
      refine ⟨first, last, ?_, rfl, rfl, forward⟩
      rw [AsrElement.timing?, isFirst, isLast]

/-- The words extracted from elements in order: every word has both times or none. -/
structure Extracted (words : List AsrWord) : Prop where
  inOrder : InOrder (timings words)
  bounded : ∀ word ∈ words, word.Bounded
  paired : ∀ word ∈ words, word.Paired

theorem extractTimedWords_extracted (rounds : RoundsInOrder) {elements : List AsrElement}
    (ordered : OrderedElements elements) : Extracted (extractTimedWords elements) := by
  have pairwise := List.pairwise_filterMap.mp ordered.pairwise
  refine ⟨⟨?_, ?_⟩, ?_, ?_⟩
  · rintro ⟨start, stop⟩ member
    rcases List.mem_filterMap.mp member with ⟨word, isWord, timed⟩
    rcases List.mem_filterMap.mp isWord with ⟨element, _, extracted⟩
    rcases timing?_eq_some_iff.mp timed with ⟨isStart, isStop⟩
    rcases extractTimedWord_times extracted with ⟨untimed, _⟩ | ⟨_, _, _, sameStart, sameStop, lt⟩
    · rw [untimed] at isStart
      cases isStart
    · rw [sameStart, Option.some_inj] at isStart
      rw [sameStop, Option.some_inj] at isStop
      subst isStart isStop
      exact lt.le
  · apply List.pairwise_filterMap.mpr
    apply List.pairwise_filterMap.mpr
    apply pairwise.imp
    intro earlier later across word extracted word' extracted' interval timed interval' timed'
    rcases interval with ⟨start, stop⟩
    rcases interval' with ⟨start', stop'⟩
    rcases timing?_eq_some_iff.mp timed with ⟨_, isStop⟩
    rcases timing?_eq_some_iff.mp timed' with ⟨isStart, _⟩
    rcases extractTimedWord_times extracted with ⟨_, untimed⟩ | ⟨_, last, isTimed, _, sameStop, _⟩
    · rw [untimed] at isStop
      cases isStop
    rcases extractTimedWord_times extracted' with
      ⟨untimed, _⟩ | ⟨first, _, isTimed', sameStart, _, _⟩
    · rw [untimed] at isStart
      cases isStart
    rw [sameStop, Option.some_inj] at isStop
    rw [sameStart, Option.some_inj] at isStart
    subst isStop isStart
    exact toMillis_monotone rounds (across _ isTimed _ isTimed')
  · intro word member
    rcases List.mem_filterMap.mp member with ⟨element, inside, extracted⟩
    rcases extractTimedWord_times extracted with
      ⟨noStart, noStop⟩ | ⟨start, stop, isTimed, isStart, isStop, _⟩
    · constructor
      · rw [noStart]
        simp
      · rw [noStop]
        simp
    · have timed := List.mem_filterMap.mpr ⟨element, inside, isTimed⟩
      have nonneg := ordered.nonneg _ timed
      have later := nonneg.trans (ordered.forward _ timed).le
      constructor
      · rw [isStart]
        rintro _ ⟨⟩
        exact toMillis_bounds rounds nonneg
      · rw [isStop]
        rintro _ ⟨⟩
        exact toMillis_bounds rounds later
  · intro word member
    rcases List.mem_filterMap.mp member with ⟨element, _, extracted⟩
    rcases extractTimedWord_times extracted with ⟨noStart, noStop⟩ | ⟨_, _, _, isStart, isStop, _⟩
    · rw [AsrWord.Paired, noStart, noStop]
    · rw [AsrWord.Paired, isStart, isStop]
      rfl

end Elements

section Boundaries

theorem trimWordBoundary_same {strip : Char → Bool} {word kept : AsrWord}
    (trimmed : trimWordBoundary strip word = some kept) : SameTimes kept word := by
  unfold trimWordBoundary at trimmed
  dsimp only at trimmed
  split at trimmed
  · cases trimmed
  · cases trimmed
    exact ⟨rfl, rfl⟩

theorem trimWordBoundaries_timings (words : List AsrWord) (strip : Char → Bool) :
    (timings (trimWordBoundaries words strip)).Sublist (timings words) :=
  timings_filterMap_sublist (fun _ _ trimmed => trimWordBoundary_same trimmed) words

theorem Extracted.trim {words : List AsrWord} (extracted : Extracted words)
    (strip : Char → Bool) : Extracted (trimWordBoundaries words strip) := by
  refine ⟨extracted.inOrder.sublist (trimWordBoundaries_timings words strip), ?_, ?_⟩
  · intro kept member
    rcases List.mem_filterMap.mp member with ⟨word, isWord, trimmed⟩
    rcases trimWordBoundary_same trimmed with ⟨sameStart, sameStop⟩
    rw [AsrWord.Bounded, sameStart, sameStop]
    exact extracted.bounded word isWord
  · intro kept member
    rcases List.mem_filterMap.mp member with ⟨word, isWord, trimmed⟩
    rcases trimWordBoundary_same trimmed with ⟨sameStart, sameStop⟩
    rw [AsrWord.Paired, sameStart, sameStop]
    exact extracted.paired word isWord

end Boundaries

section Joins

/-- Pieces of a word keep its bounds. -/
theorem bounded_of_refines {word : AsrWord} {pieces : List AsrWord} (bounded : word.Bounded)
    (refines : Refines AsrWord.timing? word pieces) (paired : ∀ piece ∈ pieces, piece.Paired) :
    ∀ piece ∈ pieces, piece.Bounded := by
  intro piece member
  cases timed : piece.timing? with
  | none =>
      have untimed : piece.startMs = none ∧ piece.endMs = none := by
        have both := paired piece member
        rw [AsrWord.Paired] at both
        unfold AsrWord.timing? at timed
        cases isStart : piece.startMs with
        | none =>
            rw [isStart] at both
            exact ⟨rfl, Option.not_isSome_iff_eq_none.mp (by rw [← both]; simp)⟩
        | some start =>
            cases isStop : piece.endMs with
            | none =>
                rw [isStart, isStop] at both
                cases both
            | some stop =>
                rw [isStart, isStop] at timed
                cases timed
      rw [AsrWord.Bounded, untimed.1, untimed.2]
      simp
  | some interval =>
      rcases interval with ⟨start, stop⟩
      have inside : (start, stop) ∈ pieces.filterMap AsrWord.timing? := mem_timings member timed
      rcases refines.inside inside with ⟨⟨lower, upper⟩, isWhole, starts, stops⟩
      have forward := refines.inOrder.forward _ inside
      rcases timing?_eq_some_iff.mp timed with ⟨isStart, isStop⟩
      rcases timing?_eq_some_iff.mp isWhole with ⟨isLower, isUpper⟩
      have lowerTime := bounded.1 lower isLower
      have upperTime := bounded.2 upper isUpper
      dsimp only at starts stops forward
      rw [AsrWord.Bounded, isStart, isStop]
      unfold IsTime at *
      refine ⟨?_, ?_⟩
      · rintro _ ⟨⟩
        omega
      · rintro _ ⟨⟩
        omega

variable [AsrTables]

theorem joinHyphens_bounded {lang : String} {result words : List AsrWord}
    (bounded : ∀ word ∈ result, word.Bounded) (inOrder : InOrder (timings words))
    (wordsBounded : ∀ word ∈ words, word.Bounded) (paired : ∀ word ∈ words, word.Paired)
    (fits : SplitsFit lang result words) :
    ∀ word ∈ words.foldl (fun result word => joinHyphen result word lang) result,
      word.Bounded := by
  induction words generalizing result with
  | nil => exact bounded
  | cons word words ih =>
      have pairedParts := List.forall_mem_cons.mp paired
      have boundedParts := List.forall_mem_cons.mp wordsBounded
      have rest : InOrder (timings words) :=
        inOrder.sublist (timings_sublist (List.sublist_cons_self word words))
      refine ih ?_ rest boundedParts.2 pairedParts.2 fits.2
      change ∀ made ∈ joinHyphen result word lang, made.Bounded
      rcases joinHyphen_cases result word lang with
        ⟨init, prev, rfl, _, joins⟩ | ⟨splits, appends⟩
      · rw [joins]
        have parts := List.forall_mem_append.mp bounded
        refine List.forall_mem_append.mpr ⟨parts.1, ?_⟩
        intro joined isJoined
        rw [List.mem_singleton.mp isJoined]
        exact ⟨(parts.2 prev List.mem_cons_self).1, boundedParts.1.2⟩
      · rw [appends]
        refine List.forall_mem_append.mpr ⟨bounded, ?_⟩
        apply bounded_of_refines boundedParts.1 _ (splitChunkWord_paired pairedParts.1 lang)
        apply splitChunkWord_refines (fits.1 splits)
        intro start stop timed
        exact inOrder.forward (start, stop) (mem_timings List.mem_cons_self timed)

theorem splitMultiwordTokens_placed {lang : String} {words : List AsrWord}
    (extracted : Extracted words) (fits : SplitsFit lang [] words) :
    Placed (splitMultiwordTokens words lang) := by
  apply placed_of_bounded (splitMultiwordTokens_inOrder extracted.inOrder extracted.paired fits)
  apply joinHyphens_bounded _ extracted.inOrder extracted.bounded extracted.paired fits
  intro word member
  cases member

end Joins

section Prepared

variable [AsrTables] [UnicodeCase] [Float64]

def extractedWords (elements : List AsrElement) (lang : String) : List AsrWord :=
  stripBoundaryQuotes (stripSeparatorWords (extractTimedWords
    (stripEnglishTitlePeriodsOnElements (mergeCompounds elements) lang)))

def unquotedWords (elements : List AsrElement) (lang : String) : List AsrWord :=
  stripBoundaryQuotes (splitMultiwordTokens (extractedWords elements lang) lang)

/-- No product of a length in time and a number of characters overflows. -/
structure ElementsFit (elements : List AsrElement) (lang : String) : Prop where
  multiword : SplitsFit lang [] (extractedWords elements lang)
  percent : ∀ word ∈ unquotedWords elements lang, word.Fits (percentChars word)
  numbers : ∀ word ∈ prepareWordsPreExpansion elements lang, word.Fits (expandedChars word lang)

/-- The words of a monologue that go into its utterances. -/
def preparedWords (elements : List AsrElement) (lang : String) : List AsrWord :=
  expandNumbersInWords (prepareWordsPreExpansion elements lang) lang

theorem preparedWords_placed (rounds : RoundsInOrder) {elements : List AsrElement} {lang : String}
    (ordered : OrderedElements elements) (fits : ElementsFit elements lang) :
    Placed (preparedWords elements lang) := by
  have merged : OrderedElements
      (stripEnglishTitlePeriodsOnElements (mergeCompounds elements) lang) := by
    apply ordered.sublist
    rw [stripEnglishTitlePeriodsOnElements_timings]
    exact mergeCompounds_timings elements
  have extracted : Extracted (extractedWords elements lang) :=
    ((extractTimedWords_extracted rounds merged).trim isStrippable).trim isBoundaryQuote
  have unquoted : Placed (unquotedWords elements lang) :=
    (splitMultiwordTokens_placed extracted fits.multiword).sublist
      (trimWordBoundaries_timings _ _)
  have forwards {words : List AsrWord} (placed : Placed words) {word : AsrWord}
      (member : word ∈ words) (start stop : ℤ) (timed : word.timing? = some (start, stop)) :
      start ≤ stop := placed.inOrder.forward (start, stop) (mem_timings member timed)
  have percent : Placed (prepareWordsPreExpansion elements lang) :=
    unquoted.refine fun word member =>
      splitPercentSuffixWord_refines (fits.percent word member) (forwards unquoted member) lang
  exact percent.refine fun word member =>
    expandNumbersInWord_refines (fits.numbers word member) (forwards percent member)

end Prepared

section Chunks

theorem chunksOf_sublist {size : ℕ} {words : List AsrWord} :
    ∀ chunk ∈ chunksOf size words, chunk.Sublist words := by
  intro chunk member
  rcases List.mem_map.mp member with ⟨k, _, rfl⟩
  exact (List.take_sublist _ _).trans (List.drop_sublist _ _)

theorem splitLongTurns_sublist {words : List AsrWord} :
    ∀ chunk ∈ splitLongTurns words, chunk.Sublist words := by
  intro chunk member
  unfold splitLongTurns at member
  split at member
  · rw [List.mem_singleton.mp member]
  · exact chunksOf_sublist chunk member

variable [UnicodeProperties]

theorem splitAtPauses_sublist (current : List AsrWord) (previousTimed : Option AsrWord)
    (words : List AsrWord) :
    ∀ chunk ∈ splitAtPauses current previousTimed words, chunk.Sublist (current ++ words) := by
  induction words generalizing current previousTimed with
  | nil =>
      intro chunk member
      rw [splitAtPauses] at member
      split at member
      · cases member
      · rw [List.mem_singleton.mp member, List.append_nil]
  | cons word words ih =>
      intro chunk member
      rw [splitAtPauses] at member
      split at member
      · rcases List.mem_cons.mp member with rfl | later
        · exact List.sublist_append_left _ _
        · exact (ih _ _ chunk later).trans (List.sublist_append_right _ _)
      · have inside := ih _ _ chunk member
        rwa [List.append_assoc] at inside

theorem splitOnLongPauses_sublist {chunks : List (List AsrWord)} :
    ∀ chunk ∈ splitOnLongPauses chunks, ∃ turn ∈ chunks, chunk.Sublist turn := by
  intro chunk member
  rcases List.mem_flatMap.mp member with ⟨turn, isTurn, inside⟩
  refine ⟨turn, isTurn, ?_⟩
  split at inside
  · rw [List.mem_singleton.mp inside]
  · exact splitAtPauses_sublist [] none turn chunk inside

variable [AsrTables] [UnicodeCase]

theorem finalizeWordsToChunks_timings {words : List AsrWord} {speaker : ℕ} {lang : String} :
    ∀ chunk ∈ finalizeWordsToChunks words speaker lang,
      (timings chunk.words).Sublist (timings words) := by
  intro chunk member
  unfold finalizeWordsToChunks at member
  dsimp only at member
  rcases List.mem_map.mp member with ⟨part, isPart, rfl⟩
  rcases splitOnLongPauses_sublist part (List.mem_filter.mp isPart).1 with ⟨turn, isTurn, inTurn⟩
  have changed := timings_sublist (inTurn.trans (splitLongTurns_sublist turn isTurn))
  have rules (words : List AsrWord) :
      timings (applyEnglishTranscribeRulesPreRetokenize words lang) = timings words := by
    unfold applyEnglishTranscribeRulesPreRetokenize
    split
    · rfl
    · have capitals (word : AsrWord) : SameTimes (applyICapitalizationToWord word) word :=
        ⟨rfl, rfl⟩
      have titles (word : AsrWord) : SameTimes (applyTitlePeriodStripToWord word) word :=
        ⟨rfl, rfl⟩
      rw [timings_map titles, timings_map capitals]
  have characters : timings (normalizeCantoneseWords words) = timings words := by
    apply timings_map
    intro word
    exact ⟨rfl, rfl⟩
  rw [rules] at changed
  split at changed
  · rwa [characters] at changed
  · exact changed

end Chunks

section Utterances

theorem flushRemaining_timings {speaker : ℕ} {buf : List AsrWord} :
    ∀ utterance ∈ flushRemaining speaker buf,
      (timings utterance.words).Sublist (timings buf) := by
  intro utterance member
  unfold flushRemaining at member
  dsimp only at member
  split at member
  · cases member
  · rw [List.mem_singleton.mp member, timings_append]
    change (timings _ ++ []).Sublist _
    rw [List.append_nil]
    exact timings_sublist (List.rdropWhile_prefix _ _).sublist

theorem timings_splitEnding_sublist (word : AsrWord) :
    (timings (splitEnding word)).Sublist word.timing?.toList := by
  have separator (text : String) : timings [AsrWord.new text none none] = [] := rfl
  unfold splitEnding
  dsimp only
  rw [timings_append, separator, List.append_nil]
  split
  · exact List.nil_sublist _
  · rw [timings_cons, timings_nil, List.append_nil]
    exact List.Sublist.refl _

theorem retokenizeFrom_timings {speaker : ℕ} (buf words : List AsrWord) :
    ∀ utterance ∈ retokenizeFrom speaker buf words,
      (timings utterance.words).Sublist (timings (buf ++ words)) := by
  induction words generalizing buf with
  | nil =>
      rw [List.append_nil]
      exact flushRemaining_timings
  | cons word words ih =>
      intro utterance member
      have one (word : AsrWord) : timings [word] = word.timing?.toList := by
        rw [timings_cons, timings_nil, List.append_nil]
      have whole : timings (buf ++ word :: words) =
          timings buf ++ (word.timing?.toList ++ timings words) := by
        rw [timings_append, timings_cons]
      have first : (timings buf ++ word.timing?.toList).Sublist
          (timings (buf ++ word :: words)) := by
        rw [whole, ← List.append_assoc]
        exact List.sublist_append_left _ _
      have later : (timings words).Sublist (timings (buf ++ word :: words)) := by
        rw [whole, ← List.append_assoc]
        exact List.sublist_append_right _ _
      rw [retokenizeFrom] at member
      dsimp only at member
      split at member
      · rcases List.mem_cons.mp member with rfl | after
        · rw [timings_append, one]
          exact first
        · exact (ih [] utterance after).trans later
      · split at member
        · rcases List.mem_cons.mp member with rfl | after
          · rw [timings_append]
            apply List.Sublist.trans _ first
            exact List.Sublist.append (List.Sublist.refl _) (timings_splitEnding_sublist _)
          · exact (ih [] utterance after).trans later
        · have inside := ih _ utterance member
          rw [List.append_assoc, timings_append, List.singleton_append, timings_cons] at inside
          rw [whole]
          exact inside

end Utterances

section Cleaned

/-- The stage leaves to each utterance the times of one it was given, or fewer. -/
def KeepsTimings (before after : List Utterance) : Prop :=
  ∀ utterance ∈ after, ∃ original ∈ before,
    (timings utterance.words).Sublist (timings original.words)

theorem KeepsTimings.refl (utterances : List Utterance) : KeepsTimings utterances utterances := by
  intro utterance member
  exact ⟨utterance, member, List.Sublist.refl _⟩

theorem KeepsTimings.trans {before middle after : List Utterance}
    (first : KeepsTimings before middle) (second : KeepsTimings middle after) :
    KeepsTimings before after := by
  intro utterance member
  rcases second utterance member with ⟨between, isBetween, kept⟩
  rcases first between isBetween with ⟨original, isOriginal, keptBefore⟩
  exact ⟨original, isOriginal, kept.trans keptBefore⟩

theorem keepsTimings_map {change : List AsrWord → List AsrWord}
    (same : ∀ words, timings (change words) = timings words) (utterances : List Utterance) :
    KeepsTimings utterances
      (utterances.map fun utterance => { utterance with words := change utterance.words }) := by
  intro utterance member
  rcases List.mem_map.mp member with ⟨original, isOriginal, rfl⟩
  refine ⟨original, isOriginal, ?_⟩
  rw [same]

theorem markRetraces_timings (isRetrace : List Bool) (words : List AsrWord) :
    timings (markRetraces isRetrace words) = timings words := by
  induction words generalizing isRetrace with
  | nil => cases isRetrace <;> rfl
  | cons word words ih =>
      rw [markRetraces.eq_def]
      dsimp only
      split
      · rw [timings_cons, timings_cons word words, ih]
      · split
        · have same (text : String) (kind : WordKind) :
              AsrWord.timing? { word with text := text, kind := kind } = word.timing? := rfl
          rw [timings_cons, timings_cons word words, ih, same]
        · rw [timings_cons, timings_cons word words, ih]
        · rfl

theorem retraceWords_timings (lang : String) (words : List AsrWord) :
    timings (retraceWords words lang) = timings words := by
  unfold retraceWords
  dsimp only
  split
  · rfl
  · exact markRetraces_timings _ _

section Capitals

variable [UnicodeCase] [UnicodeProperties]

theorem capitalizeInitial_timings (words : List AsrWord) :
    timings (capitalizeInitial words) = timings words := by
  induction words with
  | nil => rfl
  | cons word words ih =>
      rw [capitalizeInitial]
      split
      · rw [timings_cons, timings_cons word words, ih]
      · rw [timings_cons, timings_cons word words]
        rfl

end Capitals

section Pipeline

variable [ChatGrammar]

theorem sanitizeChatIllegalWord_same {word kept : AsrWord}
    (sanitized : sanitizeChatIllegalWord word = some kept) : SameTimes kept word := by
  unfold sanitizeChatIllegalWord at sanitized
  dsimp only at sanitized
  split at sanitized
  · cases sanitized
    exact ⟨rfl, rfl⟩
  · split at sanitized
    · cases sanitized
    · cases sanitized
      exact ⟨rfl, rfl⟩

theorem sanitize_keepsTimings (utterances : List Utterance) :
    KeepsTimings utterances (sanitizeChatIllegalCharsInUtterances utterances) := by
  intro utterance member
  rcases List.mem_map.mp (List.mem_filter.mp member).1 with ⟨original, isOriginal, rfl⟩
  refine ⟨original, isOriginal, ?_⟩
  exact timings_filterMap_sublist (fun _ _ sanitized => sanitizeChatIllegalWord_same sanitized) _

variable [UnicodeCase] [UnicodeProperties]

theorem finalizeUtterances_keepsTimings (utterances : List Utterance) (lang : String) :
    KeepsTimings utterances (finalizeUtterances utterances lang) := by
  have disfluency : KeepsTimings utterances (applyDisfluencyReplacements utterances lang) := by
    unfold applyDisfluencyReplacements
    split
    · exact KeepsTimings.refl _
    · apply keepsTimings_map
      intro words
      apply timings_map
      intro word
      exact ⟨rfl, rfl⟩
  have retraces (utterances : List Utterance) :
      KeepsTimings utterances (applyRetraceDetection utterances lang) :=
    keepsTimings_map (retraceWords_timings lang) utterances
  have capitals (utterances : List Utterance) : KeepsTimings utterances
      (applyEnglishTranscribeRulesPostRetokenize utterances lang) := by
    unfold applyEnglishTranscribeRulesPostRetokenize
    split
    · exact KeepsTimings.refl _
    · exact keepsTimings_map capitalizeInitial_timings utterances
  exact ((disfluency.trans (retraces _)).trans (capitals _)).trans (sanitize_keepsTimings _)

variable [AsrTables] [Float64]

/-- An utterance has times of the words prepared from one monologue, in their order. -/
theorem processRawAsr_timings {output : AsrOutput} {lang : String} :
    ∀ utterance ∈ processRawAsr output lang, ∃ monologue ∈ output.monologues,
      (timings utterance.words).Sublist (timings (preparedWords monologue.elements lang)) := by
  intro utterance member
  rcases finalizeUtterances_keepsTimings _ _ utterance member with ⟨original, isOriginal, kept⟩
  rcases List.mem_flatMap.mp isOriginal with ⟨chunk, isChunk, isUtterance⟩
  rcases List.mem_flatMap.mp isChunk with ⟨monologue, isMonologue, inMonologue⟩
  refine ⟨monologue, isMonologue, kept.trans ?_⟩
  exact (retokenizeFrom_timings [] chunk.words original isUtterance).trans
    (finalizeWordsToChunks_timings chunk inMonologue)

end Pipeline

end Cleaned

end Batchalign.Asr
