import Batchalign.Chat.Documented
import Batchalign.Fa.Basic

/-!
# Token counts of dispatch and injection

A dispatched utterance travels as the non-empty parts of its words and comes back
with as many tokens; a reused utterance contributes one token for each word. The
collapse expects one token for each part. The stage succeeds exactly when these
counts agree for every utterance.
-/

namespace Batchalign.Fa

open Batchalign.Chat Documented

section Collapse

/-- The cursor reaches the end of the tokens exactly when the parts add up. -/
theorem collapseFrom_isOk_iff (aligned : List AsrWord) (cursor : ℕ)
    (sourceWords : List (String × ℕ)) :
    (∃ words, collapseFrom aligned cursor sourceWords = .ok words) ↔
      cursor + (sourceWords.map Prod.snd).sum = aligned.length := by
  induction sourceWords generalizing cursor with
  | nil =>
      by_cases atEnd : cursor = aligned.length <;> simp [collapseFrom, atEnd]
  | cons sourceWord sourceWords ih =>
      simp only [collapseFrom, List.map_cons, List.sum_cons]
      by_cases past : cursor + sourceWord.2 > aligned.length
      · rw [if_pos past]
        constructor
        · intro ⟨_, impossible⟩
          cases impossible
        · intro reached
          omega
      · rw [if_neg past, ← Nat.add_assoc, ← ih]
        cases collapseFrom aligned (cursor + sourceWord.2) sourceWords <;> simp [Except.map]

variable [Talkbank]

/-- The number of tokens the collapse expects. -/
def partCount (utt : Utterance) : ℕ :=
  ((faWords utt.items).map fun word => (splitCompoundFiller word).length).sum

theorem injectUtterance_isOk_iff (utt : Utterance) (seg : AsrSegment) :
    (∃ injected, injectUtterance utt seg = .ok injected) ↔
      seg.words = [] ∨ partCount utt = seg.words.length := by
  simp only [injectUtterance]
  by_cases empty : seg.words = []
  · simp [empty]
  · have collapses := collapseFrom_isOk_iff seg.words 0
      ((faWords utt.items).map fun word => (word.cleanedText, (splitCompoundFiller word).length))
    simp only [Nat.zero_add, List.map_map] at collapses
    rw [if_neg (by simpa using empty)]
    simp only [empty, false_or]
    apply Iff.trans _ collapses
    simp only [collapseAlignedWords]
    cases collapseFrom seg.words 0 _ <;> simp [Except.map]

end Collapse

section Injection

variable [Talkbank]

/-- The loop succeeds exactly when there is one segment for each utterance and every
utterance takes its own. -/
theorem injectLines_isOk_iff (aligned : List AsrSegment) (idx : ℕ) (lines : List Line)
    (inside : idx ≤ aligned.length) :
    (injectLines aligned idx lines).1 = .ok () ↔
      List.Forall₂ (fun utt seg => ∃ injected, injectUtterance utt seg = .ok injected)
        (lines.filterMap Line.utterance?) (aligned.drop idx) := by
  induction lines generalizing idx with
  | nil =>
      by_cases atEnd : idx = aligned.length
      · simp [injectLines, atEnd]
      · have some_left : aligned.drop idx ≠ [] := by
          simp only [ne_eq, List.drop_eq_nil_iff]
          omega
        simp [injectLines, atEnd, some_left]
  | cons line lines ih =>
      cases line with
      | utterance utt =>
          simp only [injectLines, List.filterMap_cons, Line.utterance?]
          by_cases within : idx < aligned.length
          · rw [List.getElem?_eq_getElem within, List.drop_eq_getElem_cons within,
              List.forall₂_cons, ← ih (idx + 1) within]
            cases injects : injectUtterance utt aligned[idx] with
            | error error => simp [injects]
            | ok injected => simp [injects]
          · rw [List.getElem?_eq_none (by omega), List.drop_eq_nil_of_le (by omega)]
            simp
      | header header =>
          simp only [injectLines, List.filterMap_cons, Line.utterance?]
          exact ih idx inside
      | other text =>
          simp only [injectLines, List.filterMap_cons, Line.utterance?]
          exact ih idx inside

theorem injectWordTimings_isOk_iff (chat : ChatFile) (aligned : List AsrSegment) :
    (injectWordTimings chat aligned).1 = .ok () ↔
      List.Forall₂ (fun utt seg => seg.words = [] ∨ partCount utt = seg.words.length)
        chat.utterances aligned := by
  simp only [injectWordTimings, ← injectUtterance_isOk_iff]
  exact injectLines_isOk_iff aligned 0 chat.lines (Nat.zero_le _)

end Injection

section Merge

/-- An answer has one segment for each dispatched one, with as many words. -/
def AnswersDispatch (dispatched answer : List AsrSegment) : Prop :=
  List.Forall₂ (fun sent received => received.words.length = sent.words.length) dispatched answer

/-- The merged segment of an utterance: the reused one, or one as long as what was sent. -/
def MergedSegment (utt : AsrSegment × Option AsrSegment) (merged : AsrSegment) : Prop :=
  match utt.2 with
  | some reused => merged = reused
  | none => merged.words.length = utt.1.words.length

theorem mergeReusedAndFreshSegments_ok {utts : List (AsrSegment × Option AsrSegment)}
    {answer : List AsrSegment}
    (answers : AnswersDispatch
      (utts.filterMap fun utt => if utt.2.isNone then some utt.1 else none) answer) :
    ∃ merged, mergeReusedAndFreshSegments (utts.map Prod.snd) answer = .ok merged ∧
      List.Forall₂ MergedSegment utts merged := by
  induction utts generalizing answer with
  | nil =>
      cases answers
      exact ⟨[], rfl, .nil⟩
  | cons utt utts ih =>
      rcases utt with ⟨sent, _ | reused⟩
      · simp only [List.filterMap_cons, Option.isNone_none, if_true] at answers
        rcases List.forall₂_cons_left_iff.mp answers with ⟨received, answer, same, rest, rfl⟩
        rcases ih rest with ⟨merged, isMerged, segments⟩
        refine ⟨received :: merged, ?_, .cons same segments⟩
        simp [mergeReusedAndFreshSegments, isMerged, Except.map]
      · simp only [List.filterMap_cons, Option.isNone_some, Bool.false_eq_true, if_false]
          at answers
        rcases ih answers with ⟨merged, isMerged, segments⟩
        refine ⟨reused :: merged, ?_, .cons rfl segments⟩
        simp [mergeReusedAndFreshSegments, isMerged, Except.map]

end Merge

section Reuse

/-- The bullets of a `%wor` tier: long enough, and none starts before the end of the one
before it. -/
structure OrderedBullets (words : List Word) (bullets : List Bullet) : Prop where
  timed : words.map Word.inlineBullet = bullets.map some
  longEnough : ∀ bullet ∈ bullets,
    minReusableWordDurationMs ≤ bullet.timing.endMs - bullet.timing.startMs
  ordered : bullets.IsChain fun earlier later => earlier.timing.endMs ≤ later.timing.startMs

theorem orderedBullets_cons_iff {word : Word} {words : List Word} {bullet : Bullet}
    {bullets : List Bullet} :
    OrderedBullets (word :: words) (bullet :: bullets) ↔
      word.inlineBullet = some bullet ∧
      minReusableWordDurationMs ≤ bullet.timing.endMs - bullet.timing.startMs ∧
      (∀ next ∈ bullets.head?, bullet.timing.endMs ≤ next.timing.startMs) ∧
      OrderedBullets words bullets := by
  constructor
  · rintro ⟨timed, longEnough, ordered⟩
    simp only [List.map_cons, List.cons.injEq] at timed
    have longEnough := List.forall_mem_cons.mp longEnough
    have ordered := List.isChain_cons.mp ordered
    exact ⟨timed.1, longEnough.1, ordered.1, timed.2, longEnough.2, ordered.2⟩
  · rintro ⟨timed, longEnough, before, rest⟩
    refine ⟨?_, ?_, ?_⟩
    · simp [timed, rest.timed]
    · exact List.forall_mem_cons.mpr ⟨longEnough, rest.longEnough⟩
    · exact List.isChain_cons.mpr ⟨before, rest.ordered⟩

theorem reusableWords_eq_some_iff {previousEndMs : Option ℕ} {words : List Word}
    {timedWords : List AsrWord} :
    reusableWords previousEndMs words = some timedWords ↔
      ∃ bullets, OrderedBullets words bullets ∧
        (∀ previousEnd ∈ previousEndMs, ∀ first ∈ bullets.head?,
          previousEnd ≤ first.timing.startMs) ∧
        timedWords = List.zipWith timedAsrWord words bullets := by
  induction words generalizing previousEndMs timedWords with
  | nil =>
      constructor
      · intro empty
        refine ⟨[], ⟨rfl, by simp, by simp⟩, by simp, ?_⟩
        simpa [reusableWords] using empty.symm
      · rintro ⟨bullets, _, _, rfl⟩
        simp [reusableWords]
  | cons word words ih =>
      cases timing : word.inlineBullet with
      | none =>
          simp only [reusableWords, timing, Option.bind_none, reduceCtorEq, false_iff]
          rintro ⟨bullets, bulletsOrdered, -, -⟩
          have timed := bulletsOrdered.timed
          cases bullets <;> simp [timing] at timed
      | some bullet =>
          simp only [reusableWords, timing, Option.bind_some]
          constructor
          · intro found
            split at found
            · cases found
            · rename_i passed
              simp only [Bool.or_eq_true, decide_eq_true_eq, not_or, not_lt] at passed
              rcases Option.map_eq_some_iff.mp found with ⟨rest, restFound, rfl⟩
              rcases ih.mp restFound with ⟨bullets, bulletsOrdered, after, rfl⟩
              refine ⟨bullet :: bullets, ?_, ?_, rfl⟩
              · exact orderedBullets_cons_iff.mpr ⟨timing, passed.1, after _ rfl, bulletsOrdered⟩
              · rintro previousEnd ⟨⟩ first ⟨⟩
                simpa using passed.2
          · rintro ⟨bullets, bulletsOrdered, after, rfl⟩
            cases bullets with
            | nil =>
                have timed := bulletsOrdered.timed
                simp at timed
            | cons bullet' bullets =>
                rcases orderedBullets_cons_iff.mp bulletsOrdered with
                  ⟨timed, longEnough, before, restOrdered⟩
                rw [timing, Option.some.injEq] at timed
                subst timed
                have rest := (@ih (some bullet.timing.endMs) _).mpr
                  ⟨bullets, restOrdered, by simpa using before, rfl⟩
                rw [if_neg, rest]
                · rfl
                · simp only [Bool.or_eq_true, decide_eq_true_eq, not_or, not_lt]
                  refine ⟨longEnough, ?_⟩
                  cases previousEndMs with
                  | none => simp
                  | some previousEnd => simpa using after previousEnd rfl bullet rfl

def wordWindow (word : AsrWord) : Timing := ⟨word.startMs, word.endMs⟩

/-- The checks on a whole tier: no word dominates three or more, and the last word ends
before the next utterance. -/
structure WindowsAccepted (windows : List Timing) (nextStart : Option ℕ) : Prop where
  undominated : minWordsForDominanceCheck ≤ windows.length →
    ∀ first ∈ windows.head?, ∀ last ∈ windows.getLast?, ∀ window ∈ windows,
      dominates (window.endMs - window.startMs) (last.endMs - first.startMs) = false
  beforeNext : ∀ last ∈ windows.getLast?, ∀ next ∈ nextStart, last.endMs ≤ next

theorem dominates_iff {durationMs spanMs : ℕ} :
    dominates durationMs spanMs = true ↔ 0 < spanMs ∧ 4 * spanMs < 10 * durationMs := by
  simp [dominates]

theorem dominates_max (a b spanMs : ℕ) :
    dominates (max a b) spanMs = (dominates a spanMs || dominates b spanMs) := by
  apply Bool.eq_iff_iff.mpr
  rw [Bool.or_eq_true, dominates_iff, dominates_iff, dominates_iff]
  omega

theorem dominates_maximumDurationMs (words : List AsrWord) (spanMs : ℕ) :
    dominates (maximumDurationMs words) spanMs =
      words.any fun word => dominates (word.endMs - word.startMs) spanMs := by
  have fold : ∀ longest, dominates (words.foldl (fun longest word =>
      max longest (word.endMs - word.startMs)) longest) spanMs =
      (dominates longest spanMs ||
        words.any fun word => dominates (word.endMs - word.startMs) spanMs) := by
    induction words with
    | nil => simp
    | cons word words ih =>
        intro longest
        simp only [List.foldl_cons, List.any_cons]
        rw [ih, dominates_max, Bool.or_assoc]
  apply (fold 0).trans
  simp [dominates]

theorem isSome_guarded {α : Type} {first second : Bool} {a : α} :
    (if first then none else if second then none else some a).isSome ↔
      first = false ∧ second = false := by
  cases first <;> cases second <;> simp

theorem reusableSegment_isSome_iff (speaker : String) (nextStart : Option ℕ)
    (words : List AsrWord) :
    (reusableSegment speaker nextStart words).isSome ↔
      words ≠ [] ∧ WindowsAccepted (words.map wordWindow) nextStart := by
  cases words with
  | nil => simp [reusableSegment]
  | cons first rest =>
      have atLast := List.getLast?_eq_some_getLast (List.cons_ne_nil first rest)
      generalize (first :: rest).getLast (List.cons_ne_nil first rest) = last at atLast
      have undominated : (decide ((first :: rest).length ≥ minWordsForDominanceCheck) &&
          dominates (maximumDurationMs (first :: rest)) (last.endMs - first.startMs)) = false ↔
          (minWordsForDominanceCheck ≤ (first :: rest).length → ∀ word ∈ first :: rest,
            dominates (word.endMs - word.startMs) (last.endMs - first.startMs) = false) := by
        rw [dominates_maximumDurationMs, Bool.and_eq_false_imp, decide_eq_true_eq,
          List.any_eq_false]
        simp only [Bool.not_eq_true, ge_iff_le]
      have beforeNext : (nextStart.any fun next => last.endMs > next) = false ↔
          ∀ next ∈ nextStart, last.endMs ≤ next := by
        cases nextStart <;> simp
      have accepted : WindowsAccepted ((first :: rest).map wordWindow) nextStart ↔
          (minWordsForDominanceCheck ≤ (first :: rest).length → ∀ word ∈ first :: rest,
            dominates (word.endMs - word.startMs) (last.endMs - first.startMs) = false) ∧
          ∀ next ∈ nextStart, last.endMs ≤ next := by
        constructor
        · intro windows
          refine ⟨?_, ?_⟩
          · intro enough word member
            exact windows.undominated (by simpa using enough) (wordWindow first) rfl
              (wordWindow last) (by rw [List.getLast?_map, atLast]; rfl) (wordWindow word)
              (List.mem_map_of_mem member)
          · exact windows.beforeNext (wordWindow last) (by rw [List.getLast?_map, atLast]; rfl)
        · intro ⟨short, before⟩
          refine ⟨?_, ?_⟩
          · rintro enough _ ⟨⟩ lastWindow isLast window member
            rw [List.getLast?_map, atLast] at isLast
            cases isLast
            rcases List.mem_map.mp member with ⟨word, inside, rfl⟩
            exact short (by simpa using enough) word inside
          · intro lastWindow isLast
            rw [List.getLast?_map, atLast] at isLast
            cases isLast
            exact before
      rw [accepted, ← undominated, ← beforeNext]
      simp only [reusableSegment, List.head?_cons, atLast]
      apply isSome_guarded.trans
      exact (and_iff_right (List.cons_ne_nil _ _)).symm

theorem reusableSegment_words {speaker : String} {nextStart : Option ℕ} {words : List AsrWord}
    {segment : AsrSegment} (isSegment : reusableSegment speaker nextStart words = some segment) :
    segment.words = words := by
  simp only [reusableSegment] at isSegment
  split at isSegment
  · split at isSegment
    · cases isSegment
    · split at isSegment
      · cases isSegment
      · cases isSegment
        rfl
  · cases isSegment

/-- What makes the `%wor` tier of an utterance reusable: it has the words of the main tier,
and their bullets are accepted. -/
structure ReusableTier [Talkbank] (utt : Utterance) (nextStart : Option ℕ) (wor : WorTier)
    (bullets : List Bullet) : Prop where
  onTier : utt.worTier = some wor
  hasWords : faWords utt.items ≠ []
  sameText : wor.words.map Word.cleanedText = (faWords utt.items).map Word.cleanedText
  ordered : OrderedBullets wor.words bullets
  accepted : WindowsAccepted (bullets.map Bullet.timing) nextStart

def Reusable [Talkbank] (utt : Utterance) (nextStart : Option ℕ) : Prop :=
  ∃ wor bullets, ReusableTier utt nextStart wor bullets

theorem OrderedBullets.length_eq {words : List Word} {bullets : List Bullet}
    (ordered : OrderedBullets words bullets) : words.length = bullets.length := by
  simpa using congrArg List.length ordered.timed

theorem OrderedBullets.windows {words : List Word} {bullets : List Bullet}
    (ordered : OrderedBullets words bullets) :
    (List.zipWith timedAsrWord words bullets).map wordWindow = bullets.map Bullet.timing := by
  have sameLength := ordered.length_eq
  apply List.ext_getElem
  · simp [sameLength]
  · intro index _ _
    simp [timedAsrWord, wordWindow]

variable [Talkbank]

theorem reusableWorSegment_words_length {utt : Utterance} {nextStart : Option ℕ}
    {segment : AsrSegment} (reused : reusableWorSegment utt nextStart = some segment) :
    segment.words.length = (faWords utt.items).length ∧ faWords utt.items ≠ [] := by
  simp only [reusableWorSegment] at reused
  split at reused
  · cases reused
  · rename_i hasWords
    rcases Option.bind_eq_some_iff.mp reused with ⟨wor, -, checked⟩
    split at checked
    · cases checked
    · rename_i sameText
      rcases Option.bind_eq_some_iff.mp checked with ⟨words, timed, isSegment⟩
      rcases reusableWords_eq_some_iff.mp timed with ⟨bullets, ordered, -, rfl⟩
      have count := congrArg List.length (not_not.mp sameText)
      simp only [List.length_map] at count
      rw [reusableSegment_words isSegment, List.length_zipWith, ← ordered.length_eq, min_self]
      exact ⟨count, by simpa using hasWords⟩

theorem reusableWorSegment_isSome_iff (utt : Utterance) (nextStart : Option ℕ) :
    (reusableWorSegment utt nextStart).isSome ↔ Reusable utt nextStart := by
  constructor
  · intro isSome
    rcases Option.isSome_iff_exists.mp isSome with ⟨segment, reused⟩
    have hasWords := (reusableWorSegment_words_length reused).2
    simp only [reusableWorSegment] at reused
    rw [if_neg (by simpa using hasWords)] at reused
    rcases Option.bind_eq_some_iff.mp reused with ⟨wor, onTier, checked⟩
    split at checked
    · cases checked
    · rename_i sameText
      rcases Option.bind_eq_some_iff.mp checked with ⟨words, timed, isSegment⟩
      rcases reusableWords_eq_some_iff.mp timed with ⟨bullets, ordered, -, rfl⟩
      have accepted := (reusableSegment_isSome_iff utt.main.speaker nextStart _).mp
        (Option.isSome_of_eq_some isSegment)
      rw [ordered.windows] at accepted
      exact ⟨wor, bullets, onTier, hasWords, not_not.mp sameText, ordered, accepted.2⟩
  · rintro ⟨wor, bullets, tier⟩
    have timed : reusableWords none wor.words =
        some (List.zipWith timedAsrWord wor.words bullets) :=
      reusableWords_eq_some_iff.mpr ⟨bullets, tier.ordered, by simp, rfl⟩
    simp only [reusableWorSegment]
    rw [if_neg (by simpa using tier.hasWords), tier.onTier, Option.bind_some,
      if_neg (not_not.mpr tier.sameText), timed, Option.bind_some]
    apply (reusableSegment_isSome_iff _ _ _).mpr
    rw [tier.ordered.windows]
    refine ⟨?_, tier.accepted⟩
    intro empty
    have count := congrArg List.length tier.sameText
    have none_left := congrArg List.length empty
    simp only [List.length_map, List.length_zipWith, List.length_nil,
      ← tier.ordered.length_eq, min_self] at count none_left
    exact tier.hasWords (List.length_eq_zero_iff.mp (by omega))

end Reuse

section Counts

theorem nextStarts_length (utts : List Utterance) : (nextStarts utts).length = utts.length := by
  induction utts with
  | nil => rfl
  | cons utt utts ih => simp [nextStarts, ih]

/-- The parts that are sent are all parts exactly when none is empty. -/
theorem sent_count_iff (words : List Word) :
    (words.map fun word => (splitCompoundFiller word).length).sum =
        (words.flatMap fun word => (splitCompoundFiller word).filter (· ≠ "")).length ↔
      ∀ word ∈ words, "" ∉ splitCompoundFiller word := by
  have below : ∀ words : List Word,
      (words.flatMap fun word => (splitCompoundFiller word).filter (· ≠ "")).length ≤
        (words.map fun word => (splitCompoundFiller word).length).sum := by
    intro words
    rw [List.length_flatMap]
    apply List.sum_le_sum
    intro word _
    exact List.length_filter_le _ _
  induction words with
  | nil => simp
  | cons word words ih =>
      have wordBelow := List.length_filter_le (· ≠ "") (splitCompoundFiller word)
      have wordEq : ((splitCompoundFiller word).filter (· ≠ "")).length =
          (splitCompoundFiller word).length ↔ "" ∉ splitCompoundFiller word := by
        rw [List.length_filter_eq_length_iff]
        constructor
        · intro all present
          simpa using all "" present
        · intro absent part present
          simp only [decide_eq_true_eq]
          rintro rfl
          exact absent present
      have restBelow := below words
      simp only [List.map_cons, List.sum_cons, List.flatMap_cons, List.length_append,
        List.forall_mem_cons, ← ih, ← wordEq]
      omega

theorem sent_empty_iff (words : List Word) :
    (words.flatMap fun word => (splitCompoundFiller word).filter (· ≠ "")) = [] ↔
      ∀ word ∈ words, ∀ part ∈ splitCompoundFiller word, part = "" := by
  simp [List.flatMap_eq_nil_iff]

variable [Talkbank]

/-- The utterances with the start of the next one that has a bullet. -/
def utterancesWithNext (chat : ChatFile) : List (Utterance × Option ℕ) :=
  chat.utterances.zip (nextStarts chat.utterances)

/-- Dispatch and injection count the same tokens. A reused utterance brings one token for
each word, so its words must split into as many parts as there are words. A dispatched one
leaves out the empty parts, so it has none, or nothing is dispatched. -/
def TokenCountsAgree (utt : Utterance) (nextStart : Option ℕ) : Prop :=
  (Reusable utt nextStart → partCount utt = (faWords utt.items).length) ∧
    (¬ Reusable utt nextStart →
      (∀ word ∈ faWords utt.items, "" ∉ splitCompoundFiller word) ∨
        ∀ word ∈ faWords utt.items, ∀ part ∈ splitCompoundFiller word, part = "")

/-- For one utterance, whatever segment was merged for it. -/
theorem injects_iff_tokenCountsAgree {utt : Utterance} {nextStart : Option ℕ}
    {merged : AsrSegment}
    (isMerged : MergedSegment (utteranceForFa utt, reusableWorSegment utt nextStart) merged) :
    (merged.words = [] ∨ partCount utt = merged.words.length) ↔
      TokenCountsAgree utt nextStart := by
  have reusable := reusableWorSegment_isSome_iff utt nextStart
  cases reused : reusableWorSegment utt nextStart with
  | some segment =>
      have isReusable : Reusable utt nextStart := by
        apply reusable.mp
        rw [reused]
        rfl
      rcases reusableWorSegment_words_length reused with ⟨count, hasWords⟩
      simp only [MergedSegment, reused] at isMerged
      subst isMerged
      have positive := List.length_pos_iff.mpr hasWords
      have notEmpty : merged.words ≠ [] := by
        apply List.length_pos_iff.mp
        omega
      simp [TokenCountsAgree, isReusable, notEmpty, count]
  | none =>
      have stale : ¬ Reusable utt nextStart := by
        intro isReusable
        have isSome := reusable.mpr isReusable
        rw [reused] at isSome
        cases isSome
      simp only [MergedSegment, reused] at isMerged
      have sent : (utteranceForFa utt).words.length =
          ((faWords utt.items).flatMap fun word =>
            (splitCompoundFiller word).filter (· ≠ "")).length := by
        simp [utteranceForFa]
      rw [← List.length_eq_zero_iff, isMerged, sent, List.length_eq_zero_iff, sent_empty_iff,
        partCount, sent_count_iff]
      simp only [TokenCountsAgree, stale, false_implies, true_and, not_false_eq_true, true_implies]
      exact or_comm

omit [Talkbank] in
theorem forall₂_iff_forall_mem {α β : Type} {related holds : α → β → Prop}
    {condition : α → Prop} {as : List α} {bs : List β} (pairs : List.Forall₂ related as bs)
    (agrees : ∀ a b, related a b → (holds a b ↔ condition a)) :
    List.Forall₂ holds as bs ↔ ∀ a ∈ as, condition a := by
  induction pairs with
  | nil => simp
  | cons isRelated _ ih =>
      rw [List.forall₂_cons, List.forall_mem_cons, ih, agrees _ _ isRelated]

/-- For every answer that has a word for every dispatched word, merging and injecting
succeed exactly when the token counts agree for every utterance. -/
theorem applyAnswer_isOk_iff (chat : ChatFile) (answer : List AsrSegment)
    (answers : AnswersDispatch (dispatchedUtterances chat) answer) :
    (applyAnswer chat answer).1 = .ok () ↔
      ∀ utt ∈ utterancesWithNext chat, TokenCountsAgree utt.1 utt.2 := by
  have utterances : (utterancesWithNext chat).map Prod.fst = chat.utterances :=
    List.map_fst_zip (nextStarts_length _).ge
  have paired : (extractUtterancesForFa chat).zip (collectReusableWorSegments chat) =
      (utterancesWithNext chat).map fun utt =>
        (utteranceForFa utt.1, reusableWorSegment utt.1 utt.2) := by
    have extracted : extractUtterancesForFa chat =
        (utterancesWithNext chat).map (utteranceForFa ∘ Prod.fst) := by
      rw [← List.map_map, utterances]
      rfl
    rw [extracted]
    exact List.zip_map'
  simp only [dispatchedUtterances] at answers
  rw [paired] at answers
  rcases mergeReusedAndFreshSegments_ok answers with ⟨merged, isMerged, segments⟩
  have reused : ((utterancesWithNext chat).map fun utt =>
      (utteranceForFa utt.1, reusableWorSegment utt.1 utt.2)).map Prod.snd =
      collectReusableWorSegments chat := by
    rw [List.map_map]
    rfl
  rw [reused] at isMerged
  simp only [applyAnswer, isMerged]
  rw [injectWordTimings_isOk_iff, ← utterances, List.forall₂_map_left_iff]
  apply forall₂_iff_forall_mem (List.forall₂_map_left_iff.mp segments)
  intro utt segment isSegment
  exact injects_iff_tokenCountsAgree isSegment

end Counts

section Instances

variable [Talkbank]

instance (utt : Utterance) (nextStart : Option ℕ) : Decidable (Reusable utt nextStart) :=
  decidable_of_iff _ (reusableWorSegment_isSome_iff utt nextStart)

instance (utt : Utterance) (nextStart : Option ℕ) : Decidable (TokenCountsAgree utt nextStart) :=
  inferInstanceAs (Decidable (_ ∧ _))

def utteranceOf (words worWords : List Word) : Utterance :=
  { Utterance.new (MainTier.new "PAR0" (words.map .word) .period) with
    dependentTiers := if worWords.isEmpty then [] else [.wor (WorTier.fromWords worWords)] }

def chatOf (utts : List Utterance) : ChatFile where
  participants := ⟨[], List.nodup_nil⟩
  lines := utts.map .utterance

def answerOf (words : List AsrWord) : AsrSegment where
  startMs := 0
  endMs := 0
  text := joinedText words
  speaker := none
  words := words

end Instances

/-- A reused utterance with a plain filler beside a dispatched one with a compound filler:
the counts agree and the stage succeeds. -/
theorem applyAnswer_isOk_iff_mixed :
    (applyAnswer
      (chatOf [utteranceOf [filler "uh", Word.simple "today"]
          [timedWord "uh" 0 400, timedWord "today" 400 900],
        utteranceOf [filler "you_know", Word.simple "hello"] []])
      [answerOf [⟨"you", 1000, 1100, none⟩, ⟨"know", 1100, 1200, none⟩,
        ⟨"hello", 1200, 1500, none⟩]]).1 = .ok () := by
  apply (applyAnswer_isOk_iff _ _ ?_).mpr
  · decide
  · exact .cons (by decide) .nil

/-- A reused utterance with a compound filler beside a stale one: the reused segment has two
words where the collapse expects three tokens. -/
theorem reused_compoundFiller_fails :
    let chat := chatOf [utteranceOf [filler "you_know", Word.simple "today"]
        [timedWord "you_know" 0 400, timedWord "today" 400 900],
      utteranceOf [Word.simple "hello"] []]
    let answer := [answerOf [⟨"hello", 1200, 1500, none⟩]]
    AnswersDispatch (dispatchedUtterances chat) answer ∧
      (applyAnswer chat answer).1 = .error (.internal
        "FA: missing aligned token(s) for source word \"today\" at expanded range 2..3") := by
  refine ⟨.cons (by decide) .nil, ?_⟩
  rfl

end Batchalign.Fa
