import Batchalign.Fa.Runner

/-!
# Word times and the bullet around them

Freshly injected words lie in the new bullet of their utterance, as long as no near-zero word
is extended past 64 bits. The repair then edits bullets but no words: it takes the `%wor` tier of
an utterance that it strips, and leaves the words of one that it cuts. An utterance without
aligned words keeps an older `%wor` tier that nothing has checked.
-/

namespace Batchalign.Fa

open Batchalign.Chat

section Windows

/-- Every word has a duration and lies in the window. -/
def Inside (window : Option Timing) (words : List Timing) : Prop :=
  ∀ word ∈ words, word.startMs < word.endMs ∧
    ∃ around ∈ window, around.startMs ≤ word.startMs ∧ word.endMs ≤ around.endMs

instance (window : Option Timing) (words : List Timing) : Decidable (Inside window words) :=
  inferInstanceAs (Decidable (∀ _ ∈ _, _ ∧ _))

/-- The windows of the timed words. -/
def inlineTimings (words : List Word) : List Timing :=
  words.filterMap fun word => word.inlineBullet.map Bullet.timing

def worTiers (utt : Utterance) : List WorTier := utt.dependentTiers.filterMap DependentTier.wor?

/-- The windows of the timed words on all the `%wor` tiers. -/
def worTimings (utt : Utterance) : List Timing :=
  (worTiers utt).flatMap fun wor => inlineTimings wor.words

/-- The timed `%wor` words lie in the main bullet, and where there are any there is one. -/
def WordsInside (utt : Utterance) : Prop := Inside (utt.bullet.map Bullet.timing) (worTimings utt)

instance (utt : Utterance) : Decidable (WordsInside utt) :=
  inferInstanceAs (Decidable (Inside _ _))

@[simp]
theorem inside_nil (window : Option Timing) : Inside window [] := by simp [Inside]

theorem inside_some_iff {window : Timing} {words : List Timing} :
    Inside (some window) words ↔ ∀ word ∈ words, word.startMs < word.endMs ∧
      window.startMs ≤ word.startMs ∧ word.endMs ≤ window.endMs := by
  simp [Inside]

theorem inside_append {window : Option Timing} {left right : List Timing} :
    Inside window (left ++ right) ↔ Inside window left ∧ Inside window right := by
  simp only [Inside, List.forall_mem_append]

theorem inside_none_iff {words : List Timing} : Inside none words ↔ words = [] := by
  simp [Inside, List.eq_nil_iff_forall_not_mem]

theorem worTiers_filter (tiers : List DependentTier) :
    (tiers.filter fun tier => !tier.isWor).filterMap DependentTier.wor? = [] := by
  apply List.filterMap_eq_nil_iff.mpr
  intro tier member
  have notWor := (List.mem_filter.mp member).2
  cases tier with
  | wor wor => cases notWor
  | _ => rfl

@[simp]
theorem worTimings_stripTiming (utt : Utterance) : worTimings (stripTiming utt) = [] := by
  rw [worTimings, worTiers, stripTiming, worTiers_filter, List.flatMap_nil]

@[simp]
theorem worTimings_withBullet (utt : Utterance) (bullet : Option Bullet) :
    worTimings (utt.withBullet bullet) = worTimings utt := rfl

@[simp]
theorem wordsInside_stripTiming (utt : Utterance) : WordsInside (stripTiming utt) := by
  rw [WordsInside, worTimings_stripTiming]
  exact inside_nil _

end Windows

section Rebalance

/-- A timed word has a duration and lies in the window. -/
def Spoken (window : Timing) (word : Word) : Prop :=
  ∀ bullet ∈ word.inlineBullet, bullet.timing.startMs < bullet.timing.endMs ∧
    window.startMs ≤ bullet.timing.startMs ∧ bullet.timing.endMs ≤ window.endMs

/-- The word ends before it starts. -/
def Broken (word : Word) : Prop :=
  ∃ bullet ∈ word.inlineBullet, bullet.timing.endMs ≤ bullet.timing.startMs

theorem nearZero_iff (bullet : Bullet) :
    nearZero bullet = true ↔ bullet.timing.startMs < bullet.timing.endMs ∧
      bullet.timing.endMs < bullet.timing.startMs + minWordDurationMs := by
  simp only [nearZero, Bool.and_eq_true, ne_eq, decide_eq_true_eq]
  omega

/-- The boundary after a near-zero word lies in the next word, or it wraps around and the word
ends before it starts. -/
theorem repairFromFollowing_spoken {window : Timing} {current next : Word}
    (currentSpoken : Spoken window current) (nextSpoken : Spoken window next) :
    (Spoken window (repairFromFollowing current next).1 ∧
        Spoken window (repairFromFollowing current next).2) ∨
      Broken (repairFromFollowing current next).1 := by
  unfold repairFromFollowing
  split
  · rename_i currentBullet nextBullet isCurrent isNext
    have currentTimes := currentSpoken currentBullet isCurrent
    have nextTimes := nextSpoken nextBullet isNext
    dsimp only
    split
    · rename_i repaired
      simp only [Bool.and_eq_true, decide_eq_true_eq, nearZero_iff] at repaired
      rcases Nat.lt_or_ge (currentBullet.timing.startMs + minWordDurationMs) (2 ^ 64) with
        fits | wraps
      · left
        simp only [Spoken, withEnd, withStart, Word.withInlineBullet, Option.mem_some_iff,
          forall_eq']
        omega
      · right
        have short : minWordDurationMs < 2 ^ 64 := by decide
        refine ⟨_, rfl, ?_⟩
        simp only
        omega
    · exact Or.inl ⟨currentSpoken, nextSpoken⟩
  · exact Or.inl ⟨currentSpoken, nextSpoken⟩

theorem repairFromPreceding_spoken {window : Timing} {previous current : Word}
    (previousSpoken : Spoken window previous) (currentSpoken : Spoken window current) :
    Spoken window (repairFromPreceding previous current).1 ∧
      Spoken window (repairFromPreceding previous current).2 := by
  unfold repairFromPreceding
  split
  · rename_i previousBullet currentBullet isPrevious isCurrent
    have previousTimes := previousSpoken previousBullet isPrevious
    have currentTimes := currentSpoken currentBullet isCurrent
    dsimp only
    split
    · rename_i repaired
      simp only [Bool.and_eq_true, decide_eq_true_eq, nearZero_iff] at repaired
      simp only [Spoken, withEnd, withStart, Word.withInlineBullet, Option.mem_some_iff,
        forall_eq']
      omega
    · exact ⟨previousSpoken, currentSpoken⟩
  · exact ⟨previousSpoken, currentSpoken⟩

/-- The second pass takes no time from a word without any, and gives it none. -/
theorem repairFromPreceding_broken {previous current : Word}
    (broken : Broken previous ∨ Broken current) :
    repairFromPreceding previous current = (previous, current) := by
  unfold repairFromPreceding
  split
  · rename_i previousBullet currentBullet isPrevious isCurrent
    simp only [Broken, isPrevious, isCurrent, Option.mem_some_iff, exists_eq_left'] at broken
    dsimp only
    split
    · rename_i repaired
      simp only [Bool.and_eq_true, decide_eq_true_eq, nearZero_iff] at repaired
      omega
    · rfl
  · rfl

theorem following_spoken {window : Timing} {current : Word} {words : List Word}
    (spoken : ∀ word ∈ current :: words, Spoken window word) :
    (∀ word ∈ sweepFrom repairFromFollowing current words, Spoken window word) ∨
      ∃ word ∈ sweepFrom repairFromFollowing current words, Broken word := by
  induction words generalizing current with
  | nil => exact Or.inl spoken
  | cons next words ih =>
      simp only [List.forall_mem_cons] at spoken
      simp only [sweepFrom, List.forall_mem_cons, List.exists_mem_cons_iff]
      rcases repairFromFollowing_spoken spoken.1 spoken.2.1 with both | broken
      · rcases ih (List.forall_mem_cons.mpr ⟨both.2, spoken.2.2⟩) with rest | broken
        · exact Or.inl ⟨both.1, rest⟩
        · exact Or.inr (Or.inr broken)
      · exact Or.inr (Or.inl broken)

theorem preceding_spoken {window : Timing} {previous : Word} {words : List Word}
    (spoken : ∀ word ∈ previous :: words, Spoken window word) :
    ∀ word ∈ sweepFrom repairFromPreceding previous words, Spoken window word := by
  induction words generalizing previous with
  | nil => exact spoken
  | cons current words ih =>
      simp only [List.forall_mem_cons] at spoken
      have both := repairFromPreceding_spoken spoken.1 spoken.2.1
      rw [sweepFrom, List.forall_mem_cons]
      exact ⟨both.1, ih (List.forall_mem_cons.mpr ⟨both.2, spoken.2.2⟩)⟩

theorem preceding_broken {previous : Word} {words : List Word}
    (broken : ∃ word ∈ previous :: words, Broken word) :
    ∃ word ∈ sweepFrom repairFromPreceding previous words, Broken word := by
  induction words generalizing previous with
  | nil => exact broken
  | cons current words ih =>
      simp only [List.exists_mem_cons_iff] at broken
      rw [sweepFrom, List.exists_mem_cons_iff]
      rcases broken with first | second | later
      · rw [repairFromPreceding_broken (Or.inl first)]
        exact Or.inl first
      · rw [repairFromPreceding_broken (Or.inr second)]
        exact Or.inr (ih ⟨current, List.mem_cons_self, second⟩)
      · rcases later with ⟨word, member, broken⟩
        exact Or.inr (ih ⟨word, List.mem_cons_of_mem _ member, broken⟩)

/-- The rebalanced words stay in the window, unless one of them is left without duration. -/
theorem rebalanced_spoken {window : Timing} {words : List Word}
    (spoken : ∀ word ∈ words, Spoken window word) :
    let rebalanced :=
      rebalanceNearZeroWordsFromPreceding (rebalanceNearZeroWordsFromFollowing words)
    (∀ word ∈ rebalanced, ¬ Broken word) → ∀ word ∈ rebalanced, Spoken window word := by
  intro rebalanced unbroken
  cases words with
  | nil =>
      simp [rebalanced, rebalanceNearZeroWordsFromPreceding, rebalanceNearZeroWordsFromFollowing,
        sweep]
  | cons first words =>
      change ∀ word ∈ sweep repairFromPreceding (sweepFrom repairFromFollowing first words), _
        at unbroken
      change ∀ word ∈ sweep repairFromPreceding (sweepFrom repairFromFollowing first words), _
      have once := following_spoken spoken
      generalize sweepFrom repairFromFollowing first words = swept at unbroken once
      cases swept with
      | nil => simp [sweep]
      | cons first words =>
          rcases once with spoken | broken
          · exact preceding_spoken spoken
          · rcases preceding_broken broken with ⟨word, member, broken⟩
            exact absurd broken (unbroken word member)

theorem sweep_untimed {repair : Word → Word → Word × Word} {words : List Word}
    (untimed : ∀ word ∈ words, word.inlineBullet = none)
    (keeps : ∀ current next : Word, current.inlineBullet = none →
      repair current next = (current, next)) :
    sweep repair words = words := by
  cases words with
  | nil => rfl
  | cons current words =>
      rw [sweep]
      induction words generalizing current with
      | nil => rfl
      | cons next words ih =>
          rcases List.forall_mem_cons.mp untimed with ⟨noTime, rest⟩
          rw [sweepFrom, keeps current next noTime, ih next rest]

theorem rebalanced_untimed {words : List Word}
    (untimed : ∀ word ∈ words, word.inlineBullet = none) :
    rebalanceNearZeroWordsFromPreceding (rebalanceNearZeroWordsFromFollowing words) = words := by
  have following : rebalanceNearZeroWordsFromFollowing words = words := by
    apply sweep_untimed untimed
    intro current next noTime
    rw [repairFromFollowing, noTime]
  rw [following]
  apply sweep_untimed untimed
  intro previous current noTime
  rw [repairFromPreceding, noTime]

end Rebalance

section Collapse

/-- The fold of the span. -/
def extendSpan (span : Option (ℕ × ℕ)) (word : AsrWord) : Option (ℕ × ℕ) :=
  match span with
  | some (startMs, endMs) => some (min startMs word.startMs, max endMs word.endMs)
  | none => some (word.startMs, word.endMs)

/-- The span holds all the words with a duration, and one of them starts and one ends it. -/
structure SpanOf (words : List AsrWord) (span : Timing) : Prop where
  around : ∀ word ∈ words, word.startMs < word.endMs →
    span.startMs ≤ word.startMs ∧ word.endMs ≤ span.endMs
  first : ∃ word ∈ words, word.startMs < word.endMs ∧ word.startMs = span.startMs
  last : ∃ word ∈ words, word.startMs < word.endMs ∧ word.endMs = span.endMs

theorem SpanOf.forward {words : List AsrWord} {span : Timing} (spans : SpanOf words span) :
    span.startMs < span.endMs := by
  rcases spans.first with ⟨word, member, forward, starts⟩
  have around := spans.around word member forward
  omega

theorem foldl_extendSpan {seen words : List AsrWord} {startMs endMs : ℕ}
    (spans : SpanOf seen ⟨startMs, endMs⟩)
    (timed : ∀ word ∈ words, word.startMs < word.endMs) :
    ∃ startMs' endMs', words.foldl extendSpan (some (startMs, endMs)) = some (startMs', endMs') ∧
      SpanOf (seen ++ words) ⟨startMs', endMs'⟩ := by
  induction words generalizing seen startMs endMs with
  | nil => exact ⟨startMs, endMs, rfl, by rwa [List.append_nil]⟩
  | cons word words ih =>
      rcases List.forall_mem_cons.mp timed with ⟨forward, timed⟩
      have extended : SpanOf (seen ++ [word])
          ⟨min startMs word.startMs, max endMs word.endMs⟩ := by
        constructor
        · intro other member isTimed
          rcases List.mem_append.mp member with before | here
          · have around := spans.around other before isTimed
            simp only at around ⊢
            omega
          · rw [List.mem_singleton.mp here]
            simp
        · rcases spans.first with ⟨other, member, isTimed, starts⟩
          rcases Nat.le_total startMs word.startMs with earlier | later
          · exact ⟨other, by simp [member], isTimed, by simp [starts, earlier]⟩
          · exact ⟨word, by simp, forward, by simp [later]⟩
        · rcases spans.last with ⟨other, member, isTimed, ends⟩
          rcases Nat.le_total endMs word.endMs with earlier | later
          · exact ⟨word, by simp, forward, by simp [earlier]⟩
          · exact ⟨other, by simp [member], isTimed, by simp [ends, later]⟩
      rw [List.append_cons]
      exact ih extended timed

theorem SpanOf.of_filter {words : List AsrWord} {span : Timing}
    (spans : SpanOf (words.filter fun word => word.endMs > word.startMs) span) :
    SpanOf words span := by
  constructor
  · intro word member forward
    exact spans.around word (List.mem_filter.mpr ⟨member, by simpa using forward⟩) forward
  · rcases spans.first with ⟨word, member, first⟩
    exact ⟨word, (List.mem_filter.mp member).1, first⟩
  · rcases spans.last with ⟨word, member, last⟩
    exact ⟨word, (List.mem_filter.mp member).1, last⟩

/-- There is a span exactly when a word has a duration. -/
theorem timedWordSpan_spans (words : List AsrWord) :
    (timedWordSpan words = none ∧ ∀ word ∈ words, ¬ word.startMs < word.endMs) ∨
      ∃ startMs endMs, timedWordSpan words = some (startMs, endMs) ∧
        SpanOf words ⟨startMs, endMs⟩ := by
  change ((words.filter fun word => word.endMs > word.startMs).foldl extendSpan none = none ∧ _) ∨
    ∃ startMs endMs, (words.filter fun word => word.endMs > word.startMs).foldl extendSpan none =
      some (startMs, endMs) ∧ _
  have timed : ∀ word ∈ words.filter fun word => word.endMs > word.startMs,
      word.startMs < word.endMs := by
    intro word member
    simpa using (List.mem_filter.mp member).2
  cases filtered : words.filter fun word => word.endMs > word.startMs with
  | nil =>
      left
      refine ⟨rfl, ?_⟩
      intro word member forward
      have inside : word ∈ words.filter fun word => word.endMs > word.startMs :=
        List.mem_filter.mpr ⟨member, by simpa using forward⟩
      rw [filtered] at inside
      cases inside
  | cons first rest =>
      right
      rw [filtered] at timed
      rcases List.forall_mem_cons.mp timed with ⟨forward, timed⟩
      have single : SpanOf [first] ⟨first.startMs, first.endMs⟩ := by
        constructor
        · simp
        · exact ⟨first, List.mem_singleton_self _, forward, rfl⟩
        · exact ⟨first, List.mem_singleton_self _, forward, rfl⟩
      rcases foldl_extendSpan single timed with ⟨startMs, endMs, folded, spans⟩
      rw [List.singleton_append, ← filtered] at spans
      exact ⟨startMs, endMs, folded, spans.of_filter⟩

/-- A word of the collapse gets its time from tokens of the answer. -/
theorem collapseFrom_words {aligned : List AsrWord} {cursor : ℕ}
    {sourceWords : List (String × ℕ)} {words : List Word}
    (collapsed : collapseFrom aligned cursor sourceWords = .ok words) :
    ∀ word ∈ words, ∃ text parts, parts ⊆ aligned ∧ word = collapsedWord text parts := by
  induction sourceWords generalizing cursor words with
  | nil =>
      rw [collapseFrom] at collapsed
      split at collapsed
      · cases collapsed
      · cases collapsed
        simp
  | cons sourceWord sourceWords ih =>
      rcases sourceWord with ⟨text, partCount⟩
      simp only [collapseFrom] at collapsed
      split at collapsed
      · cases collapsed
      · rcases rest : collapseFrom aligned (cursor + partCount) sourceWords with error | later
        · rw [rest] at collapsed
          cases collapsed
        · rw [rest] at collapsed
          cases collapsed
          refine List.forall_mem_cons.mpr ⟨⟨text, _, ?_, rfl⟩, ih rest⟩
          exact List.Subset.trans (List.take_subset _ _) (List.drop_subset _ _)

/-- The timed words of a collapse have a duration and lie in the span of the answer. -/
theorem collapsedWord_spoken {aligned parts : List AsrWord} {span : Timing} (text : String)
    (spans : SpanOf aligned span) (inside : parts ⊆ aligned) :
    Spoken span (collapsedWord text parts) := by
  rcases timedWordSpan_spans parts with ⟨untimed, _⟩ | ⟨startMs, endMs, timed, part⟩
  · simp [Spoken, collapsedWord, untimed, Word.simple]
  · simp only [Spoken, collapsedWord, timed, Word.withInlineBullet, Option.mem_some_iff,
      forall_eq', Bullet.new]
    rcases part.first with ⟨first, isFirst, firstForward, starts⟩
    rcases part.last with ⟨last, isLast, lastForward, ends⟩
    have before := spans.around first (inside isFirst) firstForward
    have after := spans.around last (inside isLast) lastForward
    have forward := part.forward
    simp only at starts ends forward
    omega

/-- Without a token that has a duration nothing is timed. -/
theorem collapsedWord_untimed {aligned parts : List AsrWord} (text : String)
    (untimed : ∀ word ∈ aligned, ¬ word.startMs < word.endMs) (inside : parts ⊆ aligned) :
    (collapsedWord text parts).inlineBullet = none := by
  rcases timedWordSpan_spans parts with ⟨none_, _⟩ | ⟨startMs, endMs, _, part⟩
  · rw [collapsedWord, none_]
    rfl
  · rcases part.first with ⟨word, member, forward, _⟩
    exact absurd forward (untimed word (inside member))

end Collapse

section Injection

theorem filterMap_replaceWorTier (tiers : List DependentTier) (wor : WorTier) :
    (replaceWorTier tiers wor).filterMap DependentTier.wor? = [wor] := by
  unfold replaceWorTier
  dsimp only
  split
  · rename_i position _
    have inserted := List.perm_insertIdx (.wor wor) (tiers.filter fun tier => !tier.isWor)
      (Nat.min_le_right position _)
    have mapped := inserted.filterMap DependentTier.wor?
    rw [List.filterMap_cons, worTiers_filter] at mapped
    exact List.perm_singleton.mp mapped
  · rw [List.filterMap_append, worTiers_filter]
    rfl

theorem mem_inlineTimings {words : List Word} {timing : Timing} :
    timing ∈ inlineTimings words ↔
      ∃ word ∈ words, ∃ bullet ∈ word.inlineBullet, bullet.timing = timing := by
  simp [inlineTimings]

theorem inside_inlineTimings_iff {window : Timing} {words : List Word} :
    Inside (some window) (inlineTimings words) ↔ ∀ word ∈ words, Spoken window word := by
  simp only [inside_some_iff, mem_inlineTimings, Spoken]
  grind

/-- The new bullet is around the span of the answer. -/
theorem refinedBullet_around (bullet : Option Bullet) (startMs endMs : ℕ)
    (hadWorTier hasUntimedLeadingFiller : Bool) :
    ∃ refined, refinedBullet bullet (some (startMs, endMs)) hadWorTier hasUntimedLeadingFiller =
        some refined ∧ refined.timing.startMs ≤ startMs ∧ endMs ≤ refined.timing.endMs := by
  unfold refinedBullet
  split
  · rename_i wordStartMs wordEndMs isSpan
    cases isSpan
    split
    · refine ⟨_, rfl, ?_, ?_⟩
      · simp only [Bullet.new]
        split <;> omega
      · exact Nat.le_max_right _ _
    · exact ⟨_, rfl, le_rfl, le_rfl⟩
  · rename_i noSpan
    cases noSpan

/-- What an injection leaves: no bullet and no timed words, or a bullet around the words if each
of them has a duration. -/
structure Injected (utt : Utterance) : Prop where
  untimed : utt.bullet = none → worTimings utt = []
  around : (∀ word ∈ worTimings utt, word.startMs < word.endMs) → WordsInside utt

variable [Talkbank]

/-- What an injection makes of the words and of the bullet. -/
theorem injectUtterance_ok {utt injected : Utterance} {seg : AsrSegment}
    (hasWords : seg.words ≠ []) (made : injectUtterance utt seg = .ok injected) :
    ∃ collapsed hadWorTier hasUntimedLeadingFiller,
      collapseAlignedWords utt.items seg.words = .ok collapsed ∧
      worTimings injected = inlineTimings (rebalanceNearZeroWordsFromPreceding
        (rebalanceNearZeroWordsFromFollowing collapsed)) ∧
      injected.bullet = refinedBullet utt.bullet (timedWordSpan seg.words) hadWorTier
        hasUntimedLeadingFiller := by
  unfold injectUtterance at made
  rw [if_neg (by simpa using hasWords)] at made
  rcases collapse : collapseAlignedWords utt.items seg.words with error | collapsed
  · rw [collapse] at made
    cases made
  · rw [collapse] at made
    cases made
    refine ⟨collapsed, _, _, rfl, ?_, rfl⟩
    rw [worTimings, worTiers, filterMap_replaceWorTier, List.flatMap_singleton]
    congr 1
    simp [WorTier.words, WorTier.withTerminator, WorTier.fromWords, List.filterMap_map]

theorem injectUtterance_injected {utt injected : Utterance} {seg : AsrSegment}
    (hasWords : seg.words ≠ []) (made : injectUtterance utt seg = .ok injected) :
    Injected injected := by
  rcases injectUtterance_ok hasWords made with
    ⟨collapsed, hadWorTier, hasFiller, collapse, timings, isBullet⟩
  have fromTokens := collapseFrom_words collapse
  rcases timedWordSpan_spans seg.words with ⟨noSpan, untimed⟩ | ⟨startMs, endMs, span, spans⟩
  · have noTimes : ∀ word ∈ collapsed, word.inlineBullet = none := by
      intro word member
      rcases fromTokens word member with ⟨text, parts, inside, rfl⟩
      exact collapsedWord_untimed text untimed inside
    have none_ : worTimings injected = [] := by
      rw [timings, rebalanced_untimed noTimes]
      simpa [inlineTimings] using noTimes
    constructor
    · exact fun _ => none_
    · intro _
      rw [WordsInside, none_]
      exact inside_nil _
  · have spoken : ∀ word ∈ collapsed, Spoken ⟨startMs, endMs⟩ word := by
      intro word member
      rcases fromTokens word member with ⟨text, parts, inside, rfl⟩
      exact collapsedWord_spoken text spans inside
    rcases refinedBullet_around utt.bullet startMs endMs hadWorTier hasFiller with
      ⟨refined, isRefined, before, after⟩
    rw [span, isRefined] at isBullet
    constructor
    · intro noBullet
      rw [isBullet] at noBullet
      cases noBullet
    · intro durations
      rw [timings] at durations
      rw [WordsInside, timings, isBullet, Option.map_some]
      have unbroken : ∀ word ∈ rebalanceNearZeroWordsFromPreceding
          (rebalanceNearZeroWordsFromFollowing collapsed), ¬ Broken word := by
        rintro word member ⟨bullet, isWordBullet, backward⟩
        have duration := durations bullet.timing
          (mem_inlineTimings.mpr ⟨word, member, bullet, isWordBullet, rfl⟩)
        omega
      have inSpan := inside_some_iff.mp
        (inside_inlineTimings_iff.mpr (rebalanced_spoken spoken unbroken))
      apply inside_some_iff.mpr
      intro word member
      have bounds := inSpan word member
      simp only at bounds
      omega

end Injection

section Repair

/-- The repair leaves no word behind: it takes the tier, or what remains of the bullet is around
the words. Injected words only need to end by the next start. -/
def KeepsWords (seg : AsrSegment) (utt : Utterance) (nextStart : Option ℕ) : Prop :=
  match utt.bullet with
  | none => seg.words = [] → worTimings utt = []
  | some ⟨timing, _⟩ =>
      (nextStart = some timing.startMs ∧ timing.startMs < timing.endMs) ∨
        if seg.words = [] then
          Inside (some ⟨timing.startMs, nextStart.elim timing.endMs (min timing.endMs)⟩)
            (worTimings utt)
        else
          ∀ word ∈ worTimings utt, word.startMs < word.endMs ∧
            ∀ start ∈ nextStart, word.endMs ≤ start

/-- The utterances with their segments, before the repair. `lastStartMs` is the last start that
was kept; the next start is the first one that does not go behind. -/
def RepairKeepsWords : ℕ → List (Utterance × AsrSegment) → Prop
  | _, [] => True
  | lastStartMs, (utt, seg) :: rows =>
      match bulletStart utt with
      | none => KeepsWords seg utt none ∧ RepairKeepsWords lastStartMs rows
      | some startMs =>
          if startMs < lastStartMs then RepairKeepsWords lastStartMs rows
          else
            KeepsWords seg utt
                (rows.findSome? fun row => (bulletStart row.1).filter (startMs ≤ ·)) ∧
              RepairKeepsWords startMs rows

/-- An utterance after the second pass. -/
def repairedUtterance (utt : Utterance) (nextStart : Option ℕ) : Utterance :=
  match utt.bullet, nextStart with
  | some bullet, some nextStartMs => (repairEnd utt bullet nextStartMs).2
  | _, _ => utt

theorem repairedUtterance_untimed {utt : Utterance} (untimed : utt.bullet = none)
    (nextStart : Option ℕ) : repairedUtterance utt nextStart = utt := by
  unfold repairedUtterance
  rw [untimed]

theorem repairEnds_utterance (utt : Utterance) (lines : List Line) :
    (repairEnds (.utterance utt :: lines)).2 =
      .utterance (repairedUtterance utt (lines.findSome? lineStart)) :: (repairEnds lines).2 := by
  rw [repairEnds]
  unfold repairedUtterance
  cases utt.bullet with
  | none => rfl
  | some bullet =>
      cases lines.findSome? lineStart with
      | none => rfl
      | some nextStartMs => rfl

/-- The next start of the second pass is the first later one that does not go behind. -/
theorem findSome?_stripBackward (startMs : ℕ) (lines : List Line) :
    (stripBackward startMs lines).2.findSome? lineStart =
      (lines.filterMap Line.utterance?).findSome? fun utt =>
        (bulletStart utt).filter (startMs ≤ ·) := by
  induction lines with
  | nil => rfl
  | cons line lines ih =>
      cases line with
      | utterance utt =>
          rw [stripBackward, List.filterMap_cons_some (by rfl), List.findSome?_cons]
          rcases start : bulletStart utt with _ | later
          · simp only [List.findSome?_cons, lineStart, start, ih, Option.filter_none]
          · simp only [Option.filter_some]
            split
            · rename_i behind
              have passed : ¬ startMs ≤ later := by omega
              simp only [List.findSome?_cons, lineStart, passed, decide_false, ih]
              rfl
            · rename_i forward
              have kept : startMs ≤ later := by omega
              simp only [List.findSome?_cons, lineStart, start, kept, decide_true, if_true]
      | header header => exact ih
      | other text => exact ih

/-- An utterance keeps its words in the repair exactly when it leaves none behind. -/
theorem wordsInside_repaired_iff {utt : Utterance} {seg : AsrSegment} {nextStart : Option ℕ}
    (injected : seg.words ≠ [] → Injected utt)
    (forward : ∀ bullet ∈ utt.bullet, ∀ start ∈ nextStart, bullet.timing.startMs ≤ start) :
    WordsInside (repairedUtterance utt nextStart) ↔ KeepsWords seg utt nextStart := by
  unfold repairedUtterance KeepsWords
  rcases isBullet : utt.bullet with _ | ⟨timing, source⟩
  · dsimp only
    rw [WordsInside, isBullet, Option.map_none, inside_none_iff]
    constructor
    · exact fun untimed _ => untimed
    · intro untimed
      by_cases noWords : seg.words = []
      · exact untimed noWords
      · exact (injected noWords).untimed isBullet
  · have around : seg.words ≠ [] → (∀ word ∈ worTimings utt, word.startMs < word.endMs) →
        ∀ word ∈ worTimings utt, timing.startMs ≤ word.startMs ∧ word.endMs ≤ timing.endMs := by
      intro hasWords durations word member
      have inside := (injected hasWords).around durations
      rw [WordsInside, isBullet, Option.map_some, inside_some_iff] at inside
      exact (inside word member).2
    cases nextStart with
    | none =>
        dsimp only
        rw [WordsInside, isBullet, Option.map_some, inside_some_iff]
        split
        · simp [inside_some_iff]
        · rename_i hasWords
          simp only [reduceCtorEq, false_and, false_or, Option.not_mem_none, false_imp_iff,
            implies_true, and_true]
          constructor
          · exact fun inside word member => (inside word member).1
          · exact fun durations word member =>
              ⟨durations word member, around hasWords durations word member⟩
    | some start =>
        have forward := forward ⟨timing, source⟩ isBullet start rfl
        simp only at forward
        simp only [repairEnd, Option.some_inj, Option.elim_some, Option.mem_some_iff, forall_eq']
        split
        · rename_i before
          have notStripped : ¬ (start = timing.startMs ∧ timing.startMs < timing.endMs) := by omega
          rw [or_iff_right notStripped, Nat.min_eq_left before, WordsInside, isBullet,
            Option.map_some]
          split
          · exact Iff.rfl
          · rename_i hasWords
            rw [inside_some_iff]
            constructor
            · intro inside word member
              have bounds := inside word member
              exact ⟨bounds.1, bounds.2.2.trans before⟩
            · intro kept word member
              exact ⟨(kept word member).1,
                around hasWords (fun word member => (kept word member).1) word member⟩
        · rename_i past
          split
          · rename_i behind
            have stripped : start = timing.startMs ∧ timing.startMs < timing.endMs := by omega
            exact iff_of_true (wordsInside_stripTiming utt) (Or.inl stripped)
          · rename_i ahead
            have notStripped : ¬ (start = timing.startMs ∧ timing.startMs < timing.endMs) := by
              omega
            rw [or_iff_right notStripped, Nat.min_eq_right (by omega), WordsInside,
              worTimings_withBullet, Utterance.withBullet_bullet, Option.map_some]
            split
            · exact Iff.rfl
            · rename_i hasWords
              rw [inside_some_iff]
              constructor
              · intro inside word member
                have bounds := inside word member
                exact ⟨bounds.1, bounds.2.2⟩
              · intro kept word member
                have bounds := around hasWords (fun word member => (kept word member).1) word member
                exact ⟨(kept word member).1, bounds.1, (kept word member).2⟩

theorem repaired_wordsInside_iff {lines : List Line} {rows : List (Utterance × AsrSegment)}
    (same : lines.filterMap Line.utterance? = rows.map Prod.fst)
    (injected : ∀ row ∈ rows, row.2.words ≠ [] → Injected row.1) (lastStartMs : ℕ) :
    (∀ utt ∈ (repairEnds (stripBackward lastStartMs lines).2).2.filterMap Line.utterance?,
      WordsInside utt) ↔ RepairKeepsWords lastStartMs rows := by
  induction lines generalizing rows lastStartMs with
  | nil =>
      rw [List.filterMap_nil, eq_comm, List.map_eq_nil_iff] at same
      subst same
      simp [stripBackward, repairEnds, RepairKeepsWords]
  | cons line lines ih =>
      cases line with
      | utterance utt =>
          rw [List.filterMap_cons_some (by rfl), eq_comm, List.map_eq_cons_iff] at same
          rcases same with ⟨⟨first, seg⟩, later, rfl, isFirst, same⟩
          change first = utt at isFirst
          subst isFirst
          rcases List.forall_mem_cons.mp injected with ⟨injected, laterInjected⟩
          have rest := fun start => ih same.symm laterInjected start
          rw [stripBackward, RepairKeepsWords]
          rcases start : bulletStart first with _ | startMs
          · dsimp only
            rw [repairEnds_utterance, List.filterMap_cons_some (by rfl), List.forall_mem_cons,
              rest]
            have noBullet : first.bullet = none := by simpa [bulletStart] using start
            have kept := @wordsInside_repaired_iff first seg none injected (by simp)
            rw [repairedUtterance_untimed noBullet] at kept
            rw [repairedUtterance_untimed noBullet, kept]
          · dsimp only
            split
            · have noBullet := stripTiming_bullet first
              rw [repairEnds_utterance, List.filterMap_cons_some (by rfl), List.forall_mem_cons,
                rest, repairedUtterance_untimed noBullet]
              simp
            · rw [repairEnds_utterance, List.filterMap_cons_some (by rfl), List.forall_mem_cons,
                rest, findSome?_stripBackward, ← same, List.findSome?_map]
              apply and_congr_left'
              apply wordsInside_repaired_iff injected
              intro bullet isBullet next isNext
              have starts : bullet.timing.startMs = startMs := by
                change first.bullet = some bullet at isBullet
                simpa [bulletStart, isBullet] using start
              rcases List.exists_of_findSome?_eq_some isNext with ⟨row, _, found⟩
              have forward := (Option.filter_eq_some_iff.mp found).2
              rw [starts]
              exact of_decide_eq_true forward
      | header header => exact ih same injected lastStartMs
      | other text => exact ih same injected lastStartMs

end Repair

section Refresh

theorem worTiers_stripReviewTiers (utt : Utterance) :
    worTiers (stripReviewTiers utt) = worTiers utt := by
  rw [worTiers, worTiers, stripReviewTiers, List.filterMap_filter]
  congr 1
  funext tier
  split
  · rfl
  · rename_i review
    cases tier with
    | wor wor => exact absurd rfl review
    | _ => rfl

theorem wordsInside_stripReviewTiers_iff (utt : Utterance) :
    WordsInside (stripReviewTiers utt) ↔ WordsInside utt := by
  rw [WordsInside, WordsInside, worTimings, worTimings, worTiers_stripReviewTiers]
  rfl

/-- Words that follow each other lie between the first start and the last end. -/
theorem OrderedBullets.inside {words : List Word} {bullets : List Bullet}
    (ordered : OrderedBullets words bullets) :
    ∀ first ∈ bullets.head?, ∀ last ∈ bullets.getLast?, ∀ bullet ∈ bullets,
      bullet.timing.startMs < bullet.timing.endMs ∧
        first.timing.startMs ≤ bullet.timing.startMs ∧
        bullet.timing.endMs ≤ last.timing.endMs := by
  have durations : ∀ bullet ∈ bullets, bullet.timing.startMs < bullet.timing.endMs := by
    intro bullet member
    have long := ordered.longEnough bullet member
    have positive : 0 < minReusableWordDurationMs := by decide
    omega
  have chain := ordered.ordered
  clear ordered
  induction bullets with
  | nil => simp
  | cons bullet bullets ih =>
      rintro first ⟨⟩ last isLast
      rcases List.forall_mem_cons.mp durations with ⟨duration, later⟩
      cases bullets with
      | nil =>
          cases isLast
          simp [duration]
      | cons next bullets =>
          have forward := List.IsChain.rel chain
          have rest := ih later chain.tail next rfl last (by simpa using isLast)
          have ends := rest next List.mem_cons_self
          refine List.forall_mem_cons.mpr ⟨⟨duration, le_rfl, by omega⟩, ?_⟩
          intro other member
          have bounds := rest other member
          exact ⟨bounds.1, by omega, bounds.2.2⟩

theorem OrderedBullets.inlineTimings {words : List Word} {bullets : List Bullet}
    (ordered : OrderedBullets words bullets) :
    Fa.inlineTimings words = bullets.map Bullet.timing := by
  have timed := congrArg (List.filterMap fun bullet => bullet.map Bullet.timing) ordered.timed
  simpa [Fa.inlineTimings, List.filterMap_map, Function.comp_def] using timed

theorem OrderedBullets.ends {words : List Word} {bullets : List Bullet}
    (ordered : OrderedBullets words bullets) :
    words.head?.bind Word.inlineBullet = bullets.head? ∧
      words.getLast?.bind Word.inlineBullet = bullets.getLast? := by
  have first := congrArg (fun list => list.head?.join) ordered.timed
  have last := congrArg (fun list => list.getLast?.join) ordered.timed
  have joined : ∀ word : Option Word,
      (word.map Word.inlineBullet).join = word.bind Word.inlineBullet := by
    rintro (_ | word) <;> rfl
  have single : ∀ bullet : Option Bullet, (bullet.map some).join = bullet := by
    rintro (_ | bullet) <;> rfl
  simp only [List.head?_map, List.getLast?_map, joined, single] at first last
  exact ⟨first, last⟩

variable [Talkbank]

/-- The words that a reused tier does not answer for: those of an utterance without aligned
words, and of tiers behind the first. -/
def uncheckedTimings (utt : Utterance) : List Timing :=
  if faWords utt.items = [] then worTimings utt
  else (worTiers utt).tail.flatMap fun wor => inlineTimings wor.words

/-- A reusable tier lies in its own window. -/
theorem inside_worWindow {utt : Utterance} {nextStart : Option ℕ}
    (reusable : Reusable utt nextStart) :
    ∃ wor, (worTiers utt).head? = some wor ∧ Inside (worWindow utt) (inlineTimings wor.words) := by
  rcases reusable with ⟨wor, bullets, tier⟩
  have onTier : (worTiers utt).head? = some wor := by
    rw [worTiers, List.head?_filterMap]
    exact tier.onTier
  refine ⟨wor, onTier, ?_⟩
  rcases tier.ordered.ends with ⟨first, last⟩
  rw [worWindow, tier.onTier, Option.bind_some, first, last, tier.ordered.inlineTimings]
  have inside := tier.ordered.inside
  cases isFirst : bullets.head? with
  | none =>
      rw [List.head?_eq_none_iff.mp isFirst]
      exact inside_nil _
  | some firstBullet =>
      cases isLast : bullets.getLast? with
      | none =>
          rw [List.getLast?_eq_none_iff.mp isLast]
          exact inside_nil _
      | some lastBullet =>
          apply inside_some_iff.mpr
          intro timing member
          rcases List.mem_map.mp member with ⟨bullet, isBullet, rfl⟩
          exact inside firstBullet isFirst lastBullet isLast bullet isBullet

/-- The utterance after the refresh. -/
def refreshedUtterance (utt : Utterance) : Utterance :=
  if faWords utt.items = [] then utt
  else utt.withBullet ((worWindow utt).map fun window => .new window.startMs window.endMs)

theorem utterances_withSegmentBullets {lines : List Line}
    (reusable : AllReusable (lines.filterMap Line.utterance?)) :
    (withSegmentBullets lines (reusableSegments (lines.filterMap Line.utterance?))).filterMap
        Line.utterance? = (lines.filterMap Line.utterance?).map refreshedUtterance := by
  induction lines with
  | nil => rfl
  | cons line lines ih =>
      cases line with
      | utterance utt =>
          simp only [List.filterMap_cons, Line.utterance?, allReusable_cons] at reusable
          have rest := ih reusable.2
          simp only [List.filterMap_cons, Line.utterance?, reusableSegments, nextStarts,
            List.zip_cons_cons, List.map_cons, refreshedUtterance]
          by_cases noWords : faWords utt.items = []
          · have passed : reusableWorSegment utt
                ((lines.filterMap Line.utterance?).findSome? bulletStart) = none := by
              simp [reusableWorSegment, noWords]
            simp only [passed, withSegmentBullets, noWords, if_true, List.filterMap_cons,
              Line.utterance?]
            rw [← rest]
            rfl
          · rcases Option.isSome_iff_exists.mp (reusable.1 noWords) with ⟨seg, reused⟩
            simp only [reused, withSegmentBullets, noWords, if_false, List.filterMap_cons,
              Line.utterance?, worWindow_of_reused reused, Option.map_some]
            rw [← rest]
            rfl
      | header header => exact ih reusable
      | other text => exact ih reusable

theorem refreshedUtterance_stripReviewTiers (utt : Utterance) :
    refreshedUtterance (stripReviewTiers utt) = stripReviewTiers (refreshedUtterance utt) := by
  have window : worWindow (stripReviewTiers utt) = worWindow utt := by
    rw [worWindow, worWindow, worTier_stripReviewTiers]
  unfold refreshedUtterance
  rw [window]
  change (if faWords utt.items = [] then _ else _) = _
  split
  · rfl
  · rfl

/-- A refreshed utterance has its words inside if the unchecked ones are. -/
theorem wordsInside_refreshed_iff {utt : Utterance} {nextStart : Option ℕ}
    (reusable : faWords utt.items ≠ [] → Reusable utt nextStart) :
    WordsInside (refreshedUtterance utt) ↔ Inside (reusedWindow utt) (uncheckedTimings utt) := by
  unfold refreshedUtterance reusedWindow uncheckedTimings
  by_cases noWords : faWords utt.items = []
  · rw [if_pos noWords, if_pos noWords, if_pos noWords]
    exact Iff.rfl
  · rw [if_neg noWords, if_neg noWords, if_neg noWords]
    rcases inside_worWindow (reusable noWords) with ⟨wor, isFirst, inside⟩
    rcases List.head?_eq_some_iff.mp isFirst with ⟨others, tiers⟩
    rw [WordsInside, worTimings_withBullet, Utterance.withBullet_bullet, Option.map_map, worTimings,
      tiers, List.flatMap_cons, inside_append, List.tail_cons]
    have window : (worWindow utt).map (Bullet.timing ∘ fun window =>
        Bullet.new window.startMs window.endMs) = worWindow utt := by
      cases worWindow utt <;> rfl
    rw [window, and_iff_right inside]

end Refresh

section Claim

variable [Talkbank]

/-- Every utterance after the injection is one injected with its segment. -/
theorem injectLines_rows {aligned : List AsrSegment} {idx : ℕ} {lines : List Line}
    (injects : (injectLines aligned idx lines).1 = .ok ()) (inside : idx ≤ aligned.length) :
    List.Forall₂ (fun injected seg => ∃ utt, injectUtterance utt seg = .ok injected)
      ((injectLines aligned idx lines).2.filterMap Line.utterance?) (aligned.drop idx) := by
  induction lines generalizing idx with
  | nil =>
      rw [injectLines] at injects ⊢
      split at injects
      · cases injects
      · rename_i atEnd
        rw [if_neg atEnd, List.drop_eq_nil_of_le (by omega)]
        exact .nil
  | cons line lines ih =>
      cases line with
      | utterance utt =>
          rw [injectLines] at injects ⊢
          split at injects
          · cases injects
          · rename_i seg isSegment
            rcases List.getElem?_eq_some_iff.mp isSegment with ⟨within, isSegment⟩
            split at injects
            · cases injects
            · rename_i injected made
              rw [List.drop_eq_getElem_cons within, isSegment]
              exact .cons ⟨utt, made⟩ (ih injects within)
      | header header => exact ih injects inside
      | other text => exact ih injects inside

/-- The rows of the repair: the injected utterances with their segments. -/
theorem injectWordTimings_rows {chat injected : ChatFile} {segments : List AsrSegment}
    (injects : injectWordTimings chat segments = (.ok (), injected)) :
    (injected.utterances.zip segments).map Prod.fst = injected.utterances ∧
      ∀ row ∈ injected.utterances.zip segments, row.2.words ≠ [] → Injected row.1 := by
  have ok : (injectLines segments 0 chat.lines).1 = .ok () := congrArg Prod.fst injects
  have rows := injectLines_rows ok (Nat.zero_le _)
  have lines : (injectLines segments 0 chat.lines).2 = injected.lines :=
    congrArg (fun result => result.2.lines) injects
  rw [lines, List.drop_zero] at rows
  change List.Forall₂ _ injected.utterances segments at rows
  refine ⟨List.map_fst_zip rows.length_eq.le, ?_⟩
  intro row member hasWords
  rcases List.forall₂_iff_zip.mp rows with ⟨_, each⟩
  rcases each member with ⟨utt, made⟩
  exact injectUtterance_injected hasWords made

/-- After a successful alignment the `%wor` words lie in the bullets exactly when the unchecked
tiers of a reused file do, or when the repair of the injected transcript leaves no word behind. -/
theorem alignTiming_wordsInside_iff (chat : ChatFile) (audio : BAResult Unit)
    (answer : BAResult (List AsrSegment)) (aligned : (alignTiming chat audio answer).1 = .ok ()) :
    (∀ utt ∈ (alignTiming chat audio answer).2.utterances, WordsInside utt) ↔
      (WorComplete chat.utterances →
        ∀ utt ∈ chat.utterances, Inside (reusedWindow utt) (uncheckedTimings utt)) ∧
      (¬ WorComplete chat.utterances → ∀ utts segments injected, answer = .ok utts →
        mergeReusedAndFreshSegments
          (collectReusableWorSegments (stripStaleFaReviewTiers chat)) utts = .ok segments →
        injectWordTimings (stripStaleFaReviewTiers chat) segments = (.ok (), injected) →
        RepairKeepsWords 0 (injected.utterances.zip segments)) := by
  by_cases complete : WorComplete chat.utterances
  · have keeps := (keepsTiming_stripStale_iff chat).mpr complete
    have refreshed : alignTiming chat audio answer = (.ok (), { stripStaleFaReviewTiers chat with
        lines := withSegmentBullets (stripStaleFaReviewTiers chat).lines
          (collectReusableWorSegments (stripStaleFaReviewTiers chat)) }) := by
      simp only [alignTiming, refreshCompleteWorAlignment_of_keeps keeps, if_true]
    have utterances := utterances_withSegmentBullets keeps.2
    change (withSegmentBullets (stripStaleFaReviewTiers chat).lines
      (collectReusableWorSegments (stripStaleFaReviewTiers chat))).filterMap Line.utterance? =
        (stripStaleFaReviewTiers chat).utterances.map refreshedUtterance at utterances
    rw [utterances_stripStaleFaReviewTiers] at utterances
    have each : ∀ utt ∈ chat.utterances, (WordsInside (refreshedUtterance (stripReviewTiers utt)) ↔
        Inside (reusedWindow utt) (uncheckedTimings utt)) := by
      intro utt member
      rw [refreshedUtterance_stripReviewTiers, wordsInside_stripReviewTiers_iff]
      have listed := List.map_fst_zip (nextStarts_length chat.utterances).ge
      rw [← listed] at member
      rcases List.mem_map.mp member with ⟨⟨_, nextStart⟩, isRow, rfl⟩
      exact wordsInside_refreshed_iff (complete.2 _ isRow)
    rw [refreshed, ChatFile.utterances, utterances, List.forall_mem_map, List.forall_mem_map,
      forall₂_congr each]
    simp [complete]
  · have drops := complete
    rw [← keepsTiming_stripStale_iff] at drops
    simp only [alignTiming, refreshCompleteWorAlignment_of_not_keeps drops, Bool.false_eq_true,
      if_false] at aligned ⊢
    cases audio with
    | error error => cases aligned
    | ok decoded =>
        cases answer with
        | error error => cases aligned
        | ok utts =>
            simp only at aligned ⊢
            rcases merge : mergeReusedAndFreshSegments
              (collectReusableWorSegments (stripStaleFaReviewTiers chat)) utts with error | segments
            · simp only [applyAnswer, merge] at aligned
              cases aligned
            · rcases injects : injectWordTimings (stripStaleFaReviewTiers chat) segments with
                ⟨outcome, injected⟩
              simp only [applyAnswer, merge, injects] at aligned ⊢
              rcases outcome with error | ⟨⟩
              · cases aligned
              · rcases injectWordTimings_rows injects with ⟨rows, each⟩
                have repaired := repaired_wordsInside_iff rows.symm each 0
                refine Iff.trans repaired ?_
                constructor
                · intro keepsWords
                  refine ⟨fun reused => absurd reused complete, ?_⟩
                  rintro _ utts segments injected ⟨⟩ merged again
                  rw [merge] at merged
                  cases merged
                  rw [injects] at again
                  cases again
                  exact keepsWords
                · intro condition
                  exact condition.2 complete utts segments injected rfl merge injects

end Claim

section Instances

open Documented

def plainChat : ChatFile :=
  chatOf [utteranceOf [Word.simple "hello", Word.simple "there"] [],
    utteranceOf [Word.simple "good"] []]

/-- The second utterance starts at `startMs`. -/
def plainAnswer (startMs : ℕ) : List AsrSegment :=
  [answerOf [⟨"hello", 0, 500, none⟩, ⟨"there", 500, 1500, none⟩],
    answerOf [⟨"good", startMs, 2000, none⟩]]

theorem alignTiming_wordsInside_apart :
    (alignTiming plainChat (.ok ()) (.ok (plainAnswer 1500))).1 = .ok () ∧
      ∀ utt ∈ (alignTiming plainChat (.ok ()) (.ok (plainAnswer 1500))).2.utterances,
        WordsInside utt := by
  refine ⟨by decide, ?_⟩
  apply (alignTiming_wordsInside_iff plainChat (.ok ()) (.ok (plainAnswer 1500)) (by decide)).mpr
  refine ⟨fun complete => absurd complete (by decide), ?_⟩
  rintro _ utts segments injected ⟨⟩ ⟨⟩ ⟨⟩
  refine ⟨Or.inr ?_, Or.inr ?_, trivial⟩
  · decide
  · decide

/-- The bullet of the first utterance is cut at 1000, in the middle of its last word. -/
theorem alignTiming_cuts_word :
    (alignTiming plainChat (.ok ()) (.ok (plainAnswer 1000))).1 = .ok () ∧
      ¬ ∀ utt ∈ (alignTiming plainChat (.ok ()) (.ok (plainAnswer 1000))).2.utterances,
        WordsInside utt := by
  decide

end Instances

end Batchalign.Fa
