import Batchalign.Fa.Monotonicity

/-!
# The timing part of the forced-alignment stage

`FaTaskRunner::apply` between the `NoAlign` check and the media header: decision tiers of
an earlier run go, then either the whole file keeps its `%wor` timing or the backend is
asked and its answer is injected and repaired. Only the second way repairs the order of
the utterances.
-/

namespace Batchalign.Fa

open Batchalign.Chat

section Runner

def isReviewTier : DependentTier → Bool
  | .userDefined label _ => label == "xalign" || label == "xrev"
  | _ => false

def stripReviewTiers (utt : Utterance) : Utterance :=
  { utt with dependentTiers := utt.dependentTiers.filter fun tier => !isReviewTier tier }

def mapUtterance (change : Utterance → Utterance) : Line → Line
  | .utterance utt => .utterance (change utt)
  | line => line

def stripStaleFaReviewTiers (chat : ChatFile) : ChatFile :=
  { chat with lines := chat.lines.map (mapUtterance stripReviewTiers) }

variable [Talkbank]

/-- `audio` is the outcome of finding and decoding the media, `answer` that of the dispatch. -/
def alignTiming (chat : ChatFile) (audio : BAResult Unit) (answer : BAResult (List AsrSegment)) :
    BAResult Unit × ChatFile :=
  let chat := stripStaleFaReviewTiers chat
  let refreshed := refreshCompleteWorAlignment chat
  if refreshed.1 then (.ok (), refreshed.2)
  else match audio, answer with
    | .error error, _ => (.error error, chat)
    | .ok (), .error error => (.error error, chat)
    | .ok (), .ok answer =>
        match applyAnswer chat answer with
        | (.error error, chat) => (.error error, chat)
        | (.ok (), chat) => (.ok (), (enforceFaMonotonicity chat).2)

end Runner

section Stripped

theorem worTier_stripReviewTiers (utt : Utterance) :
    (stripReviewTiers utt).worTier = utt.worTier := by
  simp only [stripReviewTiers, Utterance.worTier]
  induction utt.dependentTiers with
  | nil => rfl
  | cons tier tiers ih =>
      cases tier with
      | userDefined label content =>
          by_cases review : isReviewTier (.userDefined label content) = true <;>
            simpa [review, List.findSome?_cons, DependentTier.wor?] using ih
      | wor wor => rfl
      | _ => exact ih

theorem utterances_stripStaleFaReviewTiers (chat : ChatFile) :
    (stripStaleFaReviewTiers chat).utterances = chat.utterances.map stripReviewTiers := by
  simp only [ChatFile.utterances, stripStaleFaReviewTiers]
  induction chat.lines with
  | nil => rfl
  | cons line lines ih =>
      cases line with
      | utterance utt => simp [mapUtterance, Line.utterance?, ih]
      | header header => exact ih
      | other text => exact ih

theorem nextStarts_stripReviewTiers (utts : List Utterance) :
    nextStarts (utts.map stripReviewTiers) = nextStarts utts := by
  induction utts with
  | nil => rfl
  | cons utt utts ih =>
      simp only [List.map_cons, nextStarts, ih, List.findSome?_map]
      rfl

end Stripped

section Windows

/-- From the start of the first `%wor` word to the end of the last. -/
def worWindow (utt : Utterance) : Option Timing :=
  utt.worTier.bind fun wor =>
    match wor.words.head?.bind Word.inlineBullet, wor.words.getLast?.bind Word.inlineBullet with
    | some first, some last => some ⟨first.timing.startMs, last.timing.endMs⟩
    | _, _ => none

variable [Talkbank]

/-- The window of an utterance when `%wor` decides: its `%wor` window, or its bullet where it
has no words. -/
def reusedWindow (utt : Utterance) : Option Timing :=
  if faWords utt.items = [] then utt.bullet.map Bullet.timing else worWindow utt

/-- There are words, and every utterance with words has a reusable `%wor` tier. -/
def WorComplete (utts : List Utterance) : Prop :=
  (∃ utt ∈ utts, faWords utt.items ≠ []) ∧
  ∀ row ∈ utts.zip (nextStarts utts), faWords row.1.items ≠ [] → Reusable row.1 row.2

theorem reusableWorSegment_eq_some {utt : Utterance} {nextStart : Option ℕ} {seg : AsrSegment}
    (reused : reusableWorSegment utt nextStart = some seg) :
    ∃ wor bullets, ReusableTier utt nextStart wor bullets ∧
      reusableSegment utt.main.speaker nextStart (List.zipWith timedAsrWord wor.words bullets) =
        some seg := by
  rcases (reusableWorSegment_isSome_iff utt nextStart).mp (Option.isSome_of_eq_some reused) with
    ⟨wor, bullets, tier⟩
  have timed : reusableWords none wor.words =
      some (List.zipWith timedAsrWord wor.words bullets) :=
    reusableWords_eq_some_iff.mpr ⟨bullets, tier.ordered, by simp, rfl⟩
  refine ⟨wor, bullets, tier, ?_⟩
  simp only [reusableWorSegment] at reused
  rwa [if_neg (by simpa using tier.hasWords), tier.onTier, Option.bind_some,
    if_neg (not_not.mpr tier.sameText), timed, Option.bind_some] at reused

/-- A reused segment spans the `%wor` tier. -/
theorem worWindow_of_reused {utt : Utterance} {nextStart : Option ℕ} {seg : AsrSegment}
    (reused : reusableWorSegment utt nextStart = some seg) :
    worWindow utt = some (segmentWindow seg) := by
  rcases reusableWorSegment_eq_some reused with ⟨wor, bullets, tier, isSegment⟩
  have windows := tier.ordered.windows
  have timed := tier.ordered.timed
  generalize List.zipWith timedAsrWord wor.words bullets = words at isSegment windows
  simp only [reusableSegment] at isSegment
  split at isSegment
  · rename_i first last atFirst atLast
    have firstBullet : (bullets.map Bullet.timing).head? = some (wordWindow first) := by
      rw [← windows, List.head?_map, atFirst]
      rfl
    have lastBullet : (bullets.map Bullet.timing).getLast? = some (wordWindow last) := by
      rw [← windows, List.getLast?_map, atLast]
      rfl
    have window : segmentWindow seg = ⟨first.startMs, last.endMs⟩ := by
      split at isSegment
      · cases isSegment
      · split at isSegment
        · cases isSegment
        · cases isSegment
          rfl
    rw [List.head?_map, Option.map_eq_some_iff] at firstBullet
    rw [List.getLast?_map, Option.map_eq_some_iff] at lastBullet
    rcases firstBullet with ⟨firstBullet, isFirst, firstTiming⟩
    rcases lastBullet with ⟨lastBullet, isLast, lastTiming⟩
    have headBullet : wor.words.head?.bind Word.inlineBullet = some firstBullet := by
      have mapped := congrArg List.head? timed
      rw [List.head?_map, List.head?_map, isFirst, Option.map_some,
        Option.map_eq_some_iff] at mapped
      rcases mapped with ⟨word, isWord, bullet⟩
      rw [isWord]
      exact bullet
    have finalBullet : wor.words.getLast?.bind Word.inlineBullet = some lastBullet := by
      have mapped := congrArg List.getLast? timed
      rw [List.getLast?_map, List.getLast?_map, isLast, Option.map_some,
        Option.map_eq_some_iff] at mapped
      rcases mapped with ⟨word, isWord, bullet⟩
      rw [isWord]
      exact bullet
    simp only [worWindow, tier.onTier, Option.bind_some, headBullet, finalBullet, firstTiming,
      lastTiming, window]
    rfl
  · cases isSegment

/-- The reuse path writes the `%wor` windows. -/
theorem timings_withSegmentBullets {lines : List Line}
    (reusable : AllReusable (lines.filterMap Line.utterance?)) :
    timings (withSegmentBullets lines (reusableSegments (lines.filterMap Line.utterance?))) =
      (lines.filterMap Line.utterance?).filterMap reusedWindow := by
  induction lines with
  | nil => rfl
  | cons line lines ih =>
      cases line with
      | utterance utt =>
          simp only [List.filterMap_cons, Line.utterance?, allReusable_cons] at reusable
          have rest := ih reusable.2
          simp only [List.filterMap_cons, Line.utterance?, reusableSegments, nextStarts,
            List.zip_cons_cons, List.map_cons, reusedWindow]
          by_cases noWords : faWords utt.items = []
          · have passed : reusableWorSegment utt
                ((lines.filterMap Line.utterance?).findSome? bulletStart) = none := by
              simp [reusableWorSegment, noWords]
            simp only [passed, withSegmentBullets, noWords, if_true, timings,
              List.filterMap_cons, lineTiming_utterance]
            rw [← rest]
            rfl
          · rcases Option.isSome_iff_exists.mp (reusable.1 noWords) with ⟨seg, reused⟩
            simp only [reused, withSegmentBullets, noWords, if_false, timings,
              List.filterMap_cons, lineTiming_utterance, Utterance.withBullet_bullet,
              Option.map_some,
              worWindow_of_reused reused]
            rw [← rest]
            rfl
      | header header => exact ih reusable
      | other text => exact ih reusable

/-- Decision tiers play no part in the reuse decision. -/
theorem worComplete_stripReviewTiers (utts : List Utterance) :
    WorComplete (utts.map stripReviewTiers) ↔ WorComplete utts := by
  have sameTier : ∀ (utt : Utterance) nextStart,
      Reusable (stripReviewTiers utt) nextStart ↔ Reusable utt nextStart := by
    intro utt nextStart
    have same : reusableWorSegment (stripReviewTiers utt) nextStart =
        reusableWorSegment utt nextStart := by
      simp only [reusableWorSegment, worTier_stripReviewTiers]
      rfl
    rw [← reusableWorSegment_isSome_iff, ← reusableWorSegment_isSome_iff, same]
  simp only [WorComplete, nextStarts_stripReviewTiers, List.zip_map_left, List.mem_map,
    Prod.map, id_eq, forall_exists_index, and_imp, forall_apply_eq_imp_iff₂, sameTier,
    exists_exists_and_eq_and]
  rfl

theorem allReusable_iff (utts : List Utterance) :
    AllReusable utts ↔
      ∀ row ∈ utts.zip (nextStarts utts), faWords row.1.items ≠ [] → Reusable row.1 row.2 := by
  induction utts with
  | nil => simp [AllReusable]
  | cons utt utts ih =>
      rw [allReusable_cons, ih, nextStarts, List.zip_cons_cons, List.forall_mem_cons,
        reusableWorSegment_isSome_iff]

theorem keepsTiming_stripStale_iff (chat : ChatFile) :
    KeepsTiming (stripStaleFaReviewTiers chat) ↔ WorComplete chat.utterances := by
  rw [← worComplete_stripReviewTiers, ← utterances_stripStaleFaReviewTiers]
  exact and_congr_right' (allReusable_iff _)

end Windows

section Order

variable [Talkbank]

/-- What the stage leaves when it succeeds: the `%wor` windows, or repaired timing. -/
theorem alignTiming_ok {chat : ChatFile} {audio : BAResult Unit}
    {answer : BAResult (List AsrSegment)} (aligned : (alignTiming chat audio answer).1 = .ok ()) :
    (WorComplete chat.utterances ∧
      timings (alignTiming chat audio answer).2.lines =
        chat.utterances.filterMap reusedWindow) ∨
    (¬ WorComplete chat.utterances ∧
      ∃ injected, (alignTiming chat audio answer).2 = (enforceFaMonotonicity injected).2) := by
  by_cases complete : WorComplete chat.utterances
  · left
    refine ⟨complete, ?_⟩
    have keeps := (keepsTiming_stripStale_iff chat).mpr complete
    simp only [alignTiming, refreshCompleteWorAlignment_of_keeps keeps, if_true]
    have written := timings_withSegmentBullets keeps.2
    change timings (withSegmentBullets _ (collectReusableWorSegments _)) = _ at written
    rw [written]
    change (stripStaleFaReviewTiers chat).utterances.filterMap reusedWindow = _
    rw [utterances_stripStaleFaReviewTiers, List.filterMap_map]
    apply List.filterMap_congr
    intro utt _
    simp only [Function.comp_apply, reusedWindow, worWindow, worTier_stripReviewTiers]
    rfl
  · right
    refine ⟨complete, ?_⟩
    have drops := complete
    rw [← keepsTiming_stripStale_iff] at drops
    simp only [alignTiming, refreshCompleteWorAlignment_of_not_keeps drops, Bool.false_eq_true,
      if_false] at aligned ⊢
    cases audio with
    | error error => cases aligned
    | ok decoded =>
        cases answer with
        | error error => cases aligned
        | ok answer =>
            simp only at aligned ⊢
            split at aligned
            · cases aligned
            · rename_i injected _
              exact ⟨injected, rfl⟩

/-- A successful alignment leaves ordered timing, except where the whole file kept its `%wor`
timing: that path is not repaired, so there the `%wor` windows must be ordered already. -/
theorem alignTiming_ordered_iff (chat : ChatFile) (audio : BAResult Unit)
    (answer : BAResult (List AsrSegment)) (aligned : (alignTiming chat audio answer).1 = .ok ()) :
    OrderedTimings (timings (alignTiming chat audio answer).2.lines) ↔
      (WorComplete chat.utterances →
        OrderedTimings (chat.utterances.filterMap reusedWindow)) := by
  rcases alignTiming_ok aligned with ⟨complete, windows⟩ | ⟨incomplete, injected, repaired⟩
  · rw [windows]
    exact ⟨fun ordered _ => ordered, fun ordered => ordered complete⟩
  · rw [repaired]
    exact iff_of_true (enforceFaMonotonicity_ordered injected)
      fun complete => absurd complete incomplete

end Order

section Instances

open Documented

instance [Talkbank] (utts : List Utterance) : Decidable (WorComplete utts) :=
  inferInstanceAs (Decidable (_ ∧ _))

/-- Two complete `%wor` tiers; the bullet of the second utterance is older than its `%wor`
timing when that starts at 600. -/
def completeChat (secondStart : ℕ) : ChatFile :=
  chatOf
    [(utteranceOf [Word.simple "hello", Word.simple "there"]
        [timedWord "hello" 0 500, timedWord "there" 500 1000]).withBullet (some (.new 0 1000)),
      (utteranceOf [Word.simple "good", Word.simple "day"]
        [timedWord "good" secondStart 1400, timedWord "day" 1400 2000]).withBullet
          (some (.new 1000 2000))]

theorem alignTiming_ordered_iff_complete :
    OrderedTimings (timings (alignTiming (completeChat 1000) (.ok ()) (.ok [])).2.lines) := by
  apply (alignTiming_ordered_iff (completeChat 1000) (.ok ()) (.ok []) (by decide)).mpr
  decide

/-- The old bullets pass the overrun check, the refreshed ones overlap. -/
theorem alignTiming_overlaps :
    (alignTiming (completeChat 600) (.ok ()) (.ok [])).1 = .ok () ∧
      timings (alignTiming (completeChat 600) (.ok ()) (.ok [])).2.lines =
        [⟨0, 1000⟩, ⟨600, 2000⟩] ∧
      ¬ OrderedTimings
        (timings (alignTiming (completeChat 600) (.ok ()) (.ok [])).2.lines) := by
  decide

end Instances

end Batchalign.Fa
