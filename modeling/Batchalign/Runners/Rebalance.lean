import Batchalign.Fa.WordTimes
import Batchalign.Library.BoundaryMoves
import Batchalign.Runners.Fa

/-!
# Rebalancing near-zero words

The two passes of `inject_word_timings` over the new `%wor` words move boundaries between
neighbours, so that words apart stay apart between the same outer ends. A boundary that the first
pass computes past 64 bits wraps around: the word then ends before it starts, and no later step
repairs that.
-/

namespace Batchalign.Runners

open Batchalign.Chat Batchalign.Fa BoundaryMoves Relation

section Definitions

/-- The start and the end of a timed word. -/
def window (word : Word) : Option (ℕ × ℕ) :=
  word.inlineBullet.map fun bullet => (bullet.timing.startMs, bullet.timing.endMs)

def windows (words : List Word) : List (Option (ℕ × ℕ)) := words.map window

/-- The next word follows a near-zero word directly. -/
def Pressed (turn next : ℕ × ℕ) : Prop :=
  next.1 ≤ turn.2 ∧ turn.2 < turn.1 + minWordDurationMs

instance (turn next : ℕ × ℕ) : Decidable (Pressed turn next) :=
  inferInstanceAs (Decidable (_ ∧ _))

/-- Where the next word starts when its turn comes: the near-zero word before it has been filled
up, if that leaves it some time. -/
def turnStart (turn next : ℕ × ℕ) : ℕ :=
  if Pressed turn next ∧ turn.1 + minWordDurationMs < next.2 then turn.1 + minWordDurationMs
  else next.1

/-- No near-zero word that the next one follows directly starts, at its turn, within the last
40 ms that 64 bits can tell. -/
def TurnsFit : Option (ℕ × ℕ) → List (Option (ℕ × ℕ)) → Prop
  | _, [] => True
  | _, none :: rest => TurnsFit none rest
  | none, some next :: rest => TurnsFit (some next) rest
  | some turn, some next :: rest =>
      (Pressed turn next → turn.1 + minWordDurationMs < 2 ^ 64) ∧
        TurnsFit (some (turnStart turn next, next.2)) rest

end Definitions

section Repairs

@[simp]
theorem window_withEnd (word : Word) (bullet : Bullet) (endMs : ℕ) :
    window (withEnd word bullet endMs) = some (bullet.timing.startMs, endMs) := rfl

@[simp]
theorem window_withStart (word : Word) (bullet : Bullet) (startMs : ℕ) :
    window (withStart word bullet startMs) = some (startMs, bullet.timing.endMs) := rfl

theorem window_eq_none_iff {word : Word} : window word = none ↔ word.inlineBullet = none := by
  simp [window]

theorem window_eq_some_iff {word : Word} {times : ℕ × ℕ} :
    window word = some times ↔
      ∃ bullet, word.inlineBullet = some bullet ∧
        (bullet.timing.startMs, bullet.timing.endMs) = times := by
  simp [window]

theorem repairFromFollowing_untimed {current next : Word}
    (untimed : window current = none ∨ window next = none) :
    repairFromFollowing current next = (current, next) := by
  simp only [window_eq_none_iff] at untimed
  rcases untimed with noCurrent | noNext
  · rw [repairFromFollowing, noCurrent]
  · rw [repairFromFollowing, noNext]
    cases current.inlineBullet <;> rfl

/-- The first repair on timed words, with the boundary that 64 bits can tell. -/
theorem repairFromFollowing_fits {current next : Word} {turn times : ℕ × ℕ}
    (isCurrent : window current = some turn) (isNext : window next = some times)
    (positive : turn.1 < turn.2)
    (fits : Pressed turn times → turn.1 + minWordDurationMs < 2 ^ 64)
    (back : List (Option (ℕ × ℕ))) :
    window (repairFromFollowing current next).2 = some (turnStart turn times, times.2) ∧
      Moves (some turn :: some times :: back)
        (window (repairFromFollowing current next).1 ::
          window (repairFromFollowing current next).2 :: back) := by
  rcases window_eq_some_iff.mp isCurrent with ⟨currentBullet, hasCurrent, rfl⟩
  rcases window_eq_some_iff.mp isNext with ⟨nextBullet, hasNext, rfl⟩
  simp only [repairFromFollowing, hasCurrent, hasNext, turnStart, Bool.and_eq_true, nearZero_iff,
    decide_eq_true_eq]
  simp only at positive fits
  by_cases pressed : Pressed (currentBullet.timing.startMs, currentBullet.timing.endMs)
    (nextBullet.timing.startMs, nextBullet.timing.endMs)
  · rw [Nat.mod_eq_of_lt (fits pressed)]
    by_cases room : currentBullet.timing.startMs + minWordDurationMs < nextBullet.timing.endMs
    · rw [if_pos ⟨⟨⟨positive, pressed.2⟩, pressed.1⟩, room⟩, if_pos ⟨pressed, room⟩]
      simp only [window_withEnd, window_withStart]
      refine ⟨trivial, ReflTransGen.single ?_⟩
      exact Move.meet [] back (by simp [minWordDurationMs]) room
    · rw [if_neg fun repaired => room repaired.2, if_neg fun repaired => room repaired.2,
        isCurrent, isNext]
      exact ⟨rfl, ReflTransGen.refl⟩
  · rw [if_neg fun repaired => pressed ⟨repaired.1.2, repaired.1.1.2⟩,
      if_neg fun repaired => pressed repaired.1, isCurrent, isNext]
    exact ⟨rfl, ReflTransGen.refl⟩

/-- A boundary past 64 bits wraps around to before the word. -/
theorem repairFromFollowing_overflows {current next : Word} {turn times : ℕ × ℕ}
    (isCurrent : window current = some turn) (isNext : window next = some times)
    (positive : turn.1 < turn.2) (after : turn.2 < times.2) (pressed : Pressed turn times)
    (overflows : 2 ^ 64 ≤ turn.1 + minWordDurationMs) :
    Broken (repairFromFollowing current next).1 := by
  rcases window_eq_some_iff.mp isCurrent with ⟨currentBullet, hasCurrent, rfl⟩
  rcases window_eq_some_iff.mp isNext with ⟨nextBullet, hasNext, rfl⟩
  simp only at positive after overflows
  have short : minWordDurationMs < 2 ^ 64 := by decide
  have before : (currentBullet.timing.startMs + minWordDurationMs) % 2 ^ 64 ≤
      currentBullet.timing.startMs := by omega
  simp only [repairFromFollowing, hasCurrent, hasNext, Bool.and_eq_true, nearZero_iff,
    decide_eq_true_eq]
  rw [if_pos ⟨⟨⟨positive, pressed.2⟩, pressed.1⟩, before.trans_lt (positive.trans after)⟩]
  exact ⟨_, rfl, before⟩

theorem repairFromPreceding_moves (previous current : Word) (back : List (Option (ℕ × ℕ))) :
    Moves (window previous :: window current :: back)
      (window (repairFromPreceding previous current).1 ::
        window (repairFromPreceding previous current).2 :: back) := by
  unfold repairFromPreceding
  split
  · rename_i previousBullet currentBullet isPrevious isCurrent
    dsimp only
    split
    · rename_i repaired
      simp only [Bool.and_eq_true, decide_eq_true_eq] at repaired
      rw [window, isPrevious, window, isCurrent]
      simp only [window_withEnd, window_withStart]
      apply ReflTransGen.single
      refine Move.meet [] back repaired.2 ?_
      exact Nat.sub_lt_of_pos_le (by decide) repaired.1.1.2
    · exact ReflTransGen.refl
  · exact ReflTransGen.refl

/-- A step of the first pass moves a boundary and leaves the same condition to the next step, or
it breaks a word. -/
theorem repairFromFollowing_step {current next : Word} {rest : List (Option (ℕ × ℕ))}
    (apart : Apart (window current :: window next :: rest).reduceOption) :
    (Moves (window current :: window next :: rest)
        (window (repairFromFollowing current next).1 ::
          window (repairFromFollowing current next).2 :: rest) ∧
      (TurnsFit (window current) (window next :: rest) ↔
        TurnsFit (window (repairFromFollowing current next).2) rest)) ∨
    (Broken (repairFromFollowing current next).1 ∧
      ¬ TurnsFit (window current) (window next :: rest)) := by
  rcases isCurrent : window current with _ | turn
  · left
    rw [repairFromFollowing_untimed (Or.inl isCurrent), isCurrent]
    refine ⟨ReflTransGen.refl, ?_⟩
    cases window next <;> simp [TurnsFit]
  rcases isNext : window next with _ | times
  · left
    rw [repairFromFollowing_untimed (Or.inr isNext), isCurrent, isNext]
    exact ⟨ReflTransGen.refl, by simp [TurnsFit]⟩
  simp only [isCurrent, isNext, List.reduceOption_cons_of_some, apart_cons_iff,
    List.forall_mem_cons] at apart
  rcases apart with ⟨positive, ⟨ordered, _⟩, nextPositive, _⟩
  by_cases fits : Pressed turn times → turn.1 + minWordDurationMs < 2 ^ 64
  · left
    rcases repairFromFollowing_fits isCurrent isNext positive fits rest with ⟨isStart, moves⟩
    refine ⟨moves, ?_⟩
    rw [isStart, TurnsFit, and_iff_right fits]
  · right
    simp only [Classical.not_imp, not_lt] at fits
    refine ⟨repairFromFollowing_overflows isCurrent isNext positive
      (ordered.trans_lt nextPositive) fits.1 fits.2, ?_⟩
    intro turns
    exact absurd (turns.1 fits.1) fits.2.not_gt

end Repairs

section Passes

theorem sweepFrom_following_moves {current : Word} {words : List Word}
    (apart : Apart (windows (current :: words)).reduceOption)
    (fits : TurnsFit (window current) (windows words)) :
    Moves (windows (current :: words))
      (windows (sweepFrom repairFromFollowing current words)) := by
  induction words generalizing current with
  | nil => exact ReflTransGen.refl
  | cons next words ih =>
      rcases repairFromFollowing_step apart with ⟨moves, same⟩ | ⟨_, overflows⟩
      · have later := ih (moves.preserves.apart apart).tail (same.mp fits)
        exact moves.trans (later.cons _)
      · exact absurd fits overflows

theorem sweepFrom_following_breaks {current : Word} {words : List Word}
    (apart : Apart (windows (current :: words)).reduceOption)
    (overflows : ¬ TurnsFit (window current) (windows words)) :
    ∃ word ∈ sweepFrom repairFromFollowing current words, Broken word := by
  induction words generalizing current with
  | nil => exact absurd trivial overflows
  | cons next words ih =>
      rw [sweepFrom, List.exists_mem_cons_iff]
      rcases repairFromFollowing_step apart with ⟨moves, same⟩ | ⟨broken, _⟩
      · exact Or.inr (ih (moves.preserves.apart apart).tail (overflows ∘ same.mpr))
      · exact Or.inl broken

theorem sweepFrom_preceding_moves (previous : Word) (words : List Word) :
    Moves (windows (previous :: words))
      (windows (sweepFrom repairFromPreceding previous words)) := by
  induction words generalizing previous with
  | nil => exact ReflTransGen.refl
  | cons current words ih =>
      have moves := repairFromPreceding_moves previous current (windows words)
      exact moves.trans ((ih (repairFromPreceding previous current).2).cons _)

theorem turnsFit_none_cons (first : Word) (words : List Word) :
    TurnsFit none (windows (first :: words)) ↔ TurnsFit (window first) (windows words) := by
  change TurnsFit none (window first :: windows words) ↔ _
  cases window first <;> rfl

theorem following_moves {words : List Word} (apart : Apart (windows words).reduceOption)
    (fits : TurnsFit none (windows words)) :
    Moves (windows words) (windows (rebalanceNearZeroWordsFromFollowing words)) := by
  cases words with
  | nil => exact ReflTransGen.refl
  | cons first words =>
      exact sweepFrom_following_moves apart ((turnsFit_none_cons first words).mp fits)

theorem following_breaks {words : List Word} (apart : Apart (windows words).reduceOption)
    (overflows : ¬ TurnsFit none (windows words)) :
    ∃ word ∈ rebalanceNearZeroWordsFromFollowing words, Broken word := by
  cases words with
  | nil => exact absurd trivial overflows
  | cons first words =>
      exact sweepFrom_following_breaks apart (overflows ∘ (turnsFit_none_cons first words).mpr)

theorem preceding_moves (words : List Word) :
    Moves (windows words) (windows (rebalanceNearZeroWordsFromPreceding words)) := by
  cases words with
  | nil => exact ReflTransGen.refl
  | cons first words => exact sweepFrom_preceding_moves first words

theorem preceding_breaks {words : List Word} (broken : ∃ word ∈ words, Broken word) :
    ∃ word ∈ rebalanceNearZeroWordsFromPreceding words, Broken word := by
  cases words with
  | nil => exact broken
  | cons first words => exact preceding_broken broken

theorem not_apart_of_broken {words : List Word} (broken : ∃ word ∈ words, Broken word) :
    ¬ Apart (windows words).reduceOption := by
  rcases broken with ⟨word, member, bullet, isBullet, backward⟩
  intro apart
  have times : window word = some (bullet.timing.startMs, bullet.timing.endMs) :=
    window_eq_some_iff.mpr ⟨bullet, isBullet, rfl⟩
  have listed : some (bullet.timing.startMs, bullet.timing.endMs) ∈ windows words := by
    rw [← times]
    exact List.mem_map_of_mem member
  have positive := apart.positive _ (List.reduceOption_mem_iff.mpr listed)
  exact absurd positive backward.not_gt

/-- Words apart stay apart between the same outer ends, and the untimed ones untimed, exactly when
the first pass computes no boundary past 64 bits. -/
theorem rebalanced_preserves_iff {words : List Word} (apart : Apart (windows words).reduceOption) :
    Preserves (windows words) (windows (rebalanced words)) ↔ TurnsFit none (windows words) := by
  constructor
  · intro preserves
    by_contra overflows
    have broken := preceding_breaks (following_breaks apart overflows)
    exact not_apart_of_broken broken (preserves.apart apart)
  · intro fits
    have first := following_moves apart fits
    have second := preceding_moves (rebalanceNearZeroWordsFromFollowing words)
    exact Moves.preserves (first.trans second)

end Passes

section Instances

/-- The first and the last timed word are near zero. -/
def crowdedWords : List Word :=
  [(Word.simple "so").withInlineBullet (Bullet.new 0 20),
    (Word.simple "then").withInlineBullet (Bullet.new 20 200),
    (Word.simple "we").withInlineBullet (Bullet.new 200 210), Word.simple "go"]

theorem crowdedWords_rebalanced :
    windows (rebalanced crowdedWords) =
        [some (0, 40), some (40, 170), some (170, 210), none] ∧
      Preserves (windows crowdedWords) (windows (rebalanced crowdedWords)) := by
  refine ⟨by decide, ?_⟩
  apply (rebalanced_preserves_iff (by decide)).mpr
  change TurnsFit none [some (0, 20), some (20, 200), some (200, 210), none]
  simp [TurnsFit, Pressed, turnStart, minWordDurationMs]

/-- Two words at the end of what 64 bits can tell. -/
def lastWords : List Word :=
  [(Word.simple "good").withInlineBullet (Bullet.new (2 ^ 64 - 36) (2 ^ 64 - 26)),
    (Word.simple "bye").withInlineBullet (Bullet.new (2 ^ 64 - 26) (2 ^ 64 - 16))]

theorem lastWords_break :
    Apart (windows lastWords).reduceOption ∧
      windows (rebalanced lastWords) = [some (2 ^ 64 - 36, 4), some (4, 2 ^ 64 - 16)] ∧
      ¬ Apart (windows (rebalanced lastWords)).reduceOption := by
  decide

end Instances

end Batchalign.Runners
