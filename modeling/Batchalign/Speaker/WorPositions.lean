import Batchalign.Chat.Documented
import Batchalign.Segmentation.Rows
import Batchalign.Speaker.Basic

/-!
# Which `%wor` item times a word

Segmentation rows and the diarization fallback take the timing of the `k`-th
`%mor` word from the `k`-th `%wor` item. Both tiers select from the same
occurrences of words on the main tier, so this is the word's own item where the
occurrences before it contribute equally much to both.
-/

namespace Batchalign.Speaker

open Batchalign.Chat Documented Batchalign.Segmentation

section Occurrences

mutual

/-- The word items below a content item, each with whether it stands in a retrace. -/
def occurrencesIn (retraced : Bool) : UtteranceContent → List (WordItem × Bool)
  | .word word => [(.word word, retraced)]
  | .replacedWord word replacement => [(.replacedWord word replacement, retraced)]
  | .separator text => [(.separator text, retraced)]
  | .group content => occurrences retraced content
  | .retrace content => occurrences true content
  | .other _ => []

def occurrences (retraced : Bool) : List UtteranceContent → List (WordItem × Bool)
  | [] => []
  | item :: items => occurrencesIn retraced item ++ occurrences retraced items

end

mutual

theorem walkItem_eq_occurrencesIn {domain : Option TierDomain} (notMor : domain ≠ some .mor)
    (retraced : Bool) (item : UtteranceContent) :
    Documented.walkItem domain item = (occurrencesIn retraced item).map Prod.fst := by
  cases item with
  | word word => rfl
  | replacedWord word replacement => rfl
  | separator text => rfl
  | group content => exact walkItems_eq_occurrences notMor retraced content
  | retrace content =>
      simp only [Documented.walkItem, notMor, if_false, occurrencesIn]
      exact walkItems_eq_occurrences notMor true content
  | other text => rfl

theorem walkItems_eq_occurrences {domain : Option TierDomain} (notMor : domain ≠ some .mor)
    (retraced : Bool) (content : List UtteranceContent) :
    Documented.walkItems domain content =
      (occurrences retraced content).map Prod.fst := by
  cases content with
  | nil => rfl
  | cons item items =>
      simp only [Documented.walkItems, occurrences, List.map_append]
      rw [walkItem_eq_occurrencesIn notMor retraced item,
        walkItems_eq_occurrences notMor retraced items]

end

mutual

theorem occurrencesIn_retraced (item : UtteranceContent) :
    ∀ occurrence ∈ occurrencesIn true item, occurrence.2 = true := by
  cases item with
  | word word => simp [occurrencesIn]
  | replacedWord word replacement => simp [occurrencesIn]
  | separator text => simp [occurrencesIn]
  | group content => exact occurrences_retraced content
  | retrace content => exact occurrences_retraced content
  | other text => simp [occurrencesIn]

theorem occurrences_retraced (content : List UtteranceContent) :
    ∀ occurrence ∈ occurrences true content, occurrence.2 = true := by
  cases content with
  | nil => simp [occurrences]
  | cons item items =>
      intro occurrence present
      rcases List.mem_append.mp present with here | later
      · exact occurrencesIn_retraced item occurrence here
      · exact occurrences_retraced items occurrence later

end

mutual

theorem walkItem_mor (item : UtteranceContent) :
    Documented.walkItem (some .mor) item =
      ((occurrencesIn false item).filter fun occurrence => !occurrence.2).map Prod.fst := by
  cases item with
  | word word => rfl
  | replacedWord word replacement => rfl
  | separator text => rfl
  | group content => exact walkItems_mor content
  | retrace content =>
      have none : (occurrences true content).filter (fun occurrence => !occurrence.2) = [] := by
        apply List.filter_eq_nil_iff.mpr
        intro occurrence present
        simp [occurrences_retraced content occurrence present]
      simp [Documented.walkItem, occurrencesIn, none]
  | other text => rfl

theorem walkItems_mor (content : List UtteranceContent) :
    Documented.walkItems (some .mor) content =
      ((occurrences false content).filter fun occurrence => !occurrence.2).map Prod.fst := by
  cases content with
  | nil => rfl
  | cons item items =>
      simp only [Documented.walkItems, occurrences, List.filter_append, List.map_append]
      rw [walkItem_mor item, walkItems_mor items]

end

end Occurrences

section Positions

variable {α β : Type*}

/-- How many elements those before an index contribute to a `flatMap`. -/
def flatMapPosition (f : α → List β) (l : List α) (index : ℕ) : ℕ :=
  ((l.take index).flatMap f).length

theorem flatMap_getElem?_position (f : α → List β) {l : List α} {index k : ℕ} {a : α}
    (atIndex : l[index]? = some a) (bound : k < (f a).length) :
    (l.flatMap f)[flatMapPosition f l index + k]? = (f a)[k]? := by
  induction l generalizing index with
  | nil => simp at atIndex
  | cons head tail ih =>
      cases index with
      | zero =>
          simp only [List.getElem?_cons_zero, Option.some.injEq] at atIndex
          subst atIndex
          simp [flatMapPosition, List.getElem?_append_left bound]
      | succ index =>
          have rest := @ih index (by simpa using atIndex)
          simp only [flatMapPosition, List.take_succ_cons, List.flatMap_cons,
            List.length_append] at rest ⊢
          rw [Nat.add_assoc, List.getElem?_append_right (by omega), Nat.add_sub_cancel_left]
          exact rest

theorem flatMapPosition_lt (f : α → List β) {l : List α} {index k : ℕ} {a : α}
    (atIndex : l[index]? = some a) (bound : k < (f a).length) :
    flatMapPosition f l index + k < (l.flatMap f).length := by
  have found := flatMap_getElem?_position f atIndex bound
  rw [List.getElem?_eq_getElem bound] at found
  exact (List.getElem?_eq_some_iff.mp found).1

end Positions

section Traversal

/-- How the library extracts the words of a tier: it walks the content, skipping retraces
for `%mor` and nothing for `%wor`, and maps every item to the words it contributes. -/
structure TierTraversal [Talkbank] where
  extract : TierDomain → WordItem → List ExtractedWord
  collect : ∀ content domain, Talkbank.collectUtteranceContent content domain =
    (Documented.walkItems (some domain) content).flatMap (extract domain)

variable [Talkbank]

/-- The `%mor` words of an occurrence. -/
def TierTraversal.morWords (traversal : TierTraversal) (occurrence : WordItem × Bool) :
    List ExtractedWord :=
  if occurrence.2 then [] else traversal.extract .mor occurrence.1

/-- The `%wor` word of an occurrence. -/
def TierTraversal.worWords (traversal : TierTraversal) (occurrence : WordItem × Bool) :
    List ExtractedWord :=
  traversal.extract .wor occurrence.1

theorem TierTraversal.collect_mor (traversal : TierTraversal)
    (content : List UtteranceContent) :
    Talkbank.collectUtteranceContent content .mor =
      (occurrences false content).flatMap traversal.morWords := by
  rw [traversal.collect, walkItems_mor]
  induction occurrences false content with
  | nil => rfl
  | cons occurrence rest ih =>
      cases retraced : occurrence.2 <;>
        simp [TierTraversal.morWords, retraced, ih]

theorem TierTraversal.collect_wor (traversal : TierTraversal)
    (content : List UtteranceContent) :
    Talkbank.collectUtteranceContent content .wor =
      (occurrences false content).flatMap traversal.worWords := by
  rw [traversal.collect, walkItems_eq_occurrences (by simp) false, List.flatMap_map]
  rfl

end Traversal

section Exact

theorem asrWordFromText_inj {text : String} {timing timing' : Option (ℕ × ℕ)} :
    asrWordFromText text timing = asrWordFromText text timing' ↔
      timing.getD (0, 0) = timing'.getD (0, 0) := by
  simp only [asrWordFromText, AsrWord.mk.injEq, true_and, and_true]
  exact Prod.ext_iff.symm

variable [Talkbank]

/-- The index of the first `%mor` word of an occurrence. -/
def TierTraversal.morPosition (traversal : TierTraversal) (utterance : Utterance)
    (index : ℕ) : ℕ :=
  flatMapPosition traversal.morWords (occurrences false utterance.items) index

/-- The position of an occurrence among those with a `%wor` item. -/
def TierTraversal.worPosition (traversal : TierTraversal) (utterance : Utterance)
    (index : ℕ) : ℕ :=
  flatMapPosition traversal.worWords (occurrences false utterance.items) index

/-- The timing of a `%wor` item, none where there is no such item. -/
def worTimingAt (tier : WorTier) (position : ℕ) : Option (ℕ × ℕ) :=
  tier.words[position]?.bind worWordTiming

/-- The fallback of the diarization: no walked word has an inline bullet. -/
def AssignsByWor (utterance : Utterance) : Prop :=
  ∀ item ∈ Talkbank.walkWords utterance.items (some .mor), wordTiming item = none

/-- A `%mor` word of an occurrence that has a `%wor` item is timed by that item, in its
segmentation row and by the diarization fallback. -/
def TierTraversal.TimedByOwnItem (traversal : TierTraversal) (utterance : Utterance)
    (tier : WorTier) : Prop :=
  ∀ (index : ℕ) occurrence, (occurrences false utterance.items)[index]? = some occurrence →
    traversal.worWords occurrence ≠ [] →
    ∀ (k : ℕ) word, (traversal.morWords occurrence)[k]? = some word →
      ∃ item, tier.words[traversal.worPosition utterance index]? = some item ∧
        (utteranceRow utterance).words[traversal.morPosition utterance index + k]? =
          some (asrWordFromText word.text (worWordTiming item)) ∧
        (AssignsByWor utterance →
          (assignmentTimings utterance)[traversal.morPosition utterance index + k]?.join =
            worWordTiming item)

/-- Two `%wor` positions give a word the same timing. A row writes no timing as `(0, 0)`. -/
def SameWorTiming (utterance : Utterance) (tier : WorTier) (i j : ℕ) : Prop :=
  (worTimingAt tier i).getD (0, 0) = (worTimingAt tier j).getD (0, 0) ∧
    (AssignsByWor utterance → worTimingAt tier i = worTimingAt tier j)

/-- At every `%mor` word that has a `%wor` item the two indices agree, or the items at them
carry the same timing. -/
def TierTraversal.PositionsAgree (traversal : TierTraversal) (utterance : Utterance)
    (tier : WorTier) : Prop :=
  ∀ (index : ℕ) occurrence, (occurrences false utterance.items)[index]? = some occurrence →
    traversal.worWords occurrence ≠ [] →
    ∀ k < (traversal.morWords occurrence).length,
      traversal.morPosition utterance index + k = traversal.worPosition utterance index ∨
        SameWorTiming utterance tier (traversal.morPosition utterance index + k)
          (traversal.worPosition utterance index)

/-- Agreement of the indices alone is a finite check. -/
theorem TierTraversal.positionsAgree_of_forall_fin (traversal : TierTraversal)
    (utterance : Utterance) (tier : WorTier)
    (agree : ∀ index : Fin (occurrences false utterance.items).length,
      traversal.worWords ((occurrences false utterance.items).get index) ≠ [] →
      ∀ k : Fin (traversal.morWords ((occurrences false utterance.items).get index)).length,
        traversal.morPosition utterance index + k = traversal.worPosition utterance index) :
    traversal.PositionsAgree utterance tier := by
  intro index occurrence atIndex hasItem k bound
  rcases List.getElem?_eq_some_iff.mp atIndex with ⟨inside, rfl⟩
  left
  exact agree ⟨index, inside⟩ hasItem ⟨k, bound⟩

/-- The row reads the `%wor` item at the running index of the extracted word. -/
theorem utteranceRow_getElem? {utterance : Utterance} {tier : WorTier}
    (hasTier : utterance.worTier = some tier) (position : ℕ) :
    (utteranceRow utterance).words[position]? =
      (Talkbank.collectUtteranceContent utterance.items .mor)[position]?.map fun word =>
        asrWordFromText word.text (worTimingAt tier position) := by
  have read : ((tier.words.map worWordTiming)[position]?.bind id) =
      worTimingAt tier position := by
    rw [List.getElem?_map, worTimingAt]
    cases tier.words[position]? <;> rfl
  simp only [utteranceRow, hasTier, Option.map_some, Option.getD_some, List.getElem?_map,
    List.getElem?_zipIdx, Option.map_map]
  cases (Talkbank.collectUtteranceContent utterance.items .mor)[position]? with
  | none => rfl
  | some word =>
      simp only [Option.map_some, Function.comp_apply, Nat.zero_add]
      rw [← List.getElem?_map, read]

theorem assignmentTimings_getElem? {utterance : Utterance} {tier : WorTier}
    (hasTier : utterance.worTier = some tier) (fallback : AssignsByWor utterance)
    (position : ℕ) :
    (assignmentTimings utterance)[position]?.join = worTimingAt tier position := by
  have untimed : ((Talkbank.walkWords utterance.items (some .mor)).map wordTiming).all
      Option.isNone = true := by
    apply List.all_eq_true.mpr
    intro timing present
    rcases List.mem_map.mp present with ⟨item, walked, rfl⟩
    simp [fallback item walked]
  simp only [assignmentTimings, untimed, if_true, hasTier, List.getElem?_map, worTimingAt]
  cases tier.words[position]? <;> rfl

/-- The occurrence's own item exists: the tier has one item for each `%wor` word. -/
theorem TierTraversal.ownItem (traversal : TierTraversal) {utterance : Utterance}
    {tier : WorTier}
    (itemEach : tier.wordCount = (Talkbank.collectUtteranceContent utterance.items .wor).length)
    {index : ℕ} {occurrence : WordItem × Bool}
    (atIndex : (occurrences false utterance.items)[index]? = some occurrence)
    (hasItem : traversal.worWords occurrence ≠ []) :
    ∃ item, tier.words[traversal.worPosition utterance index]? = some item := by
  have inside := flatMapPosition_lt traversal.worWords atIndex
    (List.length_pos_iff.mpr hasItem)
  rw [← traversal.collect_wor, ← itemEach] at inside
  exact ⟨_, List.getElem?_eq_getElem inside⟩

/-- For an utterance whose `%wor` tier has one item for each `%wor` word, every word is
timed by its own item exactly when the indices agree or the timings coincide. -/
theorem timedByOwnItem_iff (traversal : TierTraversal) (utterance : Utterance)
    (tier : WorTier) (hasTier : utterance.worTier = some tier)
    (itemEach : tier.wordCount =
      (Talkbank.collectUtteranceContent utterance.items .wor).length) :
    traversal.TimedByOwnItem utterance tier ↔ traversal.PositionsAgree utterance tier := by
  constructor
  · intro timed index occurrence atIndex hasItem k bound
    right
    rcases timed index occurrence atIndex hasItem k _ (List.getElem?_eq_getElem bound) with
      ⟨item, atOwn, row, assigned⟩
    have own : worTimingAt tier (traversal.worPosition utterance index) =
        worWordTiming item := by
      simp [worTimingAt, atOwn]
    have extracted := flatMap_getElem?_position traversal.morWords atIndex bound
    rw [← traversal.collect_mor, List.getElem?_eq_getElem bound] at extracted
    constructor
    · apply (@asrWordFromText_inj (traversal.morWords occurrence)[k].text _ _).mp
      rw [own]
      rw [utteranceRow_getElem? hasTier] at row
      simpa [TierTraversal.morPosition, extracted] using row
    · intro fallback
      rw [← assignmentTimings_getElem? hasTier fallback, assigned fallback, own]
  · intro agree index occurrence atIndex hasItem k word atWord
    have bound : k < (traversal.morWords occurrence).length :=
      (List.getElem?_eq_some_iff.mp atWord).1
    rcases traversal.ownItem itemEach atIndex hasItem with ⟨item, atOwn⟩
    have own : worTimingAt tier (traversal.worPosition utterance index) =
        worWordTiming item := by
      simp [worTimingAt, atOwn]
    have same : SameWorTiming utterance tier (traversal.morPosition utterance index + k)
        (traversal.worPosition utterance index) := by
      rcases agree index occurrence atIndex hasItem k bound with equal | same
      · rw [equal]
        exact ⟨rfl, fun _ => rfl⟩
      · exact same
    have extracted := flatMap_getElem?_position traversal.morWords atIndex bound
    rw [← traversal.collect_mor, atWord] at extracted
    refine ⟨item, atOwn, ?_, ?_⟩
    · rw [utteranceRow_getElem? hasTier]
      simp only [TierTraversal.morPosition, extracted, Option.map_some, Option.some.injEq]
      apply asrWordFromText_inj.mpr
      rw [← own]
      exact same.1
    · intro fallback
      rw [assignmentTimings_getElem? hasTier fallback, same.2 fallback, own]

end Exact

section Instances

/-- The documented walkers as a traversal. -/
def documentedTraversal : TierTraversal where
  extract := Documented.extractItem
  collect _ _ := rfl

/-- An utterance with a `%wor` tier that holds the given words. -/
def withWor (content : List UtteranceContent) (words : List Word) : Utterance :=
  { Utterance.new (MainTier.new "PAR0" content .period) with
    dependentTiers := [.wor (WorTier.fromWords words)] }

/-- A filler behind the last `%mor` word shifts nothing, and neither does a retrace whose
place the index of a comma takes. -/
theorem timedByOwnItem_iff_trailing :
    documentedTraversal.TimedByOwnItem
      (withWor [.retrace [.word (Word.simple "I")], .separator ",", .word (Word.simple "yeah"),
          .word (filler "uh")]
        [timedWord "I" 0 100, timedWord "yeah" 100 500, timedWord "uh" 500 600])
      (WorTier.fromWords
        [timedWord "I" 0 100, timedWord "yeah" 100 500, timedWord "uh" 500 600]) :=
  (timedByOwnItem_iff documentedTraversal _ _ (by decide) (by decide)).mpr
    (documentedTraversal.positionsAgree_of_forall_fin _ _ (by decide))

/-- A filler in front: `yeah` gets the timing of `uh`. -/
theorem word_not_timedByOwnItem :
    let words := [timedWord "uh" 0 100, timedWord "yeah" 100 500]
    let utterance := withWor [.word (filler "uh"), .word (Word.simple "yeah")] words
    utterance.worTier = some (WorTier.fromWords words) ∧
      (WorTier.fromWords words).wordCount =
        (Talkbank.collectUtteranceContent utterance.items .wor).length ∧
      (utteranceRow utterance).words = [asrWordFromText "yeah" (some (0, 100))] ∧
      ¬ documentedTraversal.TimedByOwnItem utterance (WorTier.fromWords words) := by
  refine ⟨by decide, by decide, by decide, ?_⟩
  intro timed
  rcases timed 1 (.word (Word.simple "yeah"), false) (by decide) (by decide) 0 ⟨"yeah"⟩
    (by decide) with ⟨item, atOwn, row, _⟩
  have own : item = timedWord "yeah" 100 500 := by
    apply Option.some.inj
    rw [← atOwn]
    decide
  subst own
  exact absurd row (by decide)

end Instances

end Batchalign.Speaker
