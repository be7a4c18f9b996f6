import Batchalign.Compare.Words
import Batchalign.Runners.Morphosyntax
import Batchalign.Speaker.WorPositions

/-!
# Which `%mor` item tags a word

The comparison looks a part of speech up by the place of the word among all word items. The
morphosyntax runner writes an item for every word that counts for `%mor`, for every tag marker
and for every word of a replacement. A word gets the tag of its own item where the occurrences
before it contribute equally much to both.
-/

namespace Batchalign.Compare

open Batchalign.Chat Batchalign.Runners Batchalign.Speaker

section Positions

universe u

variable {α β γ : Type u}

/-- The place of an element among those that have a value. -/
def valuePosition (value : α → Option β) (xs : List α) (index : ℕ) : ℕ :=
  ((xs.take index).filterMap value).length

def keptValue (value : α → Option β) (dropped : β → Bool) (x : α) : Option β :=
  (value x).filter (! dropped ·)

/-- Among the values that are kept, with their places among all values, an element stands
behind those of the elements before it. -/
theorem filterMap_zipIdx_getElem? {value : α → Option β} {dropped : β → Bool} {keep : β → ℕ → γ}
    {xs : List α} {index start : ℕ} {x : α} {y : β} (atIndex : xs[index]? = some x)
    (isValue : value x = some y) (kept : dropped y = false) :
    (((xs.filterMap value).zipIdx start).filterMap fun item =>
        if dropped item.1 then none else some (keep item.1 item.2))[
          valuePosition (keptValue value dropped) xs index]? =
      some (keep y (start + valuePosition value xs index)) := by
  induction xs generalizing index start with
  | nil => cases atIndex
  | cons head xs ih =>
      cases index with
      | zero =>
          cases atIndex
          rw [List.filterMap_cons_some isValue, List.zipIdx_cons, List.filterMap_cons_some
            (by rw [kept]; rfl)]
          rfl
      | succ index =>
          have atRest : xs[index]? = some x := atIndex
          cases first : value head with
          | none =>
              have noValue : keptValue value dropped head = none := by
                rw [keptValue, first]
                rfl
              rw [List.filterMap_cons_none first, valuePosition, valuePosition,
                List.take_succ_cons, List.filterMap_cons_none noValue,
                List.filterMap_cons_none first]
              exact ih atRest
          | some z =>
              rw [List.filterMap_cons_some first, List.zipIdx_cons, valuePosition,
                valuePosition, List.take_succ_cons, List.filterMap_cons_some first,
                List.length_cons]
              have places : start + (((xs.take index).filterMap value).length + 1) =
                  start + 1 + ((xs.take index).filterMap value).length := by
                omega
              cases isDropped : dropped z with
              | true =>
                  have noValue : keptValue value dropped head = none := by
                    rw [keptValue, first, Option.filter_some, isDropped]
                    rfl
                  rw [List.filterMap_cons_none (by rw [isDropped]; rfl),
                    List.filterMap_cons_none noValue, places]
                  exact ih atRest
              | false =>
                  have isKept : keptValue value dropped head = some z := by
                    rw [keptValue, first, Option.filter_some, isDropped]
                    rfl
                  rw [List.filterMap_cons_some (by rw [isDropped]; rfl),
                    List.filterMap_cons_some isKept, List.length_cons, List.getElem?_cons_succ,
                    places]
                  exact ih atRest

end Positions

section Words

/-- The word whose text is read. -/
def readSource : WordItem → Option Word
  | .word word => some word
  | .replacedWord word replacement =>
      match replacement.head? with
      | some first => some (if first.cleanedText.isEmpty then word else first)
      | none => some word
  | .separator _ => none

theorem rawWord_eq (item : WordItem) : rawWord item = (readSource item).map Word.cleanedText := by
  cases item with
  | word word => rfl
  | separator text => rfl
  | replacedWord word replacement =>
      cases replacement with
      | nil => rfl
      | cons first rest =>
          rw [rawWord, readSource]
          change some (if first.cleanedText.isEmpty then _ else _) =
            Option.map _ (some (if first.cleanedText.isEmpty then _ else _))
          split <;> rfl

variable [Talkbank]

/-- The words that have a `%mor` item. -/
def morSources : WordItem → List Word
  | .word word => [word].filter (Talkbank.countsForTier · .mor)
  | .replacedWord word replacement =>
      (if replacement.isEmpty then [word] else replacement).filter
        (Talkbank.countsForTier · .mor)
  | .separator _ => []

/-- How the library walks and extracts for `%mor`. -/
structure MorTraversal extends TierTraversal where
  walk : ∀ content, Talkbank.walkWords content none = (occurrences false content).map Prod.fst
  word : ∀ word, extract .mor (.word word) =
    (morSources (.word word)).map fun word => ⟨word.cleanedText⟩
  replacedWord : ∀ word replacement, extract .mor (.replacedWord word replacement) =
    (morSources (.replacedWord word replacement)).map fun word => ⟨word.cleanedText⟩

variable [UnicodeCase]

/-- The occurrence is read, and the word read has the first of its `%mor` items. -/
structure OwnsItem (utt : Utterance) (index : ℕ) (word : Word) : Prop where
  occurrence : ∃ item, (occurrences false utt.items)[index]? = some (item, false) ∧
    readSource item = some word ∧ (morSources item).head? = some word
  nonempty : (trim word.cleanedText).isEmpty = false
  spoken : isFiller (trim word.cleanedText) = false

/-- The word is left out of the comparison. -/
def isLeftOut (raw : String) : Bool := (trim raw).isEmpty || isFiller (trim raw)

def rawOf (occurrence : WordItem × Bool) : Option String := rawWord occurrence.1

/-- The place of an occurrence among all word items. -/
def rawPosition (utt : Utterance) (index : ℕ) : ℕ :=
  valuePosition rawOf (occurrences false utt.items) index

/-- The place of an occurrence among the words compared. -/
def readPosition (utt : Utterance) (index : ℕ) : ℕ :=
  valuePosition (keptValue rawOf isLeftOut) (occurrences false utt.items) index

/-- The tag looked up at a place. -/
def tagAt (utt : Utterance) (position : ℕ) : String :=
  ((utterancePosByIndex utt).bind (·[position]?)).getD "?"

/-- A word that is read has the tag at its place among all word items. -/
theorem utteranceWords_getElem? (traversal : MorTraversal) {utt : Utterance} {index : ℕ}
    {word : Word} (owns : OwnsItem utt index word) (uttIdx : ℕ) :
    (utteranceWords uttIdx utt)[readPosition utt index]? =
      some ⟨uttIdx, trim word.cleanedText, tagAt utt (rawPosition utt index)⟩ := by
  rcases owns.occurrence with ⟨item, atIndex, read, _⟩
  have isRaw : rawOf (item, false) = some word.cleanedText := by
    rw [rawOf, rawWord_eq, read]
    rfl
  have kept : isLeftOut word.cleanedText = false := by
    rw [isLeftOut, owns.nonempty, owns.spoken]
    rfl
  have walked : (Talkbank.walkWords utt.items none).filterMap rawWord =
      (occurrences false utt.items).filterMap rawOf := by
    rw [traversal.walk, List.filterMap_map]
    rfl
  have found : ((((occurrences false utt.items).filterMap rawOf).zipIdx 0).filterMap fun item =>
      if isLeftOut item.1 then none
      else some (SrcWord.mk uttIdx (trim item.1) (tagAt utt item.2)))[readPosition utt index]? =
        some ⟨uttIdx, trim word.cleanedText, tagAt utt (0 + rawPosition utt index)⟩ :=
    @filterMap_zipIdx_getElem? _ _ _ rawOf isLeftOut
      (fun raw idx => SrcWord.mk uttIdx (trim raw) (tagAt utt idx)) _ _ _ _ _ atIndex isRaw kept
  rw [Nat.zero_add] at found
  rw [utteranceWords, walked]
  exact found

/-- The token sent for the word stands at the place of its item. -/
theorem token_of_ownsItem (traversal : MorTraversal) {utt : Utterance} {index : ℕ} {word : Word}
    (owns : OwnsItem utt index word) :
    ((Talkbank.collectUtteranceContent utt.items .mor).map ExtractedWord.text)[
        traversal.morPosition utt index]? = some word.cleanedText := by
  rcases owns.occurrence with ⟨item, atIndex, read, isFirst⟩
  have extracted : traversal.morWords (item, false) =
      (morSources item).map fun word => ⟨word.cleanedText⟩ := by
    cases item with
    | word word => exact traversal.word word
    | replacedWord word replacement => exact traversal.replacedWord word replacement
    | separator text => cases isFirst
  rcases List.head?_eq_some_iff.mp isFirst with ⟨rest, sources⟩
  rw [sources, List.map_cons] at extracted
  have bound : 0 < (traversal.morWords (item, false)).length := by
    rw [extracted]
    exact Nat.succ_pos _
  have found := flatMap_getElem?_position traversal.morWords atIndex bound
  rw [← traversal.collect_mor, extracted, Nat.add_zero] at found
  rw [List.getElem?_map, TierTraversal.morPosition, found]
  rfl

end Words

section Places

/-- The items of an analysis. -/
def morItems (out : MorphosyntaxOutput) : List Mor := (out.tokens.filterMap buildMor).map Prod.fst

variable [UnicodeCase] [Talkbank]

/-- Every word that is read and has an item gets the tag of this item. -/
def LiftsOwnPos (traversal : MorTraversal) (utt tagged : Utterance) (out : MorphosyntaxOutput) :
    Prop :=
  ∀ index word item, OwnsItem utt index word →
    (morItems out)[traversal.morPosition utt index]? = some item → ∀ uttIdx,
      (utteranceWords uttIdx tagged)[readPosition utt index]? =
        some ⟨uttIdx, trim word.cleanedText, UnicodeCase.toUppercase item.main.pos⟩

/-- As many word items as `%mor` items stand before the word, or the tag found at its place
happens to be the one of its item. -/
def PlacesAgree (traversal : MorTraversal) (utt tagged : Utterance) (out : MorphosyntaxOutput) :
    Prop :=
  ∀ index word item, OwnsItem utt index word →
    (morItems out)[traversal.morPosition utt index]? = some item →
      rawPosition utt index = traversal.morPosition utt index ∨
        tagAt tagged (rawPosition utt index) = UnicodeCase.toUppercase item.main.pos

/-- Agreement of the places alone is a finite check. -/
theorem placesAgree_of_forall_fin {traversal : MorTraversal} {utt tagged : Utterance}
    {out : MorphosyntaxOutput}
    (agree : ∀ index : Fin (occurrences false utt.items).length,
      morSources ((occurrences false utt.items).get index).1 ≠ [] →
        rawPosition utt index = traversal.morPosition utt index) :
    PlacesAgree traversal utt tagged out := by
  intro index word item owns _
  rcases owns.occurrence with ⟨source, atIndex, _, isFirst⟩
  rcases List.getElem?_eq_some_iff.mp atIndex with ⟨inside, isSource⟩
  left
  apply agree ⟨index, inside⟩
  intro empty
  rw [List.get_eq_getElem, isSource] at empty
  rw [empty] at isFirst
  cases isFirst

end Places

section Tags

theorem withTiers_morContent {utt : Utterance} (untagged : utteranceHasMorTier utt = false)
    (mor gra : String) : morContent (withTiers utt (some (mor, gra))) = some mor := by
  rw [morContent, withTiers]
  dsimp only
  rw [List.findSome?_append, List.findSome?_eq_none_iff.mpr, Option.none_or]
  · rfl
  · intro tier member
    have notMor := List.any_eq_false.mp untagged tier member
    cases tier <;> first | rfl | exact absurd rfl notMor

variable [MorTiers]

theorem tiersFor_written {outputs : List (ℕ × MorphosyntaxOutput)} {utt : Utterance} {idx : ℕ}
    {out : MorphosyntaxOutput} (answered : outputs.reverse.lookup idx = some out)
    {mor gra : String} (tiers : tiersFor outputs (utt, idx) = .ok (some (mor, gra))) :
    ∃ relations slot, MorTiers.tryAlignMorGra (morItems out) relations slot = .ok (mor, gra) := by
  unfold tiersFor at tiers
  rw [answered] at tiers
  dsimp only at tiers
  cases candidate : buildTiers out (utt.main.content.terminator.getD .period) with
  | error error =>
      rw [candidate] at tiers
      cases tiers
  | ok built =>
      rw [candidate] at tiers
      have kept := (Option.filter_eq_some_iff.mp (Except.ok.inj tiers)).1
      subst kept
      unfold buildTiers at candidate
      dsimp only at candidate
      split at candidate
      · cases candidate
      · split at candidate
        · cases candidate
        · split at candidate
          · rename_i aligned
            cases candidate
            exact ⟨_, _, aligned⟩
          · cases candidate

variable [UnicodeCase]

/-- A `%mor` tier is written as one entry for each item, which starts with its tag, and the
terminator. -/
def WritesItems (writeTerminator : Terminator → String) : Prop :=
  ∀ items relations slot mor gra, MorTiers.tryAlignMorGra items relations slot = .ok (mor, gra) →
    ∃ entries, splitWhitespace mor = entries ++ [writeTerminator slot.terminator] ∧
      List.Forall₂ (fun item entry => entryPos entry = UnicodeCase.toUppercase item.main.pos ∧
        isTerminatorEntry entry = false) items entries

/-- The tag at the place of an item is its tag. -/
theorem tagAt_item {writeTerminator : Terminator → String} (writes : WritesItems writeTerminator)
    {outputs : List (ℕ × MorphosyntaxOutput)} {utt : Utterance} {idx : ℕ}
    {out : MorphosyntaxOutput} (untagged : utteranceHasMorTier utt = false)
    (answered : outputs.reverse.lookup idx = some out) {mor gra : String}
    (tiers : tiersFor outputs (utt, idx) = .ok (some (mor, gra))) {position : ℕ} {item : Mor}
    (isItem : (morItems out)[position]? = some item) :
    tagAt (withTiers utt (some (mor, gra))) position =
      UnicodeCase.toUppercase item.main.pos := by
  rcases tiersFor_written answered tiers with ⟨relations, slot, aligned⟩
  rcases writes _ _ _ _ _ aligned with ⟨entries, written, each⟩
  rcases List.getElem?_eq_some_iff.mp isItem with ⟨bound, isItem⟩
  have inside : position < entries.length := each.length_eq ▸ bound
  have tag := (each.get bound inside).1
  have noTerminators : entries.filter (! isTerminatorEntry ·) = entries := by
    apply List.filter_eq_self.mpr
    intro entry member
    rcases List.getElem_of_mem member with ⟨k, within, rfl⟩
    have notTerminator := (each.get (each.length_eq.symm ▸ within) within).2
    simpa using notTerminator
  have lifted : ((entries ++ [writeTerminator slot.terminator]).filter
      (! isTerminatorEntry ·))[position]? = some entries[position] := by
    rw [List.filter_append, noTerminators, List.getElem?_append_left inside]
    exact List.getElem?_eq_getElem inside
  rw [tagAt, utterancePosByIndex, withTiers_morContent untagged, Option.map_some,
    Option.bind_some, List.getElem?_map, written, lifted]
  rw [← isItem]
  exact tag

variable [Talkbank]

end Tags

section Samples

open Documented

def writeMorWord (word : MorWord) : String := "-".intercalate ((word.pos ++ "|" ++ word.stem) ::
  word.features)

def writeMor (item : Mor) : String :=
  "~".intercalate (writeMorWord item.main :: item.postClitics.map writeMorWord)

/-- An entry of the tier that shows the tag of its item. -/
def ShowsTag (item : Mor) (entry : String) : Prop :=
  entryPos entry = UnicodeCase.toUppercase item.main.pos ∧ isTerminatorEntry entry = false

instance (item : Mor) (entry : String) : Decidable (ShowsTag item entry) :=
  inferInstanceAs (Decidable (_ ∧ _))

/-- A writer that refuses items which would not read back. -/
instance checkedTiers : MorTiers where
  tryAlignMorGra items relations slot :=
    let entries := items.map writeMor
    let mor := " ".intercalate (entries ++ [writeTerminator slot.terminator])
    let gra := " ".intercalate ((relations ++ [slot.relation]).map fun relation =>
      s!"{relation.index}|{relation.head}|{relation.relation}")
    if splitWhitespace mor = entries ++ [writeTerminator slot.terminator] ∧
      List.Forall₂ ShowsTag items entries then .ok (mor, gra) else .error "unwritable item"
  alignMainToMor main mor :=
    if (splitWhitespace mor).length =
      (Talkbank.collectUtteranceContent main.content.content .mor).length + 1 then [] else ["E705"]
  switchesLanguage _ _ := false

theorem checkedTiers_writesItems : WritesItems writeTerminator := by
  intro items relations slot mor gra aligned
  change (if _ then _ else _) = _ at aligned
  split at aligned
  · rename_i readsBack
    cases aligned
    exact ⟨items.map writeMor, readsBack⟩
  · cases aligned

/-- The documented walkers for `%mor`. -/
def documentedMorTraversal : MorTraversal where
  toTierTraversal := documentedTraversal
  walk content := walkItems_eq_occurrences (by simp) false content
  word word := by
    change (if countsForTier word .mor then _ else _) = _
    rw [morSources, List.filter_singleton]
    cases counts : countsForTier word .mor with
    | true =>
        change _ = List.map _ (bif countsForTier word .mor then [word] else [])
        rw [counts]
        rfl
    | false =>
        change _ = List.map _ (bif countsForTier word .mor then [word] else [])
        rw [counts]
        rfl
  replacedWord word replacement := by
    cases replacement <;> rfl

def unit (pos lemmaText : String) (index head : ℕ) (deprel : String) : MorphosyntaxToken where
  text := lemmaText
  units := [⟨pos, lemmaText, [], index, head, deprel⟩]

def plainUtterance (content : List UtteranceContent) : Utterance :=
  .new (.new "CHI" content .period)

def dogsBark : MorphosyntaxOutput where
  sourceId := "talk"
  utteranceId := 0
  tokens := [unit "noun" "dog" 1 2 "NSUBJ", unit "verb" "bark" 2 0 "ROOT"]
  terminator := some ⟨3, 2, "PUNCT"⟩

def dogsBarkTiers : Option (String × String) :=
  some ("noun|dog verb|bark .", "1|2|NSUBJ 2|0|ROOT 3|2|PUNCT")

end Samples

end Batchalign.Compare
