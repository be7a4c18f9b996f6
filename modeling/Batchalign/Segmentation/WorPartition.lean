import Batchalign.Chat.Documented
import Batchalign.Segmentation.Conservation

/-!
# `%wor` goes with its words

The words of `%wor` are counted off against the words of the main tier that are eligible
for it. When the counts agree, every child gets the `%wor` words of its own words, in
order. Otherwise no child of a split gets any.
-/

namespace Batchalign.Segmentation

open Batchalign.Chat Partition

section Children

theorem wor?_of_attachFirst {tier : DependentTier}
    (policy : policyForTier tier = .attachFirst) : tier.wor? = none := by
  cases tier <;> first | rfl | cases policy

theorem worTier_pushTiers_attachFirst (child : Utterance) (tiers : List DependentTier) :
    (Utterance.pushTiers child
      (tiers.filter fun tier => policyForTier tier = .attachFirst)).worTier = child.worTier := by
  have none : (tiers.filter fun tier => policyForTier tier = .attachFirst).findSome?
      DependentTier.wor? = none := by
    apply List.findSome?_eq_none_iff.mpr
    intro tier member
    apply wor?_of_attachFirst
    simpa using (List.mem_filter.mp member).2
  simp [Utterance.worTier, Utterance.pushTiers, none]

theorem attachFirst_worTier (parent child : Utterance) :
    (attachFirst parent child).worTier = child.worTier := by
  unfold attachFirst
  extract_lets tiers child'
  have same : child'.worTier = child.worTier := worTier_pushTiers_attachFirst child _
  split
  · exact same
  · exact same

theorem childWorTiers_worTier (perGroup : Option (List WorTier)) (group : ℕ)
    (child : Utterance) (fresh : child.dependentTiers = []) :
    (Utterance.pushTiers child (childWorTiers perGroup group)).worTier =
      (perGroup.bind (·[group]?)).filter fun tier => !tier.items.isEmpty := by
  simp only [Utterance.worTier, Utterance.pushTiers, fresh, List.nil_append,
    childWorTiers]
  cases perGroup.bind (·[group]?) with
  | none => rfl
  | some tier =>
      rw [Option.filter_some]
      by_cases empty : tier.items.isEmpty = true
      · simp [empty]
      · simp [empty, DependentTier.wor?]

/-- The only `%wor` tiers a child has are those it gets of its own group. -/
theorem attachFirst_worTiers (parent child : Utterance) :
    (attachFirst parent child).dependentTiers.filter DependentTier.isWor =
      child.dependentTiers.filter DependentTier.isWor := by
  have none : (parent.dependentTiers.filter fun tier =>
      policyForTier tier = .attachFirst).filter DependentTier.isWor = [] := by
    apply List.filter_eq_nil_iff.mpr
    intro tier member
    have policy := (List.mem_filter.mp member).2
    cases tier <;> first | (simp [DependentTier.isWor]; done) | (simp [policyForTier] at policy)
  have same : (Utterance.pushTiers child (parent.dependentTiers.filter fun tier =>
      policyForTier tier = .attachFirst)).dependentTiers.filter DependentTier.isWor =
      child.dependentTiers.filter DependentTier.isWor := by
    rw [Utterance.pushTiers, List.filter_append, none, List.append_nil]
  simp only [attachFirst]
  split
  · exact same
  · exact same

theorem childWorTiers_filter (perGroup : Option (List WorTier)) (group : ℕ) :
    (childWorTiers perGroup group).filter DependentTier.isWor = childWorTiers perGroup group := by
  simp only [childWorTiers]
  split
  · split <;> rfl
  · rfl

theorem childWorTiers_length_le (perGroup : Option (List WorTier)) (group : ℕ) :
    (childWorTiers perGroup group).length ≤ 1 := by
  simp only [childWorTiers]
  split
  · split <;> simp
  · simp

/-- The `%wor` words of an utterance. -/
def carriedWords (utt : Utterance) : List Word := (utt.worTier.map WorTier.words).getD []

theorem carriedWords_attachFirst (parent child : Utterance) :
    carriedWords (attachFirst parent child) = carriedWords child := by
  rw [carriedWords, attachFirst_worTier, carriedWords]

theorem carriedWords_attachLast (parent child : Utterance) :
    carriedWords (attachLast parent child) = carriedWords child := rfl

theorem carriedWords_child (perGroup : Option (List WorTier)) (group : ℕ) (child : Utterance)
    (fresh : child.dependentTiers = []) :
    carriedWords (Utterance.pushTiers child (childWorTiers perGroup group)) =
      ((perGroup.bind (·[group]?)).map WorTier.words).getD [] := by
  rw [carriedWords, childWorTiers_worTier perGroup group child fresh]
  cases perGroup.bind (·[group]?) with
  | none => rfl
  | some tier =>
      rw [Option.filter_some]
      by_cases empty : tier.items = []
      · simp [empty, WorTier.words]
      · simp [empty]

end Children

section Counting

def worWord? : WorItem → Option Word
  | .word word => some word
  | .separator _ => none

@[simp] theorem worWord?_word (word : Word) : worWord? (.word word) = some word := rfl

@[simp] theorem worWord?_separator (text : String) : worWord? (.separator text) = none := rfl

theorem words_eq (tier : WorTier) : tier.words = tier.items.filterMap worWord? := rfl

/-- The grouped words are those of the tier, each with the group of its main-tier word. -/
theorem worItemGroups_words {groups : List ℕ} {items : List WorItem} (lastSeenGroup : Option ℕ)
    (counts : (items.filterMap worWord?).length = groups.length) :
    (worItemGroups groups lastSeenGroup items).filterMap (fun item =>
      (worWord? item.2).map fun word => (item.1, word)) =
      groups.zip (items.filterMap worWord?) := by
  induction items generalizing groups lastSeenGroup with
  | nil => cases groups <;> rfl
  | cons item items ih =>
      cases item with
      | word word =>
          cases groups with
          | nil => simp at counts
          | cons group groups =>
              simp only [List.filterMap_cons, worWord?_word, List.length_cons,
                Nat.add_right_cancel_iff] at counts
              simpa [worItemGroups, List.filterMap_cons] using ih (some group) counts
      | separator text =>
          rw [List.filterMap_cons_none (worWord?_separator text)] at counts ⊢
          simpa [worItemGroups, List.filterMap_cons] using ih lastSeenGroup counts

/-- The words of a child are the tier's words with its group. -/
theorem words_filter_group (grouped : List (ℕ × WorItem)) (group : ℕ) :
    ((grouped.filter fun item => item.1 = group).map Prod.snd).filterMap worWord? =
      ((grouped.filterMap fun item => (worWord? item.2).map fun word =>
        (item.1, word)).filter fun word => word.1 = group).map Prod.snd := by
  induction grouped with
  | nil => rfl
  | cons item grouped ih =>
      rcases item with ⟨itemGroup, item⟩
      by_cases here : itemGroup = group
      · cases item with
        | word word => simpa [here, List.filterMap_cons] using ih
        | separator text => simpa [here, List.filterMap_cons] using ih
      · cases item with
        | word word => simpa [here, List.filterMap_cons] using ih
        | separator text => simpa [here, List.filterMap_cons] using ih

/-- The words counted off to a group. -/
def wordsOfGroup (groups : List ℕ) (words : List Word) (group : ℕ) : List Word :=
  ((groups.zip words).filter fun word => word.1 = group).map Prod.snd

theorem wordsOfGroup_length {groups : List ℕ} {words : List Word}
    (counts : words.length = groups.length) (group : ℕ) :
    (wordsOfGroup groups words group).length = groups.count group := by
  rw [wordsOfGroup, List.length_map, ← List.countP_eq_length_filter, List.count]
  conv_rhs => rw [← List.map_fst_zip counts.ge, List.countP_map]
  apply List.countP_congr
  simp

/-- Taken in order of their groups, the words are those of the tier. -/
theorem wordsOfGroup_flatten {groups : List ℕ} {words : List Word} {count : ℕ}
    (counts : words.length = groups.length) (sorted : groups.Pairwise (· ≤ ·))
    (bound : ∀ group ∈ groups, group < count) :
    (List.range count).flatMap (wordsOfGroup groups words) = words := by
  have keys := List.map_fst_zip counts.ge
  have buckets := @flatMap_filter_key _ (fun word : ℕ × Word => word.1) count (groups.zip words)
    (by rwa [keys]) (by
      intro word member
      exact bound word.1 (List.of_mem_zip member).1)
  have mapped := congrArg (List.map Prod.snd) buckets
  rwa [List.map_flatMap, List.map_snd_zip counts.le] at mapped

theorem partitionWorTier_words {tier : WorTier} {groups : List ℕ} {count group : ℕ}
    (counts : tier.wordCount = groups.length) (bound : group < count) :
    (((partitionWorTier tier groups count).bind (·[group]?)).map WorTier.words).getD [] =
      wordsOfGroup groups tier.words group := by
  have grouped := worItemGroups_words none counts
  simp only [partitionWorTier, counts, ne_eq, not_true_eq_false, if_false, Option.bind_some,
    List.getElem?_map, List.getElem?_range bound, Option.map_some, Option.getD_some]
  rw [words_eq, words_filter_group, grouped]
  rfl

end Counting

section Eligible

variable [Talkbank]

/-- The words of an utterance that are eligible for `%wor`. -/
def eligibleWords (utt : Utterance) : List ExtractedWord :=
  Talkbank.collectUtteranceContent utt.items .wor

/-- The eligible words are found item by item, and a separator is none of them. -/
structure WorEligibility : Prop where
  items : ∀ content, Talkbank.collectUtteranceContent content .wor =
    content.flatMap fun item => Talkbank.collectUtteranceContent [item] .wor
  separator : ∀ text, Talkbank.collectUtteranceContent [.separator text] .wor = []

theorem WorEligibility.dropWhile (eligibility : WorEligibility)
    (content : List UtteranceContent) :
    Talkbank.collectUtteranceContent (content.dropWhile UtteranceContent.isSeparator) .wor =
      Talkbank.collectUtteranceContent content .wor := by
  rw [eligibility.items, eligibility.items content]
  induction content with
  | nil => rfl
  | cons item content ih =>
      cases item with
      | separator text =>
          rw [List.dropWhile_cons_of_pos rfl, ih, List.flatMap_cons, eligibility.separator,
            List.nil_append]
      | word _ | replacedWord _ _ | group _ | retrace _ | other _ => rfl

/-- The eligible words of a group are as many as the words counted off to it. -/
theorem WorEligibility.groupContent_length (eligibility : WorEligibility)
    (content : List UtteranceContent) (itemGroups : List (Option ℕ)) (group : ℕ) :
    (Talkbank.collectUtteranceContent (((content.zip itemGroups).filter fun item =>
      item.2.getD 0 = group).map Prod.fst) .wor).length =
      (worEligibleWordGroups content itemGroups).count group := by
  rw [eligibility.items, worEligibleWordGroups]
  induction content.zip itemGroups with
  | nil => rfl
  | cons item rest ih =>
      rw [List.flatMap_cons, List.count_append, ← ih, List.filter_cons]
      by_cases here : item.2.getD 0 = group
      · simp [here]
      · simp [here, List.count_replicate]

theorem WorEligibility.groups_length (eligibility : WorEligibility)
    {content : List UtteranceContent} {itemGroups : List (Option ℕ)}
    (lengths : itemGroups.length = content.length) :
    (worEligibleWordGroups content itemGroups).length =
      (Talkbank.collectUtteranceContent content .wor).length := by
  have paired := List.map_fst_zip lengths.ge
  conv_rhs => rw [eligibility.items, ← paired]
  rw [worEligibleWordGroups, List.length_flatMap, List.length_flatMap, List.map_map]
  simp [Function.comp_def]

/-- The group of every eligible word. -/
def eligibleGroups (utt : Utterance) (assignments : List ℕ) : List ℕ :=
  worEligibleWordGroups utt.items (contentItemGroups utt.items assignments)

theorem eligibleGroups_pairwise {utt : Utterance} {assignments : List ℕ}
    (nondecreasing : assignments.Pairwise (· ≤ ·)) (assigned : assignments ≠ [])
    (words : buildWordToContentMap utt.items ≠ []) :
    (eligibleGroups utt assignments).Pairwise (· ≤ ·) := by
  have sorted := itemNumbers_pairwise nondecreasing assigned words
  rw [List.pairwise_map] at sorted
  refine List.pairwise_flatMap.mpr ⟨?_, sorted.imp ?_⟩
  · intro item _
    exact List.pairwise_map.mpr (List.pairwise_of_forall fun _ _ => le_rfl)
  · intro item later le group member group' member'
    rcases List.mem_map.mp member with ⟨_, _, rfl⟩
    rcases List.mem_map.mp member' with ⟨_, _, rfl⟩
    exact le

theorem eligibleGroups_lt {utt : Utterance} {assignments : List ℕ}
    (assigned : assignments ≠ []) (words : buildWordToContentMap utt.items ≠ []) :
    ∀ group ∈ eligibleGroups utt assignments, group < assignments.foldl max 0 + 1 := by
  intro group member
  rcases List.mem_flatMap.mp member with ⟨item, inside, member⟩
  rcases List.mem_map.mp member with ⟨_, _, rfl⟩
  exact itemNumbers_lt assigned words item inside

end Eligible

section Kept

theorem mem_keptGroups {groups : List (List UtteranceContent)} {group : ℕ}
    {content : List UtteranceContent} (kept : (group, content) ∈ keptGroups groups) :
    ∃ whole, groups[group]? = some whole ∧
      content = whole.dropWhile UtteranceContent.isSeparator := by
  rcases List.mem_filterMap.mp kept with ⟨⟨whole, index⟩, member, found⟩
  have atIndex := List.mem_zipIdx_iff_getElem?.mp member
  simp only at found
  split at found
  · cases found
  · cases found
    exact ⟨whole, atIndex, rfl⟩

/-- Groups that are not kept may be counted in when they contribute nothing. -/
theorem keptGroups_flatMap {β : Type} {f : ℕ → List β} {groups : List (List UtteranceContent)}
    (dropped : ∀ (group : ℕ) (content : List UtteranceContent), groups[group]? = some content →
      content.dropWhile UtteranceContent.isSeparator = [] → f group = []) :
    (keptGroups groups).flatMap (fun group => f group.1) =
      (List.range groups.length).flatMap f := by
  have shifted : ∀ (start : ℕ) (groups : List (List UtteranceContent)),
      (∀ (index : ℕ) (content : List UtteranceContent), groups[index]? = some content →
        content.dropWhile UtteranceContent.isSeparator = [] → f (start + index) = []) →
      ((groups.zipIdx start).filterMap fun group =>
        let kept := group.1.dropWhile UtteranceContent.isSeparator
        if kept.isEmpty then none else some (group.2, kept)).flatMap (fun group => f group.1) =
        (List.range' start groups.length).flatMap f := by
    intro start groups dropped
    induction groups generalizing start with
    | nil => rfl
    | cons group groups ih =>
        have rest := ih (start + 1) (by
          intro index content found empty
          rw [Nat.add_assoc, Nat.add_comm 1 index]
          exact dropped (index + 1) content (by simpa using found) empty)
        rw [List.zipIdx_cons, List.filterMap_cons, List.length_cons, List.range'_succ,
          List.flatMap_cons, ← rest]
        by_cases empty : group.dropWhile UtteranceContent.isSeparator = []
        · have nothing : f start = [] := dropped 0 group rfl empty
          simp [empty, nothing]
        · simp [empty]
  rw [keptGroups, shifted 0 groups (by simpa using dropped), List.range_eq_range']

/-- Every number of the kept groups is one of the groups. -/
theorem groupContent_getElem? {content : List UtteranceContent} {itemGroups : List (Option ℕ)}
    {maxGroup group : ℕ} {whole : List UtteranceContent}
    (found : (groupContent content itemGroups maxGroup)[group]? = some whole) :
    group < maxGroup + 1 ∧ whole = ((content.zip itemGroups).filter fun item =>
      item.2.getD 0 = group).map Prod.fst := by
  have bound := (List.getElem?_eq_some_iff.mp found).1
  simp only [groupContent, List.length_map, List.length_range] at bound
  simp only [groupContent, List.getElem?_map, List.getElem?_range bound, Option.map_some,
    Option.some.injEq] at found
  exact ⟨bound, found.symm⟩

end Kept

section Partitioned

variable [Talkbank]

/-- The children carry the words of the tier: each has those at the positions of its own
eligible words. -/
structure WorPartitioned (utt : Utterance) (tier : WorTier) (children : List Utterance) :
    Prop where
  eligible : children.flatMap eligibleWords = eligibleWords utt
  own : ∀ (k : ℕ) (child : Utterance), children[k]? = some child →
    carriedWords child =
      (tier.words.drop ((children.take k).flatMap eligibleWords).length).take
        (eligibleWords child).length
  whole : children.flatMap carriedWords = tier.words

/-- The `%wor` tiers of the children, by their groups. -/
theorem splitUtterance_worTiers {utt : Utterance} {assignments : List ℕ}
    {kept : List (ℕ × List UtteranceContent)} (split : splitGroups utt assignments = some kept) :
    (splitUtterance utt assignments).map (fun child =>
      child.dependentTiers.filter DependentTier.isWor) =
      kept.map fun group => childWorTiers (partitionedWor utt assignments) group.1 := by
  simp only [splitUtterance, split]
  rw [map_modifyLast (f := attachLast utt) fun child => rfl,
    map_modifyHead fun child => attachFirst_worTiers utt child, List.map_map]
  apply List.map_congr_left
  intro group _
  exact (congrArg (List.filter _) (List.nil_append _)).trans (childWorTiers_filter _ _)

/-- The `%wor` words of the children, by their groups. -/
theorem splitUtterance_carriedWords {utt : Utterance} {assignments : List ℕ}
    {kept : List (ℕ × List UtteranceContent)} (split : splitGroups utt assignments = some kept) :
    (splitUtterance utt assignments).map carriedWords = kept.map fun group =>
      (((partitionedWor utt assignments).bind (·[group.1]?)).map WorTier.words).getD [] := by
  simp only [splitUtterance, split]
  rw [map_modifyLast fun child => carriedWords_attachLast utt child,
    map_modifyHead fun child => carriedWords_attachFirst utt child, List.map_map]
  apply List.map_congr_left
  intro group _
  exact carriedWords_child _ _ _ rfl

theorem splitUtterance_eligibleWords {utt : Utterance} {assignments : List ℕ}
    {kept : List (ℕ × List UtteranceContent)} (split : splitGroups utt assignments = some kept) :
    (splitUtterance utt assignments).map eligibleWords =
      kept.map fun group => Talkbank.collectUtteranceContent group.2 .wor := by
  have items := congrArg (List.map fun items => Talkbank.collectUtteranceContent items .wor)
    (splitUtterance_map_items split)
  rwa [List.map_map, List.map_map] at items

/-- A group has as many eligible words as are counted off to it. -/
theorem WorEligibility.wordsOfGroup_length (eligibility : WorEligibility) {utt : Utterance}
    {words : List Word} {assignments : List ℕ} {group : ℕ} {whole : List UtteranceContent}
    (counts : words.length = (eligibleGroups utt assignments).length)
    (found : (groupContent utt.items (contentItemGroups utt.items assignments)
      (assignments.foldl max 0))[group]? = some whole) :
    (wordsOfGroup (eligibleGroups utt assignments) words group).length =
      (Talkbank.collectUtteranceContent (whole.dropWhile UtteranceContent.isSeparator)
        .wor).length := by
  rw [Segmentation.wordsOfGroup_length counts, eligibility.dropWhile,
    (groupContent_getElem? found).2, eligibility.groupContent_length, eligibleGroups]

/-- The eligible words of the kept groups are those of the main tier. -/
theorem WorEligibility.keptGroups_flatMap (eligibility : WorEligibility) {utt : Utterance}
    {assignments : List ℕ} (nondecreasing : assignments.Pairwise (· ≤ ·))
    (assigned : assignments ≠ []) (words : buildWordToContentMap utt.items ≠ []) :
    (keptGroups (groupContent utt.items (contentItemGroups utt.items assignments)
      (assignments.foldl max 0))).flatMap (fun group =>
        Talkbank.collectUtteranceContent group.2 .wor) = eligibleWords utt := by
  have whole := groupContent_flatten nondecreasing assigned words
  rw [eligibleWords]
  conv_rhs => rw [← whole]
  rw [← List.flatMap_map Prod.snd fun content => Talkbank.collectUtteranceContent content .wor,
    keptGroups_map_snd, eligibility.items (List.flatten _)]
  induction groupContent utt.items (contentItemGroups utt.items assignments)
    (assignments.foldl max 0) with
  | nil => rfl
  | cons group groups ih =>
      rw [List.map_cons, List.filter_cons, List.flatten_cons, List.flatMap_append, ← ih,
        ← eligibility.items, ← eligibility.dropWhile]
      split
      · rfl
      · rename_i empty
        rw [Bool.not_eq_true, Bool.not_eq_false', List.isEmpty_iff] at empty
        rw [empty, eligibility.items]
        rfl

/-- A split partitions the tier with its words when they can be counted off. -/
theorem splitGroups_partitioned (eligibility : WorEligibility) {utt : Utterance} {tier : WorTier}
    {assignments : List ℕ} {kept : List (ℕ × List UtteranceContent)}
    (isWor : utt.worTier = some tier) (nondecreasing : assignments.Pairwise (· ≤ ·))
    (counts : tier.wordCount = (eligibleWords utt).length)
    (split : splitGroups utt assignments = some kept) :
    WorPartitioned utt tier (splitUtterance utt assignments) := by
  rcases splitGroups_eq_some split with ⟨assigned, words, shape⟩
  have lengths := contentItemGroups_length utt.items assignments
  have counted : tier.words.length = (eligibleGroups utt assignments).length :=
    counts.trans (eligibility.groups_length lengths).symm
  have carried : (splitUtterance utt assignments).map carriedWords = kept.map fun group =>
      wordsOfGroup (eligibleGroups utt assignments) tier.words group.1 := by
    rw [splitUtterance_carriedWords split]
    apply List.map_congr_left
    intro group member
    rw [shape] at member
    rcases mem_keptGroups member with ⟨whole, found, _⟩
    rw [partitionedWor, isWor, Option.bind_some]
    exact partitionWorTier_words counted (groupContent_getElem? found).1
  have eligible := splitUtterance_eligibleWords split
  have sameLength : ∀ child ∈ splitUtterance utt assignments,
      (carriedWords child).length = (eligibleWords child).length := by
    have mapped : (splitUtterance utt assignments).map (List.length ∘ carriedWords) =
        (splitUtterance utt assignments).map (List.length ∘ eligibleWords) := by
      rw [← List.map_map, ← List.map_map, carried, eligible, List.map_map, List.map_map]
      apply List.map_congr_left
      intro group member
      rw [shape] at member
      rcases mem_keptGroups member with ⟨whole, found, content⟩
      have own := eligibility.wordsOfGroup_length counted found
      rwa [← content] at own
    exact List.map_inj_left.mp mapped
  have whole : (splitUtterance utt assignments).flatMap carriedWords = tier.words := by
    have all := wordsOfGroup_flatten counted (eligibleGroups_pairwise nondecreasing assigned words)
      (eligibleGroups_lt assigned words)
    rw [List.flatMap_def, carried, ← List.flatMap_def, shape, keptGroups_flatMap]
    · simpa [groupContent] using all
    · intro group content found empty
      have own := eligibility.wordsOfGroup_length counted found
      rw [empty, eligibility.items] at own
      exact List.length_eq_zero_iff.mp own
  refine ⟨?_, ?_, whole⟩
  · rw [List.flatMap_def, eligible, ← List.flatMap_def, shape]
    exact eligibility.keptGroups_flatMap nondecreasing assigned words
  · intro k child atK
    rw [← whole]
    exact slice_of_flatMap sameLength atK

theorem partitionedWor_eq_none (eligibility : WorEligibility) {utt : Utterance}
    {tier : WorTier} {assignments : List ℕ} (isWor : utt.worTier = some tier)
    (counts : tier.wordCount ≠ (eligibleWords utt).length) :
    partitionedWor utt assignments = none := by
  have lengths := eligibility.groups_length (contentItemGroups_length utt.items assignments)
  rw [partitionedWor, isWor, Option.bind_some, partitionWorTier, lengths]
  exact if_pos counts

theorem worPartitioned_unsplit {utt : Utterance} {tier : WorTier}
    (isWor : utt.worTier = some tier)
    (counts : tier.wordCount = (eligibleWords utt).length) :
    WorPartitioned utt tier [utt] := by
  have carried : carriedWords utt = tier.words := by
    rw [carriedWords, isWor, Option.map_some, Option.getD_some]
  refine ⟨by simp, ?_, by simp [carried]⟩
  intro k child atK
  rcases List.getElem?_eq_some_iff.mp atK with ⟨bound, rfl⟩
  have first : k = 0 := by simpa using bound
  subst first
  rw [List.getElem_cons_zero, carried, ← counts, WorTier.wordCount]
  simp

/-- `%wor` is partitioned with its words. When its words cannot be counted off, an utterance
that is split loses it, and one that is not split is unchanged. -/
theorem splitUtterance_worPartitioned (eligibility : WorEligibility) {utt : Utterance}
    {tier : WorTier} {assignments : List ℕ} (isWor : utt.worTier = some tier)
    (nondecreasing : assignments.Pairwise (· ≤ ·)) :
    (tier.wordCount = (eligibleWords utt).length →
      WorPartitioned utt tier (splitUtterance utt assignments)) ∧
    (splitUtterance utt assignments = [utt] ∨ ∀ child ∈ splitUtterance utt assignments,
      (child.dependentTiers.filter DependentTier.isWor).length ≤
        if tier.wordCount = (eligibleWords utt).length then 1 else 0) := by
  cases split : splitGroups utt assignments with
  | none =>
      have unsplit : splitUtterance utt assignments = [utt] := by
        simp only [splitUtterance, split]
      rw [unsplit]
      exact ⟨worPartitioned_unsplit isWor, Or.inl rfl⟩
  | some kept =>
      refine ⟨fun counts => splitGroups_partitioned eligibility isWor nondecreasing counts split,
        Or.inr ?_⟩
      intro child member
      have tiers := List.mem_map_of_mem (f := fun child : Utterance =>
        child.dependentTiers.filter DependentTier.isWor) member
      rw [splitUtterance_worTiers split] at tiers
      rcases List.mem_map.mp tiers with ⟨group, _, same⟩
      rw [← same]
      by_cases counts : tier.wordCount = (eligibleWords utt).length
      · rw [if_pos counts]
        exact childWorTiers_length_le _ _
      · rw [if_neg counts, partitionedWor_eq_none eligibility isWor counts]
        exact le_rfl

end Partitioned

section Instances

open Documented

theorem documented_worEligibility : WorEligibility := by
  constructor
  · intro content
    induction content with
    | nil => rfl
    | cons item content ih =>
        rw [List.flatMap_cons, ← ih]
        change (walkItem _ item ++ walkItems _ content).flatMap _ =
          (walkItem _ item ++ []).flatMap _ ++ _
        rw [List.append_nil, List.flatMap_append]
        rfl
  · intro text
    rfl

/-- `oh , one two [/] two <three four> &-um` with the given `%wor` words. -/
def countedUtterance (words : List Word) : Utterance :=
  { Utterance.new (MainTier.new "CHI"
      [.word (.simple "oh"), .separator ",",
        .retrace [.word (.simple "one"), .word (.simple "two")], .word (.simple "two"),
        .group [.word (.simple "three"), .word (.simple "four")],
        .word (filler "um")] .period) with
    dependentTiers := [.wor (WorTier.fromWords words)] }

def countedWords : List Word :=
  [timedWord "oh" 0 100, timedWord "one" 100 200, timedWord "two" 200 300,
    timedWord "two" 300 400, timedWord "three" 400 500, timedWord "four" 500 600,
    timedWord "um" 600 700]

theorem splitUtterance_worPartitioned_counted :
    (splitUtterance (countedUtterance countedWords) [0, 0, 1, 2, 2]).map carriedWords =
        [countedWords.take 1, (countedWords.drop 1).take 3, countedWords.drop 4] ∧
      WorPartitioned (countedUtterance countedWords) (WorTier.fromWords countedWords)
        (splitUtterance (countedUtterance countedWords) [0, 0, 1, 2, 2]) :=
  ⟨by decide, (splitUtterance_worPartitioned documented_worEligibility rfl (by decide)).1
    (by decide)⟩

/-- An utterance that is not split keeps a `%wor` tier whose words cannot be counted off. -/
theorem unsplit_keeps_wor :
    [0, 0, 0, 0, 0].Pairwise (· ≤ ·) ∧
      (WorTier.fromWords [timedWord "oh" 0 100]).wordCount ≠
        (eligibleWords (countedUtterance [timedWord "oh" 0 100])).length ∧
      (splitUtterance (countedUtterance [timedWord "oh" 0 100]) [0, 0, 0, 0, 0]).map
        carriedWords = [[timedWord "oh" 0 100]] := by
  decide

end Instances

end Batchalign.Segmentation
