import Batchalign.Chat.Documented
import Batchalign.Segmentation.Basic

/-!
# Segmentation conserves the main tier

The numbers of the words do not decrease, and none of the three placement rules
breaks this: an item takes the number of its first word, a retrace the next
number, and a gap the number beside it. The groups are therefore consecutive
segments of the content, whatever each item holds, and the children are these
segments without the separators in front.
-/

namespace Batchalign.Segmentation

open Batchalign.Chat Partition

section Numbering

theorem foldl_assignWord_of_numbered (assignments : List ℕ) (before after : List (Option ℕ))
    (assignment count wordIdx : ℕ) :
    ((List.replicate count before.length).zipIdx wordIdx).foldl
        (fun groups word => assignWord assignments groups word.2 word.1)
        (before ++ some assignment :: after) =
      before ++ some assignment :: after := by
  induction count generalizing wordIdx with
  | zero => rfl
  | succ count ih =>
      rw [List.replicate_succ, List.zipIdx_cons, List.foldl_cons]
      have unchanged : assignWord assignments (before ++ some assignment :: after) wordIdx
          before.length = before ++ some assignment :: after := by
        simp only [assignWord]
        rw [List.getElem?_append_right le_rfl, Nat.sub_self]
        cases assignments[wordIdx]? <;> rfl
      rw [unchanged]
      exact ih (wordIdx + 1)

theorem foldl_assignWord_replicate (assignments : List ℕ) (before after : List (Option ℕ))
    (count wordIdx : ℕ) :
    ((List.replicate count before.length).zipIdx wordIdx).foldl
        (fun groups word => assignWord assignments groups word.2 word.1)
        (before ++ none :: after) =
      before ++ (if count = 0 then none else assignments[wordIdx]?) :: after := by
  induction count generalizing wordIdx with
  | zero => rfl
  | succ count ih =>
      rw [List.replicate_succ, List.zipIdx_cons, List.foldl_cons, if_neg (by omega)]
      have entry : (before ++ none :: after)[before.length]? = some (none : Option ℕ) := by
        rw [List.getElem?_append_right le_rfl, Nat.sub_self]
        rfl
      cases atWord : assignments[wordIdx]? with
      | some assignment =>
          have assigned : assignWord assignments (before ++ none :: after) wordIdx before.length =
              before ++ some assignment :: after := by
            simp only [assignWord, atWord, entry]
            simp
          simp only [assigned]
          exact foldl_assignWord_of_numbered assignments before after assignment count (wordIdx + 1)
      | none =>
          have unchanged : assignWord assignments (before ++ none :: after) wordIdx before.length =
              before ++ none :: after := by
            simp only [assignWord, atWord]
          simp only [unchanged]
          -- Once the assignments have run out they stay out.
          have later : assignments[wordIdx + 1]? = none := by
            rw [List.getElem?_eq_none_iff] at atWord ⊢
            omega
          rw [ih (wordIdx + 1), later]
          simp

variable [Talkbank]

/-- How many `%mor` words a content item holds. -/
def morCount (item : UtteranceContent) : ℕ :=
  (Talkbank.collectUtteranceContent [item] .mor).length

/-- The number of every item, read off item by item: `wordIdx` words come before it. -/
def firstWordGroups (assignments : List ℕ) : ℕ → List UtteranceContent → List (Option ℕ)
  | _, [] => []
  | wordIdx, item :: items =>
      (if morCount item = 0 then none else assignments[wordIdx]?) ::
        firstWordGroups assignments (wordIdx + morCount item) items

theorem foldl_assignWord_items (assignments : List ℕ) (items : List UtteranceContent)
    (before : List (Option ℕ)) (wordIdx : ℕ) :
    (((items.zipIdx before.length).flatMap fun item =>
          (Talkbank.collectUtteranceContent [item.1] .mor).map fun _ => item.2).zipIdx
        wordIdx).foldl (fun groups word => assignWord assignments groups word.2 word.1)
        (before ++ List.replicate items.length none) =
      before ++ firstWordGroups assignments wordIdx items := by
  induction items generalizing before wordIdx with
  | nil => simp [firstWordGroups]
  | cons item items ih =>
      rw [List.zipIdx_cons, List.flatMap_cons, List.zipIdx_append, List.foldl_append,
        List.map_const', List.length_cons, List.replicate_succ]
      simp only [List.length_replicate]
      rw [foldl_assignWord_replicate]
      have next := ih (before ++ [if morCount item = 0 then none else assignments[wordIdx]?])
        (wordIdx + morCount item)
      simp only [List.length_append, List.length_singleton, List.append_assoc,
        List.singleton_append] at next
      rw [firstWordGroups, ← next]
      rfl

theorem assignItems_eq (assignments : List ℕ) (items : List UtteranceContent) :
    assignItems (buildWordToContentMap items) assignments items.length =
      firstWordGroups assignments 0 items := by
  simpa [assignItems, buildWordToContentMap] using
    foldl_assignWord_items assignments items [] 0

theorem firstWordGroups_length (assignments : List ℕ) (wordIdx : ℕ)
    (items : List UtteranceContent) :
    (firstWordGroups assignments wordIdx items).length = items.length := by
  induction items generalizing wordIdx with
  | nil => rfl
  | cons item items ih => simp [firstWordGroups, ih]

theorem firstWordGroups_mem {assignments : List ℕ} {wordIdx group : ℕ}
    {items : List UtteranceContent}
    (member : some group ∈ firstWordGroups assignments wordIdx items) :
    ∃ k, wordIdx ≤ k ∧ assignments[k]? = some group := by
  induction items generalizing wordIdx with
  | nil => simp [firstWordGroups] at member
  | cons item items ih =>
      rw [firstWordGroups, List.mem_cons] at member
      rcases member with here | later
      · split at here
        · cases here
        · exact ⟨wordIdx, le_rfl, here.symm⟩
      · rcases ih later with ⟨k, bound, atK⟩
        exact ⟨k, by omega, atK⟩

theorem firstWordGroups_pairwise {assignments : List ℕ}
    (nondecreasing : assignments.Pairwise (· ≤ ·)) (wordIdx : ℕ)
    (items : List UtteranceContent) :
    (firstWordGroups assignments wordIdx items).reduceOption.Pairwise (· ≤ ·) := by
  induction items generalizing wordIdx with
  | nil => exact .nil
  | cons item items ih =>
      rw [firstWordGroups]
      split
      · simpa using ih _
      · rename_i nonempty
        cases atWord : assignments[wordIdx]? with
        | none => simpa using ih _
        | some assignment =>
            rw [List.reduceOption_cons_of_some, List.pairwise_cons]
            refine ⟨?_, ih _⟩
            intro later member
            rcases firstWordGroups_mem (List.reduceOption_mem_iff.mp member) with ⟨k, bound, atK⟩
            rcases List.getElem?_eq_some_iff.mp atWord with ⟨inside, rfl⟩
            rcases List.getElem?_eq_some_iff.mp atK with ⟨insideK, rfl⟩
            exact List.pairwise_iff_getElem.mp nondecreasing wordIdx k inside insideK (by omega)

theorem exists_mem_firstWordGroups {assignments : List ℕ} {items : List UtteranceContent}
    (assigned : assignments ≠ []) (words : buildWordToContentMap items ≠ []) :
    ∃ group, some group ∈ firstWordGroups assignments 0 items := by
  have holder : ∃ item ∈ items, morCount item ≠ 0 := by
    by_contra none
    push Not at none
    apply words
    apply List.flatMap_eq_nil_iff.mpr
    intro item member
    have empty := none item.1 (List.fst_mem_of_mem_zipIdx member)
    rw [morCount, List.length_eq_zero_iff] at empty
    rw [empty, List.map_nil]
  rcases List.exists_cons_of_ne_nil assigned with ⟨first, rest, rfl⟩
  refine ⟨first, ?_⟩
  clear assigned words
  induction items with
  | nil => simp at holder
  | cons item items ih =>
      rw [firstWordGroups]
      by_cases empty : morCount item = 0
      · rw [if_pos empty, empty]
        apply List.mem_cons_of_mem
        apply ih
        simpa [empty] using holder
      · rw [if_neg empty]
        exact List.mem_cons_self

end Numbering

section Retraces

theorem bindRetraces_length (items : List UtteranceContent) (groups : List (Option ℕ)) :
    (bindRetraces items groups).length = groups.length := by
  induction items generalizing groups with
  | nil => rfl
  | cons item items ih =>
      cases groups with
      | nil => rfl
      | cons group groups => simp [bindRetraces, ih]

theorem bindRetraces_mem {items : List UtteranceContent} {groups : List (Option ℕ)} {group : ℕ}
    (member : some group ∈ bindRetraces items groups) : some group ∈ groups := by
  induction items generalizing groups with
  | nil => exact member
  | cons item items ih =>
      cases groups with
      | nil => exact member
      | cons head groups =>
          rw [bindRetraces, List.mem_cons] at member
          rcases member with here | later
          · split at here
            · rw [here]
              exact List.mem_cons_self
            · rcases List.exists_of_findSome?_eq_some here.symm with ⟨next, inside, isNext⟩
              rw [id_eq] at isNext
              subst isNext
              exact List.mem_cons_of_mem _ inside
          · exact List.mem_cons_of_mem _ (ih later)

theorem mem_bindRetraces {items : List UtteranceContent} {groups : List (Option ℕ)} {group : ℕ}
    (member : some group ∈ groups) : some group ∈ bindRetraces items groups := by
  induction items generalizing groups with
  | nil => exact member
  | cons item items ih =>
      cases groups with
      | nil => exact member
      | cons head groups =>
          rw [bindRetraces]
          rcases List.mem_cons.mp member with here | later
          · subst here
            exact List.mem_cons_self
          · exact List.mem_cons_of_mem _ (ih later)

theorem findSome?_id_le {groups : List (Option ℕ)} {first group : ℕ}
    (ordered : groups.reduceOption.Pairwise (· ≤ ·)) (found : groups.findSome? id = some first)
    (member : group ∈ groups.reduceOption) : first ≤ group := by
  induction groups with
  | nil => simp at member
  | cons head groups ih =>
      cases head with
      | none => exact ih (by simpa using ordered) (by simpa using found) (by simpa using member)
      | some value =>
          simp only [List.findSome?_cons, id_eq, Option.some.injEq] at found
          subst found
          rw [List.reduceOption_cons_of_some] at ordered member
          rcases List.mem_cons.mp member with rfl | later
          · exact le_rfl
          · exact (List.pairwise_cons.mp ordered).1 group later

theorem bindRetraces_pairwise (items : List UtteranceContent) {groups : List (Option ℕ)}
    (ordered : groups.reduceOption.Pairwise (· ≤ ·)) :
    (bindRetraces items groups).reduceOption.Pairwise (· ≤ ·) := by
  induction items generalizing groups with
  | nil => exact ordered
  | cons item items ih =>
      cases groups with
      | nil => exact ordered
      | cons head groups =>
          rw [bindRetraces]
          cases head with
          | some value =>
              rw [List.reduceOption_cons_of_some] at ordered
              rcases List.pairwise_cons.mp ordered with ⟨before, ordered⟩
              simp only [Option.isSome_some, Bool.true_or, if_true,
                List.reduceOption_cons_of_some]
              apply List.pairwise_cons.mpr
              refine ⟨?_, ih ordered⟩
              intro later member
              apply before
              rw [List.reduceOption_mem_iff] at member ⊢
              exact bindRetraces_mem member
          | none =>
              rw [List.reduceOption_cons_of_none] at ordered
              split
              · simpa using ih ordered
              · cases next : groups.findSome? id with
                | none => simpa using ih ordered
                | some value =>
                    rw [List.reduceOption_cons_of_some]
                    apply List.pairwise_cons.mpr
                    refine ⟨?_, ih ordered⟩
                    intro later member
                    apply findSome?_id_le ordered next
                    rw [List.reduceOption_mem_iff] at member ⊢
                    exact bindRetraces_mem member

end Retraces

section Groups

theorem map_getD_eq_reduceOption {groups : List (Option ℕ)}
    (present : ∀ group ∈ groups, group.isSome) :
    groups.map (·.getD 0) = groups.reduceOption := by
  induction groups with
  | nil => rfl
  | cons head groups ih =>
      rcases Option.isSome_iff_exists.mp (present head List.mem_cons_self) with ⟨value, rfl⟩
      rw [List.map_cons, List.reduceOption_cons_of_some,
        ih fun group member => present group (List.mem_cons_of_mem _ member)]
      rfl

theorem le_foldl_max {values : List ℕ} {start value : ℕ} (member : value ∈ values) :
    value ≤ values.foldl max start := by
  have bound : ∀ (values : List ℕ) (start : ℕ), start ≤ values.foldl max start := by
    intro values
    induction values with
    | nil => exact fun _ => le_rfl
    | cons head values ih => exact fun start => (le_max_left start head).trans (ih _)
  induction values generalizing start with
  | nil => cases member
  | cons head values ih =>
      rcases List.mem_cons.mp member with rfl | later
      · exact (le_max_right start value).trans (bound values _)
      · exact ih later

variable [Talkbank]

theorem contentItemGroups_length (content : List UtteranceContent) (assignments : List ℕ) :
    (contentItemGroups content assignments).length = content.length := by
  rw [contentItemGroups, fillGaps_length, bindRetraces_length, assignItems_eq,
    firstWordGroups_length]

/-- The numbers of the items do not decrease when those of the words do not. -/
theorem contentItemGroups_pairwise {assignments : List ℕ}
    (nondecreasing : assignments.Pairwise (· ≤ ·)) (content : List UtteranceContent) :
    (contentItemGroups content assignments).reduceOption.Pairwise (· ≤ ·) := by
  apply fillGaps_pairwise fun group => le_refl group
  apply bindRetraces_pairwise
  rw [assignItems_eq]
  exact firstWordGroups_pairwise nondecreasing 0 content

theorem contentItemGroups_mem {assignments : List ℕ} {content : List UtteranceContent}
    {group : ℕ} (member : some group ∈ contentItemGroups content assignments) :
    group ∈ assignments := by
  have inside := bindRetraces_mem (mem_of_mem_fillGaps member)
  rw [assignItems_eq] at inside
  rcases firstWordGroups_mem inside with ⟨k, _, atK⟩
  exact List.mem_of_getElem? atK

theorem contentItemGroups_isSome {assignments : List ℕ} {content : List UtteranceContent}
    (assigned : assignments ≠ []) (words : buildWordToContentMap content ≠ []) :
    ∀ group ∈ contentItemGroups content assignments, group.isSome := by
  rcases exists_mem_firstWordGroups assigned words with ⟨group, member⟩
  apply fillGaps_forall_isSome
  · apply mem_bindRetraces
    rw [assignItems_eq]
    exact member

theorem itemNumbers_pairwise {assignments : List ℕ} {content : List UtteranceContent}
    (nondecreasing : assignments.Pairwise (· ≤ ·)) (assigned : assignments ≠ [])
    (words : buildWordToContentMap content ≠ []) :
    ((content.zip (contentItemGroups content assignments)).map fun item =>
      item.2.getD 0).Pairwise (· ≤ ·) := by
  have present := contentItemGroups_isSome assigned words
  have keys : (content.zip (contentItemGroups content assignments)).map (fun item =>
      item.2.getD 0) = (contentItemGroups content assignments).reduceOption := by
    have paired := List.map_snd_zip (le_of_eq (contentItemGroups_length content assignments))
    rw [← map_getD_eq_reduceOption present]
    conv_rhs => rw [← paired]
    rw [List.map_map]
    rfl
  rw [keys]
  exact contentItemGroups_pairwise nondecreasing content

theorem itemNumbers_lt {assignments : List ℕ} {content : List UtteranceContent}
    (assigned : assignments ≠ []) (words : buildWordToContentMap content ≠ []) :
    ∀ item ∈ content.zip (contentItemGroups content assignments),
      item.2.getD 0 < assignments.foldl max 0 + 1 := by
  intro item member
  have inside := List.of_mem_zip member
  have present := contentItemGroups_isSome assigned words
  rcases Option.isSome_iff_exists.mp (present item.2 inside.2) with ⟨group, isGroup⟩
  have bound := inside.2
  rw [isGroup] at bound ⊢
  have below := @le_foldl_max _ 0 _ (contentItemGroups_mem bound)
  simp only [Option.getD_some]
  omega

/-- The groups are consecutive segments of the content. -/
theorem groupContent_flatten {assignments : List ℕ} {content : List UtteranceContent}
    (nondecreasing : assignments.Pairwise (· ≤ ·)) (assigned : assignments ≠ [])
    (words : buildWordToContentMap content ≠ []) :
    (groupContent content (contentItemGroups content assignments)
      (assignments.foldl max 0)).flatten = content := by
  have lengths := contentItemGroups_length content assignments
  have buckets := flatMap_filter_key (itemNumbers_pairwise nondecreasing assigned words)
    (itemNumbers_lt assigned words)
  have mapped := congrArg (List.map Prod.fst) buckets
  rw [List.map_flatMap, List.map_fst_zip (by omega)] at mapped
  rw [groupContent, ← List.flatMap_def]
  exact mapped

end Groups

section Children

theorem keptGroups_map_snd (groups : List (List UtteranceContent)) :
    (keptGroups groups).map Prod.snd =
      (groups.map (List.dropWhile UtteranceContent.isSeparator)).filter (!·.isEmpty) := by
  have shifted : ∀ start, ((groups.zipIdx start).filterMap fun group =>
      let kept := group.1.dropWhile UtteranceContent.isSeparator
      if kept.isEmpty then none else some (group.2, kept)).map Prod.snd =
      (groups.map (List.dropWhile UtteranceContent.isSeparator)).filter (!·.isEmpty) := by
    induction groups with
    | nil => intro start; rfl
    | cons group groups ih =>
        intro start
        rw [List.zipIdx_cons, List.filterMap_cons, List.map_cons, List.filter_cons]
        by_cases empty : (group.dropWhile UtteranceContent.isSeparator).isEmpty
        · simp only [empty, if_true, Bool.not_true]
          exact ih (start + 1)
        · simp only [empty, Bool.not_false]
          exact congrArg _ (ih (start + 1))
  exact shifted 0

theorem map_modifyHead {α β : Type} {f : α → α} {g : α → β} (same : ∀ x, g (f x) = g x)
    (xs : List α) : (xs.modifyHead f).map g = xs.map g := by
  cases xs with
  | nil => rfl
  | cons x xs => simp [same]

theorem map_modifyLast {α β : Type} {f : α → α} {g : α → β} (same : ∀ x, g (f x) = g x)
    (xs : List α) : (xs.modifyLast f).map g = xs.map g := by
  induction xs using List.reverseRecOn with
  | nil => rfl
  | append_singleton xs x _ => simp [List.modifyLast_concat, same]

@[simp]
theorem attachFirst_items (parent child : Utterance) :
    (attachFirst parent child).items = child.items := by
  simp only [attachFirst]
  split <;> rfl

@[simp]
theorem attachLast_items (parent child : Utterance) :
    (attachLast parent child).items = child.items := rfl

theorem filter_flatten_dropWhile (groups : List (List UtteranceContent)) :
    ((groups.map (List.dropWhile UtteranceContent.isSeparator)).filter
        (!·.isEmpty)).flatten.filter (!·.isSeparator) =
      groups.flatten.filter (!·.isSeparator) := by
  induction groups with
  | nil => rfl
  | cons group groups ih =>
      have front : (group.dropWhile UtteranceContent.isSeparator).filter (!·.isSeparator) =
          group.filter (!·.isSeparator) := by
        have pieces :=
          @List.takeWhile_append_dropWhile _ UtteranceContent.isSeparator group
        conv_rhs => rw [← pieces]
        rw [List.filter_append]
        have separators : (group.takeWhile UtteranceContent.isSeparator).filter
            (!·.isSeparator) = [] := by
          apply List.filter_eq_nil_iff.mpr
          intro item member
          simpa using List.mem_takeWhile_imp member
        rw [separators, List.nil_append]
      rw [List.map_cons, List.filter_cons, List.flatten_cons, List.filter_append, ← front, ← ih]
      split
      · rw [List.flatten_cons, List.filter_append]
      · rename_i empty
        rw [Bool.not_eq_true, Bool.not_eq_false', List.isEmpty_iff] at empty
        rw [empty]
        rfl

variable [Talkbank]

/-- What it takes to split an utterance. -/
theorem splitGroups_eq_some {utt : Utterance} {assignments : List ℕ}
    {kept : List (ℕ × List UtteranceContent)} (split : splitGroups utt assignments = some kept) :
    assignments ≠ [] ∧ buildWordToContentMap utt.items ≠ [] ∧
      kept = keptGroups (groupContent utt.items (contentItemGroups utt.items assignments)
        (assignments.foldl max 0)) := by
  unfold splitGroups at split
  split at split
  · cases split
  · rename_i nonempty
    rw [Bool.or_eq_true, not_or] at nonempty
    split at split
    · cases split
    · simp only [] at split
      split at split
      · cases split
      · simp only [Option.some.injEq] at split
        exact ⟨by simpa using nonempty.1, by simpa using nonempty.2, split.symm⟩

theorem splitUtterance_map_items {utt : Utterance} {assignments : List ℕ}
    {kept : List (ℕ × List UtteranceContent)} (split : splitGroups utt assignments = some kept) :
    (splitUtterance utt assignments).map Utterance.items = kept.map Prod.snd := by
  simp only [splitUtterance, split]
  rw [map_modifyLast fun child => attachLast_items utt child,
    map_modifyHead fun child => attachFirst_items utt child, List.map_map]
  rfl

/-- Either nothing is split, or the children hold the kept groups. -/
theorem splitUtterance_items (utt : Utterance) (assignments : List ℕ) :
    splitUtterance utt assignments = [utt] ∨
      (assignments ≠ [] ∧ buildWordToContentMap utt.items ≠ [] ∧
        (splitUtterance utt assignments).map Utterance.items =
          ((groupContent utt.items (contentItemGroups utt.items assignments)
            (assignments.foldl max 0)).map
              (List.dropWhile UtteranceContent.isSeparator)).filter (!·.isEmpty)) := by
  cases split : splitGroups utt assignments with
  | none =>
      left
      simp only [splitUtterance, split]
  | some kept =>
      right
      rcases splitGroups_eq_some split with ⟨assigned, words, shape⟩
      refine ⟨assigned, words, ?_⟩
      rw [splitUtterance_map_items split, shape, keptGroups_map_snd]

/-- Splitting by nondecreasing numbers conserves the content: the children are consecutive
segments of the parent's items without the separators in front of a segment, and every
other item is in exactly one of them, whole and in order. -/
theorem splitUtterance_conserves (utt : Utterance) {assignments : List ℕ}
    (nondecreasing : assignments.Pairwise (· ≤ ·)) :
    (splitUtterance utt assignments = [utt] ∨
      ∃ groups : List (List UtteranceContent), groups.flatten = utt.items ∧
        (splitUtterance utt assignments).map Utterance.items =
          (groups.map (List.dropWhile UtteranceContent.isSeparator)).filter (!·.isEmpty)) ∧
    ((splitUtterance utt assignments).flatMap Utterance.items).filter (!·.isSeparator) =
      utt.items.filter (!·.isSeparator) := by
  rcases splitUtterance_items utt assignments with unchanged | ⟨assigned, words, children⟩
  · rw [unchanged]
    refine ⟨Or.inl rfl, ?_⟩
    simp
  · have whole := groupContent_flatten nondecreasing assigned words
    refine ⟨Or.inr ⟨_, whole, children⟩, ?_⟩
    rw [List.flatMap_def, children, filter_flatten_dropWhile, whole]

end Children

section Witness

/-- `one , two [/] two <three four>`, where the comma is a word of the `%mor` domain. -/
def retracedUtterance : Utterance :=
  Utterance.new (MainTier.new "CHI"
    [.word (.simple "one"), .separator ",", .retrace [.word (.simple "two")],
      .word (.simple "two"), .group [.word (.simple "three"), .word (.simple "four")]] .period)

theorem splitUtterance_conserves_retraced :
    [0, 1, 1, 2, 2].Pairwise (· ≤ ·) ∧
      (splitUtterance retracedUtterance [0, 1, 1, 2, 2]).length = 3 ∧
      ((splitUtterance retracedUtterance [0, 1, 1, 2, 2]).flatMap
          Utterance.items).filter (!·.isSeparator) =
        retracedUtterance.items.filter (!·.isSeparator) := by
  have nondecreasing : [0, 1, 1, 2, 2].Pairwise (· ≤ ·) := by decide
  exact ⟨nondecreasing, by decide,
    (splitUtterance_conserves retracedUtterance nondecreasing).2⟩

end Witness

section Response

theorem replicate_spans_pairwise (spans : List SpanWords) (start : ℕ) :
    ((spans.zipIdx start).flatMap fun span =>
        List.replicate span.1.length span.2).Pairwise (· ≤ ·) := by
  induction spans generalizing start with
  | nil => exact .nil
  | cons span spans ih =>
      rw [List.zipIdx_cons, List.flatMap_cons, List.pairwise_append]
      refine ⟨List.pairwise_replicate.mpr (Or.inr le_rfl), ih (start + 1), ?_⟩
      intro group here later member
      rw [List.eq_of_mem_replicate here]
      rcases List.mem_flatMap.mp member with ⟨span', inside, isLater⟩
      rw [List.eq_of_mem_replicate isLater]
      have beyond := List.le_snd_of_mem_zipIdx inside
      omega

/-- What the backend's spans give is nondecreasing. -/
theorem assignmentsFromSpans_pairwise {sourceWords : List String} {spans : List SpanWords}
    {assignments : List ℕ} (recovered : assignmentsFromSpans sourceWords spans = some assignments) :
    assignments.Pairwise (· ≤ ·) := by
  simp only [assignmentsFromSpans] at recovered
  split at recovered
  · simp only [Option.some.injEq] at recovered
    subst recovered
    exact .nil
  · split at recovered
    · cases recovered
    · simp only [Option.some.injEq] at recovered
      subst recovered
      exact replicate_spans_pairwise spans 0

end Response

end Batchalign.Segmentation
