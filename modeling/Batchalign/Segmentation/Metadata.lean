import Batchalign.Segmentation.Conservation

/-!
# What the children keep of their parent

`split_utterance` gives every child a fresh main tier with the speaker and the language of the
parent and a period. Only then, when the groups of separators are gone, does the first child
that is left take the linkers and the utterance-level tiers, and the last one the terminator,
the postcodes and the bullet.
-/

namespace Batchalign.Segmentation

open Batchalign.Chat

/-- The tiers with an entry for each word, but for `%wor`. -/
def isPerWord : DependentTier → Bool
  | .mor _ | .gra _ | .pho _ | .mod _ | .sin _ | .modsyl _ | .phosyl _ | .phoaln _ => true
  | .wor _ | .userDefined _ _ | .text _ _ => false

/-- The tiers about the utterance as a whole. -/
def isUtteranceLevel : DependentTier → Bool
  | .userDefined _ _ | .text _ _ => true
  | _ => false

theorem policyForTier_eq_attachFirst {tier : DependentTier} :
    policyForTier tier = .attachFirst ↔ isUtteranceLevel tier = true := by
  cases tier <;> simp [policyForTier, isUtteranceLevel]

/-- The metadata of the parent, each piece in one child: nothing of it is lost, and nothing
doubled. -/
structure MetadataPlaced (parent : Utterance) (children : List Utterance) : Prop where
  nonempty : children ≠ []
  all : ∀ child ∈ children, child.main.speaker = parent.main.speaker ∧
    child.main.content.languageCode = parent.main.content.languageCode ∧
    ∀ tier ∈ child.dependentTiers, isPerWord tier = false
  first : ∀ child ∈ children.head?,
    child.main.content.linkers = parent.main.content.linkers ∧
      child.dependentTiers.filter isUtteranceLevel = parent.dependentTiers.filter isUtteranceLevel
  notFirst : ∀ child ∈ children.tail,
    child.main.content.linkers = [] ∧ child.dependentTiers.filter isUtteranceLevel = []
  last : ∀ child ∈ children.getLast?,
    child.main.content.terminator = parent.main.content.terminator.or (some .period) ∧
      child.main.content.postcodes = parent.main.content.postcodes ∧ child.bullet = parent.bullet
  notLast : ∀ child ∈ children.dropLast,
    child.main.content.terminator = some .period ∧ child.main.content.postcodes = [] ∧
      child.bullet = none

section Children

/-- A child before the first and the last one are told. -/
structure FreshChild (parent child : Utterance) : Prop where
  speaker : child.main.speaker = parent.main.speaker
  language : child.main.content.languageCode = parent.main.content.languageCode
  wor : ∀ tier ∈ child.dependentTiers, tier.isWor = true
  linkers : child.main.content.linkers = []
  terminator : child.main.content.terminator = some .period
  postcodes : child.main.content.postcodes = []
  bullet : child.bullet = none

theorem newChild_fresh (parent : Utterance) (content : List UtteranceContent)
    (perGroup : Option (List WorTier)) (group : ℕ) :
    FreshChild parent
      (Utterance.pushTiers (newChild parent content) (childWorTiers perGroup group)) where
  speaker := rfl
  language := rfl
  wor := by
    intro tier member
    have own : tier ∈ childWorTiers perGroup group := by
      simpa [Utterance.pushTiers, newChild, Utterance.new] using member
    unfold childWorTiers at own
    split at own
    · split at own
      · cases own
      · rw [List.mem_singleton.mp own]
        rfl
    · cases own
  linkers := rfl
  terminator := rfl
  postcodes := rfl
  bullet := rfl

variable {parent child : Utterance}

theorem FreshChild.noUtteranceLevel (fresh : FreshChild parent child) :
    child.dependentTiers.filter isUtteranceLevel = [] := by
  apply List.filter_eq_nil_iff.mpr
  intro tier member
  have wor := fresh.wor tier member
  cases tier <;> first | (simp [isUtteranceLevel]; done) | cases wor

theorem FreshChild.noPerWord (fresh : FreshChild parent child) :
    ∀ tier ∈ child.dependentTiers, isPerWord tier = false := by
  intro tier member
  have wor := fresh.wor tier member
  cases tier <;> first | rfl | cases wor

/-- What the first child receives, and that the rest of it is left alone. -/
structure FirstOf (parent child first : Utterance) : Prop where
  main : first.main = { child.main with
    content := { child.main.content with linkers := parent.main.content.linkers } }
  utteranceLevel :
    first.dependentTiers.filter isUtteranceLevel = parent.dependentTiers.filter isUtteranceLevel
  noPerWord : ∀ tier ∈ first.dependentTiers, isPerWord tier = false

theorem attachFirst_of_fresh (fresh : FreshChild parent child) :
    FirstOf parent child (attachFirst parent child) := by
  have pushed : (attachFirst parent child).dependentTiers = child.dependentTiers ++
      parent.dependentTiers.filter isUtteranceLevel := by
    have policies : (parent.dependentTiers.filter fun tier =>
        policyForTier tier = .attachFirst) = parent.dependentTiers.filter isUtteranceLevel := by
      apply List.filter_congr
      intro tier _
      simp only [policyForTier_eq_attachFirst, Bool.decide_eq_true]
    simp only [attachFirst, policies]
    split <;> rfl
  constructor
  · simp only [attachFirst]
    split
    · rename_i none
      rw [List.isEmpty_iff.mp none, ← fresh.linkers]
      rfl
    · rfl
  · rw [pushed, List.filter_append, fresh.noUtteranceLevel, List.filter_filter]
    simp
  · intro tier member
    rw [pushed, List.mem_append] at member
    rcases member with own | attached
    · exact fresh.noPerWord tier own
    · have level := (List.mem_filter.mp attached).2
      cases tier <;> first | rfl | cases level

/-- What the last child receives. -/
theorem attachLast_received (bare : child.bullet = none)
    (untagged : child.main.content.postcodes = [])
    (ended : child.main.content.terminator = some .period) :
    (attachLast parent child).main.content.terminator =
        parent.main.content.terminator.or (some .period) ∧
      (attachLast parent child).main.content.postcodes = parent.main.content.postcodes ∧
      (attachLast parent child).bullet = parent.bullet := by
  refine ⟨?_, ?_, ?_⟩
  · simp only [attachLast, ended]
  · simp only [attachLast]
    split
    · rename_i none
      rw [untagged, List.isEmpty_iff.mp none]
    · rfl
  · change parent.bullet.or child.bullet = parent.bullet
    rw [bare, Option.or_none]

/-- One child is the first and the last. -/
theorem metadataPlaced_single (fresh : FreshChild parent child) :
    MetadataPlaced parent [attachLast parent (attachFirst parent child)] := by
  have first := attachFirst_of_fresh fresh
  have received := @attachLast_received parent (attachFirst parent child)
    (by rw [Utterance.bullet, first.main]; exact fresh.bullet)
    (by rw [first.main]; exact fresh.postcodes) (by rw [first.main]; exact fresh.terminator)
  constructor
  · exact List.cons_ne_nil _ _
  · intro only isOnly
    rw [List.mem_singleton.mp isOnly]
    refine ⟨?_, ?_, first.noPerWord⟩
    · change (attachFirst parent child).main.speaker = _
      rw [first.main]
      exact fresh.speaker
    · change (attachFirst parent child).main.content.languageCode = _
      rw [first.main]
      exact fresh.language
  · intro only isOnly
    cases isOnly
    refine ⟨?_, first.utteranceLevel⟩
    change (attachFirst parent child).main.content.linkers = _
    rw [first.main]
  · intro other isOther
    cases isOther
  · intro only isOnly
    cases isOnly
    exact received
  · intro other isOther
    cases isOther

/-- Several children: the first and the last are different ones. -/
theorem metadataPlaced_several {front back : Utterance} {between : List Utterance}
    (freshFront : FreshChild parent front) (freshBack : FreshChild parent back)
    (freshBetween : ∀ child ∈ between, FreshChild parent child) :
    MetadataPlaced parent
      (attachFirst parent front :: (between ++ [attachLast parent back])) := by
  have first := attachFirst_of_fresh freshFront
  have received := @attachLast_received parent back freshBack.bullet freshBack.postcodes
    freshBack.terminator
  constructor
  · exact List.cons_ne_nil _ _
  · intro child isChild
    rcases List.mem_cons.mp isChild with rfl | isLater
    · refine ⟨?_, ?_, first.noPerWord⟩
      · rw [first.main]
        exact freshFront.speaker
      · rw [first.main]
        exact freshFront.language
    · rcases List.mem_append.mp isLater with isBetween | isBack
      · have fresh := freshBetween child isBetween
        exact ⟨fresh.speaker, fresh.language, fresh.noPerWord⟩
      · rw [List.mem_singleton.mp isBack]
        exact ⟨freshBack.speaker, freshBack.language, freshBack.noPerWord⟩
  · intro child isFirst
    cases isFirst
    refine ⟨?_, first.utteranceLevel⟩
    rw [first.main]
  · intro child isLater
    rw [List.tail_cons] at isLater
    rcases List.mem_append.mp isLater with isBetween | isBack
    · have fresh := freshBetween child isBetween
      exact ⟨fresh.linkers, fresh.noUtteranceLevel⟩
    · rw [List.mem_singleton.mp isBack]
      exact ⟨freshBack.linkers, freshBack.noUtteranceLevel⟩
  · intro child isLast
    rw [← List.cons_append, List.getLast?_concat] at isLast
    cases isLast
    exact received
  · intro child isEarlier
    rw [← List.cons_append, List.dropLast_concat] at isEarlier
    rcases List.mem_cons.mp isEarlier with rfl | isBetween
    · refine ⟨?_, ?_, ?_⟩
      · rw [first.main]
        exact freshFront.terminator
      · rw [first.main]
        exact freshFront.postcodes
      · rw [Utterance.bullet, first.main]
        exact freshFront.bullet
    · have fresh := freshBetween child isBetween
      exact ⟨fresh.terminator, fresh.postcodes, fresh.bullet⟩

theorem metadataPlaced_of_fresh {children : List Utterance} (nonempty : children ≠ [])
    (fresh : ∀ child ∈ children, FreshChild parent child) :
    MetadataPlaced parent
      ((children.modifyHead (attachFirst parent)).modifyLast (attachLast parent)) := by
  rcases List.exists_cons_of_ne_nil nonempty with ⟨front, rest, rfl⟩
  have split := List.forall_mem_cons.mp fresh
  rw [List.modifyHead_cons]
  rcases List.eq_nil_or_concat' rest with rfl | ⟨between, back, rfl⟩
  · exact metadataPlaced_single split.1
  · have rest := List.forall_mem_append.mp split.2
    rw [← List.cons_append, List.modifyLast_concat, List.cons_append]
    exact metadataPlaced_several split.1 (rest.2 back List.mem_cons_self) rest.1

end Children

section Claimed

variable [Talkbank]

theorem kept_ne_nil {utt : Utterance} {assignments : List ℕ}
    {kept : List (ℕ × List UtteranceContent)} (split : splitGroups utt assignments = some kept) :
    kept ≠ [] := by
  unfold splitGroups at split
  split at split
  · cases split
  · split at split
    · cases split
    · dsimp only at split
      split at split
      · cases split
      · rename_i filled
        cases split
        exact fun empty => filled (List.isEmpty_iff.mpr empty)

/-- An utterance that is split has its metadata placed once. -/
theorem splitUtterance_metadata (utt : Utterance) (assignments : List ℕ) :
    splitUtterance utt assignments = [utt] ∨
      MetadataPlaced utt (splitUtterance utt assignments) := by
  cases split : splitGroups utt assignments with
  | none =>
      left
      simp only [splitUtterance, split]
  | some kept =>
      right
      simp only [splitUtterance, split]
      apply metadataPlaced_of_fresh
      · simpa using kept_ne_nil split
      · intro child isChild
        rcases List.mem_map.mp isChild with ⟨group, _, rfl⟩
        exact newChild_fresh utt group.2 _ group.1

end Claimed

end Batchalign.Segmentation
