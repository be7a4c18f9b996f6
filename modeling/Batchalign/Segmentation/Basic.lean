import Batchalign.Chat.Basic
import Batchalign.Library.Partition

/-!
# Splitting an utterance

`split_utterance` of `batchalign-core/src/segmentation/mod.rs`. Every extracted
`%mor` word carries the number of the child it belongs to. A content item takes
the number of its first word. A retrace without a number takes the one of the
next numbered item; the gaps left over are filled from the left and then from the
right. Each child gets the items of its number, without the separators in front.
-/

namespace Batchalign.Segmentation

open Batchalign.Chat Partition

section Assignment

variable [Talkbank]

/-- The content index of each extracted word. -/
def buildWordToContentMap (content : List UtteranceContent) : List ℕ :=
  content.zipIdx.flatMap fun item =>
    (Talkbank.collectUtteranceContent [item.1] .mor).map fun _ => item.2

/-- One pass of the loop that numbers an item by its first word. -/
def assignWord (assignments : List ℕ) (groups : List (Option ℕ)) (wordIdx contentIdx : ℕ) :
    List (Option ℕ) :=
  match assignments[wordIdx]?, groups[contentIdx]? with
  | some assignment, some none => groups.set contentIdx (some assignment)
  | _, _ => groups

def assignItems (wordToContent assignments : List ℕ) (itemCount : ℕ) : List (Option ℕ) :=
  wordToContent.zipIdx.foldl (fun groups word => assignWord assignments groups word.2 word.1)
    (List.replicate itemCount none)

/-- An unnumbered retrace takes the next number after it. The loop only reads entries it
has not changed yet. -/
def bindRetraces : List UtteranceContent → List (Option ℕ) → List (Option ℕ)
  | item :: items, group :: groups =>
      (if group.isSome || !item.isRetrace then group else groups.findSome? id) ::
        bindRetraces items groups
  | _, groups => groups

/-- The number of every content item after the retrace rule and both fills. -/
def contentItemGroups (content : List UtteranceContent) (assignments : List ℕ) :
    List (Option ℕ) :=
  fillGaps (bindRetraces content
    (assignItems (buildWordToContentMap content) assignments content.length))

end Assignment

section Tiers

inductive TierSplitPolicy where
  | partition
  | drop
  | attachFirst
deriving DecidableEq, Repr

def policyForTier : DependentTier → TierSplitPolicy
  | .wor _ => .partition
  | .mor _ | .gra _ => .drop
  | .pho _ | .mod _ | .sin _ | .modsyl _ | .phosyl _ | .phoaln _ => .drop
  | .userDefined _ _ | .text _ _ => .attachFirst

/-- The child of every `%wor` item: a word takes the number of its main-tier word, a
separator that of the last word before it. The word counts agree when this is called, so
the second case does not arise. -/
def worItemGroups : List ℕ → Option ℕ → List WorItem → List (ℕ × WorItem)
  | group :: groups, _, .word word :: items =>
      (group, .word word) :: worItemGroups groups (some group) items
  | [], _, .word _ :: _ => []
  | groups, lastSeenGroup, .separator text :: items =>
      (lastSeenGroup.getD 0, .separator text) :: worItemGroups groups lastSeenGroup items
  | _, _, [] => []

def partitionWorTier (parent : WorTier) (mainWordGroups : List ℕ) (numGroups : ℕ) :
    Option (List WorTier) :=
  if parent.wordCount ≠ mainWordGroups.length then none
  else
    let grouped := worItemGroups mainWordGroups none parent.items
    some ((List.range numGroups).map fun group =>
      { languageCode := parent.languageCode
        items := (grouped.filter fun item => item.1 = group).map Prod.snd
        terminator := parent.terminator
        bullet := parent.bullet })

variable [Talkbank]

def worEligibleWordGroups (content : List UtteranceContent) (itemGroups : List (Option ℕ)) :
    List ℕ :=
  (content.zip itemGroups).flatMap fun item =>
    (Talkbank.collectUtteranceContent [item.1] .wor).map fun _ => item.2.getD 0

end Tiers

section Split

variable [Talkbank]

/-- The items of each number, in order; an item without a number counts as `0`. -/
def groupContent (content : List UtteranceContent) (itemGroups : List (Option ℕ))
    (maxGroup : ℕ) : List (List UtteranceContent) :=
  (List.range (maxGroup + 1)).map fun group =>
    ((content.zip itemGroups).filter fun item => item.2.getD 0 = group).map Prod.fst

/-- The groups that are kept, with their numbers: separators in front are dropped, and so
are groups that hold nothing else. -/
def keptGroups (groups : List (List UtteranceContent)) : List (ℕ × List UtteranceContent) :=
  groups.zipIdx.filterMap fun group =>
    let kept := group.1.dropWhile UtteranceContent.isSeparator
    if kept.isEmpty then none else some (group.2, kept)

def newChild (utt : Utterance) (content : List UtteranceContent) : Utterance :=
  let main := MainTier.new utt.main.speaker content .period
  Utterance.new
    { main with content := { main.content with languageCode := utt.main.content.languageCode } }

def Utterance.pushTiers (utt : Utterance) (tiers : List DependentTier) : Utterance :=
  { utt with dependentTiers := utt.dependentTiers ++ tiers }

/-- The partitioned `%wor` tier of a child, unless it would be empty. -/
def childWorTiers (perGroup : Option (List WorTier)) (group : ℕ) : List DependentTier :=
  match perGroup.bind (·[group]?) with
  | some tier => if tier.items.isEmpty then [] else [.wor tier]
  | none => []

/-- What the first child receives from the parent. -/
def attachFirst (parent child : Utterance) : Utterance :=
  let tiers := parent.dependentTiers.filter fun tier => policyForTier tier = .attachFirst
  let child := Utterance.pushTiers child tiers
  if parent.main.content.linkers.isEmpty then child
  else
    { child with
      main :=
        { child.main with
          content := { child.main.content with linkers := parent.main.content.linkers } } }

/-- What the last child receives from the parent. -/
def attachLast (parent child : Utterance) : Utterance :=
  { child with
    main :=
      { child.main with
        content :=
          { child.main.content with
            terminator := parent.main.content.terminator.or child.main.content.terminator
            postcodes :=
              if parent.main.content.postcodes.isEmpty then child.main.content.postcodes
              else parent.main.content.postcodes
            bullet := parent.main.content.bullet.or child.main.content.bullet } } }

/-- The kept groups of a split, or `none` when the utterance is returned unchanged. -/
def splitGroups (utt : Utterance) (assignments : List ℕ) :
    Option (List (ℕ × List UtteranceContent)) :=
  if assignments.isEmpty || (buildWordToContentMap utt.items).isEmpty then none
  else if assignments.all (· == assignments.headD 0) then none
  else
    let kept := keptGroups (groupContent utt.items (contentItemGroups utt.items assignments)
      (assignments.foldl max 0))
    if kept.isEmpty then none else some kept

/-- The `%wor` tier of every group, when there is one and its words can be counted off. -/
def partitionedWor (utt : Utterance) (assignments : List ℕ) : Option (List WorTier) :=
  utt.worTier.bind fun tier =>
    partitionWorTier tier
      (worEligibleWordGroups utt.items (contentItemGroups utt.items assignments))
      (assignments.foldl max 0 + 1)

def splitUtterance (utt : Utterance) (assignments : List ℕ) : List Utterance :=
  match splitGroups utt assignments with
  | none => [utt]
  | some kept =>
      let children := kept.map fun group =>
        Utterance.pushTiers (newChild utt group.2)
          (childWorTiers (partitionedWor utt assignments) group.1)
      (children.modifyHead (attachFirst utt)).modifyLast (attachLast utt)

end Split

section Response

/-- A span of the segmentation backend, by its words. -/
abbrev SpanWords := List String

/-- The group of each source word, recovered from spans that keep the words; `none` when
the backend changed the tokens. -/
def assignmentsFromSpans (sourceWords : List String) (spans : List SpanWords) :
    Option (List ℕ) :=
  if spans.isEmpty then some []
  else if sourceWords ≠ spans.flatten then none
  else some (spans.zipIdx.flatMap fun span => List.replicate span.1.length span.2)

end Response

end Batchalign.Segmentation
