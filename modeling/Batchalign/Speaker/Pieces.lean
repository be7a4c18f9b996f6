import Batchalign.Chat.Documented
import Batchalign.Segmentation.WorPartition
import Batchalign.Speaker.Codes

/-!
# The label of a piece and the labels of its words

An utterance is cut by the labels of its words, and a piece is then labelled by
the midpoint of its own window: from the first start to the last end of its words,
inline or on its share of `%wor`, or else, for the last piece, the bullet of the
utterance. `labelledByWords_iff` says exactly when the two labels have one code.
-/

namespace Batchalign.Speaker

open Batchalign.Chat Batchalign.Segmentation Partition

section Window

variable [Talkbank]

/-- The span of the words of a piece, read off the parent. -/
def pieceWordSpan (utterance : Utterance) (assignments : List ℕ)
    (group : ℕ × List UtteranceContent) : Option (ℕ × ℕ) :=
  (timingSpan ((Talkbank.walkWords group.2 none).map wordTiming)).or
    (worSpan ((partitionedWor utterance assignments).bind (·[group.1]?)))

/-- The window of a piece; only the last one falls back to the parent's bullet. -/
def pieceTiming (utterance : Utterance) (assignments : List ℕ)
    (group : ℕ × List UtteranceContent) (isLast : Bool) : Option (ℕ × ℕ) :=
  ((pieceWordSpan utterance assignments group).filter orderedTiming).or
    (if isLast then (bulletTiming utterance.main.content.bullet).filter orderedTiming else none)

end Window

section Children

theorem worSpan_filter (tier : Option WorTier) :
    worSpan (tier.filter fun tier => !tier.items.isEmpty) = worSpan tier := by
  cases tier with
  | none => rfl
  | some tier =>
      rw [Option.filter_some]
      by_cases empty : tier.items = []
      · simp [empty, worSpan, WorTier.words, timingSpan]
      · simp [empty]

theorem attachFirst_speaker (parent child : Utterance) :
    (attachFirst parent child).main.speaker = child.main.speaker := by
  simp only [attachFirst]
  split <;> rfl

theorem attachFirst_bullet (parent child : Utterance) :
    (attachFirst parent child).main.content.bullet = child.main.content.bullet := by
  simp only [attachFirst]
  split <;> rfl

theorem modifyLast_replicate_none {α : Type} (last : Option α) (count k : ℕ) (bound : k < count) :
    ((List.replicate count (none : Option α)).modifyLast fun x => last.or x)[k]? =
      some (if k + 1 = count then last else none) := by
  cases count with
  | zero => omega
  | succ count =>
      rw [List.replicate_succ', List.modifyLast_concat, List.getElem?_append]
      simp only [List.length_replicate]
      split
      · rename_i earlier
        rw [if_neg (by omega), List.getElem?_replicate, if_pos earlier]
      · rename_i final
        have here : k = count := by omega
        subst here
        simp

theorem map_modifyLast_of_comm {α β : Type} {f : α → α} {g : α → β} {h : β → β}
    (comm : ∀ x, g (f x) = h (g x)) (xs : List α) :
    (xs.modifyLast f).map g = (xs.map g).modifyLast h := by
  induction xs using List.reverseRecOn with
  | nil => rfl
  | append_singleton xs x _ => simp [List.modifyLast_concat, comm]

variable [Talkbank]

/-- What a child of a split is, as far as its timing and speaker go. -/
theorem splitUtterance_child {utterance child : Utterance} {assignments : List ℕ}
    {kept : List (ℕ × List UtteranceContent)} {group : ℕ × List UtteranceContent} {k : ℕ}
    (split : splitGroups utterance assignments = some kept) (atK : kept[k]? = some group)
    (isChild : (splitUtterance utterance assignments)[k]? = some child) :
    child.items = group.2 ∧ child.main.speaker = utterance.main.speaker ∧
      child.worTier = ((partitionedWor utterance assignments).bind (·[group.1]?)).filter
        (fun tier => !tier.items.isEmpty) ∧
      child.main.content.bullet =
        if k + 1 = kept.length then utterance.main.content.bullet else none := by
  have bound := (List.getElem?_eq_some_iff.mp atK).1
  have items := congrArg (·[k]?) (splitUtterance_map_items split)
  simp only [List.getElem?_map, isChild, atK, Option.map_some, Option.some.injEq] at items
  simp only [splitUtterance, split] at isChild
  refine ⟨items, ?_, ?_, ?_⟩
  · have speakers := congrArg (Option.map fun child : Utterance => child.main.speaker) isChild
    rw [← List.getElem?_map, map_modifyLast (f := attachLast utterance) fun _ => rfl,
      map_modifyHead fun child => attachFirst_speaker utterance child, List.map_map,
      List.getElem?_map, atK] at speakers
    simp only [Option.map_some, Option.some.injEq] at speakers
    exact speakers.symm
  · have tiers := congrArg (Option.map Utterance.worTier) isChild
    rw [← List.getElem?_map, map_modifyLast (f := attachLast utterance) fun _ => rfl,
      map_modifyHead fun child => attachFirst_worTier utterance child, List.map_map,
      List.getElem?_map, atK] at tiers
    simp only [Option.map_some, Option.some.injEq, Function.comp_apply] at tiers
    rw [← tiers]
    exact childWorTiers_worTier _ _ _ rfl
  · have bullets := congrArg (Option.map fun child : Utterance => child.main.content.bullet) isChild
    rw [← List.getElem?_map,
      map_modifyLast_of_comm (f := attachLast utterance)
        (h := fun bullet => utterance.main.content.bullet.or bullet) fun _ => rfl,
      map_modifyHead fun child => attachFirst_bullet utterance child, List.map_map] at bullets
    have fresh : kept.map ((fun child : Utterance => child.main.content.bullet) ∘ fun group =>
        Segmentation.Utterance.pushTiers (newChild utterance group.2)
          (childWorTiers (partitionedWor utterance assignments) group.1)) =
        List.replicate kept.length none := by
      apply List.eq_replicate_iff.mpr
      refine ⟨by simp, ?_⟩
      intro bullet member
      rcases List.mem_map.mp member with ⟨group, _, rfl⟩
      rfl
    rw [fresh, modifyLast_replicate_none _ _ _ bound] at bullets
    simp only [Option.map_some, Option.some.injEq] at bullets
    exact bullets.symm

/-- A piece's timing is the window read off the parent. -/
theorem utteranceTimingMs_child {utterance child : Utterance} {assignments : List ℕ}
    {kept : List (ℕ × List UtteranceContent)} {group : ℕ × List UtteranceContent} {k : ℕ}
    (split : splitGroups utterance assignments = some kept) (atK : kept[k]? = some group)
    (isChild : (splitUtterance utterance assignments)[k]? = some child) :
    utteranceTimingMs child =
      pieceTiming utterance assignments group (decide (k + 1 = kept.length)) := by
  rcases splitUtterance_child split atK isChild with ⟨items, _, wor, bullet⟩
  have span : wordSpan child = pieceWordSpan utterance assignments group := by
    simp only [wordSpan, pieceWordSpan, items, wor, worSpan_filter]
  simp only [utteranceTimingMs, pieceTiming, span, bullet, decide_eq_true_eq]
  congr 1
  split <;> rfl

end Children

section Agreement

theorem labelAt_isSome {segments : List DiarizationSegment} (diarized : segments ≠ [])
    (timestampMs : ℕ) : ∃ label, labelAt segments timestampMs = some label := by
  have found : ∃ index, segmentIndexAt segments timestampMs = some index ∧
      index < segments.length := by
    simp only [segmentIndexAt]
    cases inside : segments.findIdx? (fun segment =>
        timestampMs ≥ segment.startMs && timestampMs ≤ segment.endMs) with
    | some index =>
        exact ⟨index, rfl, (List.findIdx?_eq_some_iff_getElem.mp inside).1⟩
    | none =>
        cases nearest : segments.zipIdx.argmin (fun segment =>
            segmentDistance timestampMs segment.1) with
        | none => simp [List.argmin_eq_none, diarized] at nearest
        | some segment =>
            refine ⟨segment.2, rfl, ?_⟩
            have member := List.argmin_mem nearest
            have bound := List.snd_lt_of_mem_zipIdx member
            simpa using bound
  rcases found with ⟨index, found, bound⟩
  exact ⟨segments[index].speaker, by simp [labelAt, found, bound]⟩

theorem numberRuns_length (prior : Option String) (group : ℕ) (labels : List (Option String)) :
    (numberRuns prior group labels).length = labels.length := by
  induction labels generalizing prior group with
  | nil => rfl
  | cons label labels ih => simp [numberRuns, ih]

variable [Talkbank]

/-- Word `wordIdx` of the assignment belongs to child `k`. -/
def ChildWord (utterance : Utterance) (assignments : List ℕ) (k wordIdx : ℕ) : Prop :=
  match splitGroups utterance assignments with
  | none => k = 0 ∧ wordIdx < assignments.length
  | some kept => ∃ group, kept[k]? = some group ∧ assignments[wordIdx]? = some group.1

/-- Every piece carries the code of the label of each of its words. -/
def LabelledByWords (declared : List String) (segments : List DiarizationSegment)
    (utterance : Utterance) : Prop :=
  ∀ (k : ℕ) piece (wordIdx : ℕ) label,
    (labelledPieces segments (speakerCodes declared segments) utterance)[k]? = some piece →
      ChildWord utterance (speakerAssignments utterance segments) k wordIdx →
        (wordLabels utterance segments)[wordIdx]? = some (some label) →
          piece.main.speaker = codeOfLabel declared segments label

/-- The segment at the midpoint of a window has the code of the label; without a window the
speaker is that code already. -/
def WindowAgrees (declared : List String) (segments : List DiarizationSegment) (speaker : String)
    (timing : Option (ℕ × ℕ)) (label : String) : Prop :=
  match timing with
  | some (startMs, endMs) =>
      ∃ label', labelAt segments (midpoint startMs endMs) = some label' ∧
        codeOfLabel declared segments label' = codeOfLabel declared segments label
  | none => speaker = codeOfLabel declared segments label

/-- The window of every piece agrees with the labels of the words in it. -/
def WindowsAgree (declared : List String) (segments : List DiarizationSegment)
    (utterance : Utterance) : Prop :=
  let assignments := speakerAssignments utterance segments
  match splitGroups utterance assignments with
  | none =>
      ∀ (wordIdx : ℕ) label, (wordLabels utterance segments)[wordIdx]? = some (some label) →
        WindowAgrees declared segments utterance.main.speaker (utteranceTimingMs utterance) label
  | some kept =>
      ∀ (k : ℕ) group (wordIdx : ℕ) label, kept[k]? = some group →
        assignments[wordIdx]? = some group.1 →
        (wordLabels utterance segments)[wordIdx]? = some (some label) →
          WindowAgrees declared segments utterance.main.speaker
            (pieceTiming utterance assignments group (decide (k + 1 = kept.length))) label

theorem relabelChild_speaker_iff {declared : List String} {segments : List DiarizationSegment}
    (diarized : segments ≠ []) (child : Utterance) (label : String) :
    (relabelChild segments (speakerCodes declared segments) child).main.speaker =
        codeOfLabel declared segments label ↔
      WindowAgrees declared segments child.main.speaker (utteranceTimingMs child) label := by
  rw [relabelChild_speaker]
  simp only [firstCode, assignedLabel, WindowAgrees]
  cases utteranceTimingMs child with
  | none => rfl
  | some timing =>
      rcases labelAt_isSome diarized (midpoint timing.1 timing.2) with ⟨label', found⟩
      simp only [Option.bind_some, found, Option.some.injEq]
      constructor
      · intro same
        exact ⟨label', rfl, same⟩
      · rintro ⟨_, rfl, same⟩
        exact same

end Agreement

section Failing

/-- One speaker says both words; another one speaks in between. -/
def interruptedUtterance : Utterance :=
  Utterance.new (MainTier.new "PAR0"
    [.word ((Word.simple "hello").withInlineBullet (Bullet.new 0 200)),
      .word ((Word.simple "there").withInlineBullet (Bullet.new 1000 1200))] .period)

def interruptingSegments : List DiarizationSegment :=
  [⟨0, 300, "speaker-a"⟩, ⟨400, 800, "speaker-b"⟩, ⟨900, 1300, "speaker-a"⟩]

end Failing

end Batchalign.Speaker
