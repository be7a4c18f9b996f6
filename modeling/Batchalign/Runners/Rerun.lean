import Batchalign.Runners.Annotations
import Batchalign.Runners.Fa
import Batchalign.Runners.Morphosyntax
import Batchalign.Runners.Phonetic

/-!
# Running an annotation stage twice

What two runs leave of the tiers a stage writes. Forced alignment replaces its tier, the
phonetic and the morphosyntax runner leave out what is annotated already, and the
translation and the coreference runner append without looking.
-/

namespace Batchalign.Runners

open Batchalign.Chat Batchalign.Compare Batchalign.Engine Batchalign.Fa Fallible InPlaceLoop

section Counting

/-- The tiers of a kind. -/
def tierCount (isKind : DependentTier → Bool) (utt : Utterance) : ℕ :=
  utt.dependentTiers.countP isKind

def AtMostOne (isKind : DependentTier → Bool) (chat : ChatFile) : Prop :=
  ∀ utt ∈ chat.utterances, tierCount isKind utt ≤ 1

theorem AtMostOne.count_le {isKind : DependentTier → Bool} {chat : ChatFile}
    (atMost : AtMostOne isKind chat) :
    ∀ count ∈ chat.utterances.map (tierCount isKind), count ≤ 1 :=
  List.forall_mem_map.mpr atMost

theorem atMostOne_iff_getElem? (isKind : DependentTier → Bool) (chat : ChatFile) :
    AtMostOne isKind chat ↔ ∀ (k : ℕ) (utt : Utterance), chat.utterances[k]? = some utt →
      tierCount isKind utt ≤ 1 := by
  constructor
  · intro atMost k utt atK
    exact atMost utt (List.mem_of_getElem? atK)
  · intro atMost utt member
    rcases List.mem_iff_getElem?.mp member with ⟨k, atK⟩
    exact atMost k utt atK

/-- Counts that are known utterance by utterance decide the whole. -/
theorem atMostOne_iff_of_counts {isKind : DependentTier → Bool} {chat after : ChatFile}
    {count : ℕ → Utterance → ℕ} (sameLength : after.utterances.length = chat.utterances.length)
    (counts : ∀ (k : ℕ) (utt utt' : Utterance), chat.utterances[k]? = some utt →
      after.utterances[k]? = some utt' → tierCount isKind utt' = count k utt) :
    AtMostOne isKind after ↔ ∀ (k : ℕ) (utt : Utterance), chat.utterances[k]? = some utt →
      count k utt ≤ 1 := by
  rw [atMostOne_iff_getElem?]
  constructor
  · intro atMost k utt atK
    have bound := (List.getElem?_eq_some_iff.mp atK).1
    have atAfter := List.getElem?_eq_getElem (sameLength ▸ bound)
    rw [← counts k utt _ atK atAfter]
    exact atMost k _ atAfter
  · intro atMost k utt' atK
    have bound := (List.getElem?_eq_some_iff.mp atK).1
    have before := List.getElem?_eq_getElem (sameLength ▸ bound)
    rw [counts k _ utt' before atK]
    exact atMost k _ before

end Counting

section Annotations

/-- The user-defined tiers with this label. -/
def hasLabel (label : String) : DependentTier → Bool
  | .userDefined label' _ => label' == label
  | _ => false

/-- The texts have one for this utterance that is not blank. -/
def writes (texts : List String) (k : ℕ) : Bool := texts[k]?.any fun text => trim text ≠ ""

variable {tier : AnnotationTier}

theorem annotate_count (texts : List String) (k : ℕ) (utt : Utterance) :
    tierCount (hasLabel tier.label) ((annotate tier texts k utt).toOption.getD utt) =
      tierCount (hasLabel tier.label) utt + if writes texts k then 1 else 0 := by
  cases atK : texts[k]? with
  | none => simp [annotate, writes, atK, Except.toOption]
  | some text =>
      by_cases blank : trim text = ""
      · simp [annotate_blank atK blank, writes, atK, blank, Except.toOption]
      · simp [annotate_text atK blank, writes, atK, blank, Except.toOption, tierCount, hasLabel]

/-- One run adds a tier where it has a text. -/
theorem injectTiers_count (chat : ChatFile) (texts : List String) {k : ℕ} {utt utt' : Utterance}
    (atK : chat.utterances[k]? = some utt)
    (after : (injectTiers tier chat texts).2.utterances[k]? = some utt') :
    tierCount (hasLabel tier.label) utt' =
      tierCount (hasLabel tier.label) utt + if writes texts k then 1 else 0 := by
  have bound := (List.getElem?_eq_some_iff.mp atK).1
  have replaced := utterances.run_getElem? (annotate tier texts) atK
  have passedLength : (passed (annotate tier texts) (chat.lines.filterMap
      utterances.pick).zipIdx).length = min texts.length chat.utterances.length := by
    rw [passed]
    simp only [annotate_isOk, takeWhile_zipIdx_lt, List.length_zipIdx, List.length_take,
      Nat.sub_zero]
    rfl
  rw [passedLength] at replaced
  have same := Option.some_inj.mp (after.symm.trans replaced)
  rw [same]
  split
  · exact annotate_count texts k utt
  · rename_i beyond
    have none_ : texts[k]? = none := List.getElem?_eq_none_iff.mpr (by omega)
    simp [writes, none_]

theorem injectTiers_length (chat : ChatFile) (texts : List String) :
    (injectTiers tier chat texts).2.utterances.length = chat.utterances.length :=
  utterances.run_length (annotate tier texts) chat.lines

/-- Two runs append two tiers. -/
theorem injectTiers_twice_iff (chat : ChatFile) (texts texts' : List String) :
    AtMostOne (hasLabel tier.label) (injectTiers tier (injectTiers tier chat texts).2 texts').2 ↔
      ∀ (k : ℕ) (utt : Utterance), chat.utterances[k]? = some utt →
        tierCount (hasLabel tier.label) utt + (if writes texts k then 1 else 0) +
          (if writes texts' k then 1 else 0) ≤ 1 := by
  apply atMostOne_iff_of_counts
  · rw [injectTiers_length, injectTiers_length]
  · intro k utt utt' atK after
    have bound := (List.getElem?_eq_some_iff.mp atK).1
    have length : (injectTiers tier chat texts).2.utterances.length = chat.utterances.length :=
      injectTiers_length chat texts
    have between := List.getElem?_eq_getElem (length.symm ▸ bound)
    rw [injectTiers_count _ texts' between after, injectTiers_count chat texts atK between]

end Annotations

section Alignment

variable [Talkbank]

/-- The utterances that are reached before one does not fit its segment. -/
def alignedCount (utts : List Utterance) (aligned : List AsrSegment) : ℕ :=
  ((utts.zip aligned).takeWhile fits).length

/-- The loop reaches the utterance with a segment that has words. -/
def Realigns (chat : ChatFile) (aligned : List AsrSegment) (k : ℕ) : Prop :=
  k < alignedCount chat.utterances aligned ∧ ∃ seg, aligned[k]? = some seg ∧ seg.words ≠ []

theorem passed_faStep_length (aligned : List AsrSegment) (idx : ℕ) (utts : List Utterance) :
    (passed (faStep aligned) (utts.zipIdx idx)).length =
      alignedCount utts (aligned.drop idx) := by
  induction utts generalizing idx with
  | nil => rfl
  | cons utt utts ih =>
      rw [List.zipIdx_cons]
      cases found : aligned[idx]? with
      | none =>
          rw [passed, List.takeWhile_cons_of_neg (by simp [faStep_none found, Except.isOk,
            Except.toBool]), List.drop_eq_nil_of_le (List.getElem?_eq_none_iff.mp found)]
          rfl
      | some seg =>
          rcases List.getElem?_eq_some_iff.mp found with ⟨within, isSeg⟩
          rw [List.drop_eq_getElem_cons within, isSeg, alignedCount, List.zip_cons_cons, passed]
          by_cases fit : fits (utt, seg) = true
          · rw [List.takeWhile_cons_of_pos (by rw [faStep_some found, injectUtterance_isOk, fit]),
              List.takeWhile_cons_of_pos fit, List.length_cons, List.length_cons]
            exact congrArg (· + 1) (ih (idx + 1))
          · rw [List.takeWhile_cons_of_neg (by rwa [faStep_some found, injectUtterance_isOk]),
              List.takeWhile_cons_of_neg fit]
            rfl

theorem injectUtterance_frame {utt injected : Utterance} {seg : AsrSegment}
    (ran : injectUtterance utt seg = .ok injected) :
    injected.items = utt.items ∧ tierCount DependentTier.isWor injected =
      if seg.words = [] then tierCount DependentTier.isWor utt else 1 := by
  simp only [injectUtterance] at ran
  by_cases empty : seg.words = []
  · rw [if_pos (by simpa using empty)] at ran
    cases ran
    simp [empty]
  · rw [if_neg (by simpa using empty)] at ran
    cases collapses : collapseAlignedWords utt.items seg.words with
    | error error =>
        rw [collapses] at ran
        cases ran
    | ok collapsed =>
        rw [collapses] at ran
        cases ran
        rw [if_neg empty]
        refine ⟨rfl, ?_⟩
        rw [tierCount, List.countP_eq_length_filter, filter_replaceWorTier]
        rfl

theorem injectWordTimings_getElem? {chat : ChatFile} (aligned : List AsrSegment) {k : ℕ}
    {utt : Utterance} (atK : chat.utterances[k]? = some utt) :
    (Fa.injectWordTimings chat aligned).2.utterances[k]? =
      some (if k < alignedCount chat.utterances aligned
        then (faStep aligned k utt).toOption.getD utt else utt) := by
  have replaced := utterances.run_getElem? (faStep aligned) atK
  have reached : (passed (faStep aligned) (chat.lines.filterMap utterances.pick).zipIdx).length =
      alignedCount chat.utterances aligned := passed_faStep_length aligned 0 chat.utterances
  rw [← injectLines_eq_run, reached] at replaced
  exact replaced

theorem injectWordTimings_length (chat : ChatFile) (aligned : List AsrSegment) :
    (Fa.injectWordTimings chat aligned).2.utterances.length = chat.utterances.length := by
  have same := utterances.run_length (faStep aligned) chat.lines
  rwa [← injectLines_eq_run] at same

/-- One run keeps the content and leaves one `%wor` tier where it writes. -/
theorem injectWordTimings_count {chat : ChatFile} {aligned : List AsrSegment} {k : ℕ}
    {utt utt' : Utterance} (atK : chat.utterances[k]? = some utt)
    (after : (Fa.injectWordTimings chat aligned).2.utterances[k]? = some utt') :
    utt'.items = utt.items ∧
      (Realigns chat aligned k → tierCount DependentTier.isWor utt' = 1) ∧
      (¬ Realigns chat aligned k →
        tierCount DependentTier.isWor utt' = tierCount DependentTier.isWor utt) := by
  have same := Option.some_inj.mp (after.symm.trans (injectWordTimings_getElem? aligned atK))
  subst same
  by_cases reached : k < alignedCount chat.utterances aligned
  · rw [if_pos reached]
    have inside : k < (chat.utterances.zip aligned).length :=
      reached.trans_le ( List.takeWhile_prefix _).length_le
    rw [List.length_zip] at inside
    have found := List.getElem?_eq_getElem (show k < aligned.length by omega)
    rw [faStep_some found]
    have realigns : Realigns chat aligned k ↔ aligned[k].words ≠ [] := by
      constructor
      · rintro ⟨_, seg, isSeg, words⟩
        rw [found, Option.some_inj] at isSeg
        rwa [isSeg]
      · intro words
        exact ⟨reached, _, found, words⟩
    cases injects : injectUtterance utt aligned[k] with
    | error error =>
        have fit : fits (utt, aligned[k]) = true := by
          have member := List.getElem_mem reached
          have holds := List.mem_takeWhile_imp member
          rw [( List.takeWhile_prefix _).getElem reached, List.getElem_zip] at holds
          rwa [Option.some_inj.mp ((List.getElem?_eq_getElem (by omega)).symm.trans atK)] at holds
        have isOk := injectUtterance_isOk utt aligned[k]
        rw [injects, fit] at isOk
        cases isOk
    | ok injected =>
        rcases injectUtterance_frame injects with ⟨items, count⟩
        refine ⟨items, ?_, ?_⟩
        · intro writes
          exact count.trans (if_neg (realigns.mp writes))
        · intro noWords
          exact count.trans (if_pos (not_ne_iff.mp (mt realigns.mpr noWords)))
  · rw [if_neg reached]
    refine ⟨rfl, ?_, fun _ => rfl⟩
    rintro ⟨past, _⟩
    exact absurd past reached

theorem alignedCount_congr {utts utts' : List Utterance} (aligned : List AsrSegment)
    (same : utts.map partCount = utts'.map partCount) :
    alignedCount utts aligned = alignedCount utts' aligned := by
  induction utts generalizing utts' aligned with
  | nil =>
      rw [List.map_eq_nil_iff.mp same.symm]
  | cons utt utts ih =>
      cases utts' with
      | nil => cases same
      | cons utt' utts' =>
          rcases List.cons_eq_cons.mp same with ⟨head, tail⟩
          cases aligned with
          | nil => rfl
          | cons seg aligned =>
              have rest := ih aligned tail
              simp only [alignedCount] at rest ⊢
              have sameFit : fits (utt, seg) = fits (utt', seg) := by
                simp only [fits]
                rw [head]
              rw [List.zip_cons_cons, List.zip_cons_cons, List.takeWhile_cons,
                List.takeWhile_cons, sameFit]
              split
              · rw [List.length_cons, List.length_cons, rest]
              · rfl

/-- A run leaves what the next run reaches as it was. -/
theorem realigns_after (chat : ChatFile) (aligned aligned' : List AsrSegment) (k : ℕ) :
    Realigns (Fa.injectWordTimings chat aligned).2 aligned' k ↔ Realigns chat aligned' k := by
  have same : (Fa.injectWordTimings chat aligned).2.utterances.map partCount =
      chat.utterances.map partCount := by
    have lengths := injectWordTimings_length chat aligned
    apply List.ext_getElem
    · rw [List.length_map, List.length_map, lengths]
    · intro index bound bound'
      rw [List.length_map] at bound bound'
      have frame := injectWordTimings_count (List.getElem?_eq_getElem bound')
        (List.getElem?_eq_getElem bound)
      rw [List.getElem_map, List.getElem_map, partCount, partCount, frame.1]
  rw [Realigns, Realigns, alignedCount_congr aligned' same]

/-- The tier is replaced, so a second one can only be one the transcript came with. -/
theorem injectWordTimings_twice_iff (chat : ChatFile) (aligned aligned' : List AsrSegment) :
    AtMostOne DependentTier.isWor
        (Fa.injectWordTimings (Fa.injectWordTimings chat aligned).2 aligned').2 ↔
      ∀ (k : ℕ) (utt : Utterance), chat.utterances[k]? = some utt →
        tierCount DependentTier.isWor utt ≤ 1 ∨ Realigns chat aligned k ∨
          Realigns chat aligned' k := by
  classical
  rw [@atMostOne_iff_of_counts _ chat _ (fun k utt =>
    if Realigns chat aligned k ∨ Realigns chat aligned' k then 1
    else tierCount DependentTier.isWor utt) ?_ ?_]
  · apply forall₂_congr
    intro k utt
    apply imp_congr_right
    intro _
    split
    · rename_i realigned
      simp [realigned]
    · rename_i kept
      simp [kept]
  · rw [injectWordTimings_length, injectWordTimings_length]
  · intro k utt utt' atK after
    have bound := (List.getElem?_eq_some_iff.mp atK).1
    have between := List.getElem?_eq_getElem
      ((injectWordTimings_length chat aligned).symm ▸ bound)
    rcases injectWordTimings_count atK between with ⟨_, first, firstKept⟩
    rcases injectWordTimings_count between after with ⟨_, second, secondKept⟩
    rw [realigns_after] at second secondKept
    by_cases again : Realigns chat aligned' k
    · rw [if_pos (Or.inr again), second again]
    · rw [secondKept again]
      by_cases once : Realigns chat aligned k
      · rw [if_pos (Or.inl once), first once]
      · rw [if_neg (by simp [once, again]), firstKept once]

end Alignment

section Tagging

/-- A `%gra` tier, parsed or kept under its label. -/
def isGraLike : DependentTier → Bool
  | .gra _ => true
  | .userDefined label _ => label == "gra"
  | _ => false

theorem withTiers_count (utt : Utterance) (mor gra : String) :
    tierCount isMorTier (withTiers utt (some (mor, gra))) = tierCount isMorTier utt + 1 ∧
      tierCount isGraLike (withTiers utt (some (mor, gra))) = tierCount isGraLike utt + 1 := by
  simp only [tierCount, withTiers, List.countP_append]
  exact ⟨rfl, rfl⟩

variable [MorTiers]

/-- The loop reaches the utterance and writes its tiers. -/
def Tagged (outputs : List (ℕ × MorphosyntaxOutput)) (chat : ChatFile) (k : ℕ)
    (utt : Utterance) : Prop :=
  k < (passed (tagUtterance outputs) chat.utterances.zipIdx).length ∧
    ∃ tiers, tiersFor outputs (utt, k) = .ok (some tiers)

/-- One run adds both tiers where it tags. -/
theorem injectMorGra_count {chat : ChatFile} {outputs : List (ℕ × MorphosyntaxOutput)} {k : ℕ}
    {utt utt' : Utterance} (atK : chat.utterances[k]? = some utt)
    (after : (injectMorGraTiersSelective chat outputs).2.utterances[k]? = some utt') :
    (Tagged outputs chat k utt → tierCount isMorTier utt' = tierCount isMorTier utt + 1 ∧
        tierCount isGraLike utt' = tierCount isGraLike utt + 1) ∧
      (¬ Tagged outputs chat k utt → utt' = utt) := by
  have replaced := utterances.run_getElem? (tagUtterance outputs) atK
  have same := Option.some_inj.mp (after.symm.trans replaced)
  rw [same]
  by_cases reached : k < (passed (tagUtterance outputs)
    (chat.lines.filterMap utterances.pick).zipIdx).length
  · rw [if_pos reached]
    cases tiers : tiersFor outputs (utt, k) with
    | error error =>
        refine ⟨?_, fun _ => ?_⟩
        · rintro ⟨_, found, isTiers⟩
          rw [tiers] at isTiers
          cases isTiers
        · rw [tagUtterance, tiers]
          rfl
    | ok written =>
        have changed : (tagUtterance outputs k utt).toOption.getD utt = withTiers utt written := by
          rw [tagUtterance, tiers]
          rfl
        rw [changed]
        cases written with
        | none =>
            refine ⟨?_, fun _ => rfl⟩
            rintro ⟨_, found, isTiers⟩
            rw [tiers] at isTiers
            cases isTiers
        | some written =>
            refine ⟨fun _ => withTiers_count utt written.1 written.2, fun untagged => ?_⟩
            exact absurd ⟨reached, written, tiers⟩ untagged
  · rw [if_neg reached]
    refine ⟨?_, fun _ => rfl⟩
    rintro ⟨past, _⟩
    exact absurd past reached

theorem injectMorGra_length (chat : ChatFile) (outputs : List (ℕ × MorphosyntaxOutput)) :
    (injectMorGraTiersSelective chat outputs).2.utterances.length = chat.utterances.length :=
  utterances.run_length (tagUtterance outputs) chat.lines

/-- At most one tier of either kind. -/
def TaggedOnce (chat : ChatFile) : Prop := AtMostOne isMorTier chat ∧ AtMostOne isGraLike chat

/-- No utterance that gets tiers carries one already. -/
def TagsUntagged (outputs : List (ℕ × MorphosyntaxOutput)) (chat : ChatFile) : Prop :=
  ∀ (k : ℕ) (utt : Utterance), chat.utterances[k]? = some utt → Tagged outputs chat k utt →
    tierCount isMorTier utt = 0 ∧ tierCount isGraLike utt = 0

theorem injectMorGra_taggedOnce_iff (chat : ChatFile)
    (outputs : List (ℕ × MorphosyntaxOutput)) :
    TaggedOnce (injectMorGraTiersSelective chat outputs).2 ↔
      TaggedOnce chat ∧ TagsUntagged outputs chat := by
  classical
  have lengths := injectMorGra_length chat outputs
  have counts : ∀ isKind : DependentTier → Bool, isKind = isMorTier ∨ isKind = isGraLike →
      (AtMostOne isKind (injectMorGraTiersSelective chat outputs).2 ↔
        ∀ (k : ℕ) (utt : Utterance), chat.utterances[k]? = some utt →
          (tierCount isKind utt + if Tagged outputs chat k utt then 1 else 0) ≤ 1) := by
    intro isKind kinds
    apply atMostOne_iff_of_counts lengths
    intro k utt utt' atK after
    have count := injectMorGra_count atK after
    by_cases tagged : Tagged outputs chat k utt
    · rw [if_pos tagged]
      rcases kinds with rfl | rfl
      · exact (count.1 tagged).1
      · exact (count.1 tagged).2
    · rw [if_neg tagged, count.2 tagged, Nat.add_zero]
  rw [TaggedOnce, counts _ (Or.inl rfl), counts _ (Or.inr rfl), TaggedOnce,
    atMostOne_iff_getElem?, atMostOne_iff_getElem?]
  constructor
  · rintro ⟨mor, gra⟩
    refine ⟨⟨fun k utt atK => ?_, fun k utt atK => ?_⟩, fun k utt atK tagged => ?_⟩
    · exact (Nat.le_add_right _ _).trans (mor k utt atK)
    · exact (Nat.le_add_right _ _).trans (gra k utt atK)
    · have mor := mor k utt atK
      have gra := gra k utt atK
      rw [if_pos tagged] at mor gra
      omega
  · rintro ⟨⟨mor, gra⟩, untagged⟩
    refine ⟨fun k utt atK => ?_, fun k utt atK => ?_⟩
    · split
      · rename_i tagged
        rw [(untagged k utt atK tagged).1]
      · exact mor k utt atK
    · split
      · rename_i tagged
        rw [(untagged k utt atK tagged).2]
      · exact gra k utt atK

theorem injectMorGra_nil (chat : ChatFile) : (injectMorGraTiersSelective chat []).2 = chat := by
  have kept : (run (utterances.numbered (tagUtterance [])) 0 chat.lines).2 = chat.lines := by
    rw [utterances.run_kept_iff]
    intro row _
    exact (tagUtterance_kept_iff _ _).mpr rfl
  simp only [injectMorGraTiersSelective, kept]

variable [Talkbank] [ChatBuilder] [ChatDetails]

/-- The analyses the stage writes. Nothing is written when it fails or passes the file. -/
def writtenAnalyses (answers : ℕ → MorphosyntaxInput → BAResult MorphosyntaxOutput)
    (chat : Chat) : List (ℕ × MorphosyntaxOutput) :=
  if ChatDetails.conversationAnalysis chat.ast then []
  else (analyses answers chat).toOption.getD []

theorem processChat_ast (answers : ℕ → MorphosyntaxInput → BAResult MorphosyntaxOutput)
    (chat : Chat) :
    (processChat answers chat).chat.ast =
      (injectMorGraTiersSelective chat.ast (writtenAnalyses answers chat)).2 := by
  simp only [processChat, writtenAnalyses]
  split
  · rw [injectMorGra_nil]
  · cases analysed : analyses answers chat with
    | error error => exact (injectMorGra_nil _).symm
    | ok outputs => rfl

/-- An analysis belongs to an utterance without a `%mor` tier, by its number in 32 bits. -/
theorem mem_writtenAnalyses {answers : ℕ → MorphosyntaxInput → BAResult MorphosyntaxOutput}
    {chat : Chat} {row : ℕ × MorphosyntaxOutput} (member : row ∈ writtenAnalyses answers chat) :
    ∃ (k : ℕ) (utt : Utterance), chat.ast.utterances[k]? = some utt ∧ row.1 = k % 2 ^ 32 ∧
      utteranceHasMorTier utt = false := by
  rw [writtenAnalyses] at member
  split at member
  · cases member
  · cases analysed : analyses answers chat with
    | error error =>
        rw [analysed] at member
        cases member
    | ok outputs =>
        rw [analysed] at member
        rcases bind_eq_ok_iff.mp analysed with ⟨inputs, batch, dispatched⟩
        rcases mem_of_mapM_ok dispatched member with ⟨⟨input, call⟩, inside, answered⟩
        have inputMember : input ∈ inputs := (List.mem_zipIdx' inside).2 ▸ List.getElem_mem _
        simp only [morphotagBatch] at batch
        split at batch
        · cases batch
        · cases batch
          rcases List.mem_map.mp inputMember with ⟨⟨utt, k⟩, kept, rfl⟩
          rcases List.mem_filter.mp kept with ⟨row', untagged⟩
          refine ⟨k, utt, List.mem_zipIdx_iff_getElem?.mp row', ?_, by simpa using untagged⟩
          simp only at answered
          cases result : answers call (morphosyntaxInput chat.sourceId
            (resolvePerFileLanguage chat) utt k) with
          | error error =>
              rw [result] at answered
              cases answered
          | ok output =>
              rw [result] at answered
              cases answered
              rfl

/-- Up to `2 ^ 32` utterances, the stage passes over those that have a `%mor` tier. -/
theorem tagged_unmarked {answers : ℕ → MorphosyntaxInput → BAResult MorphosyntaxOutput}
    {chat : Chat} {k : ℕ} {utt : Utterance} (small : chat.ast.utterances.length ≤ 2 ^ 32)
    (atK : chat.ast.utterances[k]? = some utt)
    (tagged : Tagged (writtenAnalyses answers chat) chat.ast k utt) :
    tierCount isMorTier utt = 0 := by
  rcases tagged with ⟨_, tiers, written⟩
  simp only [tiersFor] at written
  split at written
  · cases written
  · rename_i output found
    have member : (k, output) ∈ writtenAnalyses answers chat := by
      rcases List.lookup_eq_some_iff.mp found with ⟨before, after, split_, _⟩
      rw [← List.mem_reverse, split_]
      simp
    rcases mem_writtenAnalyses member with ⟨k', utt', atK', same, untagged⟩
    have bound := (List.getElem?_eq_some_iff.mp atK').1
    rw [Nat.mod_eq_of_lt (by omega)] at same
    change k = k' at same
    subst same
    rw [atK, Option.some_inj] at atK'
    subst atK'
    rw [tierCount, List.countP_eq_zero]
    simpa [utteranceHasMorTier] using untagged

theorem tagsUntagged_iff_of_small
    {answers : ℕ → MorphosyntaxInput → BAResult MorphosyntaxOutput} {chat : Chat}
    (small : chat.ast.utterances.length ≤ 2 ^ 32) :
    TagsUntagged (writtenAnalyses answers chat) chat.ast ↔
      ∀ (k : ℕ) (utt : Utterance), chat.ast.utterances[k]? = some utt →
        Tagged (writtenAnalyses answers chat) chat.ast k utt → tierCount isGraLike utt = 0 := by
  constructor
  · intro untagged k utt atK tagged
    exact (untagged k utt atK tagged).2
  · intro noGra k utt atK tagged
    exact ⟨tagged_unmarked small atK tagged, noGra k utt atK tagged⟩

end Tagging

section Phonetics

theorem map_filterMap_sublist {α β γ : Type} {f : α → Option β} {g : β → γ} {h : α → γ}
    (same : ∀ a b, f a = some b → g b = h a) (as : List α) :
    ((as.filterMap f).map g).Sublist (as.map h) := by
  induction as with
  | nil => exact .slnil
  | cons a as ih =>
      cases found : f a with
      | none =>
          rw [List.filterMap_cons_none found, List.map_cons]
          exact ih.cons _
      | some b =>
          rw [List.filterMap_cons_some found, List.map_cons, List.map_cons, same a b found]
          exact ih.cons_cons _

theorem atMostOne_iff_lines (isKind : DependentTier → Bool) (chat : ChatFile) :
    AtMostOne isKind chat ↔ ∀ (index : ℕ) (utt : Utterance),
      chat.lines[index]? = some (.utterance utt) → tierCount isKind utt ≤ 1 := by
  constructor
  · intro atMost index utt atIndex
    exact atMost utt (List.mem_filterMap.mpr ⟨_, List.mem_of_getElem? atIndex, rfl⟩)
  · intro atMost utt member
    rcases List.mem_filterMap.mp member with ⟨line, inside, isUtterance⟩
    rcases List.mem_iff_getElem?.mp inside with ⟨index, atIndex⟩
    have line_eq := utterances.put_of_pick isUtterance
    exact atMost index utt (atIndex.trans (congrArg some line_eq.symm))

variable [PhoTiers]

theorem pushPho_count (ipa : List String) (utt : Utterance) :
    ∃ utt', pushPho ipa (.utterance utt) = .utterance utt' ∧
      tierCount isPhoTier utt' = tierCount isPhoTier utt + 1 := by
  refine ⟨_, rfl, ?_⟩
  simp only [tierCount, List.countP_append]
  rfl

theorem pushResults_length {english : Bool} {rows : List (PhoneticUtterance × PhoneticResult)}
    {lines lines' : List Line} (ran : pushResults english rows lines = .ok lines') :
    lines'.length = lines.length := by
  induction rows generalizing lines with
  | nil =>
      cases ran
      rfl
  | cons row rows ih =>
      simp only [pushResults] at ran
      split at ran
      · cases ran
      · split at ran
        · cases ran
        · rw [ih ran, List.length_modify]

/-- The lines of the rows get one tier, the others stay. -/
theorem pushResults_getElem? {english : Bool}
    {rows : List (PhoneticUtterance × PhoneticResult)} {lines lines' : List Line}
    (ran : pushResults english rows lines = .ok lines')
    (nodup : (rows.map fun row => row.1.index).Nodup) {index : ℕ} {line : Line}
    (atIndex : lines[index]? = some line) :
    (index ∈ rows.map (fun row => row.1.index) ∧
        ∃ ipa, lines'[index]? = some (pushPho ipa line)) ∨
      (index ∉ rows.map (fun row => row.1.index) ∧ lines'[index]? = some line) := by
  induction rows generalizing lines line with
  | nil =>
      cases ran
      exact Or.inr ⟨List.not_mem_nil, atIndex⟩
  | cons row rows ih =>
      rw [List.map_cons, List.nodup_cons] at nodup
      simp only [pushResults] at ran
      split at ran
      · cases ran
      · split at ran
        · cases ran
        · by_cases here : index = row.1.index
          · subst here
            have modified := List.getElem?_modify_eq (pushPho
              (List.zipWith (normalizedUnit english) row.1.units row.2.ipa)) row.1.index lines
            rw [atIndex] at modified
            rcases ih ran nodup.2 modified with ⟨later, _⟩ | ⟨_, same⟩
            · exact absurd later nodup.1
            · exact Or.inl ⟨List.mem_cons_self, _, same⟩
          · have unmodified := List.getElem?_modify_ne (f := pushPho
              (List.zipWith (normalizedUnit english) row.1.units row.2.ipa)) (l := lines)
              (Ne.symm here)
            rw [atIndex] at unmodified
            rcases ih ran nodup.2 unmodified with ⟨later, found⟩ | ⟨none_, same⟩
            · exact Or.inl ⟨List.mem_cons_of_mem _ later, found⟩
            · refine Or.inr ⟨?_, same⟩
              simpa [here] using none_

theorem phoneticUtterance_spec {index : ℕ} {utt : Utterance} {extracted : PhoneticUtterance}
    (found : phoneticUtterance index utt = some extracted) :
    extracted.index = index ∧ tierCount isPhoTier utt = 0 := by
  simp only [phoneticUtterance] at found
  split at found
  · cases found
  · rename_i kept
    rcases Option.map_eq_some_iff.mp found with ⟨timing, _, rfl⟩
    rw [Bool.or_eq_true, not_or, Bool.not_eq_true, List.any_eq_false] at kept
    exact ⟨rfl, List.countP_eq_zero.mpr kept.1⟩

/-- The utterances sent to the backend have no `%pho` tier, and no two have one line. -/
theorem extractUtterances_spec (chat : ChatFile) :
    ((extractUtterances chat).map PhoneticUtterance.index).Nodup ∧
      ∀ index ∈ (extractUtterances chat).map PhoneticUtterance.index,
        ∃ utt, chat.lines[index]? = some (.utterance utt) ∧ tierCount isPhoTier utt = 0 := by
  constructor
  · have places : ((extractUtterances chat).map PhoneticUtterance.index).Sublist
        (chat.lines.zipIdx.map Prod.snd) := by
      apply map_filterMap_sublist
      rintro ⟨line, index⟩ extracted found
      rcases Option.bind_eq_some_iff.mp found with ⟨utt, _, found⟩
      exact (phoneticUtterance_spec found).1
    apply List.Nodup.sublist places
    rw [List.zipIdx_map_snd]
    exact List.nodup_range'
  · intro index member
    rcases List.mem_map.mp member with ⟨extracted, inside, rfl⟩
    rcases List.mem_filterMap.mp inside with ⟨⟨line, index⟩, atIndex, found⟩
    rcases Option.bind_eq_some_iff.mp found with ⟨utt, isUtterance, found⟩
    rcases phoneticUtterance_spec found with ⟨rfl, count⟩
    have line_eq := utterances.put_of_pick isUtterance
    refine ⟨utt, ?_, count⟩
    rw [List.mem_zipIdx_iff_getElem?] at atIndex
    exact atIndex.trans (congrArg some line_eq.symm)

variable [ChatBuilder] [ChatFormat] [ValidationGates]

/-- One application: the transcript is replaced when its copy could be written. -/
def injectPho (chat : Chat) (output : PhoneticOutput) : Chat :=
  (injectPhoTiers chat (extractUtterances chat.ast) output).toOption.getD chat

theorem injectPhoTiers_ok {chat revised : Chat} {inputs : List PhoneticUtterance}
    {output : PhoneticOutput} (injected : injectPhoTiers chat inputs output = .ok revised) :
    inputs.length = output.utterances.length ∧ ∃ english,
      pushResults english (inputs.zip output.utterances) chat.ast.lines =
        .ok revised.ast.lines := by
  simp only [injectPhoTiers] at injected
  split at injected
  · cases injected
  · rename_i lengths
    rcases bind_eq_ok_iff.mp injected with ⟨lines, pushed, injected⟩
    rcases bind_eq_ok_iff.mp injected with ⟨_, _, injected⟩
    cases injected
    exact ⟨not_ne_iff.mp lengths, _, pushed⟩

/-- A run adds a tier only where there is none. -/
theorem injectPho_atMostOne_iff (chat : Chat) (output : PhoneticOutput) :
    AtMostOne isPhoTier (injectPho chat output).ast ↔ AtMostOne isPhoTier chat.ast := by
  simp only [injectPho]
  cases injected : injectPhoTiers chat (extractUtterances chat.ast) output with
  | error error => rfl
  | ok revised =>
      rcases injectPhoTiers_ok injected with ⟨lengths, english, pushed⟩
      rcases extractUtterances_spec chat.ast with ⟨nodup, untiered⟩
      have indices : ((extractUtterances chat.ast).zip output.utterances).map
          (fun row => row.1.index) =
          (extractUtterances chat.ast).map PhoneticUtterance.index := by
        have firsts := congrArg (List.map PhoneticUtterance.index) (List.map_fst_zip lengths.le)
        rwa [List.map_map] at firsts
      have pushedAt := @pushResults_getElem? _ _ _ _ _ pushed (indices ▸ nodup)
      rw [indices] at pushedAt
      change AtMostOne isPhoTier revised.ast ↔ _
      rw [atMostOne_iff_lines, atMostOne_iff_lines]
      constructor
      · intro atMost index utt atIndex
        rcases pushedAt atIndex with ⟨sent, _⟩ | ⟨_, same⟩
        · rcases untiered index sent with ⟨utt', atIndex', count⟩
          rw [atIndex, Option.some_inj, Line.utterance.injEq] at atIndex'
          rw [atIndex', count]
          exact Nat.zero_le 1
        · exact atMost index utt same
      · intro atMost index utt after
        have bound := (List.getElem?_eq_some_iff.mp after).1
        rw [pushResults_length pushed] at bound
        have before := List.getElem?_eq_getElem bound
        rcases pushedAt before with ⟨sent, ipa, found⟩ | ⟨_, same⟩
        · rcases untiered index sent with ⟨utt', atIndex', count⟩
          rcases pushPho_count ipa utt' with ⟨changed, isPushed, one⟩
          rw [before, Option.some_inj] at atIndex'
          rw [atIndex', isPushed, after, Option.some_inj, Line.utterance.injEq] at found
          rw [found, one, count]
        · exact atMost index utt (before.trans (same.symm.trans after))

end Phonetics

section Twice

variable [Talkbank] [MorTiers] [PhoTiers] [ChatBuilder] [ChatDetails] [ChatFormat]
  [ValidationGates]

/-- When two runs of each stage leave at most one tier of its kind. -/
theorem injectedTwice_atMostOne_iff :
    (∀ (chat : ChatFile) (texts texts' : List String),
      AtMostOne (hasLabel "xtra")
          (injectTranslationTiers (injectTranslationTiers chat texts).2 texts').2 ↔
        ∀ (k : ℕ) (utt : Utterance), chat.utterances[k]? = some utt →
          tierCount (hasLabel "xtra") utt + (if writes texts k then 1 else 0) +
            (if writes texts' k then 1 else 0) ≤ 1) ∧
    (∀ (chat : ChatFile) (texts texts' : List String),
      AtMostOne (hasLabel "xcor") (injectCorefTiers (injectCorefTiers chat texts).2 texts').2 ↔
        ∀ (k : ℕ) (utt : Utterance), chat.utterances[k]? = some utt →
          tierCount (hasLabel "xcor") utt + (if writes texts k then 1 else 0) +
            (if writes texts' k then 1 else 0) ≤ 1) ∧
    (∀ (chat : Chat) (answers answers' : ℕ → MorphosyntaxInput → BAResult MorphosyntaxOutput),
      let once := (processChat answers chat).chat
      TaggedOnce (processChat answers' once).chat.ast ↔
        TaggedOnce chat.ast ∧ TagsUntagged (writtenAnalyses answers chat) chat.ast ∧
          TagsUntagged (writtenAnalyses answers' once) once.ast) ∧
    (∀ (chat : Chat) (output output' : PhoneticOutput),
      AtMostOne isPhoTier (injectPho (injectPho chat output) output').ast ↔
        AtMostOne isPhoTier chat.ast) ∧
    ∀ (chat : ChatFile) (aligned aligned' : List AsrSegment),
      AtMostOne DependentTier.isWor
          (Fa.injectWordTimings (Fa.injectWordTimings chat aligned).2 aligned').2 ↔
        ∀ (k : ℕ) (utt : Utterance), chat.utterances[k]? = some utt →
          tierCount DependentTier.isWor utt ≤ 1 ∨ Realigns chat aligned k ∨
            Realigns chat aligned' k := by
  refine ⟨injectTiers_twice_iff, injectTiers_twice_iff, ?_, ?_, injectWordTimings_twice_iff⟩
  · intro chat answers answers' once
    rw [processChat_ast, injectMorGra_taggedOnce_iff, processChat_ast,
      injectMorGra_taggedOnce_iff, and_assoc]
  · intro chat output output'
    rw [injectPho_atMostOne_iff, injectPho_atMostOne_iff]

end Twice

section Instances

def greeting : ChatFile := chatOf [utteranceOf [Word.simple "hello"] []]

/-- The same translation twice leaves two `%xtra` tiers, and the same chains two `%xcor`. -/
theorem injectedTwice_duplicates :
    ¬ AtMostOne (hasLabel "xtra")
        (injectTranslationTiers (injectTranslationTiers greeting ["hola"]).2 ["hola"]).2 ∧
      ¬ AtMostOne (hasLabel "xcor")
        (injectCorefTiers (injectCorefTiers greeting ["(0)"]).2 ["(0)"]).2 := by
  have counts : (injectTranslationTiers (injectTranslationTiers greeting ["hola"]).2
      ["hola"]).2.utterances.map (tierCount (hasLabel "xtra")) = [2] ∧
      (injectCorefTiers (injectCorefTiers greeting ["(0)"]).2
        ["(0)"]).2.utterances.map (tierCount (hasLabel "xcor")) = [2] := by
    decide +kernel
  constructor
  · intro atMost
    have two := atMost.count_le
    rw [counts.1] at two
    simp at two
  · intro atMost
    have two := atMost.count_le
    rw [counts.2] at two
    simp at two

end Instances

end Batchalign.Runners
