import Batchalign.Chat.Basic
import Batchalign.Decisions

/-!
# Decision tiers

How `batchalign-core/src/decisions.rs` writes decision records under the utterances, and when
the written tiers mirror the records.
-/

namespace Batchalign.Decisions

open Batchalign.Chat

section Labels

inductive DecisionModule where
  | fa
  | utr
  | monotonicity
  | morphosyntax
  | coref
  | utseg
deriving DecidableEq, Repr

def DecisionModule.asStr : DecisionModule → String
  | fa => "fa"
  | utr => "utr"
  | monotonicity => "monotonicity"
  | morphosyntax => "morphosyntax"
  | coref => "coref"
  | utseg => "utseg"

def FaStrategy.asStr : FaStrategy → String
  | gapFilled => "gap_filled"
  | boundaryAveraged => "boundary_averaged"
  | lisRemoval => "lis_removal"
  | timingStripped => "timing_stripped"
  | wordsTimingDropped => "words_timing_dropped"
  | narrowBulletRescued => "narrow_bullet_rescued"

def UtrStrategy.asStr : UtrStrategy → String
  | zeroDurationSkipped => "zero_duration_skipped"
  | unmatched => "unmatched"

def MonotonicityStrategy.asStr : MonotonicityStrategy → String
  | endClamped => "end_clamped"
  | timingStripped => "timing_stripped"

def MorphosyntaxStrategy.asStr : MorphosyntaxStrategy → String
  | notApplicable => "not_applicable"
  | misalignmentBug => "misalignment_bug"
  | mappingFailed => "mapping_failed"
  | retokenizationFailed => "retokenization_failed"
  | injectionFailed => "injection_failed"
  | nlpNoSentences => "nlp_no_sentences"

def UtsegStrategy.asStr : UtsegStrategy → String
  | notApplicable => "not_applicable"
  | misalignmentBug => "misalignment_bug"

def CorefStrategy.asStr : CorefStrategy → String
  | sentenceIndexOutOfBounds => "sentence_index_out_of_bounds"
  | injectionFailed => "injection_failed"

def DecisionStrategy.module : DecisionStrategy → DecisionModule
  | fa _ => .fa
  | utr _ => .utr
  | monotonicity _ => .monotonicity
  | morphosyntax _ => DecisionModule.morphosyntax
  | coref _ => .coref
  | utseg _ => .utseg

def DecisionStrategy.strategyName : DecisionStrategy → String
  | fa strategy => strategy.asStr
  | utr strategy => strategy.asStr
  | monotonicity strategy => strategy.asStr
  | morphosyntax strategy => strategy.asStr
  | coref strategy => strategy.asStr
  | utseg strategy => strategy.asStr

/-- The content of the tier for one record. -/
def DecisionRecord.xalignContent (record : DecisionRecord) : String :=
  record.strategy.module.asStr ++ ":" ++ record.strategy.strategyName ++ " " ++ record.reason

inductive ReviewLevel where
  | none
  | lowConfidence
  | all
deriving DecidableEq, Repr

end Labels

section Injection

def isDecisionTier : DependentTier → Bool
  | .userDefined label _ => label == "xalign" || label == "xrev"
  | _ => false

def makeUserTier (label content : String) : DependentTier := .userDefined label (some content)

def stripUtterance (utt : Utterance) : Utterance :=
  { utt with dependentTiers := utt.dependentTiers.filter (! isDecisionTier ·) }

def mapLine (change : Utterance → Utterance) : Line → Line
  | .utterance utt => .utterance (change utt)
  | line => line

def stripDecisionTiers (chat : ChatFile) : ChatFile :=
  { chat with lines := chat.lines.map (mapLine stripUtterance) }

/-- The records of a line in their order, an entry of `decision_map`. -/
def decisionsAt (decisions : List DecisionRecord) (lineIdx : ℕ) : List DecisionRecord :=
  decisions.filter (·.lineIdx == lineIdx)

def mergedContent (decisions : List DecisionRecord) : String :=
  "; ".intercalate (decisions.map DecisionRecord.xalignContent)

/-- The tiers that are pushed under an utterance. -/
def decisionTiers (decisions : List DecisionRecord) (level : ReviewLevel) (utt : Utterance) :
    List DependentTier :=
  if decisions.isEmpty then
    if level = .all && utt.bullet.isSome then [makeUserTier "xalign" "no_decisions"] else []
  else
    makeUserTier "xalign" (mergedContent decisions) ::
      if decisions.any (·.needsReview) then [makeUserTier "xrev" "[?]"] else []

def pushDecisionTiers (decisions : List DecisionRecord) (level : ReviewLevel) (utt : Utterance) :
    Utterance :=
  { utt with dependentTiers := utt.dependentTiers ++ decisionTiers decisions level utt }

def pushLine (decisions : List DecisionRecord) (level : ReviewLevel) (lineIdx : ℕ) :
    Line → Line :=
  mapLine (pushDecisionTiers (decisionsAt decisions lineIdx) level)

def injectDecisionTiers (chat : ChatFile) (decisions : List DecisionRecord)
    (level : ReviewLevel) : ChatFile :=
  if level = .none || decisions.isEmpty then chat
  else
    let chat := stripDecisionTiers chat
    { chat with lines := chat.lines.mapIdx (pushLine decisions level) }

end Injection

section Specification

/-- The records a level shows. -/
def ReviewLevel.admits : ReviewLevel → DecisionRecord → Bool
  | none, _ => false
  | lowConfidence, record => record.needsReview
  | all, _ => true

def hasLabel (label : String) : DependentTier → Bool
  | .userDefined other _ => other == label
  | _ => false

/-- What the decision tier of an utterance has to say. -/
def expectedContent (level : ReviewLevel) (records : List DecisionRecord) (utt : Utterance) :
    Option String :=
  if records.any level.admits then some (mergedContent (records.filter level.admits))
  else if level = .all && utt.bullet.isSome then some "no_decisions"
  else none

/-- One tier with the admitted records, one mark when a record needs review, and the rest of
the utterance as it was. -/
structure Mirrors (level : ReviewLevel) (records : List DecisionRecord)
    (before after : Utterance) : Prop where
  xalign : after.dependentTiers.filter (hasLabel "xalign") =
    (expectedContent level records before).toList.map (makeUserTier "xalign")
  xrev : after.dependentTiers.filter (hasLabel "xrev") =
    if records.any (·.needsReview) then [makeUserTier "xrev" "[?]"] else []
  rest : stripUtterance after = stripUtterance before

inductive LineMirrors (level : ReviewLevel) (records : List DecisionRecord) : Line → Line → Prop
  | utterance {before after : Utterance} (mirrors : Mirrors level records before after) :
      LineMirrors level records (.utterance before) (.utterance after)
  | header (header : Header) : LineMirrors level records (.header header) (.header header)
  | other (text : String) : LineMirrors level records (.other text) (.other text)

/-- The tiers of every line mirror the records of the line, and a second run changes nothing. -/
structure MirrorsDecisions (chat : ChatFile) (decisions : List DecisionRecord)
    (level : ReviewLevel) : Prop where
  participants : (injectDecisionTiers chat decisions level).participants = chat.participants
  length : (injectDecisionTiers chat decisions level).lines.length = chat.lines.length
  lines : ∀ lineIdx before after, chat.lines[lineIdx]? = some before →
    (injectDecisionTiers chat decisions level).lines[lineIdx]? = some after →
      LineMirrors level (decisionsAt decisions lineIdx) before after
  again : injectDecisionTiers (injectDecisionTiers chat decisions level) decisions level =
    injectDecisionTiers chat decisions level

/-- Without records the utterances already have the tiers they should have, and the lower level
is given only records that need review. -/
structure Conforms (chat : ChatFile) (decisions : List DecisionRecord)
    (level : ReviewLevel) : Prop where
  settled : decisions = [] → ∀ utt ∈ chat.utterances, utt.dependentTiers.filter isDecisionTier =
    if level = .all && utt.bullet.isSome then [makeUserTier "xalign" "no_decisions"] else []
  reviewed : level = .lowConfidence → ∀ record ∈ decisions, ∀ utt,
    chat.lines[record.lineIdx]? = some (.utterance utt) → record.needsReview = true

end Specification

section Tiers

theorem hasLabel_isDecisionTier {label : String} (isLabel : label = "xalign" ∨ label = "xrev")
    {tier : DependentTier} (has : hasLabel label tier = true) : isDecisionTier tier = true := by
  cases tier with
  | userDefined other content =>
      have same : other = label := by simpa [hasLabel] using has
      rcases isLabel with rfl | rfl <;> simp [isDecisionTier, same]
  | _ => cases has

theorem isDecisionTier_iff (tier : DependentTier) :
    isDecisionTier tier = (hasLabel "xalign" tier || hasLabel "xrev" tier) := by
  cases tier <;> rfl

theorem isDecisionTier_of_mem {decisions : List DecisionRecord} {level : ReviewLevel}
    {utt : Utterance} {tier : DependentTier} (member : tier ∈ decisionTiers decisions level utt) :
    isDecisionTier tier = true := by
  unfold decisionTiers at member
  split at member
  · split at member
    · rw [List.mem_singleton.mp member]
      rfl
    · cases member
  · rcases List.mem_cons.mp member with rfl | isMark
    · rfl
    · split at isMark
      · rw [List.mem_singleton.mp isMark]
        rfl
      · cases isMark

theorem stripUtterance_push (decisions : List DecisionRecord) (level : ReviewLevel)
    (utt : Utterance) :
    stripUtterance (pushDecisionTiers decisions level (stripUtterance utt)) =
      stripUtterance utt := by
  have none_ : (decisionTiers decisions level (stripUtterance utt)).filter
      (! isDecisionTier ·) = [] := by
    apply List.filter_eq_nil_iff.mpr
    intro tier member
    simp [isDecisionTier_of_mem member]
  simp only [stripUtterance, pushDecisionTiers, List.filter_append, List.filter_filter,
    Bool.and_self]
  simp only [stripUtterance] at none_
  rw [none_, List.append_nil]

/-- The tiers of a label that are left are those that were pushed. -/
theorem filter_push {label : String} (isLabel : label = "xalign" ∨ label = "xrev")
    (decisions : List DecisionRecord) (level : ReviewLevel) (utt : Utterance) :
    (pushDecisionTiers decisions level (stripUtterance utt)).dependentTiers.filter
        (hasLabel label) =
      (decisionTiers decisions level (stripUtterance utt)).filter (hasLabel label) := by
  have stripped : (stripUtterance utt).dependentTiers.filter (hasLabel label) = [] := by
    apply List.filter_eq_nil_iff.mpr
    intro tier member has
    have kept := (List.mem_filter.mp member).2
    simp [hasLabel_isDecisionTier isLabel has] at kept
  rw [pushDecisionTiers, List.filter_append, stripped, List.nil_append]

end Tiers

section Contents

/-- A text of several pieces is longer than what a part of the pieces makes. -/
theorem length_intercalate {sep : String} {texts : List String} (filled : texts ≠ []) :
    (sep.intercalate texts).length + sep.length =
      (texts.map fun text => text.length + sep.length).sum := by
  induction texts with
  | nil => exact absurd rfl filled
  | cons text texts ih =>
      by_cases last : texts = []
      · simp [last]
      · have later := ih last
        rw [String.intercalate_cons_of_ne_nil last, String.length_append, String.length_append,
          List.map_cons, List.sum_cons]
        omega

/-- A filter that keeps the sum of positive weights keeps every entry. -/
theorem forall_of_sum_filter {α : Type} {p : α → Bool} {weight : α → ℕ}
    (positive : ∀ entry, 0 < weight entry) {entries : List α}
    (same : ((entries.filter p).map weight).sum = (entries.map weight).sum) :
    ∀ entry ∈ entries, p entry = true := by
  induction entries with
  | nil => simp
  | cons first entries ih =>
      have bound : ((entries.filter p).map weight).sum ≤ (entries.map weight).sum :=
        (List.filter_sublist.map weight).sum_le_sum (by simp)
      by_cases kept : p first = true
      · rw [List.filter_cons_of_pos kept, List.map_cons, List.map_cons, List.sum_cons,
          List.sum_cons] at same
        exact List.forall_mem_cons.mpr ⟨kept, ih (Nat.add_left_cancel same)⟩
      · rw [List.filter_cons_of_neg kept, List.map_cons, List.sum_cons] at same
        have weighs := positive first
        omega

/-- Leaving a record out changes the content. -/
theorem mergedContent_filter {decisions : List DecisionRecord} {admits : DecisionRecord → Bool}
    (some_ : decisions.any admits = true)
    (same : mergedContent (decisions.filter admits) = mergedContent decisions) :
    ∀ record ∈ decisions, admits record = true := by
  have length {records : List DecisionRecord} (filled : records ≠ []) :
      (mergedContent records).length + 2 =
        (records.map fun record => record.xalignContent.length + 2).sum := by
    have merged := @length_intercalate "; " _
      (mt List.map_eq_nil_iff.mp filled : records.map DecisionRecord.xalignContent ≠ [])
    rw [List.map_map] at merged
    exact merged
  rcases List.any_eq_true.mp some_ with ⟨record, member, admitted⟩
  have shown := length (List.ne_nil_of_mem (List.mem_filter.mpr ⟨member, admitted⟩))
  have whole := length (List.ne_nil_of_mem member)
  apply forall_of_sum_filter (fun record => Nat.succ_pos (record.xalignContent.length + 1))
  rw [← shown, ← whole, same]

end Contents

section Mirroring

/-- The content of the decision tier that is pushed. -/
def writtenContent (level : ReviewLevel) (records : List DecisionRecord) (utt : Utterance) :
    Option String :=
  if records.isEmpty then
    if level = .all && utt.bullet.isSome then some "no_decisions" else none
  else some (mergedContent records)

theorem filter_decisionTiers_xalign (level : ReviewLevel) (records : List DecisionRecord)
    (utt : Utterance) :
    (decisionTiers records level utt).filter (hasLabel "xalign") =
      (writtenContent level records utt).toList.map (makeUserTier "xalign") := by
  unfold decisionTiers writtenContent
  split
  · split <;> rfl
  · split <;> rfl

theorem filter_decisionTiers_xrev (level : ReviewLevel) (records : List DecisionRecord)
    (utt : Utterance) :
    (decisionTiers records level utt).filter (hasLabel "xrev") =
      if records.any (·.needsReview) then [makeUserTier "xrev" "[?]"] else [] := by
  cases records with
  | nil =>
      simp only [decisionTiers, List.isEmpty_nil, if_true, List.any_nil]
      split <;> rfl
  | cons record records =>
      simp only [decisionTiers, List.isEmpty_cons, Bool.false_eq_true, if_false]
      split <;> rfl

theorem makeUserTier_inj {first second : Option String} {label : String} :
    first.toList.map (makeUserTier label) = second.toList.map (makeUserTier label) ↔
      first = second := by
  cases first <;> cases second <;> simp [makeUserTier]

/-- The written content is the expected one where no record is shown that the level hides. -/
theorem writtenContent_eq_iff {level : ReviewLevel} (shown : level ≠ .none)
    (records : List DecisionRecord) (utt : Utterance) :
    writtenContent level records utt = expectedContent level records utt ↔
      (level = .lowConfidence → ∀ record ∈ records, record.needsReview = true) := by
  cases records with
  | nil => simp [writtenContent, expectedContent]
  | cons record records =>
      have written : writtenContent level (record :: records) utt =
          some (mergedContent (record :: records)) :=
        rfl
      rw [written]
      cases level with
      | none => exact absurd rfl shown
      | all =>
          have whole : (record :: records).filter ReviewLevel.all.admits = record :: records :=
            List.filter_eq_self.mpr fun _ _ => rfl
          simp [expectedContent, ReviewLevel.admits, whole]
      | lowConfidence =>
          have admits : ReviewLevel.lowConfidence.admits = (·.needsReview) := rfl
          rw [expectedContent, admits]
          by_cases some_ : (record :: records).any (·.needsReview) = true
          · rw [if_pos some_, Option.some_inj]
            constructor
            · intro same _
              exact mergedContent_filter some_ same.symm
            · intro reviewed
              rw [List.filter_eq_self.mpr (reviewed rfl)]
          · rw [if_neg some_]
            constructor
            · intro same
              simp at same
            · intro reviewed
              exact absurd (List.any_eq_true.mpr
                ⟨record, List.mem_cons_self, reviewed rfl record List.mem_cons_self⟩) some_

theorem mirrors_push_iff {level : ReviewLevel} (shown : level ≠ .none)
    (records : List DecisionRecord) (utt : Utterance) :
    Mirrors level records utt (pushDecisionTiers records level (stripUtterance utt)) ↔
      (level = .lowConfidence → ∀ record ∈ records, record.needsReview = true) := by
  have xalign := (filter_push (Or.inl rfl) records level utt).trans
    (filter_decisionTiers_xalign level records (stripUtterance utt))
  have xrev := (filter_push (Or.inr rfl) records level utt).trans
    (filter_decisionTiers_xrev level records (stripUtterance utt))
  have content := writtenContent_eq_iff shown records utt
  constructor
  · intro mirrors
    exact content.mp (makeUserTier_inj.mp (xalign.symm.trans mirrors.xalign))
  · intro reviewed
    exact {
      xalign := xalign.trans (makeUserTier_inj.mpr (content.mpr reviewed))
      xrev := xrev
      rest := stripUtterance_push records level utt }

/-- An utterance that is left alone has to have the tiers of an utterance without records. -/
theorem mirrors_self_iff {level : ReviewLevel} (utt : Utterance) :
    Mirrors level [] utt utt ↔ utt.dependentTiers.filter isDecisionTier =
      if level = .all && utt.bullet.isSome then [makeUserTier "xalign" "no_decisions"]
      else [] := by
  have expected : (expectedContent level [] utt).toList.map (makeUserTier "xalign") =
      if level = .all && utt.bullet.isSome then [makeUserTier "xalign" "no_decisions"]
      else [] := by
    simp only [expectedContent, List.any_nil, Bool.false_eq_true, if_false]
    split <;> rfl
  constructor
  · intro mirrors
    rw [← expected, ← mirrors.xalign]
    apply List.filter_congr
    intro tier member
    have unmarked := List.filter_eq_nil_iff.mp mirrors.xrev tier member
    rw [isDecisionTier_iff, Bool.eq_false_iff.mpr unmarked, Bool.or_false]
  · intro tiers
    have labelled {label : String} (isLabel : label = "xalign" ∨ label = "xrev") :
        utt.dependentTiers.filter (hasLabel label) =
          (utt.dependentTiers.filter isDecisionTier).filter (hasLabel label) := by
      rw [List.filter_filter]
      apply List.filter_congr
      intro tier _
      by_cases has : hasLabel label tier = true
      · rw [has, hasLabel_isDecisionTier isLabel has, Bool.and_self]
      · rw [Bool.eq_false_iff.mpr has, Bool.false_and]
    refine ⟨?_, ?_, rfl⟩
    · rw [labelled (Or.inl rfl), tiers, expected]
      split <;> rfl
    · rw [labelled (Or.inr rfl), tiers]
      split <;> rfl

theorem injectDecisionTiers_some {level : ReviewLevel} (shown : level ≠ .none)
    {decisions : List DecisionRecord} (filled : decisions ≠ []) (chat : ChatFile) :
    injectDecisionTiers chat decisions level =
      { stripDecisionTiers chat with
        lines := (stripDecisionTiers chat).lines.mapIdx (pushLine decisions level) } :=
  if_neg (by simp [shown, filled])

theorem injectDecisionTiers_nil (chat : ChatFile) (level : ReviewLevel) :
    injectDecisionTiers chat [] level = chat :=
  if_pos (by simp)

theorem getElem?_inject {level : ReviewLevel} (shown : level ≠ .none)
    {decisions : List DecisionRecord} (filled : decisions ≠ []) (chat : ChatFile)
    (lineIdx : ℕ) :
    (injectDecisionTiers chat decisions level).lines[lineIdx]? =
      (chat.lines[lineIdx]?).map fun line =>
        pushLine decisions level lineIdx (mapLine stripUtterance line) := by
  rw [injectDecisionTiers_some shown filled]
  simp [stripDecisionTiers, Function.comp_def]

theorem stripDecisionTiers_inject {level : ReviewLevel} (shown : level ≠ .none)
    {decisions : List DecisionRecord} (filled : decisions ≠ []) (chat : ChatFile) :
    stripDecisionTiers (injectDecisionTiers chat decisions level) = stripDecisionTiers chat := by
  have lines : (injectDecisionTiers chat decisions level).lines.map (mapLine stripUtterance) =
      chat.lines.map (mapLine stripUtterance) := by
    apply List.ext_getElem?
    intro lineIdx
    rw [List.getElem?_map, List.getElem?_map, getElem?_inject shown filled, Option.map_map]
    apply Option.map_congr
    intro line _
    cases line with
    | utterance utt =>
        exact congrArg Line.utterance
          (stripUtterance_push (decisionsAt decisions lineIdx) level utt)
    | header header => rfl
    | other text => rfl
  rw [stripDecisionTiers, lines, injectDecisionTiers_some shown filled]
  rfl

/-- A second run with the same records changes nothing. -/
theorem injectDecisionTiers_again (chat : ChatFile) (decisions : List DecisionRecord)
    (level : ReviewLevel) :
    injectDecisionTiers (injectDecisionTiers chat decisions level) decisions level =
      injectDecisionTiers chat decisions level := by
  by_cases runs : level ≠ .none ∧ decisions ≠ []
  · rcases runs with ⟨shown, filled⟩
    rw [injectDecisionTiers_some shown filled, stripDecisionTiers_inject shown filled,
      ← injectDecisionTiers_some shown filled]
  · have idle (chat : ChatFile) : injectDecisionTiers chat decisions level = chat := by
      apply if_pos
      by_cases hidden : level = .none
      · simp [hidden]
      · have empty : decisions = [] := by
          by_contra filled
          exact runs ⟨hidden, filled⟩
        simp [empty]
    rw [idle, idle]

theorem mem_utterances_iff {chat : ChatFile} {utt : Utterance} :
    utt ∈ chat.utterances ↔ ∃ lineIdx : ℕ, chat.lines[lineIdx]? = some (Line.utterance utt) := by
  rw [ChatFile.utterances, List.mem_filterMap]
  constructor
  · rintro ⟨line, member, isUtterance⟩
    rcases List.getElem?_of_mem member with ⟨lineIdx, found⟩
    cases line with
    | utterance other =>
        cases isUtterance
        exact ⟨lineIdx, found⟩
    | header header => cases isUtterance
    | other text => cases isUtterance
  · rintro ⟨lineIdx, found⟩
    exact ⟨_, List.mem_of_getElem? found, rfl⟩

theorem LineMirrors.mirrors {level : ReviewLevel} {records : List DecisionRecord}
    {before after : Utterance}
    (line : LineMirrors level records (.utterance before) (.utterance after)) :
    Mirrors level records before after := by
  cases line with
  | utterance mirrors => exact mirrors

theorem lineMirrors_self {level : ReviewLevel} {records : List DecisionRecord} {line : Line}
    (mirrors : ∀ utt, line = .utterance utt → Mirrors level records utt utt) :
    LineMirrors level records line line := by
  cases line with
  | utterance utt => exact .utterance (mirrors utt rfl)
  | header header => exact .header header
  | other text => exact .other text

theorem lineMirrors_push {level : ReviewLevel} {decisions : List DecisionRecord} {lineIdx : ℕ}
    {line : Line} (mirrors : ∀ utt, line = .utterance utt →
      Mirrors level (decisionsAt decisions lineIdx) utt
        (pushDecisionTiers (decisionsAt decisions lineIdx) level (stripUtterance utt))) :
    LineMirrors level (decisionsAt decisions lineIdx) line
      (pushLine decisions level lineIdx (mapLine stripUtterance line)) := by
  cases line with
  | utterance utt => exact .utterance (mirrors utt rfl)
  | header header => exact .header header
  | other text => exact .other text

theorem mirrorsDecisions_nil_iff (chat : ChatFile) (level : ReviewLevel) :
    MirrorsDecisions chat [] level ↔ Conforms chat [] level := by
  constructor
  · intro mirrors
    refine ⟨fun _ utt member => ?_, fun _ record member => absurd member List.not_mem_nil⟩
    rcases mem_utterances_iff.mp member with ⟨lineIdx, found⟩
    have same := mirrors.lines lineIdx (.utterance utt) (.utterance utt) found
    rw [injectDecisionTiers_nil] at same
    exact (mirrors_self_iff utt).mp (same found).mirrors
  · intro conforms
    rw [← injectDecisionTiers_nil chat level] at conforms
    refine ⟨?_, ?_, ?_, injectDecisionTiers_again chat [] level⟩
    · rw [injectDecisionTiers_nil]
    · rw [injectDecisionTiers_nil]
    · intro lineIdx before after found foundAfter
      rw [injectDecisionTiers_nil] at foundAfter conforms
      cases found.symm.trans foundAfter
      apply lineMirrors_self
      rintro utt rfl
      exact (mirrors_self_iff utt).mpr
        (conforms.settled rfl utt (mem_utterances_iff.mpr ⟨lineIdx, found⟩))

/-- The tiers mirror the decisions exactly when the empty list finds nothing to do and the
lower level no record that it hides. -/
theorem mirrorsDecisions_iff (chat : ChatFile) (decisions : List DecisionRecord)
    (level : ReviewLevel) (shown : level ≠ .none) :
    MirrorsDecisions chat decisions level ↔ Conforms chat decisions level := by
  by_cases empty : decisions = []
  · rw [empty]
    exact mirrorsDecisions_nil_iff chat level
  · have after {lineIdx : ℕ} {line : Line} (found : chat.lines[lineIdx]? = some line) :
        (injectDecisionTiers chat decisions level).lines[lineIdx]? =
          some (pushLine decisions level lineIdx (mapLine stripUtterance line)) := by
      rw [getElem?_inject shown empty, found, Option.map_some]
    constructor
    · intro mirrors
      refine ⟨fun isEmpty => absurd isEmpty empty, ?_⟩
      intro lower record member utt found
      have line := mirrors.lines record.lineIdx _ _ found (after found)
      exact (mirrors_push_iff shown _ utt).mp line.mirrors lower record
        (List.mem_filter.mpr ⟨member, by simp⟩)
    · intro conforms
      refine ⟨?_, ?_, ?_, injectDecisionTiers_again chat decisions level⟩
      · rw [injectDecisionTiers_some shown empty]
        rfl
      · rw [injectDecisionTiers_some shown empty]
        simp [stripDecisionTiers]
      · intro lineIdx before other found foundAfter
        rw [after found] at foundAfter
        cases foundAfter
        apply lineMirrors_push
        rintro utt rfl
        apply (mirrors_push_iff shown _ utt).mpr
        intro lower record member
        rcases List.mem_filter.mp member with ⟨isRecord, atLine⟩
        apply conforms.reviewed lower record isRecord utt
        rwa [show record.lineIdx = lineIdx by simpa using atLine]

end Mirroring

section Examples

/-- A transcript of one utterance with an interval. -/
def oneTurn : ChatFile where
  participants := { entries := [], nodup := List.nodup_nil }
  lines := [.utterance ((Utterance.new (MainTier.new "CHI" [] .period)).withBullet
    (some (Bullet.new 1000 2000)))]

def clampedRecord (needsReview : Bool) : DecisionRecord where
  lineIdx := 0
  speaker := "CHI"
  strategy := .monotonicity .endClamped
  reason := "overlap=500ms"
  needsReview := needsReview

theorem clampedRecord_mirrored :
    ReviewLevel.lowConfidence ≠ .none ∧
      MirrorsDecisions oneTurn [clampedRecord true] .lowConfidence := by
  refine ⟨by decide, (mirrorsDecisions_iff _ _ _ (by decide)).mpr ⟨?_, ?_⟩⟩
  · intro empty
    cases empty
  · intro _ record member _ _
    rw [List.mem_singleton.mp member]
    rfl

/-- A record that needs no review is shown at the lower level, and the empty list leaves an
utterance without its note. -/
theorem clampedRecord_shown :
    ¬ MirrorsDecisions oneTurn [clampedRecord false] .lowConfidence ∧
      ¬ MirrorsDecisions oneTurn [] .all := by
  constructor
  · intro mirrors
    have tiers := (mirrors.lines 0 _ _ rfl rfl).mirrors.xalign
    cases tiers
  · intro mirrors
    have tiers := (mirrors.lines 0 _ _ rfl rfl).mirrors.xalign
    cases tiers

end Examples

end Batchalign.Decisions
