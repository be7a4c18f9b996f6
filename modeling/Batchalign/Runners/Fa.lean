import Batchalign.Fa.Runner
import Batchalign.Runners.Surroundings

/-!
# The forced-alignment runner

`apply` of `taskrunners/fa.rs` around the timing part. Review tiers go before the media are
looked for, and the segments are written utterance by utterance, so most failures leave a
transcript that has changed.
-/

namespace Batchalign.Runners

open Batchalign.Chat Batchalign.Fa InPlaceLoop

section Definitions

variable [Talkbank] [ChatBuilder] [ChatDetails] [MediaAccess]

def faMedia (chat : Chat) : BAResult MediaInput :=
  mediaOf (.internal
    "FaTaskRunner: chat has no attached media and no sibling audio file found") chat

/-- The transcript the rest of the stage sees. -/
def withoutReviewTiers (chat : Chat) : Chat :=
  { chat with ast := stripStaleFaReviewTiers chat.ast }

def faAudio (chat : Chat) : BAResult PreparedAudio :=
  (faMedia (withoutReviewTiers chat)).bind preparedAudio

def faAnswer (backend : FaInput → BAResult FaOutput) (chat : Chat) (audio : PreparedAudio) :
    BAResult (List AsrSegment) :=
  (backend
    { sourceId := chat.sourceId
      audio := audio
      utterances := dispatchedUtterances chat.ast
      language := resolvePerFileLanguage chat }).map FaOutput.utterances

/-- The timing part of the stage. -/
def faTiming (backend : FaInput → BAResult FaOutput) (chat : Chat) : BAResult Unit × ChatFile :=
  alignTiming chat.ast ((faAudio chat).map fun _ => ())
    ((faAudio chat).bind (faAnswer backend (withoutReviewTiers chat)))

def faChat (backend : FaInput → BAResult FaOutput) (chat : Chat) : RunnerOutcome :=
  if ChatDetails.skipsAlignment chat.ast then ⟨.ok (), .chat chat, []⟩
  else
    let stripped := withoutReviewTiers chat
    let aligned := faTiming backend chat
    match aligned.1 with
    | .error error =>
        ⟨.error error, .chat { chat with ast := aligned.2 },
          (if (faMedia stripped).isOk then [.stageStarted chat.sourceId .fa] else []) ++
            (if (faAudio chat).isOk then [scaledTick chat.sourceId .fa 0 1] else [])⟩
    | .ok () =>
        let lines := ChatDetails.clearMediaUnlinked aligned.2.lines
        ⟨.ok (), .chat { chat with ast := { aligned.2 with lines := lines } },
          if (refreshCompleteWorAlignment stripped.ast).1 then []
          else [.stageStarted chat.sourceId .fa, scaledTick chat.sourceId .fa 0 1,
            scaledTick chat.sourceId .fa 1 1, .stageInjected chat.sourceId .fa ""]⟩

def faRunner (backend : FaInput → BAResult FaOutput) : Runner :=
  onChat (fun kind => .internal s!"FaTaskRunner: expected BAValue::Chat, got {kind}")
    (faChat backend)

end Definitions

section Tiers

theorem insertIdx_length_append {α : Type} (before after : List α) (a : α) :
    (before ++ after).insertIdx before.length a = before ++ a :: after := by
  induction before with
  | nil => rfl
  | cons b before ih => simpa using ih

/-- Replacing the `%wor` tier leaves exactly one. -/
theorem filter_replaceWorTier (tiers : List DependentTier) (wor : WorTier) :
    (replaceWorTier tiers wor).filter DependentTier.isWor = [.wor wor] := by
  have retained : (tiers.filter fun tier => !tier.isWor).filter DependentTier.isWor = [] := by
    rw [List.filter_eq_nil_iff]
    intro tier member
    simpa using (List.mem_filter.mp member).2
  simp only [replaceWorTier]
  generalize (tiers.filter fun tier => !tier.isWor) = others at retained
  split
  · rename_i position _
    have within := Nat.min_le_right position others.length
    generalize min position others.length = idx at within
    have split_ := List.take_append_drop idx others
    have inserted := insertIdx_length_append (others.take idx) (others.drop idx) (.wor wor)
    rw [split_, List.length_take_of_le within] at inserted
    rw [← split_, List.filter_append, List.append_eq_nil_iff] at retained
    rw [inserted, List.filter_append, retained.1, List.filter_cons_of_pos rfl, retained.2]
    rfl
  · rw [List.filter_append, retained]
    rfl

/-- It changes nothing when that tier is the only one. -/
theorem replaceWorTier_eq_self_iff (tiers : List DependentTier) (wor : WorTier) :
    replaceWorTier tiers wor = tiers ↔ tiers.filter DependentTier.isWor = [.wor wor] := by
  constructor
  · intro same
    rw [← same]
    exact filter_replaceWorTier tiers wor
  · intro only
    rcases List.filter_eq_cons_iff.mp only with ⟨before, after, rfl, notBefore, _, noneAfter⟩
    have keepBefore : (before.filter fun tier => !tier.isWor) = before := by
      rw [List.filter_eq_self]
      intro tier member
      simpa using notBefore tier member
    have keepAfter : (after.filter fun tier => !tier.isWor) = after := by
      rw [List.filter_eq_self]
      intro tier member
      simpa using List.filter_eq_nil_iff.mp noneAfter tier member
    have others : ((before ++ .wor wor :: after).filter fun tier => !tier.isWor) =
        before ++ after := by
      rw [List.filter_append, keepBefore, List.filter_cons_of_neg (by simp [DependentTier.isWor]),
        keepAfter]
    have position : (before ++ .wor wor :: after).findIdx? DependentTier.isWor =
        some before.length := by
      have notFound : before.findIdx? DependentTier.isWor = none := by
        rw [List.findIdx?_eq_none_iff]
        intro tier member
        simpa using notBefore tier member
      rw [List.findIdx?_append, notFound, List.findIdx?_cons]
      simp [DependentTier.isWor]
    simp only [replaceWorTier, others, position, List.length_append,
      Nat.min_eq_left (Nat.le_add_right _ _), insertIdx_length_append]

theorem any_isWor_of_filter {tiers : List DependentTier} {tier : DependentTier}
    (only : tiers.filter DependentTier.isWor = [tier]) :
    tiers.any DependentTier.isWor = true := by
  have member : tier ∈ tiers.filter DependentTier.isWor := by
    rw [only]
    exact List.mem_singleton_self tier
  exact List.any_eq_true.mpr ⟨tier, List.mem_filter.mp member⟩

end Tiers

section Injection

theorem eq_self_iff (utt : Utterance) (bullet : Option Bullet) (tiers : List DependentTier) :
    ({ main := { utt.main with content := { utt.main.content with bullet := bullet } }
       dependentTiers := tiers } : Utterance) = utt ↔
      bullet = utt.bullet ∧ tiers = utt.dependentTiers := by
  constructor
  · intro same
    exact ⟨congrArg Utterance.bullet same, congrArg Utterance.dependentTiers same⟩
  · rintro ⟨rfl, rfl⟩
    rfl

variable [Talkbank]

/-- The collapsed words of a segment after both repairs. -/
def rebalanced (collapsed : List Word) : List Word :=
  rebalanceNearZeroWordsFromPreceding (rebalanceNearZeroWordsFromFollowing collapsed)

/-- The tier written for them. -/
def segmentWor (utt : Utterance) (collapsed : List Word) : WorTier :=
  (WorTier.fromWords (rebalanced collapsed)).withTerminator utt.main.content.terminator

/-- The one `%wor` tier of the utterance has the words of the segment, and the bullet is the
one these words give. -/
structure CarriesSegment (utt : Utterance) (seg : AsrSegment) (collapsed : List Word) : Prop where
  collapses : collapseAlignedWords utt.items seg.words = .ok collapsed
  tier : utt.dependentTiers.filter DependentTier.isWor = [.wor (segmentWor utt collapsed)]
  bullet : refinedBullet utt.bullet (timedWordSpan seg.words) true
    (hasUntimedLeadingFillerCoverage utt.items (rebalanced collapsed)) = utt.bullet

/-- The segment has no words, or the utterance carries it. -/
def Settled (utt : Utterance) (seg : AsrSegment) : Prop :=
  seg.words = [] ∨ ∃ collapsed, CarriesSegment utt seg collapsed

theorem injectUtterance_kept_iff (utt : Utterance) (seg : AsrSegment) :
    injectUtterance utt seg = .ok utt ↔ Settled utt seg := by
  simp only [injectUtterance, Settled]
  by_cases empty : seg.words = []
  · simp [empty]
  · rw [if_neg (by simpa using empty)]
    simp only [empty, false_or]
    cases collapses : collapseAlignedWords utt.items seg.words with
    | error error =>
        constructor
        · intro kept
          cases kept
        · rintro ⟨words, carries⟩
          rw [carries.collapses] at collapses
          cases collapses
    | ok collapsed =>
        simp only [Except.map, Except.ok.injEq, eq_self_iff, replaceWorTier_eq_self_iff]
        constructor
        · rintro ⟨bullet, tier⟩
          rw [any_isWor_of_filter tier] at bullet
          exact ⟨collapsed, collapses, tier, bullet⟩
        · rintro ⟨words, carries⟩
          have same := carries.collapses
          rw [collapses, Except.ok.injEq] at same
          rw [← same] at carries
          rw [any_isWor_of_filter carries.tier]
          exact ⟨carries.bullet, carries.tier⟩

/-- The loop body of `inject_word_timings`. -/
def faStep (aligned : List AsrSegment) (idx : ℕ) (utt : Utterance) : BAResult Utterance :=
  match aligned[idx]? with
  | none => .error (.internal s!"FA: missing aligned segment for utterance {idx}")
  | some seg => injectUtterance utt seg

theorem faStep_none {aligned : List AsrSegment} {idx : ℕ} {utt : Utterance}
    (missing : aligned[idx]? = none) : faStep aligned idx utt =
      .error (.internal s!"FA: missing aligned segment for utterance {idx}") := by
  simp only [faStep, missing]

theorem faStep_some {aligned : List AsrSegment} {idx : ℕ} {utt : Utterance} {seg : AsrSegment}
    (found : aligned[idx]? = some seg) : faStep aligned idx utt = injectUtterance utt seg := by
  simp only [faStep, found]

theorem injectLines_eq_run (aligned : List AsrSegment) (idx : ℕ) (lines : List Line) :
    (injectLines aligned idx lines).2 =
      (run (utterances.numbered (faStep aligned)) idx lines).2 := by
  induction lines generalizing idx with
  | nil =>
      rw [injectLines]
      split <;> rfl
  | cons line lines ih =>
      cases line with
      | utterance utt =>
          cases found : aligned[idx]? with
          | none =>
              simp only [injectLines, found]
              rw [run_cons_error (utterances.numbered_error _ rfl (faStep_none found))]
          | some seg =>
              simp only [injectLines, found]
              rw [← faStep_some found]
              cases injected : faStep aligned idx utt with
              | error error =>
                  rw [run_cons_error (utterances.numbered_error _ rfl injected)]
              | ok changed =>
                  rw [run_cons_ok (utterances.numbered_ok _ rfl injected), ← ih]
                  rfl
      | header header =>
          rw [run_cons_ok (utterances.numbered_pass _ rfl), ← ih]
          rfl
      | other text =>
          rw [run_cons_ok (utterances.numbered_pass _ rfl), ← ih]
          rfl

/-- The segment can be collapsed onto the words of the utterance. -/
def fits (row : Utterance × AsrSegment) : Bool :=
  row.2.words.isEmpty || partCount row.1 == row.2.words.length

theorem injectUtterance_isOk (utt : Utterance) (seg : AsrSegment) :
    (injectUtterance utt seg).isOk = fits (utt, seg) := by
  have isOk := injectUtterance_isOk_iff utt seg
  rw [Bool.eq_iff_iff, fits, Bool.or_eq_true, List.isEmpty_iff, beq_iff_eq, ← isOk]
  cases injectUtterance utt seg with
  | error error => simp [Except.isOk, Except.toBool]
  | ok injected => simp [Except.isOk, Except.toBool]

/-- Utterance and segment go along each other. -/
theorem passed_faStep_iff (aligned : List AsrSegment) (idx : ℕ) (utts : List Utterance) :
    (∀ row ∈ passed (faStep aligned) (utts.zipIdx idx), faStep aligned row.2 row.1 = .ok row.1) ↔
      ∀ row ∈ (utts.zip (aligned.drop idx)).takeWhile fits, Settled row.1 row.2 := by
  induction utts generalizing idx with
  | nil => simp [passed]
  | cons utt utts ih =>
      rw [List.zipIdx_cons]
      cases found : aligned[idx]? with
      | none =>
          have stops : (faStep aligned idx utt).isOk = false := by
            simp only [faStep, found]
            rfl
          rw [List.drop_eq_nil_of_le (List.getElem?_eq_none_iff.mp found), passed,
            List.takeWhile_cons_of_neg (by simp [stops])]
          simp
      | some seg =>
          rcases List.getElem?_eq_some_iff.mp found with ⟨within, isSeg⟩
          have goes : (faStep aligned idx utt).isOk = fits (utt, seg) := by
            simp only [faStep, found, injectUtterance_isOk]
          rw [List.drop_eq_getElem_cons within, isSeg, List.zip_cons_cons, passed]
          by_cases fit : fits (utt, seg) = true
          · rw [List.takeWhile_cons_of_pos (by simpa [goes] using fit),
              List.takeWhile_cons_of_pos fit, List.forall_mem_cons, List.forall_mem_cons]
            refine and_congr ?_ (ih (idx + 1))
            simp only [faStep, found]
            exact injectUtterance_kept_iff utt seg
          · rw [List.takeWhile_cons_of_neg (by simpa [goes] using fit),
              List.takeWhile_cons_of_neg fit]
            simp

/-- The transcript is as it was when every utterance before the first misfit carries its
segment already. -/
theorem injectWordTimings_kept_iff (chat : ChatFile) (aligned : List AsrSegment) :
    (Fa.injectWordTimings chat aligned).2 = chat ↔
      ∀ row ∈ (chat.utterances.zip aligned).takeWhile fits, Settled row.1 row.2 := by
  have kept : (Fa.injectWordTimings chat aligned).2 = chat ↔
      (run (utterances.numbered (faStep aligned)) 0 chat.lines).2 = chat.lines := by
    rw [← injectLines_eq_run]
    constructor
    · intro same
      exact congrArg ChatFile.lines same
    · intro same
      simp only [Fa.injectWordTimings, same]
  rw [kept, utterances.run_kept_iff]
  exact passed_faStep_iff aligned 0 chat.utterances

end Injection

section Review

def NoReviewTiers (chat : ChatFile) : Prop :=
  ∀ utt ∈ chat.utterances, ∀ tier ∈ utt.dependentTiers, isReviewTier tier = false

theorem noReviewTiers_strip (chat : ChatFile) : NoReviewTiers (stripStaleFaReviewTiers chat) := by
  rw [NoReviewTiers, utterances_stripStaleFaReviewTiers]
  intro utt member tier isTier
  rcases List.mem_map.mp member with ⟨source, _, rfl⟩
  simpa using (List.mem_filter.mp isTier).2

theorem strip_eq_self {chat : ChatFile} (none_ : NoReviewTiers chat) :
    stripStaleFaReviewTiers chat = chat := by
  have sameLines : chat.lines.map (mapUtterance stripReviewTiers) = chat.lines := by
    apply (List.map_congr_left ?_).trans (List.map_id chat.lines)
    intro line member
    cases line with
    | utterance utt =>
        have isUtterance : utt ∈ chat.utterances := List.mem_filterMap.mpr ⟨_, member, rfl⟩
        have sameTiers : (utt.dependentTiers.filter fun tier => !isReviewTier tier) =
            utt.dependentTiers := by
          rw [List.filter_eq_self]
          intro tier isTier
          rw [none_ utt isUtterance tier isTier]
          rfl
        rw [mapUtterance, stripReviewTiers, sameTiers]
        rfl
    | header header => rfl
    | other text => rfl
  rw [stripStaleFaReviewTiers, sameLines]

theorem strip_eq_self_iff (chat : ChatFile) :
    stripStaleFaReviewTiers chat = chat ↔ NoReviewTiers chat := by
  refine ⟨fun same => ?_, strip_eq_self⟩
  rw [← same]
  exact noReviewTiers_strip chat

theorem mem_replaceWorTier {tiers : List DependentTier} {wor : WorTier} {tier : DependentTier}
    (member : tier ∈ replaceWorTier tiers wor) : tier = .wor wor ∨ tier ∈ tiers := by
  simp only [replaceWorTier] at member
  split at member
  · rcases List.eq_or_mem_of_mem_insertIdx member with same | retained
    · exact .inl same
    · exact .inr (List.mem_of_mem_filter retained)
  · rcases List.mem_append.mp member with retained | same
    · exact .inr (List.mem_of_mem_filter retained)
    · exact .inl (List.mem_singleton.mp same)

variable [Talkbank]

/-- The injection adds no review tier. -/
theorem injectUtterance_unreviewed {utt injected : Utterance} {seg : AsrSegment}
    (ran : injectUtterance utt seg = .ok injected)
    (none_ : ∀ tier ∈ utt.dependentTiers, isReviewTier tier = false) :
    ∀ tier ∈ injected.dependentTiers, isReviewTier tier = false := by
  simp only [injectUtterance] at ran
  split at ran
  · cases ran
    exact none_
  · cases collapses : collapseAlignedWords utt.items seg.words with
    | error error =>
        rw [collapses] at ran
        cases ran
    | ok collapsed =>
        rw [collapses] at ran
        cases ran
        intro tier member
        rcases mem_replaceWorTier member with rfl | old
        · rfl
        · exact none_ tier old

theorem injectWordTimings_unreviewed {chat : ChatFile} (none_ : NoReviewTiers chat)
    (aligned : List AsrSegment) : NoReviewTiers (Fa.injectWordTimings chat aligned).2 := by
  simp only [NoReviewTiers, ChatFile.utterances, Fa.injectWordTimings, injectLines_eq_run]
  refine utterances.run_forall _ ?_ none_
  intro idx utt changed ran unreviewed
  cases found : aligned[idx]? with
  | none =>
      rw [faStep_none found] at ran
      cases ran
  | some seg =>
      rw [faStep_some found] at ran
      exact injectUtterance_unreviewed ran unreviewed

/-- Segments and utterances go along each other, and every segment can be collapsed. -/
def SegmentsFit (utts : List Utterance) (aligned : List AsrSegment) : Prop :=
  List.Forall₂ (fun utt seg => seg.words = [] ∨ partCount utt = seg.words.length) utts aligned

theorem injectStripped_ok_iff (chat : ChatFile) (aligned : List AsrSegment) :
    (Fa.injectWordTimings (stripStaleFaReviewTiers chat) aligned).1 = .ok () ↔
      SegmentsFit chat.utterances aligned := by
  rw [injectWordTimings_isOk_iff, utterances_stripStaleFaReviewTiers, List.forall₂_map_left_iff]
  rfl

theorem injectStripped_kept_iff (chat : ChatFile) (aligned : List AsrSegment) :
    (Fa.injectWordTimings (stripStaleFaReviewTiers chat) aligned).2 = chat ↔
      NoReviewTiers chat ∧
        ∀ row ∈ (chat.utterances.zip aligned).takeWhile fits, Settled row.1 row.2 := by
  constructor
  · intro same
    have none_ : NoReviewTiers chat := by
      rw [← same]
      exact injectWordTimings_unreviewed (noReviewTiers_strip chat) aligned
    rw [strip_eq_self none_] at same
    exact ⟨none_, (injectWordTimings_kept_iff chat aligned).mp same⟩
  · rintro ⟨none_, settled⟩
    rw [strip_eq_self none_]
    exact (injectWordTimings_kept_iff chat aligned).mpr settled

end Review

section Segments

variable [Talkbank] [ChatBuilder] [MediaAccess] (backend : FaInput → BAResult FaOutput)

/-- The segments to write, from the media, the backend and the reused `%wor` tiers. -/
def faSegments (chat : Chat) : BAResult (List AsrSegment) := do
  let audio ← faAudio chat
  let answer ← faAnswer backend (withoutReviewTiers chat) audio
  mergeReusedAndFreshSegments (collectReusableWorSegments (withoutReviewTiers chat).ast) answer

theorem faTiming_complete {chat : Chat} (complete : WorComplete chat.ast.utterances) :
    (faTiming backend chat).1 = .ok () := by
  have keeps := (keepsTiming_stripStale_iff chat.ast).mpr complete
  simp only [faTiming, alignTiming, refreshCompleteWorAlignment_of_keeps keeps, if_true]

theorem faTiming_eq {chat : Chat} (incomplete : ¬ WorComplete chat.ast.utterances) :
    faTiming backend chat =
      match faSegments backend chat with
      | .error error => (.error error, stripStaleFaReviewTiers chat.ast)
      | .ok aligned =>
          match Fa.injectWordTimings (stripStaleFaReviewTiers chat.ast) aligned with
          | (.error error, left) => (.error error, left)
          | (.ok (), left) => (.ok (), (enforceFaMonotonicity left).2) := by
  have unkept := mt (keepsTiming_stripStale_iff chat.ast).mp incomplete
  simp only [faTiming, alignTiming, refreshCompleteWorAlignment_of_not_keeps unkept,
    Bool.false_eq_true, if_false, faSegments]
  cases faAudio chat with
  | error error => rfl
  | ok audio =>
      simp only [Except.map, Except.bind, bind, applyAnswer]
      cases faAnswer backend (withoutReviewTiers chat) audio with
      | error error => rfl
      | ok answer =>
          simp only [withoutReviewTiers]
          cases mergeReusedAndFreshSegments
            (collectReusableWorSegments (stripStaleFaReviewTiers chat.ast)) answer <;> rfl

end Segments

section Failures

variable [Talkbank] [ChatBuilder] [ChatDetails] [MediaAccess]
  (backend : FaInput → BAResult FaOutput)

/-- The backend is needed, and there are no segments or they do not go with the utterances. -/
def AlignmentFails (chat : Chat) : Prop :=
  ChatDetails.skipsAlignment chat.ast = false ∧ ¬ WorComplete chat.ast.utterances ∧
    ∀ aligned, faSegments backend chat = .ok aligned → ¬ SegmentsFit chat.ast.utterances aligned

/-- A review tier goes, or some utterance before the first misfit gets a segment it did not
carry. -/
def AlignmentWrites (chat : Chat) : Prop :=
  ¬ NoReviewTiers chat.ast ∨
    ∃ aligned, faSegments backend chat = .ok aligned ∧
      ∃ row ∈ (chat.ast.utterances.zip aligned).takeWhile fits, ¬ Settled row.1 row.2

/-- The runner adds nothing to the failures of the timing part. -/
theorem faChat_keeps_iff_timing {chat : Chat}
    (aligns : ChatDetails.skipsAlignment chat.ast = false) :
    (∀ error, (faChat backend chat).result = .error error →
        (faChat backend chat).value = .chat chat) ↔
      ∀ error, (faTiming backend chat).1 = .error error →
        (faTiming backend chat).2 = chat.ast := by
  simp only [faChat, aligns, Bool.false_eq_true, if_false]
  cases (faTiming backend chat).1 with
  | error error => simp only [chat_withAst_eq_iff]
  | ok _ => exact ⟨fun _ error fails => (by cases fails), fun _ error fails => (by cases fails)⟩

theorem faRunner_keeps_iff (value : BAValue) :
    KeepsValue (faRunner backend) value ↔
      ∀ chat, value.chat? = some chat →
        AlignmentFails backend chat → ¬ AlignmentWrites backend chat := by
  rw [faRunner, onChat_keeps_iff]
  refine forall₂_congr fun chat _ => ?_
  cases aligns : ChatDetails.skipsAlignment chat.ast with
  | true => simp [faChat, AlignmentFails, aligns]
  | false =>
      rw [faChat_keeps_iff_timing backend aligns]
      by_cases complete : WorComplete chat.ast.utterances
      · simp [faTiming_complete backend complete, AlignmentFails, complete]
      · rw [faTiming_eq backend complete]
        simp only [AlignmentFails, AlignmentWrites, aligns, complete, not_false_eq_true, true_and]
        cases segments : faSegments backend chat with
        | error error => simp [strip_eq_self_iff]
        | ok aligned =>
            have fit := injectStripped_ok_iff chat.ast aligned
            have kept := injectStripped_kept_iff chat.ast aligned
            simp only [Except.ok.injEq, forall_eq', exists_eq_left', not_or, not_not, not_exists,
              not_and, ← fit]
            cases injected : Fa.injectWordTimings (stripStaleFaReviewTiers chat.ast) aligned with
            | mk result left =>
                rw [injected] at kept
                cases result with
                | error error =>
                    simp only [reduceCtorEq, not_false_eq_true, forall_const]
                    rw [← kept]
                    exact ⟨fun keeps => keeps error rfl, fun same _ _ => same⟩
                | ok _ =>
                    refine ⟨fun _ misfit => absurd rfl misfit, fun _ error fails => ?_⟩
                    cases fails

end Failures

end Batchalign.Runners
