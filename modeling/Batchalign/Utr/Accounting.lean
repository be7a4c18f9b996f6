import Batchalign.Utr.TwoPass

/-!
# The accounting of the UTR strategies

The counts and the decision records of a `UtrResult` against the bullets the utterances
end up with. The counts are right on every path. The records are those of the planning
loop: it is not reached without tokens, and the second pass does not go back to them.
-/

namespace Batchalign.Utr

open Batchalign.Alignment Batchalign.Chat Batchalign.Decisions Batchalign.Fa

section Accounted

def isUntimed (utt : Utterance) : Bool := utt.bullet.isNone

/-- The line indices of the utterances without a bullet. -/
def untimedLines (chat : ChatFile) : List ℕ :=
  ((utteranceLines chat).filter fun line => isUntimed line.2).map Prod.fst

/-- The number of utterances whose bullet went from absent to present. -/
def newlyTimed (before after : List Utterance) : ℕ :=
  (before.zip after).countP fun utts => utts.1.bullet.isNone && utts.2.bullet.isSome

/-- The result is a complete and truthful account of what happened to the chat. -/
structure Accounted (chat : ChatFile) (result : UtrResult) (after : ChatFile) : Prop where
  total : result.injected + result.skipped + result.unmatched = chat.utterances.length
  injected : result.injected = newlyTimed chat.utterances after.utterances
  decisions : (result.decisions.map DecisionRecord.lineIdx).Perm (untimedLines after)

/-- No utterance loses its bullet. -/
def BulletsKept (before after : List Utterance) : Prop :=
  List.Forall₂ (fun utt utt' => utt.bullet.isSome = true → utt'.bullet.isSome = true)
    before after

theorem BulletsKept.trans {before between after : List Utterance}
    (first : BulletsKept before between) (second : BulletsKept between after) :
    BulletsKept before after := by
  simp only [BulletsKept, List.forall₂_iff_get] at first second ⊢
  refine ⟨first.1.trans second.1, ?_⟩
  intro index bound bound' timed
  exact second.2 index (first.1 ▸ bound) bound' (first.2 index bound _ timed)

theorem BulletsKept.newlyTimed {before after : List Utterance} (kept : BulletsKept before after) :
    (before.countP fun utt => utt.bullet.isSome) + newlyTimed before after =
      after.countP fun utt => utt.bullet.isSome := by
  simp only [Utr.newlyTimed]
  induction kept with
  | nil => rfl
  | @cons utt utt' before after timed _ ih =>
      simp only [List.zip_cons_cons, List.countP_cons, ← ih]
      cases before : utt.bullet with
      | none =>
          cases utt'.bullet with
          | none => simp
          | some bullet =>
              simp
              omega
      | some bullet =>
          have still := timed (by rw [before]; rfl)
          simp only [still, Option.isSome_some, Option.isNone_some, Bool.false_and]
          simp
          omega

theorem untimedLines_length (chat : ChatFile) :
    countTimedUtterances chat + (untimedLines chat).length = chat.utterances.length := by
  rw [countTimedUtterances, untimedLines, List.length_map, ← utteranceLines_map_snd,
    List.countP_map, List.length_map, ← List.countP_eq_length_filter,
    List.length_eq_countP_add_countP fun line : ℕ × Utterance => line.2.bullet.isSome]
  congr 2
  funext line
  simp only [isUntimed]
  cases line.2.bullet <;> rfl

end Accounted

section Bullets

def withNewBullet (utt : Utterance) : Option Bullet → Utterance
  | some bullet => utt.withBullet (some bullet)
  | none => utt

/-- The utterances with their line indices after bullets are set. -/
theorem utteranceLines_setBullets {chat : ChatFile} {bullets : List (Option Bullet)}
    (lengths : bullets.length = chat.utterances.length) :
    utteranceLines { chat with lines := setBullets bullets chat.lines } =
      List.zipWith (fun line bullet => (line.1, withNewBullet line.2 bullet))
        (utteranceLines chat) bullets := by
  have numbered : ∀ (start : ℕ) (lines : List Line) (bullets : List (Option Bullet)),
      bullets.length = (lines.filterMap Line.utterance?).length →
      (((setBullets bullets lines).zipIdx start).filterMap fun line =>
        line.1.utterance?.map fun utt => (line.2, utt)) =
        List.zipWith (fun line bullet => (line.1, withNewBullet line.2 bullet))
          ((lines.zipIdx start).filterMap fun line =>
            line.1.utterance?.map fun utt => (line.2, utt)) bullets := by
    intro start lines bullets lengths
    induction lines generalizing start bullets with
    | nil =>
        rw [List.length_eq_zero_iff.mp lengths]
        rfl
    | cons line lines ih =>
        cases line with
        | utterance utt =>
            cases bullets with
            | nil => cases lengths
            | cons bullet bullets =>
                simp only [List.filterMap_cons, Line.utterance?, List.length_cons,
                  Nat.add_right_cancel_iff] at lengths
                have rest := ih (start + 1) bullets lengths
                cases bullet with
                | none => exact congrArg ((start, utt) :: ·) rest
                | some bullet => exact congrArg ((start, utt.withBullet (some bullet)) :: ·) rest
        | header header =>
            rw [setBullets_header]
            simpa [Line.utterance?] using ih (start + 1) bullets lengths
        | other text =>
            rw [setBullets_other]
            simpa [Line.utterance?] using ih (start + 1) bullets lengths
  exact numbered 0 chat.lines bullets lengths

theorem bulletsKept_setBullets {chat : ChatFile} {bullets : List (Option Bullet)}
    (lengths : bullets.length = chat.utterances.length) :
    BulletsKept chat.utterances
      { chat with lines := setBullets bullets chat.lines : ChatFile }.utterances := by
  rw [← utteranceLines_map_snd, ← utteranceLines_map_snd, utteranceLines_setBullets lengths]
  have sameLength : (utteranceLines chat).length = bullets.length := by
    rw [lengths, ← utteranceLines_map_snd, List.length_map]
  simp only [BulletsKept, List.forall₂_iff_get, List.length_map, List.length_zipWith, sameLength,
    min_self, true_and]
  intro index bound bound' timed
  simp only [List.get_eq_getElem, List.getElem_map, List.getElem_zipWith] at timed ⊢
  cases bullets[index] with
  | none => exact timed
  | some bullet => rfl

end Bullets

section Planning

/-- What the planning loop does for one utterance. -/
inductive RowStep (result : UtrResult) (row : UtrRow) : UtrResult × Option Timing → Prop where
  | skipped (timed : row.info.hasBullet = true) :
      RowStep result row ({ result with skipped := result.skipped + 1 }, none)
  | injected (untimed : row.info.hasBullet = false) (window : Timing) :
      RowStep result row ({ result with injected := result.injected + 1 }, some window)
  | unmatched (untimed : row.info.hasBullet = false) (decision : DecisionRecord)
      (names : decision.lineIdx = row.lineIdx) :
      RowStep result row ({ result with
        unmatched := result.unmatched + 1
        decisions := result.decisions ++ [decision] }, none)

theorem planRow_step {asrTokens : List AsrTimingToken} {result : UtrResult} {row : UtrRow}
    {planned : UtrResult × Option Timing}
    (ran : planRow asrTokens result row = some planned) : RowStep result row planned := by
  simp only [planRow] at ran
  split at ran
  · rename_i timed
    cases ran
    exact .skipped timed
  · rename_i untimed
    have untimed := Bool.eq_false_of_not_eq_true untimed
    split at ran
    · rename_i minAsr maxAsr _
      rcases Option.bind_eq_some_iff.mp ran with ⟨first, _, ran⟩
      rcases Option.bind_eq_some_iff.mp ran with ⟨last, _, ran⟩
      split at ran
      · cases ran
        exact .injected untimed _
      · cases ran
        exact .unmatched untimed _ rfl
    · cases ran
      exact .unmatched untimed _ rfl

/-- The line indices of the rows that get no bullet. -/
def leftUntimed (rows : List UtrRow) (windows : List (Option Timing)) : List ℕ :=
  ((rows.zip windows).filter fun row => !row.1.info.hasBullet && row.2.isNone).map
    fun row => row.1.lineIdx

/-- What the whole loop adds to the result. -/
structure RowsPlanned (start : UtrResult) (rows : List UtrRow) (result : UtrResult)
    (windows : List (Option Timing)) : Prop where
  length : windows.length = rows.length
  total : result.injected + result.skipped + result.unmatched =
    start.injected + start.skipped + start.unmatched + rows.length
  injected : result.injected = start.injected + windows.countP Option.isSome
  skipped : result.skipped = start.skipped + rows.countP fun row => row.info.hasBullet
  decisions : result.decisions.map DecisionRecord.lineIdx =
    start.decisions.map DecisionRecord.lineIdx ++ leftUntimed rows windows

theorem planRows_planned {asrTokens : List AsrTimingToken} {start : UtrResult}
    {rows : List UtrRow} {planned : UtrResult × List (Option Timing)}
    (ran : planRows asrTokens start rows = some planned) :
    RowsPlanned start rows planned.1 planned.2 := by
  induction rows generalizing start planned with
  | nil =>
      cases ran
      exact ⟨rfl, rfl, rfl, rfl, (List.append_nil _).symm⟩
  | cons row rows ih =>
      rcases Option.bind_eq_some_iff.mp ran with ⟨head, ranHead, ran⟩
      rcases Option.bind_eq_some_iff.mp ran with ⟨rest, ranRest, ran⟩
      cases ran
      have rest := ih ranRest
      have step := planRow_step ranHead
      cases step with
      | skipped timed =>
          refine ⟨?_, ?_, ?_, ?_, ?_⟩
          · simp only [List.length_cons, rest.length]
          · simp only [rest.total, List.length_cons]
            omega
          · simp only [rest.injected, List.countP_cons, Option.isSome_none]
            simp
          · simp only [rest.skipped, List.countP_cons, timed, if_true]
            omega
          · simp only [rest.decisions, leftUntimed, List.zip_cons_cons, List.filter_cons, timed]
            rfl
      | injected untimed window =>
          refine ⟨?_, ?_, ?_, ?_, ?_⟩
          · simp only [List.length_cons, rest.length]
          · simp only [rest.total, List.length_cons]
            omega
          · simp only [rest.injected, List.countP_cons, Option.isSome_some, if_true]
            omega
          · simp only [rest.skipped, List.countP_cons, untimed]
            simp
          · simp only [rest.decisions, leftUntimed, List.zip_cons_cons, List.filter_cons, untimed]
            rfl
      | unmatched untimed decision names =>
          refine ⟨?_, ?_, ?_, ?_, ?_⟩
          · simp only [List.length_cons, rest.length]
          · simp only [rest.total, List.length_cons]
            omega
          · simp only [rest.injected, List.countP_cons, Option.isSome_none]
            simp
          · simp only [rest.skipped, List.countP_cons, untimed]
            simp
          · simp only [rest.decisions, leftUntimed, List.zip_cons_cons, List.filter_cons, untimed,
              List.map_append, List.map_cons, List.map_nil, names, List.append_assoc]
            rfl

/-- The post-pass moves windows; it neither drops nor adds one. -/
theorem enforceFloor_isSome (floorEndMs : ℕ) (rows : List (UtrRow × Option Timing)) :
    (enforceFloor floorEndMs rows).map Option.isSome = (rows.map Prod.snd).map Option.isSome := by
  induction rows generalizing floorEndMs with
  | nil => rfl
  | cons row rows ih =>
      rcases row with ⟨row, window⟩
      simp only [enforceFloor]
      split
      · simp only [List.map_cons, ih]
      · split
        · simp only [List.map_cons, ih]
        · cases window <;> simp only [List.map_cons, ih, Option.isSome_some]

end Planning

section Passes

/-- What a pass with tokens leaves: the records are those of the untimed utterances. -/
structure Tallied (chat : ChatFile) (result : UtrResult) (after : ChatFile) : Prop where
  total : result.injected + result.skipped + result.unmatched = chat.utterances.length
  injected : countTimedUtterances after = countTimedUtterances chat + result.injected
  skipped : result.skipped = countTimedUtterances chat
  kept : BulletsKept chat.utterances after.utterances

theorem Tallied.unmatched {chat after : ChatFile} {result : UtrResult}
    (tallied : Tallied chat result after) : result.unmatched = (untimedLines after).length := by
  have total := tallied.total
  have injected := tallied.injected
  have skipped := tallied.skipped
  have lengths := tallied.kept.length_eq
  have left := untimedLines_length after
  omega

theorem Tallied.newlyTimed {chat after : ChatFile} {result : UtrResult}
    (tallied : Tallied chat result after) :
    result.injected = newlyTimed chat.utterances after.utterances := by
  have newly := tallied.kept.newlyTimed
  have injected := tallied.injected
  simp only [countTimedUtterances] at injected
  omega

/-- The counts of a pass are always right, so its account stands or falls with its records. -/
theorem Tallied.accounted_iff {chat after : ChatFile} {result : UtrResult}
    (tallied : Tallied chat result after) :
    Accounted chat result after ↔
      (result.decisions.map DecisionRecord.lineIdx).Perm (untimedLines after) := by
  constructor
  · exact Accounted.decisions
  · intro decisions
    exact ⟨tallied.total, tallied.newlyTimed, decisions⟩

theorem withoutTokens_tallied (chat : ChatFile) : Tallied chat (withoutTokens chat) chat := by
  refine ⟨?_, rfl, rfl, ?_⟩
  · simp only [withoutTokens, Nat.zero_add]
    rw [List.length_eq_countP_add_countP fun utt : Utterance => utt.bullet.isSome]
    congr 2
    funext utt
    cases utt.bullet <;> rfl
  · exact List.forall₂_same.mpr fun _ _ timed => timed

theorem untimed_withNewBullet {utt : Utterance} {window : Option Timing}
    {bullet : Option Bullet} (same : bullet.isSome = window.isSome) :
    isUntimed (withNewBullet utt bullet) = (!utt.bullet.isSome && window.isNone) := by
  cases bullet with
  | none =>
      rw [Option.isSome_none, eq_comm, Option.isSome_eq_false_iff] at same
      simp only [withNewBullet, isUntimed, same, Bool.and_true]
      cases utt.bullet <;> rfl
  | some bullet =>
      rw [Option.isSome_some, eq_comm] at same
      simp [withNewBullet, isUntimed, Option.isNone_eq_false_iff.mpr same]

variable [Talkbank] [OverlapMarkers] [Float64]

/-- The rows left untimed are the utterances without a bullet after the bullets are set. -/
theorem leftUntimed_eq {utts : List (ℕ × Utterance)} {uttRanges : UtrTokenRanges}
    {windows : List (Option Timing)} {bullets : List (Option Bullet)}
    (lengths : uttRanges.length = utts.length)
    (same : bullets.map Option.isSome = windows.map Option.isSome) :
    leftUntimed (List.zipWith utrRow utts uttRanges) windows =
      ((List.zipWith (fun line bullet => (line.1, withNewBullet line.2 bullet)) utts
        bullets).filter fun line => isUntimed line.2).map Prod.fst := by
  induction utts generalizing uttRanges windows bullets with
  | nil => rfl
  | cons utt utts ih =>
      cases uttRanges with
      | nil => cases lengths
      | cons uttRange uttRanges =>
          cases bullets with
          | nil =>
              rw [List.map_eq_nil_iff.mp same.symm]
              rfl
          | cons bullet bullets =>
              cases windows with
              | nil => cases same
              | cons window windows =>
                  simp only [List.length_cons, Nat.add_right_cancel_iff] at lengths
                  rcases List.cons_eq_cons.mp same with ⟨head, tail⟩
                  have rest := ih lengths tail
                  simp only [leftUntimed] at rest ⊢
                  have timed : (utrRow utt uttRange).info.hasBullet = utt.2.bullet.isSome := rfl
                  simp only [List.zipWith_cons_cons, List.zip_cons_cons, List.filter_cons,
                    untimed_withNewBullet head, timed]
                  split
                  · exact congrArg (utt.1 :: ·) rest
                  · exact rest

variable {Threshold : Type} [Similarity Threshold]

theorem plannedRanges_length (chat : ChatFile) (asrTokens : List AsrTimingToken)
    (skipLazyOverlap : Bool) (dpMatchMode : MatchMode Threshold) :
    (plannedRanges chat asrTokens skipLazyOverlap dpMatchMode).length =
      chat.utterances.length := by
  rcases plannedRanges_spec chat asrTokens skipLazyOverlap dpMatchMode with
    ⟨plan, _, ranges, fits⟩
  rw [ranges, fits.length]

theorem plannedRows_length (chat : ChatFile) (asrTokens : List AsrTimingToken)
    (skipLazyOverlap : Bool) (dpMatchMode : MatchMode Threshold) :
    (plannedRows chat asrTokens skipLazyOverlap dpMatchMode).length = chat.utterances.length := by
  rw [plannedRows, List.length_zipWith, plannedRanges_length, ← utteranceLines_map_snd,
    List.length_map, min_self]

theorem plannedRows_timed (chat : ChatFile) (asrTokens : List AsrTimingToken)
    (skipLazyOverlap : Bool) (dpMatchMode : MatchMode Threshold) :
    (plannedRows chat asrTokens skipLazyOverlap dpMatchMode).countP
        (fun row => row.info.hasBullet) =
      countTimedUtterances chat := by
  have lengths := plannedRows_length chat asrTokens skipLazyOverlap dpMatchMode
  have same : (plannedRows chat asrTokens skipLazyOverlap dpMatchMode).map
      (fun row => row.info.hasBullet) = chat.utterances.map fun utt => utt.bullet.isSome := by
    apply List.ext_getElem
    · rw [List.length_map, List.length_map, lengths]
    · intro index bound bound'
      simp only [List.getElem_map, plannedRows, List.getElem_zipWith, ← utteranceLines_map_snd]
      rfl
  have counted := congrArg (List.countP id) same
  rw [List.countP_map, List.countP_map] at counted
  exact counted

/-- The records of the first pass are those of the utterances it leaves untimed. -/
theorem runGlobalUtr_tallied {chat after : ChatFile} {asrTokens : List AsrTimingToken}
    {skipLazyOverlap : Bool} {dpMatchMode : MatchMode Threshold} {result : UtrResult}
    (ran : runGlobalUtr chat asrTokens skipLazyOverlap dpMatchMode = some (result, after)) :
    Tallied chat result after ∧ result.decisions.map DecisionRecord.lineIdx =
      if asrTokens = [] then [] else untimedLines after := by
  by_cases tokens : asrTokens = []
  · subst tokens
    cases ran
    exact ⟨withoutTokens_tallied chat, rfl⟩
  · rcases runGlobalUtr_planned chat tokens skipLazyOverlap dpMatchMode with
      ⟨⟨planned, windows⟩, isPlanned, floored, eq⟩
    rw [eq] at ran
    cases ran
    have rows := planRows_planned isPlanned
    have rowsLength := plannedRows_length chat asrTokens skipLazyOverlap dpMatchMode
    have windowsLength : (setWindows 0 (slots chat asrTokens skipLazyOverlap dpMatchMode)).length =
        chat.utterances.length := by
      rw [setWindows_length, slots_length]
    have same : (setWindows 0 (slots chat asrTokens skipLazyOverlap dpMatchMode)).map
        Option.isSome = windows.map Option.isSome := by
      rw [← floored, enforceFloor_isSome, List.map_snd_zip rows.length.le]
    have bulletsLength : ((setWindows 0 (slots chat asrTokens skipLazyOverlap dpMatchMode)).map
        (Option.map fun window => Bullet.utrHint window.startMs window.endMs)).length =
        chat.utterances.length := by
      rw [List.length_map, windowsLength]
    refine ⟨⟨?_, ?_, ?_, bulletsKept_setBullets bulletsLength⟩, ?_⟩
    · rw [rows.total, rowsLength]
      exact Nat.zero_add _
    · rcases runGlobalUtr_result chat asrTokens skipLazyOverlap dpMatchMode with
        ⟨result, after, ran, global⟩
      rw [eq] at ran
      cases ran
      have counted := congrArg (List.countP id) same
      rw [List.countP_map, List.countP_map] at counted
      have hints := countP_setWindows 0 (slots chat asrTokens skipLazyOverlap dpMatchMode)
      rw [global.countTimed (slots_length _ _ _ _), rows.injected, ← hints]
      change _ = _ + (0 + _)
      rw [Nat.zero_add]
      exact congrArg _ counted
    · rw [rows.skipped, plannedRows_timed]
      exact Nat.zero_add _
    · rw [if_neg tokens, rows.decisions, untimedLines, hintLines,
        utteranceLines_setBullets bulletsLength]
      refine (List.nil_append _).trans (leftUntimed_eq ?_ ?_)
      · rw [plannedRanges_length, ← utteranceLines_map_snd, List.length_map]
      · rw [← same, List.map_map]
        congr 1
        funext window
        cases window <;> rfl

end Passes

section Accounts

theorem untimedLines_eq_nil_iff (chat : ChatFile) :
    untimedLines chat = [] ↔ ∀ utt ∈ chat.utterances, utt.bullet.isSome = true := by
  rw [← utteranceLines_map_snd, untimedLines, List.map_eq_nil_iff, List.filter_eq_nil_iff,
    List.forall_mem_map]
  refine forall₂_congr fun line _ => ?_
  simp only [isUntimed]
  cases line.2.bullet <;> simp

/-- Without tokens there are no records. With tokens, the records are those of the first pass,
and fit as long as nothing was recovered after it. -/
theorem Tallied.accounted_iff_recovered {chat first after : ChatFile} {result : UtrResult}
    {asrTokens : List AsrTimingToken} {recovered : ℕ} (tallied : Tallied chat result after)
    (decisions : result.decisions.map DecisionRecord.lineIdx =
      if asrTokens = [] then [] else untimedLines first)
    (counts : countTimedUtterances after = countTimedUtterances first + recovered)
    (firstKept : BulletsKept chat.utterances first.utterances)
    (noTokens : asrTokens = [] → after = chat) (noneRecovered : recovered = 0 → after = first) :
    Accounted chat result after ↔ (asrTokens ≠ [] ∧ recovered = 0) ∨
      ∀ utt ∈ chat.utterances, utt.bullet.isSome = true := by
  have lengths := tallied.kept.length_eq
  have lengthsFirst := firstKept.length_eq
  have left := untimedLines_length chat
  have leftFirst := untimedLines_length first
  have leftAfter := untimedLines_length after
  have newly := firstKept.newlyTimed
  simp only [countTimedUtterances] at counts left leftFirst leftAfter
  rw [tallied.accounted_iff, decisions, ← untimedLines_eq_nil_iff]
  by_cases tokens : asrTokens = []
  · rw [if_pos tokens, List.nil_perm, noTokens tokens]
    simp [tokens]
  · rw [if_neg tokens]
    constructor
    · intro same
      have := same.length_eq
      exact Or.inl ⟨tokens, by omega⟩
    · intro fits
      have none_ : recovered = 0 := by
        rcases fits with ⟨_, none_⟩ | nothing
        · exact none_
        · rw [nothing, List.length_nil] at left
          omega
      rw [noneRecovered none_]

variable [Talkbank] [OverlapMarkers] [Float64] {Threshold : Type} [Similarity Threshold]

theorem withRecovered_tallied {chat first : ChatFile} {asrTokens : List AsrTimingToken}
    {config : TwoPassConfig Threshold} {firstResult : UtrResult}
    (tallied : Tallied chat firstResult first) :
    Tallied chat (countRecovered firstResult (recoveredCount first asrTokens config))
      (withRecovered first asrTokens config) := by
  have bulletsLength : ((pass2Windows first asrTokens config).map (Option.map fun window =>
      Bullet.new window.startMs window.endMs)).length = first.utterances.length := by
    rw [List.length_map, pass2Windows_length]
  have recoveredKept : BulletsKept first.utterances
      (withRecovered first asrTokens config).utterances := bulletsKept_setBullets bulletsLength
  have counts := withRecovered_countTimed first asrTokens config
  have left := untimedLines_length first
  have leftAfter := untimedLines_length (withRecovered first asrTokens config)
  have total := tallied.total
  have injected := tallied.injected
  have unmatched := tallied.unmatched
  have lengths := recoveredKept.length_eq
  refine ⟨?_, ?_, tallied.skipped, tallied.kept.trans recoveredKept⟩
  · simp only [countRecovered]
    omega
  · simp only [countRecovered]
    omega

theorem runGlobalUtr_accounted_iff {chat after : ChatFile} {asrTokens : List AsrTimingToken}
    {skipLazyOverlap : Bool} {dpMatchMode : MatchMode Threshold} {result : UtrResult}
    (ran : runGlobalUtr chat asrTokens skipLazyOverlap dpMatchMode = some (result, after)) :
    Accounted chat result after ↔
      asrTokens ≠ [] ∨ ∀ utt ∈ chat.utterances, utt.bullet.isSome = true := by
  rcases runGlobalUtr_tallied ran with ⟨tallied, decisions⟩
  have unchanged : asrTokens = [] → after = chat := by
    intro tokens
    subst tokens
    cases ran
    rfl
  rw [@Tallied.accounted_iff_recovered chat after after result asrTokens 0 tallied decisions rfl
    tallied.kept unchanged fun _ => rfl]
  simp

theorem withRecovered_accounted_iff {chat first : ChatFile} {asrTokens : List AsrTimingToken}
    {config : TwoPassConfig Threshold} {firstResult : UtrResult}
    (ran : firstPass chat asrTokens config = some (firstResult, first)) :
    Accounted chat (countRecovered firstResult (recoveredCount first asrTokens config))
        (withRecovered first asrTokens config) ↔
      (asrTokens ≠ [] ∧ recoveredCount first asrTokens config = 0) ∨
        ∀ utt ∈ chat.utterances, utt.bullet.isSome = true := by
  rcases runGlobalUtr_tallied ran with ⟨tallied, decisions⟩
  have unchanged : asrTokens = [] → withRecovered first asrTokens config = chat := by
    intro tokens
    subst tokens
    cases ran
    exact withRecovered_eq ((recoveredCount_eq_zero_iff _ _ _).mpr (pass2Windows_nil _ _))
  exact (withRecovered_tallied tallied).accounted_iff_recovered decisions
    (withRecovered_countTimed first asrTokens config) tallied.kept unchanged withRecovered_eq

/-- The account of a strategy is right exactly when there are tokens to match, or nothing is
left to match, and no second pass times an utterance that the first one reported. -/
theorem inject_accounted_iff (chat : ChatFile) (asrTokens : List AsrTimingToken)
    (config : TwoPassConfig Threshold) :
    (∃ result after, @globalUtrInject Threshold _ _ _ _ chat asrTokens = some (result, after) ∧
      (Accounted chat result after ↔
        asrTokens ≠ [] ∨ ∀ utt ∈ chat.utterances, utt.bullet.isSome = true)) ∧
    ∃ result after firstResult first,
      firstPass chat asrTokens config = some (firstResult, first) ∧
      twoPassInject chat asrTokens config = some (result, after) ∧
      (Accounted chat result after ↔
        (asrTokens ≠ [] ∧ (twoPassKept chat first asrTokens config →
          recoveredCount first asrTokens config = 0)) ∨
        ∀ utt ∈ chat.utterances, utt.bullet.isSome = true) := by
  constructor
  · rcases runGlobalUtr_result chat asrTokens false (.caseInsensitive : MatchMode Threshold) with
      ⟨result, after, ran, _⟩
    exact ⟨result, after, ran, runGlobalUtr_accounted_iff ran⟩
  · rcases runGlobalUtr_result chat asrTokens (skipInPass1 chat config)
      config.matchMode.toDpMatchMode with ⟨firstResult, first, ranFirst, _⟩
    rcases runGlobalUtr_result chat asrTokens false config.matchMode.toDpMatchMode with
      ⟨globalResult, global, ranGlobal, _⟩
    rcases twoPassInject_eq ranFirst ranGlobal with ⟨kept, ran⟩ | ⟨kept, ran⟩
    · refine ⟨_, _, firstResult, first, ranFirst, ran, ?_⟩
      rw [withRecovered_accounted_iff ranFirst]
      simp [kept]
    · refine ⟨_, _, firstResult, first, ranFirst, ran, ?_⟩
      rw [runGlobalUtr_accounted_iff ranGlobal]
      simp [kept]

end Accounts

section Instances

open Documented Batchalign.Fa

/-- Without tokens no utterance is reported. The overlap turn recovered by the second pass is
still reported as unmatched. -/
theorem inject_not_accounted :
    (∃ result after, @globalUtrInject ℚ _ _ _ _ fourTurns [] = some (result, after) ∧
      result.unmatched = 4 ∧ result.decisions = [] ∧ ¬ Accounted fourTurns result after) ∧
    ∃ result after, twoPassInject fourTurns withOverlap exactConfig = some (result, after) ∧
      result.unmatched = 0 ∧ result.decisions.map DecisionRecord.lineIdx = [1] ∧
      ¬ Accounted fourTurns result after := by
  constructor
  · refine ⟨withoutTokens fourTurns, fourTurns, rfl, by decide, rfl, ?_⟩
    intro accounted
    have unreported := accounted.decisions.length_eq
    revert unreported
    decide
  · have counts : (twoPassInject fourTurns withOverlap exactConfig).map (fun ran =>
        (ran.1.unmatched, ran.1.decisions.map DecisionRecord.lineIdx, untimedLines ran.2)) =
        some (0, [1], []) := by
      decide +kernel
    rcases Option.map_eq_some_iff.mp counts with ⟨⟨result, after⟩, ran, counts⟩
    simp only [Prod.mk.injEq] at counts
    rcases counts with ⟨unmatched, decisions, untimed⟩
    refine ⟨result, after, ran, unmatched, decisions, ?_⟩
    intro accounted
    have reported := accounted.decisions
    rw [decisions, untimed] at reported
    exact List.not_perm_cons_nil reported

end Instances

end Batchalign.Utr
