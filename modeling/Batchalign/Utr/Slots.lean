import Batchalign.Utr.Ranges
import Batchalign.Utr.Strategy

/-!
# What the global pass does to the utterances

Every utterance is a slot of the post-pass: it is passed over, keeps a fixed window, or
has a matched window that may be pushed. `runGlobalUtr_eq` describes the whole pass by
the slots of the transcript.
-/

namespace Batchalign.Utr

open Batchalign.Alignment Batchalign.Chat Batchalign.Fa

section Slots

/-- The part an utterance plays in the post-pass. Overlap utterances, and those without a
bullet or a match, are passed over with the window they get. -/
inductive Slot where
  | passed (window : Option Timing)
  | fixed (window : Timing)
  | matched (window : Timing)
deriving DecidableEq, Repr

def Slot.isMatched : Slot → Bool
  | .matched _ => true
  | _ => false

/-- Where the window of the slot ends before the pass. -/
def Slot.endMs? : Slot → Option ℕ
  | .passed _ => none
  | .fixed window | .matched window => some window.endMs

/-- The windows the pass sets. -/
def setWindows : ℕ → List Slot → List (Option Timing)
  | _, [] => []
  | floorEndMs, .passed window :: slots => window :: setWindows floorEndMs slots
  | floorEndMs, .fixed window :: slots => none :: setWindows (max floorEndMs window.endMs) slots
  | floorEndMs, .matched window :: slots =>
      let pushed := pushToFloor floorEndMs window
      some pushed :: setWindows pushed.endMs slots

/-- The windows of the non-overlap utterances after the pass. The flag marks the new ones. -/
def finalWindows : ℕ → List Slot → List (Bool × Timing)
  | _, [] => []
  | floorEndMs, .passed _ :: slots => finalWindows floorEndMs slots
  | floorEndMs, .fixed window :: slots =>
      (false, window) :: finalWindows (max floorEndMs window.endMs) slots
  | floorEndMs, .matched window :: slots =>
      let pushed := pushToFloor floorEndMs window
      (true, pushed) :: finalWindows pushed.endMs slots

/-- The window from the first to the last matched token, unless it is empty. -/
def matchedWindow (asrTokens : List AsrTimingToken) (uttRange : Option (ℕ × ℕ)) :
    Option Timing := do
  let range ← uttRange
  let first ← asrTokens[range.1]?
  let last ← asrTokens[range.2]?
  if first.startMs < last.endMs then some ⟨first.startMs, last.endMs⟩ else none

theorem matchedWindow_nil (uttRange : Option (ℕ × ℕ)) : matchedWindow [] uttRange = none := by
  cases uttRange <;> rfl

/-- Sets a hint for the utterance. -/
def withHint (utt : Utterance) (window : Option Timing) : Utterance :=
  match window with
  | some window => utt.withBullet (some (.utrHint window.startMs window.endMs))
  | none => utt

/-- The lines with the hints of the windows. -/
def hintLines (windows : List (Option Timing)) (lines : List Line) : List Line :=
  setBullets (windows.map (Option.map fun window =>
    Bullet.utrHint window.startMs window.endMs)) lines

theorem hintLines_utterance (window : Option Timing) (windows : List (Option Timing))
    (utt : Utterance) (lines : List Line) :
    hintLines (window :: windows) (.utterance utt :: lines) =
      .utterance (withHint utt window) :: hintLines windows lines := by
  cases window <;> rfl

theorem setBullets_header (bullets : List (Option Bullet)) (header : Header)
    (lines : List Line) :
    setBullets bullets (.header header :: lines) = .header header :: setBullets bullets lines := by
  cases bullets <;> rfl

theorem setBullets_other (bullets : List (Option Bullet)) (text : String) (lines : List Line) :
    setBullets bullets (.other text :: lines) = .other text :: setBullets bullets lines := by
  cases bullets <;> rfl

theorem hintLines_header (windows : List (Option Timing)) (header : Header)
    (lines : List Line) :
    hintLines windows (.header header :: lines) = .header header :: hintLines windows lines :=
  setBullets_header _ header lines

theorem hintLines_other (windows : List (Option Timing)) (text : String) (lines : List Line) :
    hintLines windows (.other text :: lines) = .other text :: hintLines windows lines :=
  setBullets_other _ text lines

theorem hintLines_utterances {windows : List (Option Timing)} {lines : List Line}
    (lengths : windows.length = (lines.filterMap Line.utterance?).length) :
    (hintLines windows lines).filterMap Line.utterance? =
      List.zipWith withHint (lines.filterMap Line.utterance?) windows := by
  induction lines generalizing windows with
  | nil =>
      rw [List.length_eq_zero_iff.mp lengths]
      rfl
  | cons line lines ih =>
      cases line with
      | utterance utt =>
          cases windows with
          | nil => cases lengths
          | cons window windows =>
              simp only [List.filterMap_cons, Line.utterance?, List.length_cons,
                Nat.add_right_cancel_iff] at lengths
              rw [hintLines_utterance]
              simp only [List.filterMap_cons, Line.utterance?, List.zipWith_cons_cons]
              rw [ih lengths]
      | header header =>
          rw [hintLines_header]
          exact ih lengths
      | other text =>
          rw [hintLines_other]
          exact ih lengths

theorem setBullets_none {bullets : List (Option Bullet)} {lines : List Line}
    (none_ : ∀ bullet ∈ bullets, bullet = none) : setBullets bullets lines = lines := by
  induction lines generalizing bullets with
  | nil => cases bullets <;> rfl
  | cons line lines ih =>
      cases line with
      | utterance utt =>
          cases bullets with
          | nil => exact congrArg _ (@ih [] (by simp))
          | cons bullet bullets =>
              have none_ := List.forall_mem_cons.mp none_
              simp only [setBullets, none_.1, ih none_.2]
      | header header => rw [setBullets_header, ih none_]
      | other text => rw [setBullets_other, ih none_]

theorem hintLines_none {windows : List (Option Timing)} {lines : List Line}
    (none_ : ∀ window ∈ windows, window = none) : hintLines windows lines = lines := by
  apply setBullets_none
  simpa using none_

theorem setWindows_length (floorEndMs : ℕ) (slots : List Slot) :
    (setWindows floorEndMs slots).length = slots.length := by
  induction slots generalizing floorEndMs with
  | nil => rfl
  | cons slot slots ih =>
      cases slot <;> simp only [setWindows, List.length_cons, ih]

end Slots

section Frame

/-- A line of the result: the line as it was, or an untimed utterance with an allowed bullet. -/
inductive Hinted (allowed : Bullet → Prop) : Line → Line → Prop where
  | kept (line : Line) : Hinted allowed line line
  | hinted {utt : Utterance} {bullet : Bullet} (untimed : utt.bullet = none)
      (ok : allowed bullet) :
      Hinted allowed (.utterance utt) (.utterance (utt.withBullet (some bullet)))

theorem hintLines_hinted {allowed : Bullet → Prop} {windows : List (Option Timing)}
    {lines : List Line}
    (ok : ∀ row ∈ (lines.filterMap Line.utterance?).zip windows, ∀ window ∈ row.2,
      row.1.bullet = none ∧ allowed (.utrHint window.startMs window.endMs)) :
    List.Forall₂ (Hinted allowed) lines (hintLines windows lines) := by
  induction lines generalizing windows with
  | nil => cases windows <;> exact .nil
  | cons line lines ih =>
      cases line with
      | utterance utt =>
          cases windows with
          | nil => exact .cons (.kept _) (@ih [] (by simp))
          | cons window windows =>
              simp only [List.filterMap_cons, Line.utterance?, List.zip_cons_cons] at ok
              have ok := List.forall_mem_cons.mp ok
              rw [hintLines_utterance]
              refine .cons ?_ (ih ok.2)
              cases window with
              | none => exact .kept _
              | some window => exact .hinted (ok.1 window rfl).1 (ok.1 window rfl).2
      | header header =>
          rw [hintLines_header]
          exact .cons (.kept _) (ih ok)
      | other text =>
          rw [hintLines_other]
          exact .cons (.kept _) (ih ok)

end Frame

section Chat

variable [Talkbank] [OverlapMarkers] [Float64]

def isOverlap (utt : Utterance) : Bool :=
  (utteranceInfo utt).hasLazyOverlap || (utteranceInfo utt).hasCaOverlap

def slotOf (utt : Utterance) (window : Option Timing) : Slot :=
  match utt.bullet, window with
  | some bullet, _ => if isOverlap utt then .passed none else .fixed bullet.timing
  | none, some window => if isOverlap utt then .passed (some window) else .matched window
  | none, none => .passed none

/-- The parts an utterance can play. -/
inductive SlotCase (utt : Utterance) : Option Timing → Slot → Prop where
  | fixed {window : Option Timing} {bullet : Bullet} (timed : utt.bullet = some bullet)
      (apart : isOverlap utt = false) : SlotCase utt window (.fixed bullet.timing)
  | timedOverlap {window : Option Timing} {bullet : Bullet} (timed : utt.bullet = some bullet)
      (overlap : isOverlap utt = true) : SlotCase utt window (.passed none)
  | matched {window : Timing} (untimed : utt.bullet = none) (apart : isOverlap utt = false) :
      SlotCase utt (some window) (.matched window)
  | overlap {window : Timing} (untimed : utt.bullet = none) (overlap : isOverlap utt = true) :
      SlotCase utt (some window) (.passed (some window))
  | unmatched (untimed : utt.bullet = none) : SlotCase utt none (.passed none)

theorem slotOf_case (utt : Utterance) (window : Option Timing) :
    SlotCase utt window (slotOf utt window) := by
  simp only [slotOf]
  cases timed : utt.bullet with
  | some bullet =>
      simp only
      by_cases overlap : isOverlap utt = true
      · rw [if_pos overlap]
        exact .timedOverlap timed overlap
      · rw [if_neg overlap]
        exact .fixed timed (by simpa using overlap)
  | none =>
      cases window with
      | none => exact .unmatched timed
      | some window =>
          simp only
          by_cases overlap : isOverlap utt = true
          · rw [if_pos overlap]
            exact .overlap timed overlap
          · rw [if_neg overlap]
            exact .matched timed (by simpa using overlap)

/-- The windows of the non-overlap utterances, with a flag on those that had none before. -/
def nonOverlapWindows (before after : List Utterance) : List (Bool × Timing) :=
  (before.zip after).filterMap fun utts =>
    if isOverlap utts.1 then none
    else utts.2.bullet.map fun bullet => (utts.1.bullet.isNone, bullet.timing)

theorem nonOverlapWindows_cons (utt utt' : Utterance) (utts utts' : List Utterance) :
    nonOverlapWindows (utt :: utts) (utt' :: utts') =
      (if isOverlap utt then none
        else utt'.bullet.map fun bullet => (utt.bullet.isNone, bullet.timing)).toList ++
        nonOverlapWindows utts utts' := by
  simp only [nonOverlapWindows, List.zip_cons_cons, List.filterMap_cons]
  split <;> rename_i found <;> rw [found] <;> rfl

variable {Threshold : Type} [Similarity Threshold]

/-- The token ranges of the plan. -/
def plannedRanges (chat : ChatFile) (asrTokens : List AsrTimingToken) (skipLazyOverlap : Bool)
    (dpMatchMode : MatchMode Threshold) : UtrTokenRanges :=
  let words := flattenedWords skipLazyOverlap (collectUtrUtteranceInfo chat)
  ((planUtrAlignment (words.map Prod.fst) (asrTokens.map AsrTimingToken.text)
    (words.map Prod.snd) (collectUtrUtteranceInfo chat).length dpMatchMode).map
      UtrAlignmentPlan.uttRanges).getD []

def slots (chat : ChatFile) (asrTokens : List AsrTimingToken) (skipLazyOverlap : Bool)
    (dpMatchMode : MatchMode Threshold) : List Slot :=
  List.zipWith (fun utt uttRange => slotOf utt (matchedWindow asrTokens uttRange))
    chat.utterances (plannedRanges chat asrTokens skipLazyOverlap dpMatchMode)

end Chat

section Plan

theorem utteranceLines_map_snd (chat : ChatFile) :
    (utteranceLines chat).map Prod.snd = chat.utterances := by
  have forget : ∀ (lines : List Line) (start : ℕ),
      ((lines.zipIdx start).filterMap fun line =>
        line.1.utterance?.map fun utt => (line.2, utt)).map Prod.snd =
        lines.filterMap Line.utterance? := by
    intro lines
    induction lines with
    | nil => simp
    | cons line lines ih =>
        intro start
        simp only [List.zipIdx_cons, List.filterMap_cons]
        cases line.utterance? with
        | none => exact ih (start + 1)
        | some utt => simpa using ih (start + 1)
  exact forget chat.lines 0

theorem flattenedWords_bounds (skipLazyOverlap : Bool) (uttInfos : List UtrUtteranceInfo) :
    ∀ utt ∈ (flattenedWords skipLazyOverlap uttInfos).map Prod.snd, utt < uttInfos.length := by
  intro utt member
  rcases List.mem_map.mp member with ⟨word, flattened, rfl⟩
  rcases List.mem_flatMap.mp flattened with ⟨info, atIndex, words⟩
  have bound := (List.mem_zipIdx' atIndex).1
  split at words
  · cases words
  · rcases List.mem_map.mp words with ⟨_, _, rfl⟩
    exact bound

theorem planRow_window {asrTokens : List AsrTimingToken} (result : UtrResult) {row : UtrRow}
    (inside : ∀ range ∈ row.uttRange,
      range.1 < asrTokens.length ∧ range.2 < asrTokens.length) :
    ∃ planned, planRow asrTokens result row = some planned ∧
      planned.2 = if row.info.hasBullet then none else matchedWindow asrTokens row.uttRange := by
  simp only [planRow]
  by_cases timed : row.info.hasBullet = true
  · rw [if_pos timed, if_pos timed]
    exact ⟨_, rfl, rfl⟩
  · rw [if_neg timed, if_neg timed]
    cases matched : row.uttRange with
    | none => exact ⟨_, rfl, rfl⟩
    | some range =>
        have bounds := inside range matched
        simp only [List.getElem?_eq_getElem bounds.1, List.getElem?_eq_getElem bounds.2,
          matchedWindow, Option.bind_eq_bind, Option.bind_some]
        split
        · exact ⟨_, rfl, rfl⟩
        · exact ⟨_, rfl, rfl⟩

theorem planRows_windows {asrTokens : List AsrTimingToken} (result : UtrResult)
    {rows : List UtrRow} (inside : ∀ row ∈ rows, ∀ range ∈ row.uttRange,
      range.1 < asrTokens.length ∧ range.2 < asrTokens.length) :
    ∃ planned, planRows asrTokens result rows = some planned ∧
      planned.2 = rows.map fun row =>
        if row.info.hasBullet then none else matchedWindow asrTokens row.uttRange := by
  induction rows generalizing result with
  | nil => exact ⟨_, rfl, rfl⟩
  | cons row rows ih =>
      have inside := List.forall_mem_cons.mp inside
      rcases planRow_window result inside.1 with ⟨planned, isPlanned, window⟩
      rcases ih planned.1 inside.2 with ⟨rest, isRest, windows⟩
      refine ⟨(rest.1, planned.2 :: rest.2), ?_, ?_⟩
      · simp only [planRows, isPlanned, Option.bind_eq_bind, Option.bind_some, isRest]
      · rw [List.map_cons, ← window, ← windows]

variable [Talkbank] [OverlapMarkers] [Float64]

/-- The post-pass sets the windows of the slots. -/
theorem enforceFloor_eq (asrTokens : List AsrTimingToken) (floorEndMs : ℕ)
    (utts : List (ℕ × Utterance)) (uttRanges : UtrTokenRanges) :
    enforceFloor floorEndMs ((List.zipWith utrRow utts uttRanges).zip
      ((List.zipWith utrRow utts uttRanges).map fun row =>
        if row.info.hasBullet then none else matchedWindow asrTokens row.uttRange)) =
      setWindows floorEndMs (List.zipWith (fun utt uttRange =>
        slotOf utt.2 (matchedWindow asrTokens uttRange)) utts uttRanges) := by
  induction utts generalizing floorEndMs uttRanges with
  | nil => rfl
  | cons utt utts ih =>
      cases uttRanges with
      | nil => rfl
      | cons uttRange uttRanges =>
          simp only [List.zipWith_cons_cons, List.map_cons, List.zip_cons_cons, enforceFloor, ih]
          change (if isOverlap utt.2 = true then
            (if utt.2.bullet.isSome = true then none else matchedWindow asrTokens uttRange) :: _
            else if utt.2.bullet.isSome = true then
              (if utt.2.bullet.isSome = true then none else matchedWindow asrTokens uttRange) ::
                setWindows ((utt.2.bullet.map Bullet.timing).elim floorEndMs
                  fun existing => max floorEndMs existing.endMs) _
            else match (if utt.2.bullet.isSome = true then none
              else matchedWindow asrTokens uttRange) with
              | some window =>
                  some (pushToFloor floorEndMs window) ::
                    setWindows (pushToFloor floorEndMs window).endMs _
              | none => none :: setWindows floorEndMs _) =
            setWindows floorEndMs (slotOf utt.2 (matchedWindow asrTokens uttRange) :: _)
          have part := slotOf_case utt.2 (matchedWindow asrTokens uttRange)
          generalize slotOf utt.2 (matchedWindow asrTokens uttRange) = slot at part ⊢
          generalize matchedWindow asrTokens uttRange = window at part ⊢
          cases part with
          | fixed timed apart =>
              simp only [timed, apart, Bool.false_eq_true, if_false]
              rfl
          | timedOverlap timed overlap =>
              simp only [timed, overlap, if_true]
              rfl
          | matched untimed apart =>
              simp only [untimed, apart, Bool.false_eq_true, if_false, Option.isSome_none]
              rfl
          | overlap untimed overlap =>
              simp only [untimed, overlap, if_true, Option.isSome_none]
              rfl
          | unmatched untimed =>
              cases isOverlap utt.2 <;>
                simp only [untimed, Bool.false_eq_true, if_false, if_true, Option.isSome_none] <;>
                rfl

variable {Threshold : Type} [Similarity Threshold]

theorem plannedRanges_spec (chat : ChatFile) (asrTokens : List AsrTimingToken)
    (skipLazyOverlap : Bool) (dpMatchMode : MatchMode Threshold) :
    let words := flattenedWords skipLazyOverlap (collectUtrUtteranceInfo chat)
    ∃ plan, planUtrAlignment (words.map Prod.fst) (asrTokens.map AsrTimingToken.text)
        (words.map Prod.snd) (collectUtrUtteranceInfo chat).length dpMatchMode = some plan ∧
      plannedRanges chat asrTokens skipLazyOverlap dpMatchMode = plan.uttRanges ∧
      RangesFit plan.uttRanges chat.utterances.length asrTokens.length := by
  intro words
  have utts := flattenedWords_bounds skipLazyOverlap (collectUtrUtteranceInfo chat)
  rcases @planUtrAlignment_fits _ _ (words.map Prod.fst) (asrTokens.map AsrTimingToken.text)
    (words.map Prod.snd) _ (by simp) utts dpMatchMode with ⟨plan, planned, fits⟩
  refine ⟨plan, planned, ?_, ?_⟩
  · change ((planUtrAlignment _ _ _ _ dpMatchMode).map _).getD [] = _
    rw [planned]
    rfl
  · simpa [collectUtrUtteranceInfo] using fits

theorem setWindows_unmatched (floorEndMs : ℕ) (utts : List Utterance)
    (uttRanges : UtrTokenRanges) :
    ∀ window ∈ setWindows floorEndMs (List.zipWith (fun utt uttRange =>
      slotOf utt (matchedWindow [] uttRange)) utts uttRanges), window = none := by
  induction utts generalizing floorEndMs uttRanges with
  | nil => simp [setWindows]
  | cons utt utts ih =>
      cases uttRanges with
      | nil => simp [setWindows]
      | cons uttRange uttRanges =>
          rw [List.zipWith_cons_cons, matchedWindow_nil]
          have part := slotOf_case utt none
          generalize slotOf utt none = slot at part ⊢
          cases part with
          | fixed _ _ | timedOverlap _ _ | unmatched _ =>
              exact List.forall_mem_cons.mpr ⟨rfl, ih _ _⟩

/-- The rows of the planning loop. -/
def plannedRows (chat : ChatFile) (asrTokens : List AsrTimingToken) (skipLazyOverlap : Bool)
    (dpMatchMode : MatchMode Threshold) : List UtrRow :=
  List.zipWith utrRow (utteranceLines chat)
    (plannedRanges chat asrTokens skipLazyOverlap dpMatchMode)

/-- With tokens, the pass runs the planning loop and sets the windows of the slots as hints. -/
theorem runGlobalUtr_planned (chat : ChatFile) {asrTokens : List AsrTimingToken}
    (tokens : asrTokens ≠ []) (skipLazyOverlap : Bool) (dpMatchMode : MatchMode Threshold) :
    ∃ planned, planRows asrTokens .empty
        (plannedRows chat asrTokens skipLazyOverlap dpMatchMode) = some planned ∧
      enforceFloor 0 ((plannedRows chat asrTokens skipLazyOverlap dpMatchMode).zip planned.2) =
        setWindows 0 (slots chat asrTokens skipLazyOverlap dpMatchMode) ∧
      runGlobalUtr chat asrTokens skipLazyOverlap dpMatchMode = some (planned.1, { chat with
        lines := hintLines
          (setWindows 0 (slots chat asrTokens skipLazyOverlap dpMatchMode)) chat.lines }) := by
  rcases plannedRanges_spec chat asrTokens skipLazyOverlap dpMatchMode with
    ⟨plan, planned, ranges, fits⟩
  have inside : ∀ row ∈ List.zipWith utrRow (utteranceLines chat) plan.uttRanges,
      ∀ range ∈ row.uttRange,
        range.1 < asrTokens.length ∧ range.2 < asrTokens.length := by
    intro row member
    rcases List.mem_iff_getElem.mp member with ⟨index, bound, rfl⟩
    rw [List.getElem_zipWith]
    exact fits.inside _ (List.getElem_mem _)
  rcases planRows_windows .empty inside with ⟨result, isResult, windows⟩
  have floored : enforceFloor 0 ((List.zipWith utrRow (utteranceLines chat) plan.uttRanges).zip
      result.2) = setWindows 0 (slots chat asrTokens skipLazyOverlap dpMatchMode) := by
    rw [windows, enforceFloor_eq, slots, ranges, ← utteranceLines_map_snd, List.zipWith_map_left]
  refine ⟨result, ?_, ?_, ?_⟩
  · rw [plannedRows, ranges, isResult]
  · rw [plannedRows, ranges, floored]
  · simp only [runGlobalUtr, List.isEmpty_eq_false_iff.mpr tokens, Bool.false_eq_true, if_false,
      Option.bind_eq_bind, planned, Option.bind_some, isResult, floored]
    rfl

/-- The whole pass: it never panics, and it sets the windows of the slots as hints. -/
theorem runGlobalUtr_eq (chat : ChatFile) (asrTokens : List AsrTimingToken)
    (skipLazyOverlap : Bool) (dpMatchMode : MatchMode Threshold) :
    ∃ result, runGlobalUtr chat asrTokens skipLazyOverlap dpMatchMode =
      some (result, { chat with
        lines := hintLines
          (setWindows 0 (slots chat asrTokens skipLazyOverlap dpMatchMode)) chat.lines }) := by
  by_cases tokens : asrTokens = []
  · subst tokens
    refine ⟨withoutTokens chat, ?_⟩
    rw [slots, hintLines_none (setWindows_unmatched _ _ _)]
    rfl
  · rcases runGlobalUtr_planned chat tokens skipLazyOverlap dpMatchMode with
      ⟨planned, _, _, ran⟩
    exact ⟨planned.1, ran⟩

theorem slots_length (chat : ChatFile) (asrTokens : List AsrTimingToken)
    (skipLazyOverlap : Bool) (dpMatchMode : MatchMode Threshold) :
    (slots chat asrTokens skipLazyOverlap dpMatchMode).length = chat.utterances.length := by
  rcases plannedRanges_spec chat asrTokens skipLazyOverlap dpMatchMode with
    ⟨plan, _, ranges, fits⟩
  rw [slots, List.length_zipWith, ranges, fits.length, min_self]

end Plan

section Result

variable [Talkbank] [OverlapMarkers] [Float64]

/-- The windows of the non-overlap utterances after the pass are those of the slots. -/
theorem nonOverlapWindows_withHint (floorEndMs : ℕ) (utts : List Utterance)
    {windows : List (Option Timing)} (lengths : windows.length = utts.length) :
    nonOverlapWindows utts
        (List.zipWith withHint utts
          (setWindows floorEndMs (List.zipWith slotOf utts windows))) =
      finalWindows floorEndMs (List.zipWith slotOf utts windows) := by
  induction utts generalizing floorEndMs windows with
  | nil => rfl
  | cons utt utts ih =>
      cases windows with
      | nil => cases lengths
      | cons window windows =>
          simp only [List.length_cons, Nat.add_right_cancel_iff] at lengths
          have part := slotOf_case utt window
          rw [List.zipWith_cons_cons]
          generalize slotOf utt window = slot at part ⊢
          cases part with
          | fixed timed apart =>
              rw [setWindows, List.zipWith_cons_cons, nonOverlapWindows_cons, ih _ lengths]
              simp [withHint, timed, apart, finalWindows]
          | timedOverlap timed overlap =>
              rw [setWindows, List.zipWith_cons_cons, nonOverlapWindows_cons, ih _ lengths]
              simp [overlap, finalWindows]
          | matched untimed apart =>
              rw [setWindows, List.zipWith_cons_cons, nonOverlapWindows_cons, ih _ lengths]
              simp only [apart, withHint, untimed]
              rfl
          | overlap untimed overlap =>
              rw [setWindows, List.zipWith_cons_cons, nonOverlapWindows_cons, ih _ lengths]
              simp [overlap, finalWindows]
          | unmatched untimed =>
              rw [setWindows, List.zipWith_cons_cons, nonOverlapWindows_cons, ih _ lengths]
              simp [withHint, untimed, finalWindows]

/-- Only untimed utterances get a window. -/
theorem setWindows_untimed (floorEndMs : ℕ) (utts : List Utterance)
    (windows : List (Option Timing)) :
    ∀ row ∈ utts.zip (setWindows floorEndMs (List.zipWith slotOf utts windows)),
      ∀ window ∈ row.2, row.1.bullet = none := by
  induction utts generalizing floorEndMs windows with
  | nil => simp
  | cons utt utts ih =>
      cases windows with
      | nil => simp [setWindows]
      | cons window windows =>
          have part := slotOf_case utt window
          rw [List.zipWith_cons_cons]
          generalize slotOf utt window = slot at part ⊢
          cases part with
          | fixed timed apart =>
              exact List.forall_mem_cons.mpr ⟨by simp, ih _ windows⟩
          | timedOverlap timed overlap =>
              exact List.forall_mem_cons.mpr ⟨by simp, ih _ windows⟩
          | matched untimed _ | overlap untimed _ | unmatched untimed =>
              exact List.forall_mem_cons.mpr ⟨fun _ _ => untimed, ih _ windows⟩

variable {Threshold : Type} [Similarity Threshold]

theorem slots_eq (chat : ChatFile) (asrTokens : List AsrTimingToken) (skipLazyOverlap : Bool)
    (dpMatchMode : MatchMode Threshold) :
    slots chat asrTokens skipLazyOverlap dpMatchMode = List.zipWith slotOf chat.utterances
      ((plannedRanges chat asrTokens skipLazyOverlap dpMatchMode).map
        (matchedWindow asrTokens)) := by
  rw [slots, List.zipWith_map_right]

/-- What the pass leaves, in terms of the slots. -/
structure GlobalResult (chat : ChatFile) (slots : List Slot) (after : ChatFile) : Prop where
  eq : after = { chat with lines := hintLines (setWindows 0 slots) chat.lines }
  utterances : after.utterances = List.zipWith withHint chat.utterances (setWindows 0 slots)
  windows : nonOverlapWindows chat.utterances after.utterances = finalWindows 0 slots
  untimed : ∀ row ∈ chat.utterances.zip (setWindows 0 slots), ∀ window ∈ row.2,
    row.1.bullet = none

theorem runGlobalUtr_result (chat : ChatFile) (asrTokens : List AsrTimingToken)
    (skipLazyOverlap : Bool) (dpMatchMode : MatchMode Threshold) :
    ∃ result after, runGlobalUtr chat asrTokens skipLazyOverlap dpMatchMode =
        some (result, after) ∧
      GlobalResult chat (slots chat asrTokens skipLazyOverlap dpMatchMode) after := by
  rcases runGlobalUtr_eq chat asrTokens skipLazyOverlap dpMatchMode with ⟨result, isResult⟩
  refine ⟨result, _, isResult, ?_⟩
  have lengths := slots_length chat asrTokens skipLazyOverlap dpMatchMode
  have utterances : (hintLines (setWindows 0
      (slots chat asrTokens skipLazyOverlap dpMatchMode)) chat.lines).filterMap
        Line.utterance? = List.zipWith withHint chat.utterances (setWindows 0
          (slots chat asrTokens skipLazyOverlap dpMatchMode)) := by
    apply hintLines_utterances
    rw [setWindows_length, lengths]
    rfl
  refine ⟨rfl, utterances, ?_, ?_⟩
  · change nonOverlapWindows chat.utterances ((hintLines _ chat.lines).filterMap _) = _
    rw [utterances, slots_eq]
    apply nonOverlapWindows_withHint
    rcases plannedRanges_spec chat asrTokens skipLazyOverlap dpMatchMode with
      ⟨plan, _, ranges, fits⟩
    rw [List.length_map, ranges, fits.length]
  · rw [slots_eq]
    exact setWindows_untimed 0 _ _

end Result

end Batchalign.Utr
