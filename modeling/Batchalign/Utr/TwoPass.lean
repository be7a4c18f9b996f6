import Batchalign.Utr.Ordered

/-!
# The two-pass strategy

`TwoPassOverlapUtr` of `batchalign-core/src/taskrunners/utr/two_pass.rs`. A first global
pass may leave the overlap utterances out; a second pass looks for their words near the
utterance before them. The result is kept unless a plain global pass times more utterances.
-/

namespace Batchalign.Utr

open Batchalign.Alignment Batchalign.Chat Batchalign.Fa

section Config

inductive CaMarkerPolicy where
  | enabled
  | disabled
deriving DecidableEq, Repr

def CaMarkerPolicy.isEnabled : CaMarkerPolicy → Bool
  | .enabled => true
  | .disabled => false

inductive UtrMatchMode (Threshold : Type) where
  | exact
  | fuzzy (threshold : Threshold)

def UtrMatchMode.toDpMatchMode {Threshold : Type} : UtrMatchMode Threshold → MatchMode Threshold
  | .exact => .caseInsensitive
  | .fuzzy threshold => .fuzzy threshold

structure TwoPassConfig (Threshold : Type) where
  caMarkers : CaMarkerPolicy
  maxExclusionDensity : ℚ
  tightBufferMs : ℕ
  matchMode : UtrMatchMode Threshold

end Config

section Recovery

variable {Threshold : Type} [Similarity Threshold]

/-- The span of the matched tokens. -/
def spanToken (span : Option Timing) (token : AsrTimingToken) : Option Timing :=
  match span with
  | some span => some ⟨min span.startMs token.startMs, max span.endMs token.endMs⟩
  | none => some ⟨token.startMs, token.endMs⟩

/-- The reference indices of the aligner are those of the windowed tokens. -/
def recoverOverlapTiming (words : List String) (asrTokens : List AsrTimingToken)
    (windowStartMs windowEndMs : ℕ) (dpMatchMode : MatchMode Threshold) : Option Timing :=
  let windowed := asrTokens.filter fun token =>
    token.startMs < windowEndMs && token.endMs > windowStartMs
  if windowed.isEmpty then none
  else
    ((align words (windowed.map AsrTimingToken.text) dpMatchMode).filterMap fun
      | .matchPair _ _ referenceIdx => windowed[referenceIdx]?
      | .extraPayload _ _ | .extraReference _ _ => none).foldl spanToken none

def findPredecessorBullet (uttIdx : ℕ) (uttBullets : List (Option Timing)) : Option Timing :=
  (uttBullets.take uttIdx).reverse.findSome? id

/-- The scan of the top regions, from the nearest utterance before. -/
def matchingTopOnset (current : UtrUtteranceInfo) : List UtrUtteranceInfo → Option ℚ
  | [] => none
  | previous :: infos =>
      if previous.speaker = current.speaker then matchingTopOnset current infos
      else match previous.topOnsets.find? fun onset =>
          current.bottomIndices.isEmpty || current.bottomIndices.contains onset.1 with
        | some onset => some onset.2
        | none => if previous.hasBullet then none else matchingTopOnset current infos

/-- The nearest onset fraction, up to the nearest utterance with a bullet. -/
def nearestOnset : List UtrUtteranceInfo → Option ℚ
  | [] => none
  | previous :: infos =>
      match previous.overlapOnsetFraction with
      | some fraction => some fraction
      | none => if previous.hasBullet then none else nearestOnset infos

def findPredecessorOnsetFraction (uttIdx : ℕ) (uttInfos : List UtrUtteranceInfo) : Option ℚ :=
  uttInfos[uttIdx]?.bind fun current =>
    let before := (uttInfos.take uttIdx).reverse
    match matchingTopOnset current before with
    | some fraction => some fraction
    | none => if current.bottomIndices.isEmpty then nearestOnset before else none

/-- `as u64`: towards zero, and to the nearest bound outside the range. -/
def floatToU64 (x : ℚ) : ℕ := min x.floor.toNat (2 ^ 64 - 1)

variable [Float64]

def anchorStart (predecessor : Timing) (predOnsetFraction : Option ℚ) : ℕ :=
  match predOnsetFraction with
  | some fraction =>
      (predecessor.startMs + floatToU64 (Float64.round (fraction *
        Float64.round ((predecessor.endMs - predecessor.startMs : ℕ) : ℚ)))) % 2 ^ 64
  | none => predecessor.startMs

/-- The tight window first, then wider ones. -/
def recoverWithAdaptiveWindow (words : List String) (asrTokens : List AsrTimingToken)
    (uttIdx : ℕ) (uttBullets : List (Option Timing)) (predOnsetFraction : Option ℚ)
    (config : TwoPassConfig Threshold) : Option Timing :=
  (findPredecessorBullet uttIdx uttBullets).bind fun predecessor =>
    let predDuration := predecessor.endMs - predecessor.startMs
    let anchor := anchorStart predecessor predOnsetFraction
    [config.tightBufferMs, max predDuration 2000, max (predDuration * 2 % 2 ^ 64) 5000].findSome?
      fun bufferMs =>
        recoverOverlapTiming words asrTokens (anchor - bufferMs)
          ((predecessor.endMs + bufferMs) % 2 ^ 64) config.matchMode.toDpMatchMode

end Recovery

section Passes

variable [Talkbank] [OverlapMarkers] [Float64] {Threshold : Type} [Similarity Threshold]

def isExcluded (config : TwoPassConfig Threshold) (info : UtrUtteranceInfo) : Bool :=
  info.hasLazyOverlap || config.caMarkers.isEnabled && info.hasCaOverlap

/-- The first pass leaves overlap utterances out unless there are too many. -/
def skipInPass1 (chat : ChatFile) (config : TwoPassConfig Threshold) : Bool :=
  let preInfos := collectUtrUtteranceInfo chat
  let overlapUtts := preInfos.countP (isExcluded config)
  let overlapFraction :=
    if preInfos.length > 0 then
      Float64.round (Float64.round (overlapUtts : ℚ) / Float64.round (preInfos.length : ℚ))
    else 0
  overlapFraction ≤ config.maxExclusionDensity

def firstPass (chat : ChatFile) (asrTokens : List AsrTimingToken)
    (config : TwoPassConfig Threshold) : Option (UtrResult × ChatFile) :=
  runGlobalUtr chat asrTokens (skipInPass1 chat config) config.matchMode.toDpMatchMode

/-- What the second pass recovers for one utterance. -/
def recoveredWindow (asrTokens : List AsrTimingToken) (config : TwoPassConfig Threshold)
    (uttInfos : List UtrUtteranceInfo) (uttBullets : List (Option Timing))
    (info : UtrUtteranceInfo × ℕ) : Option Timing :=
  if !isExcluded config info.1 || info.1.hasBullet || info.1.words.isEmpty then none
  else
    let predOnsetFraction :=
      if config.caMarkers.isEnabled then findPredecessorOnsetFraction info.2 uttInfos else none
    recoverWithAdaptiveWindow info.1.words asrTokens info.2 uttBullets predOnsetFraction config

/-- The windows of the second pass, one entry for each utterance. -/
def pass2Windows (chat : ChatFile) (asrTokens : List AsrTimingToken)
    (config : TwoPassConfig Threshold) : List (Option Timing) :=
  let uttInfos := collectUtrUtteranceInfo chat
  let uttBullets := chat.utterances.map fun utt => utt.bullet.map Bullet.timing
  uttInfos.zipIdx.map (recoveredWindow asrTokens config uttInfos uttBullets)

def countRecovered (result : UtrResult) (recovered : ℕ) : UtrResult :=
  { result with
    unmatched := result.unmatched - recovered
    injected := result.injected + recovered }

def runTwoPassInner (chat : ChatFile) (asrTokens : List AsrTimingToken)
    (config : TwoPassConfig Threshold) : Option (UtrResult × ChatFile) := do
  let (result, chat) ← firstPass chat asrTokens config
  if asrTokens.isEmpty then some (result, chat)
  else
    let pass2Bullets := pass2Windows chat asrTokens config
    some (countRecovered result (pass2Bullets.countP Option.isSome), { chat with
      lines := setBullets (pass2Bullets.map (Option.map fun window =>
        Bullet.new window.startMs window.endMs)) chat.lines })

def countTimedUtterances (chat : ChatFile) : ℕ :=
  chat.utterances.countP fun utt => utt.bullet.isSome

/-- `TwoPassOverlapUtr::inject`. -/
def twoPassInject (chat : ChatFile) (asrTokens : List AsrTimingToken)
    (config : TwoPassConfig Threshold) : Option (UtrResult × ChatFile) := do
  let twoPass ← runTwoPassInner chat asrTokens config
  let global ← runGlobalUtr chat asrTokens false config.matchMode.toDpMatchMode
  if countTimedUtterances twoPass.2 ≥ countTimedUtterances global.2 then some twoPass
  else some global

end Passes

section Hints

/-- A bullet as UTR should leave it: positive, and marked for a later alignment to replace. -/
def IsHint (bullet : Bullet) : Prop :=
  bullet.timing.startMs < bullet.timing.endMs ∧ bullet.source = .utr

/-- Nothing changed but that untimed utterances got hints. -/
def OnlyHints (chat after : ChatFile) : Prop :=
  after.participants = chat.participants ∧ List.Forall₂ (Hinted IsHint) chat.lines after.lines

theorem Hinted.of_withBullet {allowed : Bullet → Prop} {utt : Utterance} {bullet : Bullet}
    (untimed : utt.bullet = none)
    (hinted : Hinted allowed (.utterance utt) (.utterance (utt.withBullet (some bullet)))) :
    allowed bullet := by
  generalize changed : utt.withBullet (some bullet) = utt' at hinted
  cases hinted with
  | kept _ =>
      have same := congrArg Utterance.bullet changed
      rw [untimed] at same
      cases same
  | hinted _ ok =>
      have same := congrArg Utterance.bullet changed
      cases same
      exact ok

/-- In an untimed transcript every bullet that was set is a hint. -/
theorem OnlyHints.isHint {chat after : ChatFile} (onlyHints : OnlyHints chat after)
    (untimed : ∀ utt ∈ chat.utterances, utt.bullet = none) :
    ∀ utt ∈ after.utterances, ∀ bullet, utt.bullet = some bullet → IsHint bullet := by
  rcases onlyHints with ⟨_, hinted⟩
  simp only [ChatFile.utterances] at untimed ⊢
  generalize chat.lines = lines, after.lines = lines' at untimed hinted ⊢
  induction hinted with
  | nil => simp
  | @cons line line' lines lines' head _ ih =>
      cases head with
      | kept _ =>
          cases line with
          | utterance utt =>
              have untimed := List.forall_mem_cons.mp untimed
              refine List.forall_mem_cons.mpr ⟨?_, ih untimed.2⟩
              intro bullet isBullet
              rw [untimed.1] at isBullet
              cases isBullet
          | header _ => exact ih untimed
          | other _ => exact ih untimed
      | hinted _ ok =>
          refine List.forall_mem_cons.mpr ⟨?_, ih (List.forall_mem_cons.mp untimed).2⟩
          intro bullet isBullet
          rw [Utterance.withBullet_bullet, Option.some_inj] at isBullet
          rwa [← isBullet]

/-- When the windows of some hints are all set, the result is hinted exactly when they are
positive. -/
theorem hintLines_hinted_iff {windows : List (Option Timing)} {lines : List Line}
    (lengths : windows.length = (lines.filterMap Line.utterance?).length)
    (untimed : ∀ row ∈ (lines.filterMap Line.utterance?).zip windows, ∀ window ∈ row.2,
      row.1.bullet = none) :
    List.Forall₂ (Hinted IsHint) lines (hintLines windows lines) ↔
      ∀ window ∈ windows, ∀ timing ∈ window, timing.startMs < timing.endMs := by
  constructor
  · intro hinted
    induction lines generalizing windows with
    | nil =>
        rw [List.length_eq_zero_iff.mp lengths]
        simp
    | cons line lines ih =>
        cases line with
        | utterance utt =>
            cases windows with
            | nil => simp
            | cons window windows =>
                simp only [List.filterMap_cons, Line.utterance?, List.length_cons,
                  Nat.add_right_cancel_iff] at lengths
                simp only [List.filterMap_cons, Line.utterance?, List.zip_cons_cons] at untimed
                have untimed := List.forall_mem_cons.mp untimed
                rw [hintLines_utterance] at hinted
                have hinted := List.forall₂_cons.mp hinted
                refine List.forall_mem_cons.mpr ⟨?_, ih lengths untimed.2 hinted.2⟩
                intro timing isTiming
                cases isTiming
                exact (Hinted.of_withBullet (untimed.1 timing rfl) hinted.1).1
        | header header =>
            rw [hintLines_header] at hinted
            exact ih lengths untimed (List.forall₂_cons.mp hinted).2
        | other text =>
            rw [hintLines_other] at hinted
            exact ih lengths untimed (List.forall₂_cons.mp hinted).2
  · intro positive
    apply hintLines_hinted
    intro row member window isWindow
    refine ⟨untimed row member window isWindow, ?_, rfl⟩
    exact positive row.2 (List.of_mem_zip member).2 window isWindow

/-- The windows the pass sets are positive exactly when its new windows are, since overlap
utterances get their matched windows. -/
theorem setWindows_positive_iff {slots : List Slot} (floorEndMs : ℕ)
    (passed : ∀ window, .passed (some window) ∈ slots → window.startMs < window.endMs) :
    (∀ window ∈ setWindows floorEndMs slots, ∀ timing ∈ window,
        timing.startMs < timing.endMs) ↔
      ∀ window ∈ finalWindows floorEndMs slots, window.1 = true →
        window.2.startMs < window.2.endMs := by
  induction slots generalizing floorEndMs with
  | nil => simp [setWindows, finalWindows]
  | cons slot slots ih =>
      have rest := fun window member => passed window (List.mem_cons_of_mem _ member)
      cases slot with
      | passed window =>
          rw [setWindows, finalWindows, List.forall_mem_cons, ih floorEndMs rest]
          apply and_iff_right
          intro timing isTiming
          cases isTiming
          exact passed timing List.mem_cons_self
      | fixed window =>
          rw [setWindows, finalWindows, List.forall_mem_cons, List.forall_mem_cons, ih _ rest]
          simp
      | matched window =>
          rw [setWindows, finalWindows, List.forall_mem_cons, List.forall_mem_cons, ih _ rest]
          simp

/-- A second pass that sets authoritative bullets on untimed lines leaves hints only when it sets
none. -/
theorem recovered_none_of_hinted {windows : List (Option Timing)}
    {recovered : List (Option Bullet)} {lines : List Line}
    (windowLengths : windows.length = (lines.filterMap Line.utterance?).length)
    (lengths : recovered.length = (lines.filterMap Line.utterance?).length)
    (authoritative : ∀ row ∈ ((hintLines windows lines).filterMap Line.utterance?).zip recovered,
      ∀ bullet ∈ row.2, row.1.bullet = none ∧ bullet.source = .authoritative)
    (hinted : List.Forall₂ (Hinted IsHint) lines
      (setBullets recovered (hintLines windows lines))) :
    ∀ bullet ∈ recovered, bullet = none := by
  induction lines generalizing windows recovered with
  | nil =>
      rw [List.length_eq_zero_iff.mp lengths]
      simp
  | cons line lines ih =>
      cases line with
      | utterance utt =>
          cases recovered with
          | nil => simp
          | cons bullet recovered =>
              cases windows with
              | nil => cases windowLengths
              | cons window windows =>
                  simp only [List.filterMap_cons, Line.utterance?, List.length_cons,
                    Nat.add_right_cancel_iff] at windowLengths lengths
                  rw [hintLines_utterance] at hinted authoritative
                  simp only [List.filterMap_cons, Line.utterance?, List.zip_cons_cons]
                    at authoritative
                  have authoritative := List.forall_mem_cons.mp authoritative
                  have hinted := List.forall₂_cons.mp hinted
                  refine List.forall_mem_cons.mpr
                    ⟨?_, ih windowLengths lengths authoritative.2 hinted.2⟩
                  cases bullet with
                  | none => rfl
                  | some bullet =>
                      have marked := authoritative.1 bullet rfl
                      cases window with
                      | some window => cases marked.1
                      | none =>
                          have isHint := Hinted.of_withBullet marked.1 hinted.1
                          rw [isHint.2] at marked
                          cases marked.2
      | header header =>
          rw [hintLines_header] at hinted authoritative
          rw [setBullets_header] at hinted
          exact ih windowLengths lengths authoritative (List.forall₂_cons.mp hinted).2
      | other text =>
          rw [hintLines_other] at hinted authoritative
          rw [setBullets_other] at hinted
          exact ih windowLengths lengths authoritative (List.forall₂_cons.mp hinted).2

def timedCount (lines : List Line) : ℕ :=
  (lines.filterMap Line.utterance?).countP fun utt => utt.bullet.isSome

theorem timedCount_utterance (utt : Utterance) (lines : List Line) :
    timedCount (.utterance utt :: lines) =
      timedCount lines + if utt.bullet.isSome then 1 else 0 := by
  simp only [timedCount, List.filterMap_cons, Line.utterance?, List.countP_cons]

/-- Every bullet set on an untimed utterance counts. -/
theorem timedCount_setBullets {bullets : List (Option Bullet)} {lines : List Line}
    (lengths : bullets.length = (lines.filterMap Line.utterance?).length)
    (untimed : ∀ row ∈ (lines.filterMap Line.utterance?).zip bullets, ∀ bullet ∈ row.2,
      row.1.bullet = none) :
    timedCount (setBullets bullets lines) = timedCount lines + bullets.countP Option.isSome := by
  induction lines generalizing bullets with
  | nil =>
      rw [List.length_eq_zero_iff.mp lengths]
      rfl
  | cons line lines ih =>
      cases line with
      | utterance utt =>
          cases bullets with
          | nil => cases lengths
          | cons bullet bullets =>
              simp only [List.filterMap_cons, Line.utterance?, List.length_cons,
                Nat.add_right_cancel_iff] at lengths
              simp only [List.filterMap_cons, Line.utterance?, List.zip_cons_cons] at untimed
              have untimed := List.forall_mem_cons.mp untimed
              have rest := ih lengths untimed.2
              cases bullet with
              | none =>
                  rw [setBullets, timedCount_utterance, timedCount_utterance, rest,
                    List.countP_cons_of_neg (by simp)]
                  omega
              | some bullet =>
                  rw [setBullets, timedCount_utterance, timedCount_utterance, rest,
                    List.countP_cons_of_pos rfl, untimed.1 bullet rfl]
                  simp only [Utterance.withBullet_bullet, Option.isSome_some, if_true,
                    Option.isSome_none, Bool.false_eq_true, if_false]
                  omega
      | header header =>
          rw [setBullets_header]
          exact ih lengths untimed
      | other text =>
          rw [setBullets_other]
          exact ih lengths untimed

/-- The slot gets a window. -/
def Slot.setsWindow : Slot → Bool
  | .passed window => window.isSome
  | .fixed _ => false
  | .matched _ => true

def hintCount (slots : List Slot) : ℕ := slots.countP Slot.setsWindow

theorem countP_setWindows (floorEndMs : ℕ) (slots : List Slot) :
    (setWindows floorEndMs slots).countP Option.isSome = hintCount slots := by
  induction slots generalizing floorEndMs with
  | nil => rfl
  | cons slot slots ih =>
      simp only [hintCount] at ih ⊢
      cases slot with
      | passed window =>
          rw [setWindows, List.countP_cons, List.countP_cons, ih]
          rfl
      | fixed window =>
          rw [setWindows, List.countP_cons, List.countP_cons, ih]
          rfl
      | matched window =>
          rw [setWindows, List.countP_cons, List.countP_cons, ih]
          rfl

variable [Talkbank] [OverlapMarkers] [Float64] {Threshold : Type} [Similarity Threshold]

theorem GlobalResult.onlyHints_iff {chat after : ChatFile} {asrTokens : List AsrTimingToken}
    {skipLazyOverlap : Bool} {dpMatchMode : MatchMode Threshold}
    (inRange : TimesInRange chat asrTokens)
    (global : GlobalResult chat (slots chat asrTokens skipLazyOverlap dpMatchMode) after) :
    OnlyHints chat after ↔
      EndsWithin (2 ^ 64 - 1) (slots chat asrTokens skipLazyOverlap dpMatchMode) := by
  have valid := slots_valid inRange skipLazyOverlap dpMatchMode
  have lengths : (setWindows 0 (slots chat asrTokens skipLazyOverlap dpMatchMode)).length =
      chat.utterances.length := by
    rw [setWindows_length, slots_length]
  rw [← finalWindows_positive_iff valid, ← setWindows_positive_iff 0 ?_,
    ← hintLines_hinted_iff lengths global.untimed, global.eq]
  · exact and_iff_right rfl
  · intro window member
    exact valid _ member window rfl

theorem GlobalResult.countTimed {chat after : ChatFile} {slots : List Slot}
    (global : GlobalResult chat slots after) (lengths : slots.length = chat.utterances.length) :
    countTimedUtterances after = countTimedUtterances chat + hintCount slots := by
  have counted := @timedCount_setBullets ((setWindows 0 slots).map (Option.map fun window =>
    Bullet.utrHint window.startMs window.endMs)) chat.lines ?_ ?_
  · rw [global.eq]
    refine counted.trans ?_
    rw [List.countP_map, ← countP_setWindows 0 slots]
    congr 1
    apply List.countP_congr
    intro window _
    simp
  · rw [List.length_map, setWindows_length, lengths]
    rfl
  · intro row member bullet isBullet
    rw [List.zip_map_right] at member
    rcases List.mem_map.mp member with ⟨⟨utt, window⟩, inside, rfl⟩
    rcases Option.map_eq_some_iff.mp isBullet with ⟨window', isWindow, _⟩
    exact global.untimed (utt, window) inside window' isWindow

theorem pass2Windows_length (chat : ChatFile) (asrTokens : List AsrTimingToken)
    (config : TwoPassConfig Threshold) :
    (pass2Windows chat asrTokens config).length = chat.utterances.length := by
  simp [pass2Windows, collectUtrUtteranceInfo]

/-- The second pass only recovers untimed utterances. -/
theorem pass2Windows_untimed (chat : ChatFile) (asrTokens : List AsrTimingToken)
    (config : TwoPassConfig Threshold) :
    ∀ row ∈ chat.utterances.zip (pass2Windows chat asrTokens config), ∀ window ∈ row.2,
      row.1.bullet = none := by
  intro row member window isWindow
  rcases List.mem_iff_getElem.mp member with ⟨index, bound, rfl⟩
  simp only [List.getElem_zip, pass2Windows, List.getElem_map, List.getElem_zipIdx,
    collectUtrUtteranceInfo] at isWindow ⊢
  simp only [recoveredWindow] at isWindow
  split at isWindow
  · cases isWindow
  · rename_i kept
    simp only [Bool.or_eq_true, not_or, utteranceInfo, Bool.not_eq_true,
      Option.isSome_eq_false_iff, Option.isNone_iff_eq_none] at kept
    exact kept.1.2

theorem pass2Windows_nil (chat : ChatFile) (config : TwoPassConfig Threshold) :
    ∀ window ∈ pass2Windows chat [] config, window = none := by
  intro window member
  rcases List.mem_map.mp member with ⟨info, _, rfl⟩
  have nothing : ∀ windowStartMs windowEndMs, recoverOverlapTiming info.1.words []
      windowStartMs windowEndMs config.matchMode.toDpMatchMode = none := fun _ _ => rfl
  simp only [recoveredWindow]
  split
  · rfl
  · simp only [recoverWithAdaptiveWindow, nothing]
    cases findPredecessorBullet info.2 _ <;> rfl

/-- The number of utterances the second pass recovers. -/
def recoveredCount (first : ChatFile) (asrTokens : List AsrTimingToken)
    (config : TwoPassConfig Threshold) : ℕ :=
  (pass2Windows first asrTokens config).countP Option.isSome

theorem recoveredCount_eq_zero_iff (first : ChatFile) (asrTokens : List AsrTimingToken)
    (config : TwoPassConfig Threshold) :
    recoveredCount first asrTokens config = 0 ↔
      ∀ window ∈ pass2Windows first asrTokens config, window = none := by
  simp [recoveredCount, List.countP_eq_zero]

/-- The chat with the recovered windows as bullets. -/
def withRecovered (first : ChatFile) (asrTokens : List AsrTimingToken)
    (config : TwoPassConfig Threshold) : ChatFile :=
  { first with
    lines := setBullets ((pass2Windows first asrTokens config).map (Option.map fun window =>
      Bullet.new window.startMs window.endMs)) first.lines }

theorem recovered_untimed (first : ChatFile) (asrTokens : List AsrTimingToken)
    (config : TwoPassConfig Threshold) :
    ∀ row ∈ first.utterances.zip ((pass2Windows first asrTokens config).map
      (Option.map fun window => Bullet.new window.startMs window.endMs)),
      ∀ bullet ∈ row.2, row.1.bullet = none ∧ bullet.source = .authoritative := by
  intro row member bullet isBullet
  rw [List.zip_map_right] at member
  rcases List.mem_map.mp member with ⟨⟨utt, window⟩, inside, rfl⟩
  rcases Option.map_eq_some_iff.mp isBullet with ⟨window', isWindow, rfl⟩
  exact ⟨pass2Windows_untimed first asrTokens config (utt, window) inside window' isWindow, rfl⟩

theorem withRecovered_eq {first : ChatFile} {asrTokens : List AsrTimingToken}
    {config : TwoPassConfig Threshold} (noneRecovered : recoveredCount first asrTokens config = 0) :
    withRecovered first asrTokens config = first := by
  have windows := (recoveredCount_eq_zero_iff first asrTokens config).mp noneRecovered
  rw [withRecovered, setBullets_none]
  intro bullet member
  rcases List.mem_map.mp member with ⟨window, inside, rfl⟩
  rw [windows window inside]
  rfl

theorem withRecovered_countTimed (first : ChatFile) (asrTokens : List AsrTimingToken)
    (config : TwoPassConfig Threshold) :
    countTimedUtterances (withRecovered first asrTokens config) =
      countTimedUtterances first + recoveredCount first asrTokens config := by
  have counted := @timedCount_setBullets ((pass2Windows first asrTokens config).map
    (Option.map fun window => Bullet.new window.startMs window.endMs)) first.lines ?_ ?_
  · refine counted.trans ?_
    rw [List.countP_map]
    congr 1
    apply List.countP_congr
    intro window _
    simp
  · rw [List.length_map, pass2Windows_length]
    rfl
  · intro row member bullet isBullet
    exact (recovered_untimed first asrTokens config row member bullet isBullet).1

theorem runTwoPassInner_eq {chat : ChatFile} {asrTokens : List AsrTimingToken}
    {config : TwoPassConfig Threshold} {firstResult : UtrResult} {first : ChatFile}
    (ran : firstPass chat asrTokens config = some (firstResult, first)) :
    runTwoPassInner chat asrTokens config =
      some (countRecovered firstResult (recoveredCount first asrTokens config),
        withRecovered first asrTokens config) := by
  simp only [runTwoPassInner, ran, Option.bind_eq_bind, Option.bind_some]
  cases asrTokens with
  | nil =>
      have noneRecovered := (recoveredCount_eq_zero_iff _ _ _).mpr (pass2Windows_nil first config)
      rw [withRecovered_eq noneRecovered, noneRecovered]
      rfl
  | cons token asrTokens => rfl

/-- The second pass spoils the provenance of what it recovers. -/
theorem withRecovered_onlyHints_iff {chat first : ChatFile} {asrTokens : List AsrTimingToken}
    {config : TwoPassConfig Threshold} (inRange : TimesInRange chat asrTokens)
    (global : GlobalResult chat (slots chat asrTokens (skipInPass1 chat config)
      config.matchMode.toDpMatchMode) first) :
    OnlyHints chat (withRecovered first asrTokens config) ↔
      recoveredCount first asrTokens config = 0 ∧
        EndsWithin (2 ^ 64 - 1) (slots chat asrTokens (skipInPass1 chat config)
          config.matchMode.toDpMatchMode) := by
  by_cases noneRecovered : recoveredCount first asrTokens config = 0
  · rw [withRecovered_eq noneRecovered, global.onlyHints_iff inRange]
    exact (and_iff_right noneRecovered).symm
  · apply iff_of_false
    · rintro ⟨_, hinted⟩
      apply noneRecovered
      rw [recoveredCount_eq_zero_iff]
      have windowLengths : (setWindows 0 (slots chat asrTokens (skipInPass1 chat config)
          config.matchMode.toDpMatchMode)).length = chat.utterances.length := by
        rw [setWindows_length, slots_length]
      have firstLength : first.utterances.length = chat.utterances.length := by
        rw [global.utterances, List.length_zipWith, windowLengths, min_self]
      have lengths : ((pass2Windows first asrTokens config).map (Option.map fun window =>
          Bullet.new window.startMs window.endMs)).length = chat.utterances.length := by
        rw [List.length_map, pass2Windows_length, firstLength]
      have authoritative := recovered_untimed first asrTokens config
      have sameLines : first.lines = hintLines (setWindows 0 (slots chat asrTokens
          (skipInPass1 chat config) config.matchMode.toDpMatchMode)) chat.lines := by
        rw [global.eq]
      simp only [withRecovered] at hinted
      simp only [ChatFile.utterances] at authoritative
      rw [sameLines] at hinted authoritative
      have all := recovered_none_of_hinted windowLengths lengths authoritative hinted
      intro window member
      have mapped := all _ (List.mem_map_of_mem member)
      rwa [Option.map_eq_none_iff] at mapped
    · rintro ⟨impossible, _⟩
      exact noneRecovered impossible

/-- The two-pass result times at least as many utterances as the global one. -/
def twoPassKept (chat first : ChatFile) (asrTokens : List AsrTimingToken)
    (config : TwoPassConfig Threshold) : Prop :=
  hintCount (slots chat asrTokens false config.matchMode.toDpMatchMode) ≤
    hintCount (slots chat asrTokens (skipInPass1 chat config) config.matchMode.toDpMatchMode) +
      recoveredCount first asrTokens config

/-- The strategy runs both passes and a global one, and keeps one of the two results. -/
theorem twoPassInject_eq {chat : ChatFile} {asrTokens : List AsrTimingToken}
    {config : TwoPassConfig Threshold} {firstResult globalResult : UtrResult}
    {first global : ChatFile}
    (ranFirst : firstPass chat asrTokens config = some (firstResult, first))
    (ranGlobal : runGlobalUtr chat asrTokens false config.matchMode.toDpMatchMode =
      some (globalResult, global)) :
    (twoPassKept chat first asrTokens config ∧ twoPassInject chat asrTokens config =
        some (countRecovered firstResult (recoveredCount first asrTokens config),
          withRecovered first asrTokens config)) ∨
      ¬ twoPassKept chat first asrTokens config ∧
        twoPassInject chat asrTokens config = some (globalResult, global) := by
  rcases runGlobalUtr_result chat asrTokens (skipInPass1 chat config)
    config.matchMode.toDpMatchMode with ⟨_, _, ranFirst', firstGlobal⟩
  rcases runGlobalUtr_result chat asrTokens false config.matchMode.toDpMatchMode with
    ⟨_, _, ranGlobal', isGlobal⟩
  have ranTwoPass := runTwoPassInner_eq ranFirst
  rw [firstPass, ranFirst'] at ranFirst
  rw [ranGlobal'] at ranGlobal
  cases ranFirst
  cases ranGlobal
  have counts : countTimedUtterances (withRecovered first asrTokens config) ≥
      countTimedUtterances global ↔ twoPassKept chat first asrTokens config := by
    rw [withRecovered_countTimed, firstGlobal.countTimed (slots_length _ _ _ _),
      isGlobal.countTimed (slots_length _ _ _ _), twoPassKept]
    omega
  simp only [twoPassInject, ranTwoPass, ranGlobal', Option.bind_eq_bind, Option.bind_some]
  by_cases prefer : countTimedUtterances (withRecovered first asrTokens config) ≥
      countTimedUtterances global
  · rw [if_pos prefer]
    exact Or.inl ⟨counts.mp prefer, rfl⟩
  · rw [if_neg prefer]
    exact Or.inr ⟨mt counts.mpr prefer, rfl⟩

/-- Both strategies only add UTR hints to untimed utterances, as far as the `u64` range goes,
except where the two-pass result is kept and its second pass recovered an utterance: that
bullet is authoritative. -/
theorem inject_onlyHints_iff (chat : ChatFile) (asrTokens : List AsrTimingToken)
    (config : TwoPassConfig Threshold) (inRange : TimesInRange chat asrTokens) :
    (∃ result after, @globalUtrInject Threshold _ _ _ _ chat asrTokens = some (result, after) ∧
      (OnlyHints chat after ↔ EndsWithin (2 ^ 64 - 1)
        (slots chat asrTokens false (.caseInsensitive : MatchMode Threshold)))) ∧
    ∃ result after firstResult first,
      firstPass chat asrTokens config = some (firstResult, first) ∧
      twoPassInject chat asrTokens config = some (result, after) ∧
      (OnlyHints chat after ↔
        let mode := config.matchMode.toDpMatchMode
        let firstSlots := slots chat asrTokens (skipInPass1 chat config) mode
        let globalSlots := slots chat asrTokens false mode
        let recovered := recoveredCount first asrTokens config
        if hintCount globalSlots ≤ hintCount firstSlots + recovered then
          recovered = 0 ∧ EndsWithin (2 ^ 64 - 1) firstSlots
        else EndsWithin (2 ^ 64 - 1) globalSlots) := by
  constructor
  · rcases runGlobalUtr_result chat asrTokens false (.caseInsensitive : MatchMode Threshold) with
      ⟨result, after, ran, global⟩
    exact ⟨result, after, ran, global.onlyHints_iff inRange⟩
  · rcases runGlobalUtr_result chat asrTokens (skipInPass1 chat config)
      config.matchMode.toDpMatchMode with ⟨firstResult, first, ranFirst, firstGlobal⟩
    rcases runGlobalUtr_result chat asrTokens false config.matchMode.toDpMatchMode with
      ⟨globalResult, global, ranGlobal, isGlobal⟩
    rcases twoPassInject_eq ranFirst ranGlobal with ⟨kept, ran⟩ | ⟨kept, ran⟩
    · refine ⟨_, _, firstResult, first, ranFirst, ran, ?_⟩
      simp only [twoPassKept] at kept ⊢
      rw [if_pos kept]
      exact withRecovered_onlyHints_iff inRange firstGlobal
    · refine ⟨_, _, firstResult, first, ranFirst, ran, ?_⟩
      simp only [twoPassKept] at kept ⊢
      rw [if_neg kept]
      exact isGlobal.onlyHints_iff inRange

end Hints

section Instances

open Documented Batchalign.Fa

/-- The default configuration, without fuzzy matching. -/
def exactConfig : TwoPassConfig ℚ where
  caMarkers := .enabled
  maxExclusionDensity := 3 / 10
  tightBufferMs := 500
  matchMode := .exact

/-- A turn that starts with `+<`. -/
def overlapping (utt : Utterance) : Utterance :=
  { utt with main := { utt.main with content := { utt.main.content with linkers := ["+<"] } } }

/-- Four untimed turns; the second overlaps the first. -/
def fourTurns : ChatFile :=
  chatOf
    [utteranceOf [Word.simple "hello"] [], overlapping (utteranceOf [Word.simple "mhm"] []),
      utteranceOf [Word.simple "there"] [], utteranceOf [Word.simple "friend"] []]

def withoutOverlap : List AsrTimingToken :=
  [⟨"hello", 0, 300⟩, ⟨"there", 500, 800⟩, ⟨"friend", 800, 1100⟩]

def withOverlap : List AsrTimingToken :=
  [⟨"hello", 0, 300⟩, ⟨"mhm", 350, 450⟩, ⟨"there", 500, 800⟩, ⟨"friend", 800, 1100⟩]

theorem inject_onlyHints_iff_fourTurns :
    ∃ result after, twoPassInject fourTurns withoutOverlap exactConfig = some (result, after) ∧
      OnlyHints fourTurns after := by
  rcases inject_onlyHints_iff fourTurns withoutOverlap exactConfig ⟨by decide, by decide⟩ with
    ⟨_, result, after, firstResult, first, ranFirst, ran, onlyHints⟩
  have none_recovered : (firstPass fourTurns withoutOverlap exactConfig).map (fun pass =>
      recoveredCount pass.2 withoutOverlap exactConfig) = some 0 := by
    decide +kernel
  rw [ranFirst, Option.map_some, Option.some_inj] at none_recovered
  refine ⟨result, after, ran, onlyHints.mpr ?_⟩
  simp only [none_recovered]
  have counts : hintCount (slots fourTurns withoutOverlap false exactConfig.matchMode.toDpMatchMode)
      ≤ hintCount (slots fourTurns withoutOverlap (skipInPass1 fourTurns exactConfig)
        exactConfig.matchMode.toDpMatchMode) + 0 := by
    decide +kernel
  have firstSlots : slots fourTurns withoutOverlap (skipInPass1 fourTurns exactConfig)
      exactConfig.matchMode.toDpMatchMode =
      [.matched ⟨0, 300⟩, .passed none, .matched ⟨500, 800⟩, .matched ⟨800, 1100⟩] := by
    decide +kernel
  rw [if_pos counts, firstSlots]
  simp [endsWithin_cons, endsWithin_nil, Slot.endMs?]

/-- The overlap utterance recovered by the second pass gets an authoritative bullet. -/
theorem twoPassInject_authoritative :
    ∃ result after, twoPassInject fourTurns withOverlap exactConfig = some (result, after) ∧
      after.utterances.map Utterance.bullet =
        [some (.utrHint 0 300), some (.new 350 450), some (.utrHint 500 800),
          some (.utrHint 800 1100)] ∧
      ¬ OnlyHints fourTurns after := by
  have bullets : (twoPassInject fourTurns withOverlap exactConfig).map (fun ran =>
      ran.2.utterances.map Utterance.bullet) =
      some [some (.utrHint 0 300), some (.new 350 450), some (.utrHint 500 800),
        some (.utrHint 800 1100)] := by
    decide +kernel
  rcases Option.map_eq_some_iff.mp bullets with ⟨⟨result, after⟩, ran, bullets⟩
  refine ⟨result, after, ran, bullets, ?_⟩
  intro onlyHints
  have recovered : some (.new 350 450) ∈ after.utterances.map Utterance.bullet := by
    rw [bullets]
    simp
  rcases List.mem_map.mp recovered with ⟨utt, member, isRecovered⟩
  have isHint := onlyHints.isHint (by decide) utt member _ isRecovered
  cases isHint.2

end Instances

end Batchalign.Utr
