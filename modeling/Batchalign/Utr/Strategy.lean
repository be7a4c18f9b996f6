import Batchalign.Decisions
import Batchalign.Fa.Basic
import Batchalign.Text
import Batchalign.Utr.FastPath

/-!
# The global UTR pass

`run_global_utr` of `batchalign-core/src/taskrunners/utr/strategy.rs`: the windows of the
matched tokens become hints for utterances without a bullet, after a pass that keeps the
windows of non-overlap utterances apart.

Times are `u64` milliseconds; the release build wraps. The scanner of overlap markers is
not part of this repository.
-/

namespace Batchalign.Utr

open Batchalign.Alignment Batchalign.Chat Batchalign.Decisions Batchalign.Fa

section Types

structure AsrTimingToken where
  text : String
  startMs : ℕ
  endMs : ℕ
deriving DecidableEq, Repr

structure UtrResult where
  injected : ℕ
  skipped : ℕ
  unmatched : ℕ
  decisions : List DecisionRecord
deriving DecidableEq, Repr

def UtrResult.empty : UtrResult := ⟨0, 0, 0, []⟩

inductive OverlapRegionKind where
  | top
  | bottom
deriving DecidableEq, Repr

structure OverlapRegion where
  kind : OverlapRegionKind
  index : Option ℕ
  hasBegin : Bool
  beginAtWord : Option ℕ
deriving DecidableEq, Repr

/-- Fractions are doubles, given by their exact values. -/
structure OverlapMarkerInfo where
  regions : List OverlapRegion
  totalWords : ℕ
  hasBottomOverlap : Bool
  topOnsetFraction : Option ℚ

/-- `extract_overlap_info` of `talkbank_model`. -/
class OverlapMarkers where
  extractOverlapInfo : List UtteranceContent → OverlapMarkerInfo

structure UtrUtteranceInfo where
  words : List String
  hasBullet : Bool
  hasLazyOverlap : Bool
  hasCaOverlap : Bool
  overlapOnsetFraction : Option ℚ
  speaker : String
  bottomIndices : List (Option ℕ)
  topOnsets : List (Option ℕ × ℚ)

end Types

section Information

variable [Talkbank] [OverlapMarkers] [Float64]

/-- The linker `+<`. -/
def lazyOverlapPrecedes : String := "+<"

def collectFaWords (content : List UtteranceContent) : List String :=
  (faWords content).flatMap splitCompoundFiller

/-- Index and onset of a top region. -/
def topOnset (totalWords : ℕ) (region : OverlapRegion) : Option (Option ℕ × ℚ) :=
  region.beginAtWord.bind fun wordPos =>
    if totalWords = 0 then none
    else some (region.index,
      Float64.round (Float64.round (wordPos : ℚ) / Float64.round (totalWords : ℚ)))

def utteranceInfo (utt : Utterance) : UtrUtteranceInfo :=
  let overlapInfo := OverlapMarkers.extractOverlapInfo utt.items
  { words := collectFaWords utt.items
    hasBullet := utt.bullet.isSome
    hasLazyOverlap := utt.main.content.linkers.any (· == lazyOverlapPrecedes)
    hasCaOverlap := overlapInfo.hasBottomOverlap
    overlapOnsetFraction := overlapInfo.topOnsetFraction
    speaker := utt.main.speaker
    bottomIndices := (overlapInfo.regions.filter fun region =>
      region.kind = .bottom && region.hasBegin).map OverlapRegion.index
    topOnsets := (overlapInfo.regions.filter fun region =>
      region.kind = .top && region.hasBegin).filterMap (topOnset overlapInfo.totalWords) }

def collectUtrUtteranceInfo (chat : ChatFile) : List UtrUtteranceInfo :=
  chat.utterances.map utteranceInfo

end Information

section Windows

/-- The words to align with the index of their utterance. -/
def flattenedWords (skipLazyOverlap : Bool) (uttInfos : List UtrUtteranceInfo) :
    List (String × ℕ) :=
  uttInfos.zipIdx.flatMap fun info =>
    if skipLazyOverlap && (info.1.hasLazyOverlap || info.1.hasCaOverlap) then []
    else info.1.words.map fun word => (word, info.2)

/-- What the planning loop looks at for one utterance. -/
structure UtrRow where
  lineIdx : ℕ
  speaker : String
  info : UtrUtteranceInfo
  uttRange : Option (ℕ × ℕ)
  existing : Option Timing

def unmatchedDecision (row : UtrRow) : DecisionRecord where
  lineIdx := row.lineIdx
  speaker := row.speaker
  strategy := .utr .unmatched
  reason := s!"words={row.info.words.length} no_asr_match"
  needsReview := true

def zeroDurationDecision (row : UtrRow) (minAsr maxAsr startMs endMs : ℕ) : DecisionRecord where
  lineIdx := row.lineIdx
  speaker := row.speaker
  strategy := .utr .zeroDurationSkipped
  reason := s!"words={row.info.words.length} asr_range=[{minAsr},{maxAsr}] " ++
    s!"start_ms={startMs} end_ms={endMs} reason=zero_or_negative_duration"
  needsReview := false

/-- The loop body of the planning loop: the window to set, and the result so far with this
utterance counted. -/
def planRow (asrTokens : List AsrTimingToken) (result : UtrResult) (row : UtrRow) :
    Option (UtrResult × Option Timing) :=
  if row.info.hasBullet then some ({ result with skipped := result.skipped + 1 }, none)
  else match row.uttRange with
    | some (minAsr, maxAsr) => do
        let first ← asrTokens[minAsr]?
        let last ← asrTokens[maxAsr]?
        if first.startMs < last.endMs then
          some ({ result with injected := result.injected + 1 },
            some ⟨first.startMs, last.endMs⟩)
        else
          let decision := zeroDurationDecision row minAsr maxAsr first.startMs last.endMs
          some ({ result with
            unmatched := result.unmatched + 1
            decisions := result.decisions ++ [decision] }, none)
    | none =>
        some ({ result with
          unmatched := result.unmatched + 1
          decisions := result.decisions ++ [unmatchedDecision row] }, none)

def planRows (asrTokens : List AsrTimingToken) :
    UtrResult → List UtrRow → Option (UtrResult × List (Option Timing))
  | result, [] => some (result, [])
  | result, row :: rows => do
      let planned ← planRow asrTokens result row
      let rest ← planRows asrTokens planned.1 rows
      some (rest.1, planned.2 :: rest.2)

/-- A window that starts before the floor starts at the floor, and ends after it. -/
def pushToFloor (floorEndMs : ℕ) (window : Timing) : Timing :=
  if window.startMs < floorEndMs then
    { startMs := floorEndMs
      endMs := if window.endMs ≤ floorEndMs then (floorEndMs + 1) % 2 ^ 64 else window.endMs }
  else window

def UtrRow.isOverlap (row : UtrRow) : Bool :=
  row.info.hasLazyOverlap || row.info.hasCaOverlap

/-- The post-pass. `floorEndMs` is the end of the windows so far. -/
def enforceFloor : ℕ → List (UtrRow × Option Timing) → List (Option Timing)
  | _, [] => []
  | floorEndMs, (row, window) :: rows =>
      if row.isOverlap then window :: enforceFloor floorEndMs rows
      else if row.info.hasBullet then
        window :: enforceFloor
          (row.existing.elim floorEndMs fun existing => max floorEndMs existing.endMs) rows
      else match window with
        | some window =>
            let pushed := pushToFloor floorEndMs window
            some pushed :: enforceFloor pushed.endMs rows
        | none => none :: enforceFloor floorEndMs rows

/-- Sets the bullets of the utterances that get one. -/
def setBullets : List (Option Bullet) → List Line → List Line
  | bullet :: bullets, .utterance utt :: lines =>
      .utterance (match bullet with
        | some bullet => utt.withBullet (some bullet)
        | none => utt) :: setBullets bullets lines
  | bullets, line :: lines => line :: setBullets bullets lines
  | _, [] => []

end Windows

section Strategy

variable {Threshold : Type} [Similarity Threshold] [Talkbank] [OverlapMarkers] [Float64]

/-- The utterances with their line indices. -/
def utteranceLines (chat : ChatFile) : List (ℕ × Utterance) :=
  chat.lines.zipIdx.filterMap fun line => line.1.utterance?.map fun utt => (line.2, utt)

def utrRow (utt : ℕ × Utterance) (uttRange : Option (ℕ × ℕ)) : UtrRow where
  lineIdx := utt.1
  speaker := utt.2.main.speaker
  info := utteranceInfo utt.2
  uttRange := uttRange
  existing := utt.2.bullet.map Bullet.timing

/-- Without tokens nothing matches. -/
def withoutTokens (chat : ChatFile) : UtrResult where
  injected := 0
  skipped := chat.utterances.countP fun utt => utt.bullet.isSome
  unmatched := chat.utterances.countP fun utt => !utt.bullet.isSome
  decisions := []

/-- `none` is a panic of the source. The plan has one range for each utterance. -/
def runGlobalUtr (chat : ChatFile) (asrTokens : List AsrTimingToken) (skipLazyOverlap : Bool)
    (dpMatchMode : MatchMode Threshold) : Option (UtrResult × ChatFile) :=
  if asrTokens.isEmpty then some (withoutTokens chat, chat)
  else do
    let uttInfos := collectUtrUtteranceInfo chat
    let words := flattenedWords skipLazyOverlap uttInfos
    let plan ← planUtrAlignment (words.map Prod.fst) (asrTokens.map AsrTimingToken.text)
      (words.map Prod.snd) uttInfos.length dpMatchMode
    let rows := List.zipWith utrRow (utteranceLines chat) plan.uttRanges
    let planned ← planRows asrTokens .empty rows
    let bulletsToSet := enforceFloor 0 (rows.zip planned.2)
    some (planned.1, { chat with
      lines := setBullets (bulletsToSet.map (Option.map fun window =>
        Bullet.utrHint window.startMs window.endMs)) chat.lines })

/-- `GlobalUtr::inject`. -/
def globalUtrInject (chat : ChatFile) (asrTokens : List AsrTimingToken) :
    Option (UtrResult × ChatFile) :=
  runGlobalUtr chat asrTokens false (.caseInsensitive : MatchMode Threshold)

end Strategy

end Batchalign.Utr
