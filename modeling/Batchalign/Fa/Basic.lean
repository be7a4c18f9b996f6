import Batchalign.Chat.Basic
import Batchalign.Errors
import Batchalign.Proto

/-!
# Forced alignment with partial reuse

The middle of `FaTaskRunner::apply` in `batchalign-core/src/taskrunners/fa.rs`.
Utterances whose `%wor` tier is still trustworthy keep its timing, the others are
dispatched to the backend, and the merged segments are injected as new `%wor`
tiers. Compound fillers travel as several tokens and are collapsed again.

Times are `u64` milliseconds.
-/

namespace Batchalign.Fa

open Batchalign.Chat

section Words

def sourceWord : WordItem → Option Word
  | .word word => some word
  | .replacedWord word _ => some word
  | .separator _ => none

/-- The parts of a compound filler, or the cleaned text as the only part. -/
def splitCompoundFiller (word : Word) : List String :=
  if word.category = some .filler ∧ '_' ∈ word.cleanedText.toList then
    ((word.cleanedText.toList.splitOn '_').filter (· ≠ [])).map String.ofList
  else [word.cleanedText]

variable [Talkbank]

/-- The main-tier words with a place on `%wor`, in order. -/
def faWords (content : List UtteranceContent) : List Word :=
  ((Talkbank.walkWords content none).filterMap sourceWord).filter
    (Talkbank.countsForTier · .wor)

end Words

section Extraction

variable [Talkbank]

def untimedWord (text : String) : AsrWord where
  text := text
  startMs := 0
  endMs := 0
  confidence := none

def utteranceForFa (utt : Utterance) : AsrSegment :=
  let words := ((faWords utt.items).flatMap fun word =>
    (splitCompoundFiller word).filter (· ≠ "")).map untimedWord
  let window := (utt.main.content.bullet.map fun bullet =>
    (bullet.timing.startMs, bullet.timing.endMs)).getD (0, 0)
  { startMs := window.1
    endMs := window.2
    text := joinedText words
    speaker := some utt.main.speaker
    words := words }

def extractUtterancesForFa (chat : ChatFile) : List AsrSegment :=
  chat.utterances.map utteranceForFa

end Extraction

section Reuse

def minWordsForDominanceCheck : ℕ := 3

def minReusableWordDurationMs : ℕ := 40

/-- `maximum / span > 0.4` for a span that is not zero. The `f64` comparison of the source
decides the same for spans below `2 ^ 50`. -/
def dominates (maximumDurationMs spanMs : ℕ) : Bool :=
  spanMs > 0 && 10 * maximumDurationMs > 4 * spanMs

def timedAsrWord (word : Word) (bullet : Bullet) : AsrWord where
  text := word.cleanedText
  startMs := bullet.timing.startMs
  endMs := bullet.timing.endMs
  confidence := none

/-- One pass over the `%wor` words: every word is timed, long enough and does not start
before the end of the word before it. -/
def reusableWords : Option ℕ → List Word → Option (List AsrWord)
  | _, [] => some []
  | previousEndMs, word :: words =>
      word.inlineBullet.bind fun bullet =>
      let durationMs := bullet.timing.endMs - bullet.timing.startMs
      if durationMs < minReusableWordDurationMs ||
          previousEndMs.any fun previousEnd => bullet.timing.startMs < previousEnd then none
      else (reusableWords (some bullet.timing.endMs) words).map (timedAsrWord word bullet :: ·)

def maximumDurationMs (words : List AsrWord) : ℕ :=
  words.foldl (fun longest word => max longest (word.endMs - word.startMs)) 0

/-- The checks on the whole tier. `nextStart` is the start of the next utterance with a
bullet. -/
def reusableSegment (speaker : String) (nextStart : Option ℕ) (words : List AsrWord) :
    Option AsrSegment :=
  match words.head?, words.getLast? with
  | some first, some last =>
      if words.length ≥ minWordsForDominanceCheck &&
          dominates (maximumDurationMs words) (last.endMs - first.startMs) then none
      else if nextStart.any fun nextStart => last.endMs > nextStart then none
      else some
        { startMs := first.startMs
          endMs := last.endMs
          text := joinedText words
          speaker := some speaker
          words := words }
  | _, _ => none

def bulletStart (utt : Utterance) : Option ℕ :=
  utt.main.content.bullet.map fun bullet => bullet.timing.startMs

/-- For every utterance the first bullet start after it. -/
def nextStarts : List Utterance → List (Option ℕ)
  | [] => []
  | _ :: utts => utts.findSome? bulletStart :: nextStarts utts

def mergeReusedAndFreshSegments :
    List (Option AsrSegment) → List AsrSegment → BAResult (List AsrSegment)
  | [], [] => .ok []
  | [], _ :: _ => .error (.internal "FA: extra fresh segment during partial reuse")
  | some segment :: reused, fresh =>
      (mergeReusedAndFreshSegments reused fresh).map (segment :: ·)
  | none :: _, [] => .error (.internal "FA: missing fresh segment during partial reuse")
  | none :: reused, segment :: fresh =>
      (mergeReusedAndFreshSegments reused fresh).map (segment :: ·)

variable [Talkbank]

/-- The segment of an utterance whose `%wor` tier can be reused. -/
def reusableWorSegment (utt : Utterance) (nextStart : Option ℕ) : Option AsrSegment :=
  let mainWords := (faWords utt.items).map Word.cleanedText
  if mainWords.isEmpty then none
  else utt.worTier.bind fun wor =>
    if wor.words.map Word.cleanedText ≠ mainWords then none
    else (reusableWords none wor.words).bind (reusableSegment utt.main.speaker nextStart)

def collectReusableWorSegments (chat : ChatFile) : List (Option AsrSegment) :=
  (chat.utterances.zip (nextStarts chat.utterances)).map fun utt =>
    reusableWorSegment utt.1 utt.2

/-- The utterances of the request: those without a reusable segment. -/
def dispatchedUtterances (chat : ChatFile) : List AsrSegment :=
  ((extractUtterancesForFa chat).zip (collectReusableWorSegments chat)).filterMap fun utt =>
    if utt.2.isNone then some utt.1 else none

end Reuse

section Collapse

/-- The window of the words that have one. -/
def timedWordSpan (words : List AsrWord) : Option (ℕ × ℕ) :=
  (words.filter fun word => word.endMs > word.startMs).foldl
    (fun span word =>
      match span with
      | some (startMs, endMs) => some (min startMs word.startMs, max endMs word.endMs)
      | none => some (word.startMs, word.endMs))
    none

def collapsedWord (text : String) (parts : List AsrWord) : Word :=
  match timedWordSpan parts with
  | some (startMs, endMs) => (Word.simple text).withInlineBullet (Bullet.new startMs endMs)
  | none => Word.simple text

/-- The loop over the source words with their part counts. -/
def collapseFrom (aligned : List AsrWord) : ℕ → List (String × ℕ) → BAResult (List Word)
  | cursor, [] =>
      if cursor ≠ aligned.length then
        .error (.internal
          s!"FA: expanded word/output count mismatch ({cursor} vs {aligned.length})")
      else .ok []
  | cursor, (text, partCount) :: sourceWords =>
      let stop := cursor + partCount
      if stop > aligned.length then
        .error (.internal (s!"FA: missing aligned token(s) for source word {debugText text} " ++
          s!"at expanded range {cursor}..{stop}"))
      else
        (collapseFrom aligned stop sourceWords).map
          (collapsedWord text ((aligned.drop cursor).take partCount) :: ·)

variable [Talkbank]

def collapseAlignedWords (content : List UtteranceContent) (aligned : List AsrWord) :
    BAResult (List Word) :=
  collapseFrom aligned 0 ((faWords content).map fun word =>
    (word.cleanedText, (splitCompoundFiller word).length))

end Collapse

section Rebalance

def minWordDurationMs : ℕ := 40

def withStart (word : Word) (bullet : Bullet) (startMs : ℕ) : Word :=
  word.withInlineBullet { bullet with timing := { bullet.timing with startMs := startMs } }

def withEnd (word : Word) (bullet : Bullet) (endMs : ℕ) : Word :=
  word.withInlineBullet { bullet with timing := { bullet.timing with endMs := endMs } }

def nearZero (bullet : Bullet) : Bool :=
  let durationMs := bullet.timing.endMs - bullet.timing.startMs
  durationMs ≠ 0 && durationMs < minWordDurationMs

/-- A near-zero word takes time from the word after it. -/
def repairFromFollowing (current next : Word) : Word × Word :=
  match current.inlineBullet, next.inlineBullet with
  | some currentBullet, some nextBullet =>
      let repairedBoundary := (currentBullet.timing.startMs + minWordDurationMs) % 2 ^ 64
      if nearZero currentBullet && nextBullet.timing.startMs ≤ currentBullet.timing.endMs &&
          repairedBoundary < nextBullet.timing.endMs then
        (withEnd current currentBullet repairedBoundary,
          withStart next nextBullet repairedBoundary)
      else (current, next)
  | _, _ => (current, next)

/-- A near-zero word takes time from the word before it. -/
def repairFromPreceding (previous current : Word) : Word × Word :=
  match previous.inlineBullet, current.inlineBullet with
  | some previousBullet, some currentBullet =>
      let repairedBoundary := currentBullet.timing.endMs - minWordDurationMs
      if nearZero currentBullet && currentBullet.timing.endMs ≥ minWordDurationMs &&
          currentBullet.timing.startMs ≤ previousBullet.timing.endMs &&
          repairedBoundary > previousBullet.timing.startMs then
        (withEnd previous previousBullet repairedBoundary,
          withStart current currentBullet repairedBoundary)
      else (previous, current)
  | _, _ => (previous, current)

/-- One pass of a repair over neighbouring words, from the left. -/
def sweepFrom (repair : Word → Word → Word × Word) (current : Word) : List Word → List Word
  | [] => [current]
  | next :: words =>
      let repaired := repair current next
      repaired.1 :: sweepFrom repair repaired.2 words

def sweep (repair : Word → Word → Word × Word) : List Word → List Word
  | [] => []
  | word :: words => sweepFrom repair word words

def rebalanceNearZeroWordsFromFollowing : List Word → List Word := sweep repairFromFollowing

def rebalanceNearZeroWordsFromPreceding : List Word → List Word := sweep repairFromPreceding

/-- A filler without timing comes before the first timed word. -/
def untimedFillerBeforeTimed : List (Option WordCategory × Word) → Bool
  | [] => false
  | (category, alignedWord) :: rest =>
      if alignedWord.inlineBullet.any fun bullet => bullet.timing.endMs > bullet.timing.startMs then
        false
      else if category = some .filler then true
      else untimedFillerBeforeTimed rest

variable [Talkbank]

def hasUntimedLeadingFillerCoverage (content : List UtteranceContent)
    (alignedWords : List Word) : Bool :=
  untimedFillerBeforeTimed (((faWords content).map Word.category).zip alignedWords)

end Rebalance

section Injection

def maxAuthoritativeStartLeadMs : ℕ := 2000

/-- The new `%wor` tier takes the place of the old one, or comes last. -/
def replaceWorTier (tiers : List DependentTier) (wor : WorTier) : List DependentTier :=
  let retained := tiers.filter fun tier => !tier.isWor
  match tiers.findIdx? DependentTier.isWor with
  | some position => retained.insertIdx (min position retained.length) (.wor wor)
  | none => retained ++ [.wor wor]

/-- The main-tier bullet after alignment. -/
def refinedBullet (bullet : Option Bullet) (span : Option (ℕ × ℕ))
    (hadWorTier hasUntimedLeadingFiller : Bool) : Option Bullet :=
  match span with
  | some (wordStartMs, wordEndMs) =>
      match bullet with
      | some ⟨timing, .authoritative⟩ =>
          let startLeadMs := wordStartMs - timing.startMs
          let startMs :=
            if hadWorTier && !hasUntimedLeadingFiller &&
                startLeadMs > maxAuthoritativeStartLeadMs then wordStartMs
            else min timing.startMs wordStartMs
          some (Bullet.new startMs (max timing.endMs wordEndMs))
      | _ => some (Bullet.new wordStartMs wordEndMs)
  | none =>
      bullet.filter fun bullet =>
        !(bullet.source == .authoritative && bullet.timing.endMs ≤ bullet.timing.startMs)

variable [Talkbank]

/-- The loop body for one utterance. -/
def injectUtterance (utt : Utterance) (seg : AsrSegment) : BAResult Utterance :=
  if seg.words.isEmpty then .ok utt
  else (collapseAlignedWords utt.items seg.words).map fun collapsed =>
    let words := rebalanceNearZeroWordsFromPreceding
      (rebalanceNearZeroWordsFromFollowing collapsed)
    let wor := (WorTier.fromWords words).withTerminator utt.main.content.terminator
    let bullet := refinedBullet utt.main.content.bullet (timedWordSpan seg.words)
      (utt.dependentTiers.any DependentTier.isWor)
      (hasUntimedLeadingFillerCoverage utt.items words)
    { main := { utt.main with content := { utt.main.content with bullet := bullet } }
      dependentTiers := replaceWorTier utt.dependentTiers wor }

/-- The loop over the lines. On an error the lines before it stay injected. -/
def injectLines (aligned : List AsrSegment) : ℕ → List Line → BAResult Unit × List Line
  | idx, [] =>
      if idx ≠ aligned.length then
        (.error (.internal
          s!"FA: utterance/output count mismatch ({idx} vs {aligned.length})"), [])
      else (.ok (), [])
  | idx, .utterance utt :: lines =>
      match aligned[idx]? with
      | none =>
          (.error (.internal s!"FA: missing aligned segment for utterance {idx}"),
            .utterance utt :: lines)
      | some seg =>
          match injectUtterance utt seg with
          | .error error => (.error error, .utterance utt :: lines)
          | .ok injected =>
              let rest := injectLines aligned (idx + 1) lines
              (rest.1, .utterance injected :: rest.2)
  | idx, line :: lines =>
      let rest := injectLines aligned idx lines
      (rest.1, line :: rest.2)

def injectWordTimings (chat : ChatFile) (aligned : List AsrSegment) :
    BAResult Unit × ChatFile :=
  let injected := injectLines aligned 0 chat.lines
  (injected.1, { chat with lines := injected.2 })

/-- From the backend answer to the transcript. -/
def applyAnswer (chat : ChatFile) (answer : List AsrSegment) : BAResult Unit × ChatFile :=
  match mergeReusedAndFreshSegments (collectReusableWorSegments chat) answer with
  | .error error => (.error error, chat)
  | .ok aligned => injectWordTimings chat aligned

end Injection

end Batchalign.Fa
