import Batchalign.Alignment.Basic
import Batchalign.Proto

/-!
# The Wav2Vec2 aligner

`Wav2Vec2FaBackend._align_one` of `python/batchalign/backends/fa/wav2vec2.py`.
Utterances with a window are grouped into stretches of about fifteen seconds, the
acoustic model aligns each stretch with its words, the results are mapped back by
characters, and every word is bounded by the window of its utterance.

The acoustic model and the Python libraries are the fields of `MmsBackend`. All
times are milliseconds. Where the source computes a time in floating point, the
model uses the exact quotient.
-/

namespace Batchalign.Fa

open Batchalign.Alignment

/-- An exception that leaves the backend. -/
inductive PyException where
  | runtimeError (message : String)
  | other
deriving DecidableEq, Repr

/-- `torchaudio`'s MMS_FA bundle, `numpy` decoding with resampling, Python's string methods
and the romanizer. `none` is an exception. -/
structure MmsBackend (Sample Emission : Type) where
  wave : PreparedAudio → Except PyException (List Sample)
  model : List Sample → Option Emission
  frames : Emission → ℕ
  forcedAlign : Emission → List ℕ → Option (List (ℕ × ℕ))
  dict : Char → ℕ
  lower : String → String
  casefold : String → String
  isSpace : Char → Bool
  charactersToJyutping : Option (String → Option (List (Option String)))

section Transcript

variable {Sample Emission : Type} (backend : MmsBackend Sample Emission)

def stripped : List Char :=
  ['.', '?', '!', ',', ';', ':', '‡', '„', '"', '+', '<', '>', '[', ']', '/']

/-- `_strip_word`. -/
def stripWord (text : String) : String :=
  let kept := text.toList.filter fun c => !stripped.contains c
  String.ofList
    (((kept.dropWhile backend.isSpace).reverse.dropWhile backend.isSpace).reverse)

/-- `_hanzi_to_jyutping`. -/
def hanziToJyutping (romanizer : String → Option (List (Option String))) (text : String) :
    String :=
  match romanizer text with
  | none => text
  | some pairs =>
      let pronunciations := (pairs.filterMap id).filter (· ≠ "")
      if pronunciations.isEmpty then text
      else
        let syllables := pronunciations.map fun pronunciation =>
          String.ofList (pronunciation.toList.filter fun c => !c.isDigit)
        let converted := "'".intercalate (syllables.filter (· ≠ ""))
        if converted = "" then text else converted

def isCantonese : LanguageSpec → Bool
  | .code code => backend.casefold code == "yue"
  | .auto | .perFile => false

/-- `_alignment_words`. -/
def alignmentWords (words : List String) (language : LanguageSpec) :
    Except PyException (List String) :=
  let plain := words.map (stripWord backend)
  if !isCantonese backend language then .ok plain
  else
    match backend.charactersToJyutping with
    | none => .error (.runtimeError
        "Cantonese wav2vec2 FA requires the `cantonese` extra for Jyutping conversion")
    | some romanizer => .ok (plain.map (hanziToJyutping romanizer))

end Transcript

section Mms

variable {Sample Emission : Type} (backend : MmsBackend Sample Emission)

def sampleRate : ℕ := 16000

/-- Consecutive slices of the given lengths. -/
def unflatten {α : Type} : List α → List ℕ → List (List α)
  | _, [] => []
  | spans, length :: lengths => spans.take length :: unflatten (spans.drop length) lengths

/-- `int(((token * ratio) / sr) * 1000)`, with `ratio = samples / frames`. -/
def tokenMs (samples frames token : ℕ) : ℕ :=
  token * samples * 1000 / (frames * sampleRate)

def spanMs (samples frames : ℕ) (spans : List (ℕ × ℕ)) : ℕ × ℕ :=
  match spans.head?, spans.getLast? with
  | some first, some last =>
      (tokenMs samples frames first.1, tokenMs samples frames last.2)
  | _, _ => (0, 0)

/-- `_mms`: the time of every word relative to the chunk. -/
def mms (chunk : List Sample) (words : List String) : Option (List (String × (ℕ × ℕ))) :=
  (backend.model chunk).bind fun emission =>
    let transcript := words.flatMap fun word => (backend.lower word).toList.map backend.dict
    if transcript.isEmpty then some (words.map fun word => (word, (0, 0)))
    else
      (backend.forcedAlign emission transcript).bind fun tokenSpans =>
        let wordSpans := unflatten tokenSpans (words.map String.length)
        let frames := backend.frames emission
        -- the ratio is computed first, and a division by zero raises
        if frames = 0 then none
        else some (words.zip (wordSpans.map (spanMs chunk.length frames)))

end Mms

section Groups

def groupMs : ℕ := 15 * 1000

/-- The state of the grouping loop. A member is an utterance index with a word index. -/
structure Grouping where
  groups : List (List (ℕ × ℕ))
  group : List (ℕ × ℕ)
  segStart : Option ℕ

def Grouping.start : Grouping := ⟨[], [], none⟩

/-- One utterance of the loop: without a window it is skipped; when it would stretch the
group too far the group is closed first. -/
def Grouping.add (grouping : Grouping) (uidx : ℕ) (window : ℕ × ℕ) (wordCount : ℕ) :
    Grouping :=
  if window.2 ≤ window.1 then grouping
  else
    let segStart := grouping.segStart.getD window.1
    let members := (List.range wordCount).map fun widx => (uidx, widx)
    if window.2 - segStart > groupMs ∧ grouping.group ≠ [] then
      { groups := grouping.groups ++ [grouping.group]
        group := members
        segStart := some window.1 }
    else
      { grouping with
        group := grouping.group ++ members
        segStart := some segStart }

def Grouping.close (grouping : Grouping) : List (List (ℕ × ℕ)) :=
  if grouping.group = [] then grouping.groups else grouping.groups ++ [grouping.group]

/-- The loop over the utterances from an index on. -/
def Grouping.addAll (grouping : Grouping) : ℕ → List ((ℕ × ℕ) × ℕ) → Grouping
  | _, [] => grouping
  | uidx, (window, wordCount) :: utts =>
      (grouping.add uidx window wordCount).addAll (uidx + 1) utts

/-- The groups of utterances given by window and word count. -/
def groups (utts : List ((ℕ × ℕ) × ℕ)) : List (List (ℕ × ℕ)) :=
  (Grouping.start.addAll 0 utts).close

end Groups

section Groupwise

variable {Sample Emission : Type} (backend : MmsBackend Sample Emission)

/-- Raw times, by utterance and word. -/
abbrev Timings := List (List (Option (ℕ × ℕ)))

def Timings.set (timings : Timings) (member : ℕ × ℕ) (time : ℕ × ℕ) : Timings :=
  timings.modify member.1 fun words => words.set member.2 (some time)

/-- No key of the character alignment is compared loosely. -/
instance exactKeys : Similarity Unit where
  toLowercase text := text
  jaroWinkler _ _ := ()
  atLeast _ _ := false

/-- `align` of `batchalign.utils.dp` on single characters: the matched pairs of a payload
and a reference position, in order. -/
def dpMatches (payload reference : List Char) : List (ℕ × ℕ) :=
  (align (payload.map Char.toString) (reference.map Char.toString)
    (MatchMode.exact : MatchMode Unit)).filterMap fun result =>
      match result with
      | .matchPair _ payloadIdx referenceIdx => some (payloadIdx, referenceIdx)
      | _ => none

/-- Every character with the index of its word. -/
def indexedChars (words : List String) : List (Char × ℕ) :=
  words.zipIdx.flatMap fun word => word.1.toList.map fun c => (c, word.2)

/-- Words and result times by character alignment, last pair first. -/
def remapped (transcript : List String) (result : List (String × (ℕ × ℕ))) :
    List (ℕ × (ℕ × ℕ)) :=
  let reference := indexedChars transcript
  let payload := indexedChars (result.map Prod.fst)
  ((dpMatches (payload.map Prod.fst) (reference.map Prod.fst)).filterMap fun pair => do
    let ri ← payload[pair.1]?
    let gi ← reference[pair.2]?
    let entry ← result[ri.2]?
    return (gi.2, entry.2)).reverse

/-- The slice `[lo, hi)` of the audio for a group, none when it is empty. -/
def groupChunk (wave : List Sample) (gStart gEnd : ℕ) : Option (List Sample) :=
  let lo := gStart * sampleRate / 1000
  let hi := gEnd * sampleRate / 1000
  let hi := if hi ≤ lo ∨ hi > wave.length then min hi wave.length else hi
  if hi ≤ lo then none else some ((wave.take hi).drop lo)

def groupWindow (windows : List (ℕ × ℕ)) (grp : List (ℕ × ℕ)) : ℕ × ℕ :=
  let window (member : Option (ℕ × ℕ)) : ℕ × ℕ :=
    (member.bind fun member => windows[member.1]?).getD (0, 0)
  ((window grp.head?).1, (window grp.getLast?).2)

/-- The loop body for one group. -/
def alignGroup (wave : List Sample) (texts : List (List String)) (language : LanguageSpec)
    (windows : List (ℕ × ℕ)) (timings : Timings) (grp : List (ℕ × ℕ)) :
    Except PyException Timings :=
  let window := groupWindow windows grp
  match groupChunk wave window.1 window.2 with
  | none => .ok timings
  | some chunk =>
      let srcWords := grp.map fun member =>
        (texts[member.1]?.bind fun words => words[member.2]?).getD ""
      (alignmentWords backend srcWords language).map fun words =>
        -- an empty word keeps its place
        let transcript := words.map fun word => if word = "" then "·" else word
        match mms backend chunk transcript with
        | none => timings
        | some result =>
            (remapped transcript result).foldl
              (fun timings entry =>
                match grp[entry.1]? with
                | some member =>
                    timings.set member (entry.2.1 + window.1, entry.2.2 + window.1)
                | none => timings)
              timings

end Groupwise

section PostCorrection

/-- Whether the next item that decides about a word's end is untimed. The scan stops at the
last word. -/
def nextUntimed (times : List (Option (ℕ × ℕ))) (widx : ℕ) : Bool :=
  let between := (times.take (times.length - 1)).drop (widx + 1)
  let nxt := widx + 1 + (between.takeWhile Option.isNone).length
  (times[nxt]?.bind id).isNone

/-- The span of a word after extending and bounding. -/
def corrected (times : List (Option (ℕ × ℕ))) (window : ℕ × ℕ) (widx : ℕ) : Option (ℕ × ℕ) :=
  let time := (times[widx]?.bind id).map fun time =>
    if nextUntimed times widx then (time.1, time.1 + 500) else time
  if window.2 > window.1 then
    (time.map fun time => (max time.1 window.1, min time.2 window.2)).filter fun time =>
      time.1 < time.2
  else time

def alignedWord (word : AsrWord) (time : Option (ℕ × ℕ)) : AsrWord where
  text := word.text
  startMs := (time.getD (0, 0)).1
  endMs := (time.getD (0, 0)).2
  confidence := none

def alignedUtterance (utt : AsrSegment) (times : List (Option (ℕ × ℕ))) : AsrSegment :=
  let words := utt.words.zipIdx.map fun word =>
    alignedWord word.1 (corrected times (utt.startMs, utt.endMs) word.2)
  let timed := words.filter fun word => word.endMs > 0
  { startMs := (timed.head?.map AsrWord.startMs).getD utt.startMs
    endMs := (timed.getLast?.map AsrWord.endMs).getD utt.endMs
    text := utt.text
    speaker := utt.speaker
    words := words }

end PostCorrection

section AlignOne

variable {Sample Emission : Type} (backend : MmsBackend Sample Emission)

def windowsOf (utts : List AsrSegment) : List (ℕ × ℕ) :=
  utts.map fun utt => (utt.startMs, utt.endMs)

def textsOf (utts : List AsrSegment) : List (List String) :=
  utts.map fun utt => utt.words.map AsrWord.text

/-- The raw times of all words. -/
def rawTimings (wave : List Sample) (texts : List (List String)) (language : LanguageSpec)
    (windows : List (ℕ × ℕ)) : Except PyException Timings :=
  (groups (windows.zip (texts.map List.length))).foldlM
    (alignGroup backend wave texts language windows)
    (texts.map fun words => List.replicate words.length none)

def alignOne (item : FaInput) : Except PyException FaOutput :=
  if item.utterances.isEmpty then .ok ⟨item.sourceId, []⟩
  else
    (backend.wave item.audio).bind fun wave =>
      (rawTimings backend wave (textsOf item.utterances) item.language
        (windowsOf item.utterances)).map fun timings =>
          { sourceId := item.sourceId
            utterances := List.zipWith alignedUtterance item.utterances timings }

end AlignOne

end Batchalign.Fa
