import Batchalign.Asr.Transcript
import Batchalign.Asr.Num2Text
import Batchalign.Morphosyntax.Basic

/-!
# The answer of Rev

`_segments_from_rev` of `backends/asr/rev.py` cuts a monologue into sentences at `.`, `?` and `!`;
the mark that ends a sentence is not kept. `asr_output_for_postprocess` of `taskrunners/asr.rs`
makes a monologue of every segment. The cleanup of the text of a segment is a parameter; the text
is only read where there are no words.
-/

namespace Batchalign.Asr

open Batchalign.Morphosyntax (strip)

section Response

inductive RevElementType where
  | text
  | punct
  | other
deriving DecidableEq, Repr

/-- A value that is missing is empty. -/
structure RevElement where
  type : RevElementType
  value : String
  ts : Option ℚ≥0
  endTs : Option ℚ≥0
  confidence : Option ℚ

structure RevMonologue where
  speaker : Option String
  elements : List RevElement

/-- `clean_utterance` with the words of a language. -/
class RevCleanup where
  cleanUtterance : String → String → String

end Response

section Segments

def sentEnd : List String := [".", "?", "!"]

def bertLangs : List String := ["en", "cmn", "yue"]

/-- `_rev_code`; the two-letter codes are the parameter. -/
def revCode (alpha2Or3 : String → String) (lang : String) : String :=
  if lang = "zho" ∨ lang = "cmn" then "cmn" else alpha2Or3 lang

variable [Float64]

def revMillis (seconds : Option ℚ≥0) : ℕ := ⌊Float64.round ((seconds.getD 0 : ℚ≥0) * 1000)⌋.toNat

def revWord (element : RevElement) : Batchalign.AsrWord where
  text := strip element.value
  startMs := revMillis element.ts
  endMs := revMillis element.endTs
  confidence := element.confidence

def inlineWord (value : String) : Batchalign.AsrWord where
  text := value
  startMs := 0
  endMs := 0
  confidence := none

/-- A text that is not empty and no marker of a silence or a noise. -/
def isSpokenElement (element : RevElement) : Bool :=
  element.type == .text && strip element.value != "" && ! isPauseMarker (strip element.value)

def hasSentencePunct (elements : List RevElement) : Bool :=
  elements.any fun element => element.type == .punct && sentEnd.contains (strip element.value)

/-- The whole monologue, without its punctuation. -/
def rawSegment (speaker : Option String) (elements : List RevElement) : Option AsrSegment :=
  match (elements.filter isSpokenElement).map revWord with
  | [] => none
  | first :: rest => some
      { startMs := first.startMs
        endMs := ((first :: rest).getLastD first).endMs
        text := joinedText (first :: rest)
        speaker := speaker
        words := first :: rest }

variable [RevCleanup]

def flushSentence (speaker : Option String) (lang : String) (sent : List Batchalign.AsrWord) :
    Option AsrSegment :=
  match sent.filter (·.text != "") with
  | [] => none
  | first :: rest =>
      let timed := (first :: rest).filter (·.text != ",")
      some
        { startMs := (timed.headD first).startMs
          endMs := (timed.getLastD ((first :: rest).getLastD first)).endMs
          text := RevCleanup.cleanUtterance (joinedText (first :: rest)) lang
          speaker := speaker
          words := first :: rest }

/-- The loop over the elements with the sentence so far. -/
def punctuatedSegments (speaker : Option String) (lang : String) :
    List Batchalign.AsrWord → List RevElement → List AsrSegment
  | sentence, [] => (flushSentence speaker lang sentence).toList
  | sentence, element :: elements =>
      let value := strip element.value
      if element.type = .punct then
        if sentEnd.contains value then
          (flushSentence speaker lang sentence).toList ++
            punctuatedSegments speaker lang [] elements
        else if value ≠ "" then
          punctuatedSegments speaker lang (sentence ++ [inlineWord value]) elements
        else punctuatedSegments speaker lang sentence elements
      else if isSpokenElement element then
        punctuatedSegments speaker lang (sentence ++ [revWord element]) elements
      else punctuatedSegments speaker lang sentence elements

def monologueSegments (lang : String) (mono : RevMonologue) : List AsrSegment :=
  if bertLangs.contains (toAsciiLowercase lang) || ! hasSentencePunct mono.elements then
    (rawSegment mono.speaker mono.elements).toList
  else punctuatedSegments mono.speaker lang [] mono.elements

def segmentsFromRev (monologues : List RevMonologue) (lang : String) : List AsrSegment :=
  monologues.flatMap (monologueSegments lang)

end Segments

section Adapter

def rawSpeaker (segment : AsrSegment) : String := segment.speaker.getD "PAR1"

/-- The codes by the order in which the speakers first appear. -/
def speakerCodes (segments : List AsrSegment) : List (String × String) :=
  let codes := segments.foldl
    (fun codes segment =>
      if (codes.lookup (rawSpeaker segment)).isSome then codes
      else codes ++ [(rawSpeaker segment, s!"PAR{codes.length}")]) []
  if codes.isEmpty then [("PAR0", "PAR0")] else codes

def isPunctuationToken (text : String) : Bool :=
  ! text.isEmpty && text.toList.all fun c =>
    ['.', '?', '!', ',', ';', ':', '。', '؟', '۔', '،', '؛'].contains c

/-- The text without what would break a line, and without its own ending. -/
def sanitizeSegmentText (text : String) : String :=
  let cleaned := text.toList.filter fun c => ! ['\t', '\n', '\r', '*', '%', '@', '\\'].contains c
  let stripped := (trim (String.ofList cleaned)).toList.rdropWhile fun c =>
    ['.', '!', '?', ';', ':'].contains c
  String.ofList (stripped.rdropWhile isWhitespace)

/-- `strip_prefix("PAR")` and `parse::<usize>`. -/
def speakerNumber (code : String) : Option ℕ :=
  if "PAR".toList.isPrefixOf code.toList then parseU64 (String.ofList (code.toList.drop 3))
  else none

variable [Float64]

def postprocessElement (text : String) (startMs endMs : ℕ) : AsrElement where
  value := trim text
  ts := some (Float64.round (Float64.round startMs / 1000))
  endTs := some (Float64.round (Float64.round endMs / 1000))
  kind := if isPunctuationToken (trim text) then .punctuation else .text

def segmentElements (segment : AsrSegment) : List AsrElement :=
  if segment.words.isEmpty then
    let text := sanitizeSegmentText segment.text
    if text.isEmpty then [] else [postprocessElement text segment.startMs segment.endMs]
  else segment.words.map fun word => postprocessElement word.text word.startMs word.endMs

def postprocessMonologue (codes : List (String × String)) (segment : AsrSegment) :
    BAResult AsrMonologue :=
  match codes.lookup (rawSpeaker segment) with
  | none => .error (.internal s!"ASR: unknown speaker {rawSpeaker segment}")
  | some code =>
      match speakerNumber code with
      | none => .error (.internal s!"ASR: invalid participant code {code}")
      | some speaker => .ok { speaker := speaker, elements := segmentElements segment }

def asrOutputForPostprocess (segments : List AsrSegment) (codes : List (String × String)) :
    BAResult AsrOutput :=
  (segments.mapM (postprocessMonologue codes)).map fun monologues =>
    { monologues := monologues.filter (! ·.elements.isEmpty) }

end Adapter

section Built

variable [ChatGrammar] [WorGenerator]

/-- The utterances of a description. -/
def builtUtterances (desc : TranscriptDescription) : List Chat.Utterance :=
  desc.utterances.filterMap fun row =>
    buildWordUtterance row.speaker (row.words.getD []) desc.writeWor row.startMs row.endMs

end Built

end Batchalign.Asr
