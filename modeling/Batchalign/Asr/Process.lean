import Batchalign.Asr.Cleanup

/-!
# From elements to utterances

`chunking.rs` and `utterance.rs` of `batchalign-core/src/asr`. The words of a monologue are cut
into turns, at long pauses and at the ending punctuation, and the utterances go through the
cleanup.
-/

namespace Batchalign.Asr

section Chunks

/-- `chunks` of a slice. -/
def chunksOf (size : ℕ) (words : List AsrWord) : List (List AsrWord) :=
  (List.range ((words.length + size - 1) / size)).map fun k => (words.drop (k * size)).take size

def splitLongTurns (words : List AsrWord) : List (List AsrWord) :=
  if words.length ≤ maxTurnLen then [words] else chunksOf maxTurnLen words

variable [UnicodeProperties]

def longPauseStartsNewUtterance (prev next : AsrWord) (currentLen : ℕ) : Bool :=
  if currentLen < 2 then false
  else match prev.endMs, next.startMs with
    | some prevEnd, some nextStart =>
        if wrapI64 (nextStart - prevEnd) < longPauseSplitMs then false
        else longPauseSentenceStarters.contains
          (toAsciiLowercase (trimMatches (! UnicodeProperties.isAlphanumeric ·) next.text))
    | _, _ => false

/-- Cuts a turn in front of a starter after a pause. -/
def splitAtPauses : List AsrWord → Option AsrWord → List AsrWord → List (List AsrWord)
  | current, _, [] => if current.isEmpty then [] else [current]
  | current, previousTimed, word :: words =>
      let previous := if word.startMs.isSome && word.endMs.isSome then some word else previousTimed
      if (previousTimed.any (longPauseStartsNewUtterance · word current.length)) &&
          ! current.isEmpty then
        current :: splitAtPauses [word] previous words
      else splitAtPauses (current ++ [word]) previous words

def splitOnLongPauses (chunks : List (List AsrWord)) : List (List AsrWord) :=
  chunks.flatMap fun chunk =>
    if chunk.length ≤ 1 then [chunk] else splitAtPauses [] none chunk

variable [AsrTables] [UnicodeCase]

def normalizeCantoneseWords (words : List AsrWord) : List AsrWord :=
  words.map fun word => { word with text := normalizeCantonese word.text }

def finalizeWordsToChunks (words : List AsrWord) (speaker : ℕ) (lang : String) :
    List PreparedMonologueChunk :=
  let words := if lang = "yue" then normalizeCantoneseWords words else words
  let words := applyEnglishTranscribeRulesPreRetokenize words lang
  ((splitOnLongPauses (splitLongTurns words)).filter (! ·.isEmpty)).map (⟨speaker, ·⟩)

end Chunks

section Utterances

def isEndingPunct (word : String) : Bool :=
  endingPunct.contains word || (rtlPunct.map Prod.fst).contains word

def endsWithEndingPunct (word : String) : Bool :=
  word.toList.getLast?.any fun c => isEndingPunct (String.singleton c)

def normalizePunct (word : String) : String := (rtlPunct.lookup word).getD word

/-- The Japanese period becomes a period, inverted punctuation a blank. -/
def normalizeMarks (text : String) : String :=
  text.map fun c => if c = '。' then '.' else if c = '¿' ∨ c = '¡' then ' ' else c

/-- The words of a buffer that ends without punctuation. -/
def flushRemaining (speaker : ℕ) (buf : List AsrWord) : List Utterance :=
  let buf := buf.rdropWhile (morPunct.contains ·.text)
  if buf.isEmpty then [] else [⟨speaker, buf ++ [AsrWord.new "." none none], none⟩]

/-- A word that ends in punctuation without being it becomes two. -/
def splitEnding (word : AsrWord) : List AsrWord :=
  let wordPart := String.ofList word.text.toList.dropLast
  let punctPart := String.ofList word.text.toList.getLast?.toList
  (if wordPart.isEmpty then [] else [AsrWord.new wordPart word.startMs word.endMs]) ++
    [AsrWord.new (normalizePunct punctPart) none none]

def retokenizeFrom (speaker : ℕ) : List AsrWord → List AsrWord → List Utterance
  | buf, [] => flushRemaining speaker buf
  | buf, word :: words =>
      let word := { word with text := normalizeMarks word.text }
      if isEndingPunct word.text then
        ⟨speaker, buf ++ [{ word with text := normalizePunct word.text }], none⟩ ::
          retokenizeFrom speaker [] words
      else if endsWithEndingPunct word.text then
        ⟨speaker, buf ++ splitEnding word, none⟩ :: retokenizeFrom speaker [] words
      else retokenizeFrom speaker (buf ++ [word]) words

def retokenize (speaker : ℕ) (words : List AsrWord) : List Utterance :=
  retokenizeFrom speaker [] words

def utterancesFromPreparedChunks (chunks : List PreparedMonologueChunk) : List Utterance :=
  chunks.flatMap fun chunk => retokenize chunk.speaker chunk.words

end Utterances

section Pipeline

variable [AsrTables] [ChatGrammar] [Float64] [UnicodeCase] [UnicodeProperties]

def prepareMonologue (monologue : AsrMonologue) (lang : String) : List PreparedMonologueChunk :=
  finalizeWordsToChunks (expandNumbersInWords (prepareWordsPreExpansion monologue.elements lang)
    lang) monologue.speaker lang

def prepareAsrChunks (output : AsrOutput) (lang : String) : List PreparedMonologueChunk :=
  output.monologues.flatMap (prepareMonologue · lang)

def finalizeUtterances (utterances : List Utterance) (lang : String) : List Utterance :=
  let utterances := applyDisfluencyReplacements utterances lang
  let utterances := applyRetraceDetection utterances lang
  let utterances := applyEnglishTranscribeRulesPostRetokenize utterances lang
  sanitizeChatIllegalCharsInUtterances utterances

def processRawAsr (output : AsrOutput) (lang : String) : List Utterance :=
  finalizeUtterances (utterancesFromPreparedChunks (prepareAsrChunks output lang)) lang

end Pipeline

end Batchalign.Asr
