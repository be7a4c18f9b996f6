import Batchalign.Asr.Prepare

/-!
# Cleanup

`cleanup.rs` of `batchalign-core/src/asr`, the gate of `ChatWordText` in `asr_types.rs` and the
English spelling rules. Repeated phrases are marked, and at the end every word is brought to a
form that the gate accepts.
-/

namespace Batchalign.Asr

open Batchalign.Chat (Word Terminator)

section Gate

/-- Codes and messages. -/
abbrev ParseErrors := List (String × String)

/-- The grammar of the main tier. A fragment is parsed into a word, if at all, next to the
errors found; a word that parses can break rules of the language. -/
class ChatGrammar where
  isChatTerminator : String → Bool
  tryFromChatStr : String → Option Terminator
  parseWordFragment : String → Option Word × ParseErrors
  validate : String → String → ParseErrors

variable [ChatGrammar]

/-- A terminator and a separator are no words but stand on the main tier. -/
def structuralCheck (text : String) : Except ParseErrors (Option Word) :=
  if ChatGrammar.isChatTerminator text then .ok none
  else if morPunct.contains text then .ok none
  else match ChatGrammar.parseWordFragment text with
    | (some word, []) => .ok (some word)
    | (_, errors) => .error errors

/-- A text that the gate has accepted. -/
structure ChatWordText where
  text : String
  legal : (structuralCheck text).isOk

def ChatWordText.tryFrom (text : String) : Except ParseErrors ChatWordText :=
  match check : structuralCheck text with
  | .ok _ => .ok ⟨text, by rw [check]; rfl⟩
  | .error errors => .error errors

def ChatWordText.tryFromLang (text lang : String) : Except ParseErrors ChatWordText :=
  match check : structuralCheck text with
  | .ok none => .ok ⟨text, by rw [check]; rfl⟩
  | .ok (some _) =>
      if (ChatGrammar.validate text lang).isEmpty then .ok ⟨text, by rw [check]; rfl⟩
      else .error (ChatGrammar.validate text lang)
  | .error errors => .error errors

end Gate

section Sanitiser

variable [ChatGrammar]

/-- The gate accepts the text. -/
def isLegal (text : String) : Bool := (ChatWordText.tryFrom text).isOk

/-- One character is kept if the text with it is legal. -/
def keepLegal (sanitized : List Char) (character : Char) : List Char :=
  if isLegal (String.ofList (sanitized ++ [character])) then sanitized ++ [character]
  else sanitized

def rebuildLegal (text : String) : String := String.ofList (text.toList.foldl keepLegal [])

def sanitizeChatIllegalWord (word : AsrWord) : Option AsrWord :=
  if isLegal word.text then some word
  else
    let sanitized := rebuildLegal word.text
    if sanitized.isEmpty then none else some { word with text := sanitized }

def sanitizeChatIllegalCharsInUtterances (utterances : List Utterance) : List Utterance :=
  (utterances.map fun utterance =>
    { utterance with words := utterance.words.filterMap sanitizeChatIllegalWord }).filter
      fun utterance => ! utterance.words.isEmpty

end Sanitiser

section Disfluency

def filledPausesEng : List (String × String) := [("um", "&-um"), ("ur", "&-ur"), ("uh", "&-uh")]

def replacementsEng : List (String × String) :=
  [("mm-hmm", "mhm"), ("mm-hum", "mhm"), ("'em", "(th)em"), ("cuz", "(be)cause"),
    ("'cause", "(be)cause")]

variable [UnicodeCase]

/-- Filled pauses go before replacements. Only English has word lists. -/
def applyDisfluencyReplacements (utterances : List Utterance) (lang : String) :
    List Utterance :=
  if lang != "eng" then utterances
  else utterances.map fun utterance =>
    { utterance with words := utterance.words.map fun word =>
        let lower := UnicodeCase.toLowercase word.text
        { word with text :=
            ((filledPausesEng.lookup lower).or (replacementsEng.lookup lower)).getD word.text } }

end Disfluency

section Retraces

def isPunctOrTerminator (text : String) : Bool :=
  endingPunct.contains text || morPunct.contains text

def isFiller (text : String) : Bool := "&-".toList.isPrefixOf text.toList

def stripPunct (text : String) : String :=
  trim ((endingPunct ++ morPunct).foldl (fun text punct => removeAll punct text) text)

/-- The texts from `begin` on and those from `root + n` on agree for `n` places. -/
def nextMatches (texts : List String) (begin root n : ℕ) : Bool :=
  (List.range n).all fun i =>
    eqIgnoreAsciiCase (texts.getD (begin + i) "") (texts.getD (root + n + i) "")

/-- Marks the places from `begin` on, but no filler. -/
def markSlice (texts : List String) (begin n : ℕ) (isRetrace : List Bool) : List Bool :=
  (List.range n).foldl (fun isRetrace i =>
    if isFiller (texts.getD (begin + i) "") then isRetrace else isRetrace.set (begin + i) true)
    isRetrace

/-- The loop that follows the repeats of one slice. Every pass marks the same places, and moves
`root` by at least one, so as many passes as there are texts are enough. -/
def followRepeats (texts : List String) (begin n : ℕ) : ℕ → ℕ → List Bool → List Bool
  | 0, _, isRetrace => isRetrace
  | passes + 1, root, isRetrace =>
      if root + 2 * n ≤ texts.length ∧ nextMatches texts begin root n then
        followRepeats texts begin n passes (root + n) (markSlice texts begin n isRetrace)
      else isRetrace

/-- The marks of the content words, from phrases of all lengths. -/
def detectRetraces (texts : List String) (minNgram : ℕ) : List Bool :=
  (List.range' minNgram (texts.length - minNgram)).foldl (fun isRetrace n =>
    (List.range (texts.length - n)).foldl (fun isRetrace begin =>
      followRepeats texts begin n texts.length begin isRetrace) isRetrace)
    (List.replicate texts.length false)

/-- Applies the marks to the words that are no punctuation. -/
def markRetraces : List Bool → List AsrWord → List AsrWord
  | isRetrace, word :: words =>
      if isPunctOrTerminator word.text then word :: markRetraces isRetrace words
      else match isRetrace with
        | true :: isRetrace =>
            { word with kind := .retrace, text := stripPunct word.text } ::
              markRetraces isRetrace words
        | false :: isRetrace => word :: markRetraces isRetrace words
        | [] => word :: words
  | _, [] => []

/-- The texts of the words that are no punctuation. -/
def contentTexts (words : List AsrWord) : List String :=
  (words.map AsrWord.text).filter (! isPunctOrTerminator ·)

def minNgram (lang : String) : ℕ := if lang = "yue" ∨ lang = "zho" then 2 else 1

def retraceWords (words : List AsrWord) (lang : String) : List AsrWord :=
  let texts := contentTexts words
  if texts.length < 2 then words else markRetraces (detectRetraces texts (minNgram lang)) words

def applyRetraceDetection (utterances : List Utterance) (lang : String) : List Utterance :=
  utterances.map fun utterance => { utterance with words := retraceWords utterance.words lang }

end Retraces

section Capitals

variable [UnicodeCase]

def enICapRewrites : List (String × String) :=
  [("i", "I"), ("i'll", "I'll"), ("i'm", "I'm"), ("i've", "I've"), ("i'd", "I'd")]

def applyICapitalizationToWord (word : AsrWord) : AsrWord :=
  { word with text := (enICapRewrites.lookup (UnicodeCase.toLowercase word.text)).getD word.text }

def applyTitlePeriodStripToWord (word : AsrWord) : AsrWord :=
  { word with text := stripTitlePeriods word.text }

def applyEnglishTranscribeRulesPreRetokenize (words : List AsrWord) (lang : String) :
    List AsrWord :=
  if lang != "eng" then words
  else (words.map applyICapitalizationToWord).map applyTitlePeriodStripToWord

def isCapitalizableInitial (text : String) : Bool :=
  ! text.isEmpty && ! ["xxx", "yyy", "www"].contains text && text.toList.head? != some '&' &&
    ! isPunctOrTerminator text

variable [UnicodeProperties]

def capitalizeFirst (text : String) : String :=
  match text.toList with
  | [] => text
  | first :: rest =>
      if UnicodeProperties.isUppercase first || ! UnicodeProperties.isLowercase first then text
      else UnicodeCase.toUppercase (String.singleton first) ++ String.ofList rest

/-- The first word that can take a capital takes it. -/
def capitalizeInitial : List AsrWord → List AsrWord
  | [] => []
  | word :: words =>
      if word.kind = .retrace ∨ ¬ isCapitalizableInitial word.text then
        word :: capitalizeInitial words
      else { word with text := capitalizeFirst word.text } :: words

def applyEnglishTranscribeRulesPostRetokenize (utterances : List Utterance) (lang : String) :
    List Utterance :=
  if lang != "eng" then utterances
  else utterances.map fun utterance =>
    { utterance with words := capitalizeInitial utterance.words }

end Capitals

end Batchalign.Asr
