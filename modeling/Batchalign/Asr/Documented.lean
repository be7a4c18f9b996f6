import Batchalign.Asr.Transcript
import Batchalign.Chat.Documented

/-!
# A small grammar and small tables

The parameters of the transcription stages for plain English: a word of the main tier is made
of ASCII letters, apostrophes, hyphens and shortened parts, `100` is the one number with a
rendering, and a `%wor` tier has the words of the content that count for it. No general result
depends on them.
-/

namespace Batchalign.Asr.Documented

open Batchalign.Chat Batchalign.Chat.Documented

instance asciiProperties : UnicodeProperties where
  isAlphanumeric c := c.isAlpha || c.isDigit
  isUppercase c := c.isUpper
  isLowercase c := c.isLower

instance plainTables : AsrTables where
  isCompound first second := first == "air" && second == "plane"
  s2hk text := text
  expandNumber text lang := if text = "100" ∧ lang = "eng" then "one hundred" else text

def isWordChar (c : Char) : Bool := c.isAlpha || ['\'', '-', '(', ')'].contains c

/-- A word, or a filler with its mark in front. -/
def parseFragment (text : String) : Option Word × ParseErrors :=
  match text.toList with
  | '&' :: '-' :: chars =>
      if ! chars.isEmpty && chars.all isWordChar then (some (filler (String.ofList chars)), [])
      else (none, [("E330", "not a word")])
  | chars =>
      if ! chars.isEmpty && chars.all isWordChar then (some (Word.simple text), [])
      else (none, [("E330", "not a word")])

def terminators : List (String × Terminator) :=
  [(".", .period), ("?", .question), ("!", .exclamation), ("+...", .trailingOff),
    ("+/.", .interruption), ("+//.", .selfInterruption)]

instance plainGrammar : ChatGrammar where
  isChatTerminator text := (terminators.map Prod.fst).contains text
  tryFromChatStr text := terminators.lookup text
  parseWordFragment := parseFragment
  validate _ _ := []

/-- The words with the bullets they have in the content. -/
instance worWords : WorGenerator where
  generateWorTier main :=
    { languageCode := main.content.languageCode
      items := (walkItems (some .wor) main.content.content).filterMap fun
        | .word word => if countsForTier word .wor then some (.word word) else none
        | .replacedWord word _ => if countsForTier word .wor then some (.word word) else none
        | .separator _ => none
      terminator := main.content.terminator
      bullet := none }

end Batchalign.Asr.Documented
