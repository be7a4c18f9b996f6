import Batchalign.Chat.Basic
import Batchalign.Proto

/-!
# The rows sent to the segmenter

`collect_utterance_rows` of `batchalign-core/src/taskrunners/utseg.rs`. The
extracted `%mor` words are paired with the `%wor` items by running index.
-/

namespace Batchalign.Segmentation

open Batchalign.Chat

/-- `word_timing` of a `%wor` word. -/
def worWordTiming (word : Word) : Option (ℕ × ℕ) :=
  word.inlineBullet.map fun bullet => (bullet.timing.startMs, bullet.timing.endMs)

def asrWordFromText (text : String) (timing : Option (ℕ × ℕ)) : AsrWord where
  text := text
  startMs := (timing.getD (0, 0)).1
  endMs := (timing.getD (0, 0)).2
  confidence := none

structure UtteranceRow where
  speaker : String
  text : String
  startMs : ℕ
  endMs : ℕ
  words : List AsrWord
deriving DecidableEq, Repr

variable [Talkbank]

def utteranceRow (utt : Utterance) : UtteranceRow :=
  let worTimings := (utt.worTier.map fun tier => tier.words.map worWordTiming).getD []
  let extracted := Talkbank.collectUtteranceContent utt.items .mor
  let words := extracted.zipIdx.map fun word =>
    asrWordFromText word.1.text (worTimings[word.2]?.bind id)
  let window := (utt.main.content.bullet.map fun bullet =>
    (bullet.timing.startMs, bullet.timing.endMs)).getD (0, 0)
  { speaker := utt.main.speaker
    text := joinedText words
    startMs := window.1
    endMs := window.2
    words := words }

def collectUtteranceRows (chat : ChatFile) : List UtteranceRow :=
  chat.utterances.map utteranceRow

end Batchalign.Segmentation
