import Mathlib

/-!
# Shared payload types

The words and segments that travel between the stages and the backends.
-/

namespace Batchalign

structure AsrWord where
  text : String
  startMs : ℕ
  endMs : ℕ
  confidence : Option ℚ
deriving DecidableEq, Repr

structure AsrSegment where
  startMs : ℕ
  endMs : ℕ
  text : String
  speaker : Option String
  words : List AsrWord
deriving DecidableEq, Repr

inductive LanguageSpec where
  | auto
  | code (code : String)
  | perFile
deriving DecidableEq, Repr

structure PreparedAudio where
  pcmF32le : List UInt8
  sampleRate : ℕ
  channels : ℕ
  frameCount : ℕ
deriving DecidableEq, Repr

structure FaInput where
  sourceId : String
  audio : PreparedAudio
  utterances : List AsrSegment
  language : LanguageSpec
deriving DecidableEq, Repr

structure FaOutput where
  sourceId : String
  utterances : List AsrSegment
deriving DecidableEq, Repr

/-- The word texts joined by single blanks. -/
def joinedText (words : List AsrWord) : String :=
  " ".intercalate (words.map AsrWord.text)

end Batchalign
