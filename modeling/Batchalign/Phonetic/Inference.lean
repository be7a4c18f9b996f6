import Batchalign.Phonetic.Projection

/-!
# Windows for the acoustic model

`backends/phonetic/utils/inference.py`. Consecutive utterances share a window of the audio. The
model is given by the best class of each frame of a waveform, so that the normalization, the
encoder and the frames of the padding are part of it.
-/

namespace Batchalign.Phonetic

section Groups

structure PhoneticUnit where
  text : String
  pause : Bool
deriving DecidableEq, Repr

structure PhoneticUtterance where
  index : ℕ
  startMs : ℕ
  endMs : ℕ
  units : List PhoneticUnit
deriving DecidableEq, Repr

def firstOf (utterances : List PhoneticUtterance) (group : List ℕ) : Option PhoneticUtterance :=
  group.head?.bind (utterances[·]?)

def lastOf (utterances : List PhoneticUtterance) (group : List ℕ) : Option PhoneticUtterance :=
  group.getLast?.bind (utterances[·]?)

/-- Whether an utterance stays in the window that `first` opens, after `previous`. -/
def joins (first previous utterance : PhoneticUtterance) : Bool :=
  decide ((utterance.endMs : ℤ) - first.startMs ≤ 20000) &&
    decide ((utterance.startMs : ℤ) - previous.endMs ≤ 2000) &&
    decide (previous.startMs ≤ utterance.startMs) && decide (previous.endMs ≤ utterance.endMs)

def groupStep (utterances : List PhoneticUtterance) (groups : List (List ℕ))
    (next : PhoneticUtterance × ℕ) : List (List ℕ) :=
  match groups.getLast? with
  | none => groups ++ [[next.2]]
  | some current =>
      match firstOf utterances current, lastOf utterances current with
      | some first, some previous =>
          if joins first previous next.1 then groups.dropLast ++ [current ++ [next.2]]
          else groups ++ [[next.2]]
      | _, _ => groups ++ [[next.2]]

/-- The positions of the utterances of each window. -/
def groupUtterances (utterances : List PhoneticUtterance) : List (List ℕ) :=
  utterances.zipIdx.foldl (groupStep utterances) []

end Groups

section Transcription

/-- The four bytes of a float. -/
abbrev Sample := UInt8 × UInt8 × UInt8 × UInt8

structure AcousticModel where
  /-- The best class of each frame, without the frames of the padding. -/
  frameIds : List Sample → List ℕ
  tokenList : List String
  blankId : ℕ

variable (model : AcousticModel)

/-- A token of the vocabulary that is no phone. -/
def isSpecial (token : String) : Bool :=
  token.isEmpty || (token.startsWith "<" && token.endsWith ">")

/-- Greedy decoding; `none` stands for an `IndexError`. -/
def decodeFrames (ids : List ℕ) : Option (List String) := do
  let tokens ← ((ids.destutter (· ≠ ·)).filter (· ≠ model.blankId)).mapM (model.tokenList[·]?)
  return tokens.filter (! isSpecial ·)

def transcribeBatch (waveforms : List (List Sample)) : Option (List (List String)) :=
  if waveforms.isEmpty then some []
  else waveforms.mapM fun waveform => decodeFrames model (model.frameIds waveform)

end Transcription

end Batchalign.Phonetic
