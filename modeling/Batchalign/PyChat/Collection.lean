import Batchalign.Library.Selected

/-!
# The editable utterances of a document

`UtteranceCollection` holds headers and utterances in one vector, in the order of the file, and
edits it as Python edits a list of the utterances. An utterance is a reference to an object
whose speaker may change between two calls, so that each call is given the speakers of its time.
-/

namespace Batchalign.PyChat

section Data

inductive PyErr where
  | indexError (message : String)
  | valueError (message : String)
  /-- An index out of bounds or an unreachable branch. -/
  | panicked (message : String)
deriving DecidableEq, Repr

inductive Entry (Header Utterance : Type) where
  | header (line : Header)
  | utterance (utterance : Utterance)
deriving DecidableEq, Repr

variable {Header Utterance : Type}

def Entry.utterance? : Entry Header Utterance → Option Utterance
  | .header _ => none
  | .utterance spoken => some spoken

def positions (entries : List (Entry Header Utterance)) : List ℕ :=
  Selected.positions Entry.utterance? entries

/-- What is known of a speaker; the code names it in the file. -/
class SpeakerData (Participant : Type) where
  code : Participant → String

end Data

section Speakers

variable {Header Utterance Participant : Type} [SpeakerData Participant] [DecidableEq Participant]

/-- One more utterance for the list of speakers. -/
def addSpeaker (speakers : List Participant) (speaker : Participant) :
    Except PyErr (List Participant) :=
  match speakers.find? fun other => SpeakerData.code other == SpeakerData.code speaker with
  | some existing =>
      if existing ≠ speaker then
        .error (.valueError ("conflicting metadata for speaker " ++ SpeakerData.code speaker))
      else .ok speakers
  | none => .ok (speakers ++ [speaker])

def speakers (speaker : Utterance → Participant) (entries : List (Entry Header Utterance)) :
    Except PyErr (List Participant) :=
  entries.foldlM (fun speakers entry =>
    match entry with
    | .utterance utterance => addSpeaker speakers (speaker utterance)
    | .header _ => .ok speakers) []

end Speakers

section Operations

variable {Header Utterance Participant : Type} [SpeakerData Participant] [DecidableEq Participant]

/-- The entries that a call leaves, and what it returns or raises. -/
abbrev Outcome (Header Utterance : Type) : Type :=
  List (Entry Header Utterance) × Except PyErr (Option Utterance)

def sequenceIndex (index : ℤ) (len : ℕ) : Except PyErr ℕ :=
  let index := if index < 0 then len + index else index
  if index < 0 ∨ len ≤ index.toNat then .error (.indexError "utterance index out of range")
  else .ok index.toNat

/-- `positions[sequence_index(index, positions.len())?]`. -/
def position (entries : List (Entry Header Utterance)) (index : ℤ) : Except PyErr ℕ :=
  let positions := positions entries
  match sequenceIndex index positions.length with
  | .error error => .error error
  | .ok index =>
      match positions[index]? with
      | some position => .ok position
      | none => .error (.panicked "index out of bounds")

/-- Keeps an edit whose speakers do not conflict, and undoes it otherwise. -/
def checked (speaker : Utterance → Participant) (edited : List (Entry Header Utterance))
    (undo : List (Entry Header Utterance) → List (Entry Header Utterance)) :
    Outcome Header Utterance :=
  match speakers speaker edited with
  | .error error => (undo edited, .error error)
  | .ok _ => (edited, .ok none)

def append (speaker : Utterance → Participant) (entries : List (Entry Header Utterance))
    (utterance : Utterance) : Outcome Header Utterance :=
  checked speaker (entries ++ [.utterance utterance]) List.dropLast

def insert (speaker : Utterance → Participant) (entries : List (Entry Header Utterance))
    (index : ℤ) (utterance : Utterance) : Outcome Header Utterance :=
  let positions := positions entries
  let len : ℤ := positions.length
  let index := (if index < 0 then max (len + index) 0 else min index len).toNat
  let position := positions[index]?.getD entries.length
  checked speaker (entries.insertIdx position (.utterance utterance)) (·.eraseIdx position)

def setItem (speaker : Utterance → Participant) (entries : List (Entry Header Utterance))
    (index : ℤ) (utterance : Utterance) : Outcome Header Utterance :=
  match position entries index with
  | .error error => (entries, .error error)
  | .ok position =>
      match entries[position]? with
      | none => (entries, .error (.panicked "index out of bounds"))
      | some previous =>
          checked speaker (entries.set position (.utterance utterance)) (·.set position previous)

def delItem (entries : List (Entry Header Utterance)) (index : ℤ) : Outcome Header Utterance :=
  match position entries index with
  | .error error => (entries, .error error)
  | .ok position =>
      if position < entries.length then (entries.eraseIdx position, .ok none)
      else (entries, .error (.panicked "removal index out of bounds"))

def pop (entries : List (Entry Header Utterance)) (index : ℤ) : Outcome Header Utterance :=
  match position entries index with
  | .error error => (entries, .error error)
  | .ok position =>
      match entries[position]? with
      | none => (entries, .error (.panicked "removal index out of bounds"))
      | some (.utterance utterance) => (entries.eraseIdx position, .ok (some utterance))
      | some (.header _) =>
          (entries.eraseIdx position, .error (.panicked "positions only contains utterances"))

def clear (entries : List (Entry Header Utterance)) : Outcome Header Utterance :=
  (entries.filter fun
    | .header _ => true
    | .utterance _ => false, .ok none)

end Operations

section Runs

variable {Header Utterance Participant : Type} [SpeakerData Participant] [DecidableEq Participant]

inductive Op (Utterance : Type) where
  | append (utterance : Utterance)
  | insert (index : ℤ) (utterance : Utterance)
  | setItem (index : ℤ) (utterance : Utterance)
  | delItem (index : ℤ)
  | pop (index : ℤ)
  | clear
deriving DecidableEq, Repr

/-- An operation, and the speakers of the utterances when it is called. -/
structure Call (Utterance Participant : Type) where
  op : Op Utterance
  speaker : Utterance → Participant

def call (entries : List (Entry Header Utterance)) (call : Call Utterance Participant) :
    Outcome Header Utterance :=
  match call.op with
  | .append utterance => append call.speaker entries utterance
  | .insert index utterance => insert call.speaker entries index utterance
  | .setItem index utterance => setItem call.speaker entries index utterance
  | .delItem index => delItem entries index
  | .pop index => pop entries index
  | .clear => clear entries

/-- The entries after a sequence of calls, and what each of them returned or raised. -/
def run (entries : List (Entry Header Utterance)) :
    List (Call Utterance Participant) →
      List (Entry Header Utterance) × List (Except PyErr (Option Utterance))
  | [] => (entries, [])
  | next :: calls =>
      let outcome := call entries next
      let rest := run outcome.1 calls
      (rest.1, outcome.2 :: rest.2)

end Runs

end Batchalign.PyChat
