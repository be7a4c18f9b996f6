import Batchalign.Alignment.Shim
import Batchalign.Phonetic.Symbols

/-!
# Projecting phones onto units

`project_phones` of `backends/phonetic/utils/projection.py`. Every comparison symbol of a phone
votes for a reference unit, and the phone goes to the unit with most votes.
-/

namespace Batchalign.Phonetic

open Batchalign.Alignment (Similarity)

section Errors

inductive ProjectionError where
  | align (error : Dp.PyError)
  | emptySequences
  | noSymbols (phone : String)
  | crossedBoundary
  | indexError
  | typeError
deriving DecidableEq, Repr

/-- The text of a `ValueError`; `repr` gives the phone. -/
def ProjectionError.message (repr : String → String) : ProjectionError → Option String
  | emptySequences => some "Cannot project empty pronunciation sequences"
  | noSymbols phone => some s!"Phone {repr phone} has no comparison symbols"
  | crossedBoundary => some "Phone projection crossed a word boundary"
  | _ => none

/-- What stands for a unit without phones. -/
def unresolved : String := "…"

end Errors

section Votes

/-- The votes of an edit run: the inserted phones are paired with the deleted units in order,
and the rest goes to the last one, or to the unit before the run. -/
def runVotes (previous : Option ℕ) (inserted deleted : List (Option ℕ)) :
    List (Option ℕ × Option ℕ) :=
  inserted.zipIdx.map fun (phone, index) =>
    (phone, if deleted.isEmpty then previous
      else deleted.getD (min index (deleted.length - 1)) none)

/-- The votes of the edits in order. The two lists are what the current run has inserted and
deleted so far. -/
def editVotes (previous : Option ℕ) (inserted deleted : List (Option ℕ)) :
    List (Dp.Record String ℕ) → List (Option ℕ × Option ℕ)
  | [] => runVotes previous inserted deleted
  | .isMatch _ payload referencePayload :: edits =>
      runVotes previous inserted deleted ++
        (payload, referencePayload) :: editVotes referencePayload [] [] edits
  | .extra _ .payload payload :: edits =>
      editVotes previous (inserted ++ [payload]) deleted edits
  | .extra _ .reference payload :: edits =>
      editVotes previous inserted (deleted ++ [payload]) edits

/-- `votes[phone].append(owner)`. An owner is always an index when there is a phone. -/
def castVote (votes : List (List ℕ)) : Option ℕ × Option ℕ → Except ProjectionError (List (List ℕ))
  | (some phone, some owner) =>
      if phone < votes.length then .ok (votes.modify phone (· ++ [owner])) else .error .indexError
  | _ => .error .typeError

/-- More votes, or as many for a unit further to the left. -/
def leads (owners : List ℕ) (unit best : ℕ) : Bool :=
  owners.count best < owners.count unit ||
    (owners.count best == owners.count unit && unit < best)

/-- The unit with most votes, the first of several. -/
def majority (owners : List ℕ) : Option ℕ :=
  owners.dedup.foldl (fun best unit =>
    if best.all (leads owners unit) then some unit else best) none

end Votes

section Projection

/-- Every phone is added to its unit, and no unit comes before that of the phone before. -/
def placePhones : List String → ℕ → List (String × List ℕ) → Except ProjectionError (List String)
  | result, _, [] => .ok result
  | result, previous, (phone, owners) :: rest =>
      match majority owners with
      | none => .error (.noSymbols phone)
      | some owner =>
          if owner < previous then .error .crossedBoundary
          else if owner < result.length then
            placePhones (result.modify owner (· ++ phone)) owner rest
          else .error .indexError

variable [UnicodeData]

def payloadOf (phones : List String) : List (Dp.PayloadTarget String ℕ) :=
  phones.zipIdx.flatMap fun (phone, index) =>
    (comparisonSymbols phone).map fun symbol => ⟨symbol, some index⟩

def referenceOf (pronunciations : List String) : List (Dp.ReferenceTarget String ℕ) :=
  pronunciations.zipIdx.flatMap fun (ipa, index) =>
    (comparisonSymbols ipa).map fun symbol => ⟨symbol, some index⟩

/-- Without a payload `align` takes the references for plain keys. -/
def alignInput (payload : List (Dp.PayloadTarget String ℕ))
    (reference : List (Dp.ReferenceTarget String ℕ)) : Dp.Sequences String ℕ :=
  match payload with
  | [] => .plain [] (reference.map Dp.ReferenceTarget.key)
  | first :: rest => .targets first rest reference

variable (Threshold : Type) [Similarity Threshold]

def projectPhones (coreBuilt : Bool) (phones pronunciations : List String) :
    Except ProjectionError (List String) :=
  let payload := payloadOf phones
  let referenceSymbols := pronunciations.map comparisonSymbols
  if referenceSymbols.isEmpty || referenceSymbols.any List.isEmpty then .error .emptySequences
  else
    let reference := referenceOf pronunciations
    match Dp.align Threshold ⟨id, coreBuilt⟩ (alignInput payload reference)
      (some Dp.MatchFn.default) with
    | .error error => .error (.align error)
    | .ok edits => do
        let previous := reference.head?.bind Dp.ReferenceTarget.payload
        let votes ← (editVotes previous [] [] edits).foldlM castVote (phones.map fun _ => [])
        let result ← placePhones (pronunciations.map fun _ => "") 0 (phones.zip votes)
        return result.map fun unit => if unit.isEmpty then unresolved else unit

end Projection

end Batchalign.Phonetic
