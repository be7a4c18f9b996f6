import Batchalign.Alignment.Basic

/-!
# The Python aligner

`utils/dp.py`. `align` gives the keys as texts to the aligner of the core, which is
`batchalign._core.dp_align`, or aligns in process when the extension is not built or the match
function is taken for a custom one.

Keys are objects of any type and `text` is their `str`. The progress bar is left out. Where the
source indexes a list, `none` stands for an `IndexError`.
-/

namespace Batchalign.Dp

open Batchalign.Alignment (AlignResult MatchMode Similarity bestSplit pushFold)

structure PayloadTarget (Key Data : Type) where
  key : Key
  payload : Option Data
deriving DecidableEq, Repr

structure ReferenceTarget (Key Data : Type) where
  key : Key
  payload : Option Data
deriving DecidableEq, Repr

inductive ExtraType where
  | payload
  | reference
deriving DecidableEq, Repr

inductive OutputType where
  | isMatch
  | extraPayload
  | extraReference
  | extraBoth
deriving DecidableEq, Repr

/-- The key of a record: the object the caller gave, or its text. -/
inductive RecordKey (Key : Type) where
  | own (key : Key)
  | text (text : String)
deriving DecidableEq, Repr

/-- `Match` and `Extra`. -/
inductive Record (Key Data : Type) where
  | isMatch (key : RecordKey Key) (payload referencePayload : Option Data)
  | extra (key : RecordKey Key) (extraType : ExtraType) (payload : Option Data)
deriving DecidableEq, Repr

inductive PyError where
  | attributeError
  | indexError
  | typeError
deriving DecidableEq, Repr

variable {Key Data : Type}

section Fallback

variable (matchFn : Key → Key → Bool)

def cost (isMatch : Bool) : ℕ := if isMatch then 0 else 2

def rowCosts (reference : List (ReferenceTarget Key Data))
    (payload : List (PayloadTarget Key Data)) : List ℕ :=
  reference.zipIdx.foldl
    (fun prev (refItem, refIdx) =>
      pushFold
        (fun cur payItem payIdx =>
          let isMatch := matchFn refItem.key payItem.key
          let subCost := prev.getD payIdx 0 + cost isMatch
          let delCost := prev.getD (payIdx + 1) 0 + 1
          let insCost := cur.getD payIdx 0 + 1
          min (min subCost delCost) insCost)
        [refIdx + 1] payload)
    (List.range (payload.length + 1))

/-- One entry of the table: its distance, the action, and the entry it came from. -/
structure Entry where
  dist : ℕ
  action : Option OutputType
  prev : Option (ℕ × ℕ)
deriving DecidableEq, Repr

def Entry.blank : Entry := ⟨0, none, none⟩

/-- Entry `(i, j)` from the distances of its three neighbours. -/
def nextEntry (isMatch : Bool) (i j diagonal up left : ℕ) : Entry :=
  let distSub := diagonal + cost isMatch
  let distDel := up + 1
  let distIns := left + 1
  if distSub ≤ distDel ∧ distSub ≤ distIns then
    ⟨distSub, some (if isMatch then .isMatch else .extraBoth), some (i - 1, j - 1)⟩
  else if distDel ≤ distSub ∧ distDel ≤ distIns then
    ⟨distDel, some .extraReference, some (i - 1, j)⟩
  else
    ⟨distIns, some .extraPayload, some (i, j - 1)⟩

def firstRow (cols : ℕ) : List Entry :=
  (List.range cols).map fun j =>
    if j = 0 then Entry.blank else ⟨j, some .extraPayload, some (0, j - 1)⟩

def fillRow (payload : List (PayloadTarget Key Data)) (above : List Entry)
    (refItem : ReferenceTarget Key Data) (i : ℕ) : List Entry :=
  pushFold
    (fun row payItem k =>
      nextEntry (matchFn refItem.key payItem.key) i (k + 1) (above.getD k Entry.blank).dist
        (above.getD (k + 1) Entry.blank).dist (row.getD k Entry.blank).dist)
    [⟨i, some .extraReference, some (i - 1, 0)⟩] payload

def fillTable (reference : List (ReferenceTarget Key Data))
    (payload : List (PayloadTarget Key Data)) : List (List Entry) :=
  pushFold (fun table refItem k => fillRow matchFn payload (table.getD k []) refItem (k + 1))
    [firstRow (payload.length + 1)] reference

/-- What one step of the way back appends. -/
def appended (reference : List (ReferenceTarget Key Data))
    (payload : List (PayloadTarget Key Data)) (refIndex payloadIndex : ℕ) :
    Option OutputType → Option (List (Record Key Data))
  | some .isMatch => do
      let refItem ← reference[refIndex]?
      let payItem ← payload[payloadIndex]?
      return [.isMatch (.own refItem.key) payItem.payload refItem.payload]
  | some .extraBoth => do
      let payItem ← payload[payloadIndex]?
      let refItem ← reference[refIndex]?
      return [.extra (.own payItem.key) .payload payItem.payload,
        .extra (.own refItem.key) .reference refItem.payload]
  | some .extraPayload => do
      let payItem ← payload[payloadIndex]?
      return [.extra (.own payItem.key) .payload payItem.payload]
  | some .extraReference => do
      let refItem ← reference[refIndex]?
      return [.extra (.own refItem.key) .reference refItem.payload]
  | none => some []

/-- The loop `while prev`; every entry leads to one nearer to the origin, so `rows + cols`
iterations are enough. -/
def wayBack (table : List (List Entry)) (reference : List (ReferenceTarget Key Data))
    (payload : List (PayloadTarget Key Data)) : ℕ → Entry → Option (List (Record Key Data))
  | 0, _ => some []
  | fuel + 1, entry =>
      match entry.prev with
      | none => some []
      | some (refIndex, payloadIndex) => do
          let records ← appended reference payload refIndex payloadIndex entry.action
          let rest ← wayBack table reference payload fuel
            ((table.getD refIndex []).getD payloadIndex Entry.blank)
          return records ++ rest

def alignSmall (reference : List (ReferenceTarget Key Data))
    (payload : List (PayloadTarget Key Data)) : Option (List (Record Key Data)) :=
  let table := fillTable matchFn reference payload
  let last := (table.getD reference.length []).getD payload.length Entry.blank
  (wayBack table reference payload (reference.length + payload.length) last).map List.reverse

/-- `bestSplit` is the same loop as in the core: the first `k` of least total cost. -/
def hirschberg (reference : List (ReferenceTarget Key Data))
    (payload : List (PayloadTarget Key Data)) (smallCutoff : ℕ) :
    Option (List (Record Key Data)) :=
  if reference.isEmpty then
    some (payload.map fun payItem => .extra (.own payItem.key) .payload payItem.payload)
  else if payload.isEmpty then
    some (reference.map fun refItem => .extra (.own refItem.key) .reference refItem.payload)
  else if reference.length ≤ 1 ∨ payload.length ≤ 1 ∨
      reference.length * payload.length ≤ smallCutoff then
    alignSmall matchFn reference payload
  else do
    let mid := reference.length / 2
    let leftRef := reference.take mid
    let rightRef := reference.drop mid
    let scoreLeft := rowCosts matchFn leftRef payload
    let scoreRight := rowCosts matchFn rightRef.reverse payload.reverse
    let split := (bestSplit scoreLeft scoreRight payload.length).1
    let leftAlignment ← hirschberg leftRef (payload.take split) smallCutoff
    let rightAlignment ← hirschberg rightRef (payload.drop split) smallCutoff
    return leftAlignment ++ rightAlignment
termination_by reference.length
decreasing_by
  · simp only [List.length_take]
    omega
  · simp only [List.length_drop]
    omega

end Fallback

section Entrance

/-- A match function with its `__qualname__`, which some callables do not have. -/
structure MatchFn (Key : Type) where
  call : Key → Key → Bool
  qualname : Option String

/-- The default of `align`, a lambda of the module. -/
def MatchFn.default [BEq Key] : MatchFn Key where
  call x y := x == y
  qualname := some "<lambda>"

/-- What the caller passes. The first element of a non-empty source decides whether the sequences
are targets; an empty source counts as plain, whatever the reference holds. -/
inductive Sequences (Key Data : Type) where
  | targets (first : PayloadTarget Key Data) (rest : List (PayloadTarget Key Data))
      (reference : List (ReferenceTarget Key Data))
  | plain (source reference : List Key)

def Sequences.payload : Sequences Key Data → List (PayloadTarget Key Data)
  | .targets first rest _ => first :: rest
  | .plain source _ => source.map fun key => ⟨key, none⟩

def Sequences.reference : Sequences Key Data → List (ReferenceTarget Key Data)
  | .targets _ _ reference => reference
  | .plain _ reference => reference.map fun key => ⟨key, none⟩

/-- The interpreter: `str` of a key, and whether `batchalign._core` can be imported. -/
structure Interpreter (Key : Type) where
  str : Key → String
  coreBuilt : Bool

variable (Threshold : Type) [Similarity Threshold]

/-- The binding of the core's aligner. -/
def dpAlign (payload reference : List String) (caseInsensitive : Bool) : List AlignResult :=
  let mode : MatchMode Threshold := if caseInsensitive then .caseInsensitive else .exact
  Alignment.align payload reference mode

/-- The record of one entry of the core's result. -/
def recordOfEntry (payloadSeq : List (PayloadTarget Key Data))
    (referenceSeq : List (ReferenceTarget Key Data)) : AlignResult → Option (Record Key Data)
  | .matchPair key payloadIdx referenceIdx => do
      let p ← payloadSeq[payloadIdx]?
      let r ← referenceSeq[referenceIdx]?
      return .isMatch (.text key) p.payload r.payload
  | .extraPayload key payloadIdx => do
      let p ← payloadSeq[payloadIdx]?
      return .extra (.text key) .payload p.payload
  | .extraReference key referenceIdx => do
      let r ← referenceSeq[referenceIdx]?
      return .extra (.text key) .reference r.payload

def indexed {α : Type} : Option α → Except PyError α
  | some result => .ok result
  | none => .error .indexError

/-- Whether `_try_rust_align` leaves the match function to the fallback. -/
def isCustom : Option (MatchFn Key) → Except PyError Bool
  | none => .ok false
  | some matchFn =>
      match matchFn.qualname with
      | some name => .ok (name != "<lambda>")
      | none => .error .attributeError

def tryRustAlign (interpreter : Interpreter Key) (payloadSeq : List (PayloadTarget Key Data))
    (referenceSeq : List (ReferenceTarget Key Data)) (matchFn : Option (MatchFn Key)) :
    Except PyError (Option (List (Record Key Data))) := do
  if ← isCustom matchFn then return none
  if !interpreter.coreBuilt then return none
  let payloadKeys := payloadSeq.map fun p => interpreter.str p.key
  let referenceKeys := referenceSeq.map fun r => interpreter.str r.key
  let raw := dpAlign Threshold payloadKeys referenceKeys false
  let out ← indexed (raw.mapM (recordOfEntry payloadSeq referenceSeq))
  return some out

def align (interpreter : Interpreter Key) (sequences : Sequences Key Data)
    (matchFn : Option (MatchFn Key)) : Except PyError (List (Record Key Data)) :=
  let payloadSeq := sequences.payload
  let referenceSeq := sequences.reference
  if payloadSeq.isEmpty then
    .ok (referenceSeq.map fun r => .extra (.own r.key) .reference r.payload)
  else if referenceSeq.isEmpty then
    .ok (payloadSeq.map fun p => .extra (.own p.key) .payload p.payload)
  else do
    let rustResult ← tryRustAlign Threshold interpreter payloadSeq referenceSeq matchFn
    match rustResult with
    | some records => return records
    | none =>
        match matchFn with
        | some matchFn => indexed (hirschberg matchFn.call referenceSeq payloadSeq 2048)
        | none => .error .typeError

end Entrance

end Batchalign.Dp
