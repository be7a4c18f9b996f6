import Mathlib

/-!
# Hirschberg sequence alignment

The aligner of `batchalign-core/src/alignment/mod.rs`: a common prefix and a
common suffix are stripped, the middle is split by Hirschberg's rule while its
cost table has more than `smallCutoff` cells, and smaller problems are solved
by a full table with traceback.

Vectors are lists. A scratch row and the flat table are built by pushing one
entry after another, as the source does; the table is kept as a list of rows,
so `dp[idx(i, j)]` is entry `j` of row `i`.
-/

namespace Batchalign.Alignment

def costSub : ℕ := 2

def costGap : ℕ := 1

def smallCutoff : ℕ := 2048

inductive AlignResult where
  | matchPair (key : String) (payloadIdx referenceIdx : ℕ)
  | extraPayload (key : String) (payloadIdx : ℕ)
  | extraReference (key : String) (referenceIdx : ℕ)
deriving DecidableEq, Repr

/-- Controls how keys are compared. The threshold type stands for `f64`. -/
inductive MatchMode (Threshold : Type) where
  | exact
  | caseInsensitive
  | fuzzy (threshold : Threshold)
deriving DecidableEq, Repr

class Alignable (Threshold : Type) (T : Type) where
  isMatch : T → T → MatchMode Threshold → Bool
  toKey : T → String

/-- What fuzzy matching takes from outside the repository: `strsim`'s similarity,
its comparison with a threshold, and the standard library's Unicode lowercasing. -/
class Similarity (Threshold : Type) where
  toLowercase : String → String
  jaroWinkler : String → String → Threshold
  atLeast : Threshold → Threshold → Bool

/-- `char::eq_ignore_ascii_case`. -/
def charEqIgnoreAsciiCase (a b : Char) : Bool :=
  a.toLower == b.toLower

/-- `str::eq_ignore_ascii_case`. -/
def eqIgnoreAsciiCase (a b : String) : Bool :=
  a.toList.map Char.toLower == b.toList.map Char.toLower

section Instances

variable {Threshold : Type}

instance [Similarity Threshold] : Alignable Threshold String where
  isMatch a b
    | .exact => a == b
    | .caseInsensitive => eqIgnoreAsciiCase a b
    | .fuzzy threshold =>
        eqIgnoreAsciiCase a b ||
          Similarity.atLeast (Similarity.jaroWinkler (Similarity.toLowercase Threshold a)
            (Similarity.toLowercase Threshold b)) threshold
  toKey a := a

instance : Alignable Threshold Char where
  isMatch a b
    | .exact => a == b
    | .caseInsensitive | .fuzzy _ => charEqIgnoreAsciiCase a b
  toKey a := a.toString

end Instances

/-- A list built by pushing, for each element, an entry computed from the list so far. -/
def pushFold {α β : Type} (entry : List β → α → ℕ → β) (start : List β) (xs : List α) : List β :=
  xs.zipIdx.foldl (fun built x => built ++ [entry built x.1 x.2]) start

section Aligner

variable {Threshold T : Type} [Alignable Threshold T]

/-- The cost of pairing a reference item with a payload item. -/
def subCost (mode : MatchMode Threshold) (refItem payItem : T) : ℕ :=
  if Alignable.isMatch refItem payItem mode then 0 else costSub

/-- One pass of the outer loop of `row_costs`: the next scratch row from the previous one. -/
def rowStep (mode : MatchMode Threshold) (payload : List T) (prev : List ℕ) (refItem : T) :
    List ℕ :=
  pushFold
    (fun cur payItem payIdx =>
      let sub := prev.getD payIdx 0 + subCost mode refItem payItem
      let del := prev.getD (payIdx + 1) 0 + costGap
      let ins := cur.getD payIdx 0 + costGap
      min (min sub del) ins)
    [prev.getD 0 0 + costGap] payload

def rowCosts (mode : MatchMode Threshold) (reference payload : List T) : List ℕ :=
  reference.foldl (rowStep mode payload) (List.range (payload.length + 1))

def rowCostsRev (mode : MatchMode Threshold) (reference payload : List T) : List ℕ :=
  reference.reverse.foldl (rowStep mode payload.reverse) (List.range (payload.length + 1))

inductive Action where
  | start
  | matched
  | substitution
  | extraPayload
  | extraReference
deriving DecidableEq, Repr

/-- One table entry: cost, action, and the row and column it came from. -/
structure Cell where
  cost : ℕ
  action : Action
  row : ℕ
  col : ℕ
deriving DecidableEq, Repr

def Cell.initial : Cell := ⟨0, .start, 0, 0⟩

/-- Entry `(i, j)` of the table, `0 < i` and `0 < j`, from its three neighbours' costs. -/
def nextCell (mode : MatchMode Threshold) (refItem payItem : T) (i j diagonal up left : ℕ) :
    Cell :=
  let sub := diagonal + subCost mode refItem payItem
  let del := up + costGap
  let ins := left + costGap
  if sub ≤ del ∧ sub ≤ ins then
    ⟨sub, if Alignable.isMatch refItem payItem mode then .matched else .substitution,
      i - 1, j - 1⟩
  else if del ≤ sub ∧ del ≤ ins then
    ⟨del, .extraReference, i - 1, j⟩
  else
    ⟨ins, .extraPayload, i, j - 1⟩

def firstRow (cols : ℕ) : List Cell :=
  (List.range cols).map fun j =>
    if j = 0 then Cell.initial else ⟨j * costGap, .extraPayload, 0, j - 1⟩

def fillRow (mode : MatchMode Threshold) (payload : List T) (above : List Cell) (refItem : T)
    (i : ℕ) : List Cell :=
  pushFold
    (fun row payItem k =>
      nextCell mode refItem payItem i (k + 1) (above.getD k Cell.initial).cost
        (above.getD (k + 1) Cell.initial).cost (row.getD k Cell.initial).cost)
    [⟨i * costGap, .extraReference, i - 1, 0⟩] payload

def fillTable (mode : MatchMode Threshold) (payload reference : List T) : List (List Cell) :=
  pushFold (fun table refItem k => fillRow mode payload (table.getD k []) refItem (k + 1))
    [firstRow (payload.length + 1)] reference

variable (Threshold) in
/-- What one traceback step pushes for an entry; `none` is the `break` at a start entry. -/
def emit (payload reference : List T) (payOffset refOffset : ℕ) (cell : Cell) :
    Option (List AlignResult) :=
  let payKey := (payload[cell.col]?.map (Alignable.toKey Threshold)).getD ""
  let refKey := (reference[cell.row]?.map (Alignable.toKey Threshold)).getD ""
  match cell.action with
  | .matched => some [.matchPair refKey (payOffset + cell.col) (refOffset + cell.row)]
  | .substitution =>
      some [.extraPayload payKey (payOffset + cell.col),
        .extraReference refKey (refOffset + cell.row)]
  | .extraPayload => some [.extraPayload payKey (payOffset + cell.col)]
  | .extraReference => some [.extraReference refKey (refOffset + cell.row)]
  | .start => none

variable (Threshold) in
/-- The `while i > 0 || j > 0` loop; every entry leads to a smaller `i + j`, so
`rows + cols` iterations are enough. The result is in pushing order. -/
def traceback (table : List (List Cell)) (payload reference : List T)
    (payOffset refOffset : ℕ) : ℕ → ℕ → ℕ → List AlignResult
  | 0, _, _ => []
  | fuel + 1, i, j =>
      if i > 0 ∨ j > 0 then
        let cell := (table.getD i []).getD j Cell.initial
        match emit Threshold payload reference payOffset refOffset cell with
        | none => []
        | some pushed =>
            pushed ++ traceback table payload reference payOffset refOffset fuel cell.row cell.col
      else []

def alignSmall (mode : MatchMode Threshold) (payload reference : List T)
    (payOffset refOffset : ℕ) : List AlignResult :=
  (traceback Threshold (fillTable mode payload reference) payload reference
    payOffset refOffset (reference.length + payload.length) reference.length
    payload.length).reverse

/-- The split loop: the first `k` in `0..=pay_len` of least total cost. The running
best starts at `none`, for `usize::MAX`, which no cost of two vectors reaches. -/
def bestSplit (scoreLeft scoreRight : List ℕ) (payLen : ℕ) : ℕ × Option ℕ :=
  (List.range (payLen + 1)).foldl
    (fun state k =>
      let cost := scoreLeft.getD k 0 + scoreRight.getD (payLen - k) 0
      if state.2.all (cost < ·) then (k, some cost) else state)
    (0, none)

def hirschberg (mode : MatchMode Threshold) (payload reference : List T)
    (payOffset refOffset : ℕ) : List AlignResult :=
  if reference.isEmpty then
    payload.zipIdx.map fun x =>
      .extraPayload (Alignable.toKey Threshold x.1) (payOffset + x.2)
  else if payload.isEmpty then
    reference.zipIdx.map fun x =>
      .extraReference (Alignable.toKey Threshold x.1) (refOffset + x.2)
  else if reference.length ≤ 1 ∨ payload.length ≤ 1 ∨
      reference.length * payload.length ≤ smallCutoff then
    alignSmall mode payload reference payOffset refOffset
  else
    let mid := reference.length / 2
    let leftRef := reference.take mid
    let rightRef := reference.drop mid
    let scoreLeft := rowCosts mode leftRef payload
    let scoreRight := rowCostsRev mode rightRef payload
    let split := (bestSplit scoreLeft scoreRight payload.length).1
    hirschberg mode (payload.take split) leftRef payOffset refOffset ++
      hirschberg mode (payload.drop split) rightRef (payOffset + split) (refOffset + mid)
termination_by reference.length
decreasing_by
  · simp only [List.length_take]
    omega
  · simp only [List.length_drop]
    omega

/-- The number of leading pairs that match, as `zip` and `take_while` count them. -/
def matchingPrefix (mode : MatchMode Threshold) (payload reference : List T) : ℕ :=
  ((payload.zip reference).takeWhile fun x => Alignable.isMatch x.1 x.2 mode).length

/-- Prefix and suffix stripping with the Hirschberg core on the middle part. -/
def alignGeneric (payload reference : List T) (mode : MatchMode Threshold) : List AlignResult :=
  let prefixLen := matchingPrefix mode payload reference
  let suffixLen :=
    matchingPrefix mode (payload.drop prefixLen).reverse (reference.drop prefixLen).reverse
  let midPay := (payload.take (payload.length - suffixLen)).drop prefixLen
  let midRef := (reference.take (reference.length - suffixLen)).drop prefixLen
  let paySuffixStart := payload.length - suffixLen
  let refSuffixStart := reference.length - suffixLen
  ((reference.take prefixLen).zipIdx.map fun x =>
      .matchPair (Alignable.toKey Threshold x.1) x.2 x.2) ++
    hirschberg mode midPay midRef prefixLen prefixLen ++
    ((reference.drop refSuffixStart).zipIdx.map fun x =>
      .matchPair (Alignable.toKey Threshold x.1) (paySuffixStart + x.2) (refSuffixStart + x.2))

end Aligner

variable {Threshold : Type}

def align [Similarity Threshold] (payload reference : List String)
    (mode : MatchMode Threshold) : List AlignResult :=
  alignGeneric payload reference mode

def alignChars (payload reference : List Char) (mode : MatchMode Threshold) :
    List AlignResult :=
  alignGeneric payload reference mode

end Batchalign.Alignment
