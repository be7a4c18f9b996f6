import Batchalign.Compare.Align

/-!
# Comparison metrics

The per-utterance comparison, the summary and the metrics row of
`backends/compare.rs`, and the columns that `taskrunners/compare.rs` makes of the
row. Counts are natural numbers, quotients are rounded by `Float64`.
-/

namespace Batchalign.Compare

inductive TokStatus where
  | matched
  | extraMain
  | extraGold
deriving DecidableEq, Repr

inductive TokPos where
  | tag (pos : String)
  | punct
deriving DecidableEq, Repr

def TokPos.asStr : TokPos → String
  | .tag pos => pos
  | .punct => "PUNCT"

structure CmpToken where
  text : String
  status : TokStatus
  pos : TokPos
deriving DecidableEq, Repr

structure UttCmp where
  tokens : List CmpToken
  matchCount : ℕ
  inserts : ℕ
  deletes : ℕ
  mainUttIdx : Option ℕ
deriving DecidableEq, Repr

def UttCmp.totalGold (cmp : UttCmp) : ℕ := cmp.matchCount + cmp.deletes

def UttCmp.editDistance (cmp : UttCmp) : ℕ := cmp.inserts + cmp.deletes

/-- `swap_remove`: the last element takes the place of the removed one. -/
def swapRemove {α : Type} (xs : List α) (idx : ℕ) : List α :=
  match xs.getLast? with
  | some last => (xs.set idx last).dropLast
  | none => []

/-- The token of one alignment item: a gold token gives its own part of speech, an inserted
main token that of the main word. -/
def itemToken (main mainPos gold goldPos : List String) : AlignItem → CmpToken
  | .matched _ j => ⟨gold.getD j "", .matched, .tag (goldPos.getD j "")⟩
  | .insert i => ⟨main.getD i "", .extraMain, .tag (mainPos.getD i "")⟩
  | .delete j => ⟨gold.getD j "", .extraGold, .tag (goldPos.getD j "")⟩

def buildUttCmp (items : List AlignItem) (main mainPos gold goldPos : List String) : UttCmp where
  tokens := items.map (itemToken main mainPos gold goldPos)
  matchCount := items.countP AlignItem.isMatched
  inserts := items.countP AlignItem.isInsert
  deletes := items.countP AlignItem.isDelete
  mainUttIdx := none

structure Summary where
  matchCount : ℕ
  insertions : ℕ
  deletions : ℕ
  totalGoldWords : ℕ
  totalMainWords : ℕ
  wer : ℚ
  cwer : ℚ
  accuracy : ℚ
deriving DecidableEq, Repr

structure CompareMetricsPos where
  pos : String
  matchCount : ℕ
  insertions : ℕ
  deletions : ℕ
  total : ℕ
deriving DecidableEq, Repr

structure CompareMetrics where
  fileLabel : String
  wer : ℚ
  cwer : ℚ
  accuracy : ℚ
  matchCount : ℕ
  insertions : ℕ
  deletions : ℕ
  totalGoldWords : ℕ
  totalMainWords : ℕ
  perPos : List CompareMetricsPos
deriving DecidableEq, Repr

section FileLabel

/-- `Path::file_name` for Unix paths: the last component, unless it is `..`. Empty components
and `.` do not count. -/
def fileName (path : String) : Option String :=
  match ((splitAt '/' path).filter fun part => part ≠ "" ∧ part ≠ ".").getLast? with
  | some part => if part = ".." then none else some part
  | none => none

/-- `Path::file_stem` of a file name: what stands before its last dot, or the whole name if
that is empty or there is no dot. -/
def fileStem (name : String) : String :=
  let stem := (name.toList.reverse.dropWhile (· != '.')).tail.reverse
  if stem.isEmpty then name else String.ofList stem

/-- `Path::new(source_id).with_extension("cha").file_name()`, with its fallback. -/
def fileLabel (sourceId : String) : String :=
  match fileName sourceId with
  | some name => fileStem name ++ ".cha"
  | none => sourceId ++ ".cha"

end FileLabel

section PerPos

/-- The tokens that the report by part of speech counts. -/
def reportedPos (token : CmpToken) : Option (String × TokStatus) :=
  match token.pos with
  | .tag pos => if pos = "?" ∨ pos = "PUNCT" then none else some (pos, token.status)
  | .punct => none

/-- The entry of one part of speech. -/
def posEntry (reported : List (String × TokStatus)) (pos : String) : CompareMetricsPos :=
  let count status := reported.count (pos, status)
  { pos := pos
    matchCount := count .matched
    insertions := count .extraMain
    deletions := count .extraGold
    total := count .matched + count .extraMain + count .extraGold }

/-- The entries in the order of a `BTreeMap`. -/
def perPosEntries (perUtt : List UttCmp) : List CompareMetricsPos :=
  let reported := (perUtt.flatMap UttCmp.tokens).filterMap reportedPos
  ((reported.map Prod.fst).dedup.insertionSort (· ≤ ·)).map (posEntry reported)

def buildCompareMetrics (perUtt : List UttCmp) (summary : Summary) (sourceId : String) :
    CompareMetrics where
  fileLabel := fileLabel sourceId
  wer := summary.wer
  cwer := summary.cwer
  accuracy := summary.accuracy
  matchCount := summary.matchCount
  insertions := summary.insertions
  deletions := summary.deletions
  totalGoldWords := summary.totalGoldWords
  totalMainWords := summary.totalMainWords
  perPos := perPosEntries perUtt

end PerPos

section Cwer

variable [UnicodeCase]

/-- Pairs one inserted main token with the first unpaired gold token that matches it. The
pair holds the unpaired gold tokens and the number of unpaired main tokens. -/
def pairOff (unmatched : List String × ℕ) (text : String) : List String × ℕ :=
  match unmatched.1.findIdx? (matchFn text) with
  | some idx => (swapRemove unmatched.1 idx, unmatched.2)
  | none => (unmatched.1, unmatched.2 + 1)

/-- The texts of the tokens with a status, punctuation left out. -/
def textsWithStatus (status : TokStatus) (tokens : List CmpToken) : List String :=
  (tokens.filter fun token => token.status == status && token.pos != .punct).map CmpToken.text

def UttCmp.cwerEditDistance (cmp : UttCmp) : ℕ :=
  let gold := textsWithStatus .extraGold cmp.tokens
  let unmatched := (textsWithStatus .extraMain cmp.tokens).foldl pairOff (gold, 0)
  unmatched.2 + unmatched.1.length

end Cwer

section Rates

variable [Float64]

/-- An error rate; no gold words make no errors. -/
def rate (errors total : ℕ) : ℚ :=
  if total = 0 then 0 else Float64.round (errors / total)

variable [UnicodeCase]

def summarize (perUtt : List UttCmp) : Summary :=
  let matchCount := (perUtt.map UttCmp.matchCount).sum
  let insertions := (perUtt.map UttCmp.inserts).sum
  let deletions := (perUtt.map UttCmp.deletes).sum
  let wer := rate (insertions + deletions) (matchCount + deletions)
  { matchCount := matchCount
    insertions := insertions
    deletions := deletions
    totalGoldWords := matchCount + deletions
    totalMainWords := matchCount + insertions
    wer := wer
    cwer := rate (perUtt.map UttCmp.cwerEditDistance).sum (matchCount + deletions)
    accuracy := Float64.round (1 - wer) }

end Rates

section Texts

variable [Float64]

open Float64 (format4)

def summaryJson (s : Summary) : String :=
  "\x7b\"wer\":" ++ format4 s.wer ++ ",\"cwer\":" ++ format4 s.cwer ++ ",\"accuracy\":" ++
    format4 s.accuracy ++ s!",\"matches\":{s.matchCount},\"insertions\":{s.insertions}" ++
    s!",\"deletions\":{s.deletions},\"total_gold_words\":{s.totalGoldWords}" ++
    s!",\"total_main_words\":{s.totalMainWords}" ++ "\x7d"

def statusPrefix : TokStatus → String
  | .extraMain => "+"
  | .extraGold => "-"
  | .matched => ""

def serializeXsrep (cmp : UttCmp) : String :=
  " ".intercalate (cmp.tokens.map fun token =>
    statusPrefix token.status ++ token.text.map fun c => if isWhitespace c then '_' else c)

/-- A final punctuation token is written as its text. -/
def serializeXsmor (cmp : UttCmp) : String :=
  let parts := cmp.tokens.map fun token => statusPrefix token.status ++ token.pos.asStr
  match cmp.tokens.getLast? with
  | some ⟨text, status, .punct⟩ => " ".intercalate (parts.dropLast ++ [statusPrefix status ++ text])
  | _ => " ".intercalate parts

def serializeXcmp [UnicodeCase] (cmp : UttCmp) : String :=
  "wer=" ++ format4 (rate cmp.editDistance cmp.totalGold) ++
    " cwer=" ++ format4 (rate cmp.cwerEditDistance cmp.totalGold) ++
    s!" ed={cmp.editDistance} gold={cmp.totalGold} match={cmp.matchCount}" ++
    s!" ins={cmp.inserts} del={cmp.deletes}"

end Texts

end Batchalign.Compare
