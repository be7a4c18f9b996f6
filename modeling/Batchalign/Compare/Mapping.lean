import Batchalign.Compare.Align

/-!
# Mapping gold utterances to main utterances

The first phase of `compare_one` in `backends/compare.rs`: for every gold utterance a
window of main tokens is searched (`find_best_segment`), snapped to the main
utterance most of it comes from, and the search for the next one starts at its end.

The scores of windows have one denominator, the number of gold tokens, so the
overlaps are compared instead of the quotients.
-/

namespace Batchalign.Compare

section Majority

/-- A value of a slice with its count and the index it was first seen at. -/
structure ValueCount where
  value : ℕ
  count : ℕ
  firstSeen : ℕ
deriving DecidableEq, Repr

/-- Counts one more value. -/
def countValue (counts : List ValueCount) (value idx : ℕ) : List ValueCount :=
  if counts.any (·.value == value) then
    counts.map fun entry =>
      if entry.value = value then { entry with count := entry.count + 1 } else entry
  else counts ++ [⟨value, 1, idx⟩]

/-- The counts in order of first sight. The source holds them in a hash map, whose order does
not matter, since no two of them tie. -/
def valueCounts (slice : List ℕ) : List ValueCount :=
  slice.zipIdx.foldl (fun counts (value, idx) => countValue counts value idx) []

/-- A higher count wins, on a tie the earlier seen. -/
def ValueCount.less (a b : ValueCount) : Bool :=
  a.count < b.count || (a.count == b.count && b.firstSeen < a.firstSeen)

def ValueCount.max (a b : ValueCount) : ValueCount := if b.less a then a else b

def majorityValue (slice : List ℕ) : ℕ :=
  match valueCounts slice with
  | [] => 0
  | first :: rest => (rest.foldl ValueCount.max first).value

end Majority

section Search

/-- How many leading values are not `majority`. -/
def leadingOthers (majority : ℕ) (slice : List ℕ) : ℕ :=
  (slice.takeWhile (· != majority)).length

/-- The window without the ends that come from other utterances than most of it. -/
def projectWindow (mainUtts : List ℕ) (start stop : ℕ) : ℕ × ℕ :=
  let slice := mainUtts.extract start stop
  let majority := majorityValue slice
  let ts := start + leadingOthers majority slice
  (ts, stop - leadingOthers majority (mainUtts.extract ts stop).reverse)

/-- The size of the intersection as bags. -/
def bagOverlap (gold window : List String) : ℕ :=
  (window.dedup.map fun token => min (window.count token) (gold.count token)).sum

/-- The best window so far. Before the first, overlap and aligned matches are `-1` and there
is no waste. -/
structure BestSegment where
  window : ℕ × ℕ
  overlap : ℤ
  waste : Option ℤ
  alignMatches : ℤ
deriving DecidableEq, Repr

variable [UnicodeCase]

/-- Scores one projected window against the best so far: higher overlap, then more aligned
matches, then the later end, then less waste. -/
def BestSegment.consider (gold main : List String) (best : BestSegment) (window : ℕ × ℕ) :
    BestSegment :=
  let (ts, te) := window
  let tokens := main.extract ts te
  let overlap : ℤ := bagOverlap gold tokens
  let waste : ℤ := (te - ts : ℤ) - overlap
  let alignMatches : ℤ := (levenshteinAlign matchFn tokens gold).countP AlignItem.isMatched
  if best.overlap < overlap then ⟨window, overlap, some waste, alignMatches⟩
  else if overlap = best.overlap then
    if best.alignMatches < alignMatches then
      { best with window := window, waste := some waste, alignMatches := alignMatches }
    else if alignMatches = best.alignMatches then
      if best.window.2 < te then { best with window := window, waste := some waste }
      else if te = best.window.2 ∧ best.waste.all (waste < ·) then
        { best with window := window, waste := some waste }
      else best
    else best
  else best

/-- The windows of every span and start, shorter spans first. -/
def candidateWindows (goldLen mainLen : ℕ) : List (ℕ × ℕ) :=
  let minWindow := max (goldLen - 2) 1
  let maxWindow := min (goldLen + 2) mainLen
  (List.range' minWindow (maxWindow + 1 - minWindow)).flatMap fun span =>
    (List.range (mainLen - span + 1)).map fun start => (start, start + span)

def findBestSegment (gold main : List String) (mainUtts : List ℕ) : ℕ × ℕ :=
  if gold.isEmpty || main.isEmpty then (0, 0)
  else
    let first : BestSegment := ⟨(0, min gold.length main.length), -1, none, -1⟩
    let best := (candidateWindows gold.length main.length).foldl (fun best (start, stop) =>
      let (ts, te) := projectWindow mainUtts start stop
      if te ≤ ts then best else best.consider gold main (ts, te)) first
    if best.overlap ≤ 0 then (0, 0) else best.window

/-- Snaps a window of absolute positions to the utterance most of it comes from: other tokens
at its end are dropped, and it grows to the left within that utterance by at most as many
tokens as its alignment leaves gold tokens unmatched at the front. -/
def snapWindowToMajorityUtt (absStart absEnd searchStart : ℕ) (conformedMain : List String)
    (mainUtts : List ℕ) (goldTokens : List String) : ℕ × ℕ :=
  if absEnd ≤ absStart then (absStart, absEnd)
  else
    let slice := mainUtts.extract absStart absEnd
    let majority := majorityValue slice
    let absEnd := absEnd - leadingOthers majority slice.reverse
    if absEnd ≤ absStart then (absStart, absEnd)
    else
      let alignment := levenshteinAlign matchFn (conformedMain.extract absStart absEnd) goldTokens
      let leadingRefs := (alignment.takeWhile AlignItem.isDelete).length
      let before := (mainUtts.extract searchStart absStart).reverse.take leadingRefs
      (absStart - (before.takeWhile (· == majority)).length, absEnd)

/-- The window of one gold utterance: searched from `searchStart` on, then snapped. -/
def goldWindow (conformedMain : List String) (mainUtts : List ℕ) (searchStart : ℕ)
    (goldTokens : List String) : ℕ × ℕ :=
  let window := findBestSegment goldTokens (conformedMain.drop searchStart)
    (mainUtts.drop searchStart)
  snapWindowToMajorityUtt (searchStart + window.1) (searchStart + window.2) searchStart
    conformedMain mainUtts goldTokens

/-- The main utterance of each gold utterance from `searchStart` on, if it has one. -/
def goldToMain (conformedMain : List String) (mainUtts : List ℕ) :
    ℕ → List (List String) → List (Option ℕ)
  | _, [] => []
  | searchStart, goldTokens :: rest =>
      if goldTokens.isEmpty then none :: goldToMain conformedMain mainUtts searchStart rest
      else
        let (absStart, absEnd) := goldWindow conformedMain mainUtts searchStart goldTokens
        let target :=
          if absStart < absEnd then some (majorityValue (mainUtts.extract absStart absEnd))
          else none
        target :: goldToMain conformedMain mainUtts absEnd rest

end Search

end Batchalign.Compare
