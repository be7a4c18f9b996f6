import Batchalign.Fa.TokenCounts

/-!
# The two reuse decisions

`FaTaskRunner::apply` first asks `refresh_complete_wor_alignment` whether the whole
file can keep its `%wor` timing, and only otherwise `collect_reusable_wor_segments`
which of its utterances can. Both walk the same chain of checks, written twice.
-/

namespace Batchalign.Fa

open Batchalign.Chat

section Scan

/-- What the loop over the `%wor` words of one utterance has seen. -/
structure TierScan where
  firstStart : Option ℕ
  lastEnd : Option ℕ
  minimumStart : Option ℕ
  maximumEnd : Option ℕ
  maximumDurationMs : ℕ
  previousEndMs : Option ℕ

def TierScan.empty : TierScan where
  firstStart := none
  lastEnd := none
  minimumStart := none
  maximumEnd := none
  maximumDurationMs := 0
  previousEndMs := none

def TierScan.add (scan : TierScan) (timing : Timing) : TierScan where
  firstStart := some (scan.firstStart.getD timing.startMs)
  lastEnd := some timing.endMs
  minimumStart := some (scan.minimumStart.elim timing.startMs (min · timing.startMs))
  maximumEnd := some (scan.maximumEnd.elim timing.endMs (max · timing.endMs))
  maximumDurationMs := max scan.maximumDurationMs (timing.endMs - timing.startMs)
  previousEndMs := some timing.endMs

/-- The loop over the words. It gives up at the first one without timing, too short or
before the end of the word before it. -/
def scanTier : TierScan → List Word → Option TierScan
  | scan, [] => some scan
  | scan, word :: words =>
      word.inlineBullet.bind fun bullet =>
      if bullet.timing.endMs - bullet.timing.startMs < minReusableWordDurationMs then none
      else if scan.previousEndMs.any fun previousEnd => bullet.timing.startMs < previousEnd then
        none
      else scanTier (scan.add bullet.timing) words

/-- A scan of words that passed its checks holds what the words say: nothing starts before
the first start or ends after the last end. -/
structure TierScan.Summarises (scan : TierScan) (seen : List AsrWord) : Prop where
  first : scan.firstStart = seen.head?.map AsrWord.startMs
  last : scan.lastEnd = seen.getLast?.map AsrWord.endMs
  minimum : scan.minimumStart = scan.firstStart
  maximum : scan.maximumEnd = scan.lastEnd
  previous : scan.previousEndMs = scan.lastEnd
  longest : scan.maximumDurationMs = Fa.maximumDurationMs seen
  forward : ∀ start ∈ scan.firstStart, ∀ stop ∈ scan.lastEnd, start ≤ stop

theorem TierScan.summarises_empty : TierScan.empty.Summarises [] where
  first := rfl
  last := rfl
  minimum := rfl
  maximum := rfl
  previous := rfl
  longest := rfl
  forward := by simp [TierScan.empty]

theorem TierScan.Summarises.add {scan : TierScan} {seen : List AsrWord} {word : Word}
    {bullet : Bullet} (summarises : scan.Summarises seen)
    (positive : bullet.timing.startMs ≤ bullet.timing.endMs)
    (after : ∀ previousEnd ∈ scan.previousEndMs, previousEnd ≤ bullet.timing.startMs) :
    (scan.add bullet.timing).Summarises (seen ++ [timedAsrWord word bullet]) := by
  have longest : max scan.maximumDurationMs (bullet.timing.endMs - bullet.timing.startMs) =
      Fa.maximumDurationMs (seen ++ [timedAsrWord word bullet]) := by
    rw [summarises.longest]
    simp [Fa.maximumDurationMs, timedAsrWord]
  have first := summarises.first
  have last := summarises.last
  rw [summarises.previous, last] at after
  cases seen with
  | nil =>
      simp only [List.head?_nil, Option.map_none] at first
      simp only [List.getLast?_nil, Option.map_none] at last
      constructor <;>
        simp [TierScan.add, first, last, summarises.minimum, summarises.maximum, timedAsrWord,
          positive]
      exact longest
  | cons head rest =>
      have atLast := List.getLast?_eq_some_getLast (List.cons_ne_nil head rest)
      generalize (head :: rest).getLast (List.cons_ne_nil head rest) = final at atLast
      simp only [List.head?_cons, Option.map_some] at first
      simp only [atLast, Option.map_some] at last after
      have forward : head.startMs ≤ final.endMs := summarises.forward _ first _ last
      have ordered : final.endMs ≤ bullet.timing.startMs := after _ rfl
      constructor
      · simp [TierScan.add, first]
      · rw [List.getLast?_append]
        rfl
      · simp only [TierScan.add, summarises.minimum, first]
        simp
        omega
      · simp [TierScan.add, summarises.maximum, last]
        omega
      · rfl
      · exact longest
      · simp [TierScan.add, first]
        omega

/-- The two loops over the words pass the same tiers, and the scan holds what the other loop
collects. -/
theorem scanTier_rel {scan : TierScan} {seen : List AsrWord} (summarises : scan.Summarises seen)
    (words : List Word) :
    Option.Rel (fun final timed => final.Summarises (seen ++ timed)) (scanTier scan words)
      (reusableWords scan.previousEndMs words) := by
  induction words generalizing scan seen with
  | nil =>
      apply Option.Rel.some
      rw [List.append_nil]
      exact summarises
  | cons word words ih =>
      cases timing : word.inlineBullet with
      | none =>
          simp only [scanTier, reusableWords, timing, Option.bind_none]
          exact .none
      | some bullet =>
          simp only [scanTier, reusableWords, timing, Option.bind_some, Bool.or_eq_true,
            decide_eq_true_eq]
          by_cases short :
              bullet.timing.endMs - bullet.timing.startMs < minReusableWordDurationMs
          · rw [if_pos short, if_pos (.inl short)]
            exact .none
          · by_cases backward :
                (scan.previousEndMs.any fun previousEnd =>
                  decide (bullet.timing.startMs < previousEnd)) = true
            · rw [if_neg short, if_pos backward, if_pos (.inr backward)]
              exact .none
            · rw [if_neg short, if_neg backward, if_neg (not_or.mpr ⟨short, backward⟩)]
              have positive : bullet.timing.startMs ≤ bullet.timing.endMs := by
                simp only [minReusableWordDurationMs] at short
                omega
              have after : ∀ previousEnd ∈ scan.previousEndMs,
                  previousEnd ≤ bullet.timing.startMs := by
                simpa [Option.any_eq_true] using backward
              have rest := ih (@TierScan.Summarises.add _ _ word _ summarises positive after)
              change Option.Rel _ _ (reusableWords (some bullet.timing.endMs) words) at rest
              generalize scanTier (scan.add bullet.timing) words = final at rest ⊢
              generalize reusableWords (some bullet.timing.endMs) words = timed at rest ⊢
              cases rest with
              | some agrees =>
                  apply Option.Rel.some
                  simpa using agrees
              | none => exact .none

end Scan

section Refresh

def lineStart : Line → Option ℕ
  | .utterance utt => bulletStart utt
  | _ => none

/-- The end is past the start of the next line with a bullet. -/
def overrunsNext (lines : List Line) (window : ℕ × Timing) : Bool :=
  ((lines.drop (window.1 + 1)).findSome? lineStart).any fun nextStart =>
    window.2.endMs > nextStart

/-- Writes the new bullet of an utterance. -/
def refreshLine (window : Timing) : Line → Line
  | .utterance utt => .utterance (utt.withBullet (some (.new window.startMs window.endMs)))
  | line => line

/-- The dominance check and the window of a scanned tier. Without words the source would panic
here; the text comparison excludes it. -/
def scannedWindow (wordCount : ℕ) (scan : TierScan) : Option Timing :=
  match scan.minimumStart, scan.maximumEnd, scan.firstStart, scan.lastEnd with
  | some minimumStart, some maximumEnd, some firstStart, some lastEnd =>
      if wordCount ≥ minWordsForDominanceCheck &&
          dominates scan.maximumDurationMs (maximumEnd - minimumStart) then none
      else some ⟨firstStart, lastEnd⟩
  | _, _, _, _ => none

variable [Talkbank]

/-- The checks on one utterance with words, up to its first and last word time. -/
def completeWindow (utt : Utterance) : Option Timing :=
  utt.worTier.bind fun wor =>
    if wor.words.map Word.cleanedText ≠ (faWords utt.items).map Word.cleanedText then none
    else (scanTier .empty wor.words).bind (scannedWindow wor.words.length)

/-- The loop over the lines: whether an utterance has words, and the new windows with their
line indices. -/
def refreshedWindows : ℕ → List Line → Option (Bool × List (ℕ × Timing))
  | _, [] => some (false, [])
  | lineIndex, .utterance utt :: lines =>
      if ((faWords utt.items).map Word.cleanedText).isEmpty then
        refreshedWindows (lineIndex + 1) lines
      else (completeWindow utt).bind fun window =>
        (refreshedWindows (lineIndex + 1) lines).map fun rest =>
          (true, (lineIndex, window) :: rest.2)
  | lineIndex, _ :: lines => refreshedWindows (lineIndex + 1) lines

/-- `refresh_complete_wor_alignment`: the answer and the chat it leaves behind. -/
def refreshCompleteWorAlignment (chat : ChatFile) : Bool × ChatFile :=
  match refreshedWindows 0 chat.lines with
  | none => (false, chat)
  | some (sawWords, refreshed) =>
      if !sawWords then (false, chat)
      else if refreshed.any (overrunsNext chat.lines) then (false, chat)
      else (true, { chat with
        lines := refreshed.foldl
          (fun lines window => lines.modify window.1 (refreshLine window.2)) chat.lines })

end Refresh

section Agreement

theorem modify_length_append {α : Type} (f : α → α) (before : List α) (a : α) (rest : List α) :
    (before ++ a :: rest).modify before.length f = before ++ f a :: rest := by
  induction before with
  | nil => rfl
  | cons b before ih => simp [ih]

theorem findSome?_lineStart (lines : List Line) :
    lines.findSome? lineStart = (lines.filterMap Line.utterance?).findSome? bulletStart := by
  induction lines with
  | nil => rfl
  | cons line lines ih =>
      cases line with
      | utterance utt => simp [lineStart, Line.utterance?, List.findSome?_cons, ih]
      | header header => exact ih
      | other text => exact ih

theorem overrunsNext_append (before : List Line) (line : Line) (lines : List Line)
    (window : Timing) :
    overrunsNext (before ++ line :: lines) (before.length, window) =
      ((lines.filterMap Line.utterance?).findSome? bulletStart).any fun nextStart =>
        window.endMs > nextStart := by
  simp only [overrunsNext, List.drop_length_add_append, List.drop_succ_cons, List.drop_zero,
    findSome?_lineStart]

def segmentWindow (seg : AsrSegment) : Timing := ⟨seg.startMs, seg.endMs⟩

theorem reusableWords_length {previousEndMs : Option ℕ} {words : List Word}
    {timed : List AsrWord} (found : reusableWords previousEndMs words = some timed) :
    timed.length = words.length := by
  rcases reusableWords_eq_some_iff.mp found with ⟨bullets, ordered, -, rfl⟩
  rw [List.length_zipWith, ← ordered.length_eq, min_self]

/-- The whole-tier checks of both copies, the one against the next bullet apart. -/
theorem reusableSegment_window {scan : TierScan} {timed : List AsrWord}
    (summarises : scan.Summarises timed) (speaker : String) (nextStart : Option ℕ) :
    (reusableSegment speaker nextStart timed).map segmentWindow =
      (scannedWindow timed.length scan).filter fun window =>
        !(nextStart.any fun next => window.endMs > next) := by
  have first := summarises.first
  have last := summarises.last
  have minimum := summarises.minimum
  have maximum := summarises.maximum
  cases timed with
  | nil =>
      simp only [List.head?_nil, Option.map_none] at first
      simp [reusableSegment, scannedWindow, minimum, first]
  | cons head rest =>
      have atLast := List.getLast?_eq_some_getLast (List.cons_ne_nil head rest)
      generalize (head :: rest).getLast (List.cons_ne_nil head rest) = final at atLast
      simp only [List.head?_cons, Option.map_some] at first
      simp only [atLast, Option.map_some] at last
      rw [first] at minimum
      rw [last] at maximum
      simp only [reusableSegment, scannedWindow, List.head?_cons, atLast, first, last, minimum,
        maximum, summarises.longest]
      split
      · rfl
      · cases nextStart with
        | none => rfl
        | some next =>
            by_cases past : final.endMs > next <;>
              simp [past, segmentWindow, Option.filter_some]

variable [Talkbank]

/-- Up to the check against the next bullet both copies decide the same about an utterance
with words. -/
theorem reusableWorSegment_window {utt : Utterance} (hasWords : faWords utt.items ≠ [])
    (nextStart : Option ℕ) :
    (reusableWorSegment utt nextStart).map segmentWindow =
      (completeWindow utt).filter fun window =>
        !(nextStart.any fun next => window.endMs > next) := by
  simp only [reusableWorSegment, completeWindow, List.isEmpty_iff, List.map_eq_nil_iff]
  rw [if_neg hasWords]
  cases onTier : utt.worTier with
  | none => rfl
  | some wor =>
      simp only [Option.bind_some]
      by_cases sameText :
          wor.words.map Word.cleanedText = (faWords utt.items).map Word.cleanedText
      · rw [if_neg (not_not.mpr sameText), if_neg (not_not.mpr sameText)]
        have agree := scanTier_rel TierScan.summarises_empty wor.words
        change Option.Rel _ _ (reusableWords none wor.words) at agree
        generalize scanTier .empty wor.words = scanned at agree ⊢
        cases found : reusableWords none wor.words with
        | none =>
            rw [found] at agree
            cases agree
            rfl
        | some timed =>
            rw [found] at agree
            cases agree with
            | some summarises =>
                rw [Option.bind_some, Option.bind_some, ← reusableWords_length found]
                exact reusableSegment_window summarises _ _
      · rw [if_pos sameText, if_pos sameText]
        rfl

def reusableSegments (utts : List Utterance) : List (Option AsrSegment) :=
  (utts.zip (nextStarts utts)).map fun utt => reusableWorSegment utt.1 utt.2

/-- Every utterance with words has a reusable segment. -/
def AllReusable (utts : List Utterance) : Prop :=
  ∀ row ∈ utts.zip (reusableSegments utts), faWords row.1.items ≠ [] → row.2.isSome

theorem allReusable_cons (utt : Utterance) (utts : List Utterance) :
    AllReusable (utt :: utts) ↔
      (faWords utt.items ≠ [] →
        (reusableWorSegment utt (utts.findSome? bulletStart)).isSome) ∧ AllReusable utts := by
  simp only [AllReusable, reusableSegments, nextStarts, List.zip_cons_cons, List.map_cons,
    List.forall_mem_cons]

/-- The lines with the windows of the segments as bullets. -/
def withSegmentBullets : List Line → List (Option AsrSegment) → List Line
  | .utterance utt :: lines, some seg :: segments =>
      .utterance (utt.withBullet (some (.new seg.startMs seg.endMs))) ::
        withSegmentBullets lines segments
  | .utterance utt :: lines, none :: segments =>
      .utterance utt :: withSegmentBullets lines segments
  | .header header :: lines, segments => .header header :: withSegmentBullets lines segments
  | .other text :: lines, segments => .other text :: withSegmentBullets lines segments
  | lines, _ => lines

/-- What the loop over the lines records when it gets to the end. -/
inductive Refreshes : ℕ → List Line → List (ℕ × Timing) → Prop where
  | nil (index : ℕ) : Refreshes index [] []
  | skip {index : ℕ} {line : Line} {lines : List Line} {windows : List (ℕ × Timing)}
      (noWords : ∀ utt ∈ line.utterance?, faWords utt.items = [])
      (rest : Refreshes (index + 1) lines windows) : Refreshes index (line :: lines) windows
  | window {index : ℕ} {utt : Utterance} {lines : List Line} {windows : List (ℕ × Timing)}
      {window : Timing} (hasWords : faWords utt.items ≠ [])
      (complete : completeWindow utt = some window)
      (rest : Refreshes (index + 1) lines windows) :
      Refreshes index (.utterance utt :: lines) ((index, window) :: windows)

theorem refreshedWindows_eq_some {index : ℕ} {lines : List Line} {sawWords : Bool}
    {windows : List (ℕ × Timing)}
    (found : refreshedWindows index lines = some (sawWords, windows)) :
    Refreshes index lines windows ∧
      (sawWords = true ↔ ∃ utt ∈ lines.filterMap Line.utterance?, faWords utt.items ≠ []) := by
  induction lines generalizing index sawWords windows with
  | nil =>
      simp only [refreshedWindows, Option.some.injEq, Prod.mk.injEq] at found
      rcases found with ⟨rfl, rfl⟩
      exact ⟨.nil index, by simp⟩
  | cons line lines ih =>
      cases line with
      | utterance utt =>
          simp only [refreshedWindows, List.isEmpty_iff, List.map_eq_nil_iff] at found
          by_cases noWords : faWords utt.items = []
          · rw [if_pos noWords] at found
            rcases ih found with ⟨rest, saw⟩
            exact ⟨.skip (by simpa [Line.utterance?] using noWords) rest,
              by simpa [Line.utterance?, noWords] using saw⟩
          · rw [if_neg noWords] at found
            rcases Option.bind_eq_some_iff.mp found with ⟨window, complete, later⟩
            rcases Option.map_eq_some_iff.mp later with ⟨⟨_, windows⟩, rest, ⟨⟩⟩
            exact ⟨.window noWords complete (ih rest).1, by simp [Line.utterance?, noWords]⟩
      | header header =>
          rcases ih found with ⟨rest, saw⟩
          exact ⟨.skip (by simp [Line.utterance?]) rest, by simpa [Line.utterance?] using saw⟩
      | other text =>
          rcases ih found with ⟨rest, saw⟩
          exact ⟨.skip (by simp [Line.utterance?]) rest, by simpa [Line.utterance?] using saw⟩

theorem refreshedWindows_eq_none {index : ℕ} {lines : List Line}
    (rejected : refreshedWindows index lines = none) :
    ¬ AllReusable (lines.filterMap Line.utterance?) := by
  induction lines generalizing index with
  | nil => simp [refreshedWindows] at rejected
  | cons line lines ih =>
      cases line with
      | utterance utt =>
          simp only [List.filterMap_cons, Line.utterance?, allReusable_cons, not_and]
          intro reusable
          simp only [refreshedWindows, List.isEmpty_iff, List.map_eq_nil_iff] at rejected
          by_cases noWords : faWords utt.items = []
          · rw [if_pos noWords] at rejected
            exact ih rejected
          · rw [if_neg noWords] at rejected
            cases complete : completeWindow utt with
            | none =>
                have windowed := reusableWorSegment_window noWords
                  ((lines.filterMap Line.utterance?).findSome? bulletStart)
                rw [complete, Option.filter_none, Option.map_eq_none_iff] at windowed
                have isSome := reusable noWords
                rw [windowed] at isSome
                cases isSome
            | some window =>
                rw [complete, Option.bind_some, Option.map_eq_none_iff] at rejected
                exact ih rejected
      | header header => exact ih rejected
      | other text => exact ih rejected

/-- A reusable utterance keeps its own window, and so does one with a window that does not
overrun. -/
theorem reusableWorSegment_isSome_iff_window {utt : Utterance} {window : Timing}
    (hasWords : faWords utt.items ≠ []) (complete : completeWindow utt = some window)
    (nextStart : Option ℕ) :
    (reusableWorSegment utt nextStart).isSome ↔
      (nextStart.any fun next => window.endMs > next) = false := by
  have windowed := reusableWorSegment_window hasWords nextStart
  rw [complete, Option.filter_some] at windowed
  rw [← Option.isSome_map (f := segmentWindow), windowed]
  cases nextStart.any fun next => window.endMs > next <;> simp

/-- The check against the next bullets, after the loop, passes exactly the files whose
utterances all keep their segment. -/
theorem Refreshes.overruns_iff {index : ℕ} {lines : List Line} {windows : List (ℕ × Timing)}
    (refreshes : Refreshes index lines windows) {before : List Line}
    (atIndex : index = before.length) :
    windows.any (overrunsNext (before ++ lines)) = false ↔
      AllReusable (lines.filterMap Line.utterance?) := by
  induction refreshes generalizing before with
  | nil index => simp [AllReusable]
  | @skip index line lines windows noWords rest ih =>
      have later := @ih (before ++ [line]) (by simp [atIndex])
      rw [List.append_cons, later]
      cases line with
      | utterance utt =>
          simp [Line.utterance?, allReusable_cons, noWords utt rfl]
      | header header => rfl
      | other text => rfl
  | @window index utt lines windows window hasWords complete rest ih =>
      have later := @ih (before ++ [.utterance utt]) (by simp [atIndex])
      rw [← List.append_cons] at later
      simp only [List.filterMap_cons, Line.utterance?, allReusable_cons, List.any_cons,
        Bool.or_eq_false_iff, later, atIndex, overrunsNext_append, hasWords, ne_eq,
        not_false_eq_true, true_imp_iff,
        reusableWorSegment_isSome_iff_window hasWords complete]

/-- The last loop writes the windows of the segments. -/
theorem Refreshes.written {index : ℕ} {lines : List Line} {windows : List (ℕ × Timing)}
    (refreshes : Refreshes index lines windows) {before : List Line}
    (atIndex : index = before.length)
    (reusable : AllReusable (lines.filterMap Line.utterance?)) :
    windows.foldl (fun lines window => lines.modify window.1 (refreshLine window.2))
        (before ++ lines) =
      before ++ withSegmentBullets lines
        (reusableSegments (lines.filterMap Line.utterance?)) := by
  induction refreshes generalizing before with
  | nil index => simp [withSegmentBullets]
  | @skip index line lines windows noWords rest ih =>
      have later := @ih (before ++ [line]) (by simp [atIndex])
      rw [List.append_cons]
      cases line with
      | utterance utt =>
          have noWords := noWords utt rfl
          simp only [List.filterMap_cons, Line.utterance?, allReusable_cons] at reusable
          rw [later reusable.2, List.append_assoc, List.singleton_append]
          simp [Line.utterance?, reusableSegments, nextStarts, withSegmentBullets,
            reusableWorSegment, noWords]
      | header header =>
          rw [later reusable, List.append_assoc, List.singleton_append]
          rfl
      | other text =>
          rw [later reusable, List.append_assoc, List.singleton_append]
          rfl
  | @window index utt lines windows window hasWords complete rest ih =>
      simp only [List.filterMap_cons, Line.utterance?, allReusable_cons] at reusable
      have windowed := reusableWorSegment_window hasWords
        ((lines.filterMap Line.utterance?).findSome? bulletStart)
      have isSome := reusable.1 hasWords
      rcases Option.isSome_iff_exists.mp isSome with ⟨seg, isSegment⟩
      rw [complete, isSegment, Option.map_some, Option.filter_some] at windowed
      have sameWindow : segmentWindow seg = window := by
        split at windowed
        · exact Option.some.inj windowed
        · cases windowed
      have later := @ih (before ++ [refreshLine window (.utterance utt)]) (by simp [atIndex])
        reusable.2
      simp only [List.append_assoc, List.singleton_append] at later
      rw [List.foldl_cons, atIndex, modify_length_append, later, ← sameWindow]
      simp [Line.utterance?, reusableSegments, nextStarts, withSegmentBullets, isSegment,
        refreshLine, segmentWindow]

/-- The file has words, and every utterance with words keeps its segment. -/
def KeepsTiming (chat : ChatFile) : Prop :=
  (∃ utt ∈ chat.utterances, faWords utt.items ≠ []) ∧
  ∀ row ∈ chat.utterances.zip (collectReusableWorSegments chat),
    faWords row.1.items ≠ [] → row.2.isSome

theorem refreshCompleteWorAlignment_of_keeps {chat : ChatFile} (keeps : KeepsTiming chat) :
    refreshCompleteWorAlignment chat = (true, { chat with
      lines := withSegmentBullets chat.lines (collectReusableWorSegments chat) }) := by
  simp only [refreshCompleteWorAlignment]
  cases found : refreshedWindows 0 chat.lines with
  | none => exact absurd keeps.2 (refreshedWindows_eq_none found)
  | some result =>
      rcases result with ⟨sawWords, windows⟩
      rcases refreshedWindows_eq_some found with ⟨refreshes, saw⟩
      have past := (@Refreshes.overruns_iff _ _ _ _ refreshes [] rfl).mpr keeps.2
      have written := @Refreshes.written _ _ _ _ refreshes [] rfl keeps.2
      rw [List.nil_append] at past
      simp only [List.nil_append] at written
      simp only [saw.mpr keeps.1, past, Bool.not_true, Bool.false_eq_true, if_false, written]
      rfl

theorem refreshCompleteWorAlignment_of_not_keeps {chat : ChatFile} (not_ : ¬ KeepsTiming chat) :
    refreshCompleteWorAlignment chat = (false, chat) := by
  simp only [refreshCompleteWorAlignment]
  cases found : refreshedWindows 0 chat.lines with
  | none => rfl
  | some result =>
      rcases result with ⟨sawWords, windows⟩
      rcases refreshedWindows_eq_some found with ⟨refreshes, saw⟩
      have overruns := @Refreshes.overruns_iff _ _ _ _ refreshes [] rfl
      rw [List.nil_append] at overruns
      cases sawWords with
      | false => rfl
      | true =>
          have past : windows.any (overrunsNext chat.lines) = true := by
            apply Bool.eq_true_of_not_eq_false
            intro none_past
            exact not_ ⟨saw.mp rfl, overruns.mp none_past⟩
          simp only [past, Bool.not_true, Bool.false_eq_true, if_false, if_true]

/-- The whole-file decision is the conjunction of the decisions for the utterances with words.
The chat changes only when it is made, and only in their bullets. -/
theorem refreshCompleteWorAlignment_agrees (chat : ChatFile) :
    ((refreshCompleteWorAlignment chat).1 = true ↔
      (∃ utt ∈ chat.utterances, faWords utt.items ≠ []) ∧
      ∀ row ∈ chat.utterances.zip (collectReusableWorSegments chat),
        faWords row.1.items ≠ [] → row.2.isSome) ∧
    ((refreshCompleteWorAlignment chat).1 = true →
      (refreshCompleteWorAlignment chat).2 = { chat with
        lines := withSegmentBullets chat.lines (collectReusableWorSegments chat) }) ∧
    ((refreshCompleteWorAlignment chat).1 = false →
      (refreshCompleteWorAlignment chat).2 = chat) := by
  change (_ ↔ KeepsTiming chat) ∧ _
  by_cases keeps : KeepsTiming chat
  · rw [refreshCompleteWorAlignment_of_keeps keeps]
    exact ⟨iff_of_true rfl keeps, fun _ => rfl, by simp⟩
  · rw [refreshCompleteWorAlignment_of_not_keeps keeps]
    exact ⟨iff_of_false (by simp) keeps, by simp, fun _ => rfl⟩

end Agreement

end Batchalign.Fa
