import Batchalign.Fa.Wav2Vec2
import Batchalign.Library.MemoTable

/-!
# Cached alignments

The cache key of an alignment request, `CacheKey for FaInput` of
`batchalign-core/src/proto/fa.rs`, leaves the utterance windows out. The aligner
reads them: they decide which audio a word is looked for in and bound its time.
Two requests with one key are answered alike by every model exactly when each
utterance has the same window in both, or no window in both.
-/

namespace Batchalign.Fa

section Key

structure UttKey where
  text : String
  speaker : Option String
  words : List String
deriving DecidableEq, Repr

/-- What `CacheKey::hash` serializes. -/
structure FaKeyContent where
  audio : PreparedAudio
  utterances : List UttKey
  language : LanguageSpec
deriving DecidableEq, Repr

def uttKey (utt : AsrSegment) : UttKey where
  text := utt.text
  speaker := utt.speaker
  words := utt.words.map AsrWord.text

def keyContent (item : FaInput) : FaKeyContent where
  audio := item.audio
  utterances := item.utterances.map uttKey
  language := item.language

/-- The word times of an answer. -/
def wordTimings (output : FaOutput) : List (List (ℕ × ℕ)) :=
  output.utterances.map fun utt => utt.words.map fun word => (word.startMs, word.endMs)

end Key

section Windows

/-- A window that ends after it starts, none otherwise. -/
def effective (window : ℕ × ℕ) : Option (ℕ × ℕ) :=
  if window.1 < window.2 then some window else none

/-- Every utterance has the same window in both, or no window in both. -/
def Interchangeable (windows windows' : List (ℕ × ℕ)) : Prop :=
  windows.map effective = windows'.map effective

instance (windows windows' : List (ℕ × ℕ)) : Decidable (Interchangeable windows windows') :=
  inferInstanceAs (Decidable (_ = _))

theorem effective_eq_some {window window' : ℕ × ℕ} :
    effective window = some window' ↔ window.1 < window.2 ∧ window = window' := by
  simp only [effective]
  by_cases active : window.1 < window.2 <;> simp [active]

theorem effective_eq_none {window : ℕ × ℕ} :
    effective window = none ↔ window.2 ≤ window.1 := by
  simp [effective]

/-- A step of the grouping reads the effective window only. -/
theorem Grouping.add_congr {window window' : ℕ × ℕ} (same : effective window = effective window')
    (grouping : Grouping) (uidx wordCount : ℕ) :
    grouping.add uidx window wordCount = grouping.add uidx window' wordCount := by
  cases active : effective window with
  | none =>
      rw [active] at same
      simp only [Grouping.add, effective_eq_none.mp active, effective_eq_none.mp same.symm,
        if_true]
  | some _ =>
      rw [active] at same
      rcases effective_eq_some.mp active with ⟨_, rfl⟩
      rcases effective_eq_some.mp same.symm with ⟨_, rfl⟩
      rfl

theorem Grouping.addAll_congr {windows windows' : List (ℕ × ℕ)}
    (same : Interchangeable windows windows') (counts : List ℕ) (grouping : Grouping)
    (uidx : ℕ) :
    grouping.addAll uidx (windows.zip counts) = grouping.addAll uidx (windows'.zip counts) := by
  simp only [Interchangeable] at same
  induction windows generalizing windows' counts grouping uidx with
  | nil =>
      cases windows' with
      | nil => rfl
      | cons => simp at same
  | cons window windows ih =>
      cases windows' with
      | nil => simp at same
      | cons window' windows' =>
          simp only [List.map_cons, List.cons.injEq] at same
          cases counts with
          | nil => rfl
          | cons count counts =>
              simp only [List.zip_cons_cons, Grouping.addAll]
              rw [Grouping.add_congr same.1]
              exact ih same.2 counts _ _

theorem groups_congr {windows windows' : List (ℕ × ℕ)}
    (same : Interchangeable windows windows') (counts : List ℕ) :
    groups (windows.zip counts) = groups (windows'.zip counts) := by
  simp only [groups]
  rw [Grouping.addAll_congr same]

/-- All members collected so far belong to utterances with a window. -/
def Grouping.Active (windows : List (ℕ × ℕ)) (grouping : Grouping) : Prop :=
  ∀ member, (member ∈ grouping.group ∨ ∃ grp ∈ grouping.groups, member ∈ grp) →
    ∃ window, windows[member.1]? = some window ∧ window.1 < window.2

theorem Grouping.Active.add {windows : List (ℕ × ℕ)} {grouping : Grouping}
    (active : grouping.Active windows) {uidx : ℕ} {window : ℕ × ℕ}
    (atIndex : windows[uidx]? = some window) (wordCount : ℕ) :
    (grouping.add uidx window wordCount).Active windows := by
  unfold Grouping.add
  split
  · exact active
  · rename_i hasWindow
    have isMember : ∀ member ∈ (List.range wordCount).map fun widx => (uidx, widx),
        ∃ window, windows[member.1]? = some window ∧ window.1 < window.2 := by
      intro member present
      rcases List.mem_map.mp present with ⟨widx, -, rfl⟩
      exact ⟨window, atIndex, by omega⟩
    simp only
    split
    · rintro member (present | ⟨grp, isGroup, present⟩)
      · exact isMember member present
      · rcases List.mem_append.mp isGroup with old | new
        · exact active member (Or.inr ⟨grp, old, present⟩)
        · simp only [List.mem_singleton] at new
          subst new
          exact active member (Or.inl present)
    · rintro member (present | isOld)
      · rcases List.mem_append.mp present with old | new
        · exact active member (Or.inl old)
        · exact isMember member new
      · exact active member (Or.inr isOld)

theorem Grouping.Active.addAll {windows : List (ℕ × ℕ)} {grouping : Grouping}
    (active : grouping.Active windows) {uidx : ℕ} {utts : List ((ℕ × ℕ) × ℕ)}
    (suffix : utts.map Prod.fst <+: windows.drop uidx) :
    (grouping.addAll uidx utts).Active windows := by
  induction utts generalizing grouping uidx with
  | nil => exact active
  | cons utt utts ih =>
      rcases suffix with ⟨rest, split⟩
      have atIndex : windows[uidx]? = some utt.1 := by
        have head := congrArg List.head? split
        simpa [List.head?_drop] using head.symm
      apply ih (active.add atIndex utt.2)
      refine ⟨rest, ?_⟩
      have tail := congrArg List.tail split
      simpa [List.tail_drop] using tail

theorem map_fst_zip_initial {α β : Type} (as : List α) (bs : List β) :
    (as.zip bs).map Prod.fst <+: as := by
  induction as generalizing bs with
  | nil => simp
  | cons a as ih =>
      cases bs with
      | nil => simp
      | cons b bs => simpa [List.prefix_cons_inj] using ih bs

theorem groups_active {windows : List (ℕ × ℕ)} {counts : List ℕ} {grp : List (ℕ × ℕ)}
    (isGroup : grp ∈ groups (windows.zip counts)) :
    ∀ member ∈ grp, ∃ window, windows[member.1]? = some window ∧ window.1 < window.2 := by
  have start : Grouping.start.Active windows := by
    rintro member (impossible | ⟨_, impossible, _⟩) <;> cases impossible
  have active := @Grouping.Active.addAll windows _ start 0 (windows.zip counts)
    (map_fst_zip_initial windows counts)
  intro member present
  simp only [groups, Grouping.close] at isGroup
  split at isGroup
  · exact active member (Or.inr ⟨grp, isGroup, present⟩)
  · rcases List.mem_append.mp isGroup with old | new
    · exact active member (Or.inr ⟨grp, old, present⟩)
    · simp only [List.mem_singleton] at new
      subst new
      exact active member (Or.inl present)

end Windows

section SameAnswer

variable {Sample Emission : Type} (backend : MmsBackend Sample Emission)

/-- At an utterance with a window, interchangeable windows are equal. -/
theorem Interchangeable.getElem?_eq {windows windows' : List (ℕ × ℕ)}
    (same : Interchangeable windows windows') {uidx : ℕ} {window : ℕ × ℕ}
    (atIndex : windows[uidx]? = some window) (active : window.1 < window.2) :
    windows'[uidx]? = some window := by
  have both := congrArg (·[uidx]?) same
  simp only [List.getElem?_map, atIndex, Option.map_some,
    effective_eq_some.mpr ⟨active, rfl⟩] at both
  rcases Option.map_eq_some_iff.mp both.symm with ⟨window', atIndex', isActive⟩
  rw [atIndex', (effective_eq_some.mp isActive).2]

/-- A group of utterances with windows has the same span in both. -/
theorem groupWindow_congr {windows windows' : List (ℕ × ℕ)}
    (same : Interchangeable windows windows') {grp : List (ℕ × ℕ)}
    (active : ∀ member ∈ grp, ∃ window, windows[member.1]? = some window ∧ window.1 < window.2) :
    groupWindow windows grp = groupWindow windows' grp := by
  have lookup : ∀ member ∈ grp, windows[member.1]? = windows'[member.1]? := by
    intro member present
    rcases active member present with ⟨window, atIndex, isActive⟩
    rw [atIndex, same.getElem?_eq atIndex isActive]
  have first : (grp.head?.bind fun member => windows[member.1]?) =
      grp.head?.bind fun member => windows'[member.1]? := by
    cases atHead : grp.head? with
    | none => rfl
    | some member => exact lookup member (List.mem_of_mem_head? atHead)
  have last : (grp.getLast?.bind fun member => windows[member.1]?) =
      grp.getLast?.bind fun member => windows'[member.1]? := by
    cases atLast : grp.getLast? with
    | none => rfl
    | some member => exact lookup member (List.mem_of_getLast? atLast)
  simp only [groupWindow, first, last]

theorem foldlM_congr {α β ε : Type} {f g : β → α → Except ε β} {l : List α}
    (same : ∀ a ∈ l, ∀ b, f b a = g b a) (b : β) : l.foldlM f b = l.foldlM g b := by
  induction l generalizing b with
  | nil => rfl
  | cons a l ih =>
      rcases List.forall_mem_cons.mp same with ⟨head, tail⟩
      simp only [List.foldlM_cons, head b, ih tail]

theorem rawTimings_congr {windows windows' : List (ℕ × ℕ)}
    (same : Interchangeable windows windows') (wave : List Sample) (texts : List (List String))
    (language : LanguageSpec) :
    rawTimings backend wave texts language windows =
      rawTimings backend wave texts language windows' := by
  simp only [rawTimings]
  rw [← groups_congr same]
  apply foldlM_congr
  intro grp isGroup timings
  simp only [alignGroup]
  rw [groupWindow_congr same (groups_active isGroup)]

/-- Bounding reads the effective window only. -/
theorem corrected_congr {window window' : ℕ × ℕ} (same : effective window = effective window')
    (times : List (Option (ℕ × ℕ))) (widx : ℕ) :
    corrected times window widx = corrected times window' widx := by
  cases active : effective window with
  | none =>
      rw [active] at same
      simp only [corrected, gt_iff_lt, not_lt.mpr (effective_eq_none.mp active),
        not_lt.mpr (effective_eq_none.mp same.symm), if_false]
  | some _ =>
      rw [active] at same
      rcases effective_eq_some.mp active with ⟨_, rfl⟩
      rcases effective_eq_some.mp same.symm with ⟨_, rfl⟩
      rfl

/-- The word times of an utterance, from its window and raw times. -/
def wordTimes (window : ℕ × ℕ) (count : ℕ) (times : List (Option (ℕ × ℕ))) : List (ℕ × ℕ) :=
  (List.range count).map fun widx => (corrected times window widx).getD (0, 0)

theorem alignedUtterance_wordTimes (utt : AsrSegment) (times : List (Option (ℕ × ℕ))) :
    (alignedUtterance utt times).words.map (fun word => (word.startMs, word.endMs)) =
      wordTimes (utt.startMs, utt.endMs) utt.words.length times := by
  apply List.ext_getElem
  · simp [alignedUtterance, wordTimes]
  · intro widx _ _
    simp [alignedUtterance, wordTimes, alignedWord]

theorem wordTimings_zipWith (sourceId : String) (utts : List AsrSegment) (timings : Timings) :
    wordTimings ⟨sourceId, List.zipWith alignedUtterance utts timings⟩ =
      List.zipWith (fun utt times => wordTimes utt.1 utt.2 times)
        ((windowsOf utts).zip ((textsOf utts).map List.length)) timings := by
  simp only [wordTimings, windowsOf, textsOf]
  simp only [List.map_zipWith, alignedUtterance_wordTimes, List.map_map, List.zip_map',
    List.zipWith_map_left, Function.comp_apply, List.length_map]

theorem zipWith_wordTimes_congr {windows windows' : List (ℕ × ℕ)}
    (same : Interchangeable windows windows') (counts : List ℕ) (timings : Timings) :
    List.zipWith (fun utt times => wordTimes utt.1 utt.2 times) (windows.zip counts) timings =
      List.zipWith (fun utt times => wordTimes utt.1 utt.2 times) (windows'.zip counts)
        timings := by
  simp only [Interchangeable] at same
  induction windows generalizing windows' counts timings with
  | nil =>
      cases windows' with
      | nil => rfl
      | cons => simp at same
  | cons window windows ih =>
      cases windows' with
      | nil => simp at same
      | cons window' windows' =>
          simp only [List.map_cons, List.cons.injEq] at same
          cases counts with
          | nil => rfl
          | cons count counts =>
              cases timings with
              | nil => rfl
              | cons times timings =>
                  have head : wordTimes window count times = wordTimes window' count times := by
                    simp only [wordTimes, corrected_congr same.1]
                  simp only [List.zip_cons_cons, List.zipWith_cons_cons, head]
                  rw [ih same.2]

/-- The word times of an answer, from the parts of the request that matter. -/
theorem alignOne_wordTimings (item : FaInput) :
    (alignOne backend item).map wordTimings =
      if item.utterances.isEmpty then .ok []
      else
        (backend.wave item.audio).bind fun wave =>
          (rawTimings backend wave (textsOf item.utterances) item.language
            (windowsOf item.utterances)).map fun timings =>
              List.zipWith (fun utt times => wordTimes utt.1 utt.2 times)
                ((windowsOf item.utterances).zip ((textsOf item.utterances).map List.length))
                timings := by
  simp only [alignOne]
  by_cases empty : item.utterances.isEmpty
  · simp [empty, Except.map, wordTimings]
  · rw [if_neg empty, if_neg empty]
    cases backend.wave item.audio with
    | error error => rfl
    | ok wave =>
        simp only [Except.bind]
        cases rawTimings backend wave (textsOf item.utterances) item.language
          (windowsOf item.utterances) with
        | error error => rfl
        | ok timings => simp only [Except.map, wordTimings_zipWith]

theorem textsOf_eq_of_keyContent {x y : FaInput} (sameKey : keyContent x = keyContent y) :
    textsOf x.utterances = textsOf y.utterances := by
  have utterances := congrArg (fun content => content.utterances.map UttKey.words) sameKey
  simpa [keyContent, textsOf, uttKey, Function.comp_def] using utterances

/-- Requests with one key and interchangeable windows get the same word times. -/
theorem alignOne_congr {x y : FaInput} (sameKey : keyContent x = keyContent y)
    (same : Interchangeable (windowsOf x.utterances) (windowsOf y.utterances)) :
    (alignOne backend x).map wordTimings = (alignOne backend y).map wordTimings := by
  have texts := textsOf_eq_of_keyContent sameKey
  have audio : x.audio = y.audio := congrArg FaKeyContent.audio sameKey
  have language : x.language = y.language := congrArg FaKeyContent.language sameKey
  have lengths : x.utterances.length = y.utterances.length := by
    simpa [keyContent] using congrArg (fun content => content.utterances.length) sameKey
  have empty : x.utterances.isEmpty = y.utterances.isEmpty := by
    rw [Bool.eq_iff_iff, List.isEmpty_iff_length_eq_zero, List.isEmpty_iff_length_eq_zero,
      lengths]
  rw [alignOne_wordTimings, alignOne_wordTimings, empty, audio, texts, language]
  simp only [rawTimings_congr backend same, zipWith_wordTimes_congr same]

end SameAnswer

section Probe

/-- A request with one word, in an utterance between wordless ones. -/
def probe (before : List (ℕ × ℕ)) (window : ℕ × ℕ) (after : List (ℕ × ℕ)) : FaInput where
  sourceId := ""
  audio := ⟨[], sampleRate, 1, 0⟩
  utterances :=
    let segment (words : List AsrWord) (window : ℕ × ℕ) : AsrSegment :=
      ⟨window.1, window.2, "", none, words⟩
    before.map (segment []) ++ segment [⟨"a", 0, 0, none⟩] window :: after.map (segment [])
  language := .auto

/-- A model that finds every word at one moment of the chunk. -/
def momentBackend (samples momentMs : ℕ) : MmsBackend Unit ℕ where
  wave _ := .ok (List.replicate samples ())
  model chunk := some chunk.length
  frames emission := emission
  forcedAlign _ _ := some [(16 * momentMs, 16 * momentMs)]
  dict _ := 0
  lower text := text
  casefold text := text
  isSpace _ := false
  charactersToJyutping := none

theorem probe_keyContent {before before' after after' : List (ℕ × ℕ)} {window window' : ℕ × ℕ}
    (lengthBefore : before.length = before'.length)
    (lengthAfter : after.length = after'.length) :
    keyContent (probe before window after) = keyContent (probe before' window' after') := by
  simp [keyContent, probe, uttKey, Function.comp_def, List.map_const', lengthBefore, lengthAfter]

theorem probe_windows (before : List (ℕ × ℕ)) (window : ℕ × ℕ) (after : List (ℕ × ℕ)) :
    windowsOf (probe before window after).utterances = before ++ window :: after := by
  simp [windowsOf, probe, Function.comp_def]

theorem probe_texts (before : List (ℕ × ℕ)) (window : ℕ × ℕ) (after : List (ℕ × ℕ)) :
    textsOf (probe before window after).utterances =
      List.replicate before.length [] ++ ["a"] :: List.replicate after.length [] := by
  simp [textsOf, probe, Function.comp_def, List.map_const']

/-- Wordless utterances may move the start of the group, but no member. -/
theorem Grouping.close_addAll_wordless (grouping : Grouping) (uidx : ℕ)
    (windows : List (ℕ × ℕ)) :
    (grouping.addAll uidx (windows.zip (List.replicate windows.length 0))).close =
      grouping.close := by
  induction windows generalizing grouping uidx with
  | nil => rfl
  | cons window windows ih =>
      simp only [List.length_cons, List.replicate_succ, List.zip_cons_cons, Grouping.addAll]
      rw [ih]
      simp only [Grouping.add, Grouping.close]
      by_cases noWindow : window.2 ≤ window.1
      · rw [if_pos noWindow]
      · rw [if_neg noWindow]
        by_cases closes : window.2 - grouping.segStart.getD window.1 > groupMs ∧
          grouping.group ≠ []
        · simp [closes]
        · simp [closes]

theorem Grouping.addAll_wordless_empty {grouping : Grouping} (noGroups : grouping.groups = [])
    (noGroup : grouping.group = []) (uidx : ℕ) (windows : List (ℕ × ℕ)) :
    (grouping.addAll uidx (windows.zip (List.replicate windows.length 0))).groups = [] ∧
      (grouping.addAll uidx (windows.zip (List.replicate windows.length 0))).group = [] := by
  induction windows generalizing grouping uidx with
  | nil => exact ⟨noGroups, noGroup⟩
  | cons window windows ih =>
      simp only [List.length_cons, List.replicate_succ, List.zip_cons_cons, Grouping.addAll]
      apply ih
      · simp only [Grouping.add]
        split <;> simp [noGroups, noGroup]
      · simp only [Grouping.add]
        split <;> simp [noGroup]

theorem Grouping.addAll_append (grouping : Grouping) (uidx : ℕ)
    (before after : List ((ℕ × ℕ) × ℕ)) :
    grouping.addAll uidx (before ++ after) =
      (grouping.addAll uidx before).addAll (uidx + before.length) after := by
  induction before generalizing grouping uidx with
  | nil => rfl
  | cons utt before ih =>
      simp only [List.cons_append, Grouping.addAll, ih, List.length_cons]
      congr 1
      omega

/-- The only group of a probe is its word, when the utterance has a window. -/
theorem probe_groups (before : List (ℕ × ℕ)) (window : ℕ × ℕ) (after : List (ℕ × ℕ)) :
    groups ((before ++ window :: after).zip
        (List.replicate before.length 0 ++ 1 :: List.replicate after.length 0)) =
      if window.2 ≤ window.1 then [] else [[(before.length, 0)]] := by
  rw [List.zip_append (by simp)]
  simp only [groups]
  rw [Grouping.addAll_append]
  rcases Grouping.addAll_wordless_empty (rfl : Grouping.start.groups = []) rfl 0 before with
    ⟨noGroups, noGroup⟩
  simp only [List.zip_cons_cons, Grouping.addAll, List.length_zip, List.length_replicate,
    min_self, Nat.zero_add]
  rw [Grouping.close_addAll_wordless]
  simp only [Grouping.add, Grouping.close]
  by_cases noWindow : window.2 ≤ window.1
  · simp [noWindow, noGroup, noGroups]
  · simp [noWindow, noGroup, noGroups, List.range_succ]

theorem dpMatches_single : dpMatches ['a'] ['a'] = [(0, 0)] := by decide +kernel

theorem remapped_single (time : ℕ × ℕ) : remapped ["a"] [("a", time)] = [(0, time)] := by
  have chars : indexedChars ["a"] = [('a', 0)] := by decide
  simp [remapped, chars, dpMatches_single]

theorem groupChunk_probe {samples : ℕ} {window : ℕ × ℕ} (active : window.1 < window.2)
    (room : 16 * window.2 ≤ samples) :
    groupChunk (List.replicate samples ()) window.1 window.2 =
      some (List.replicate (16 * (window.2 - window.1)) ()) := by
  have lo : window.1 * sampleRate / 1000 = 16 * window.1 := by
    simp only [sampleRate]
    omega
  have hi : window.2 * sampleRate / 1000 = 16 * window.2 := by
    simp only [sampleRate]
    omega
  have inside : ¬ (16 * window.2 ≤ 16 * window.1 ∨ 16 * window.2 > samples) := by omega
  simp only [groupChunk, lo, hi, List.length_replicate, inside, if_false]
  rw [if_neg (by omega), List.take_replicate, List.drop_replicate]
  congr 2
  omega

theorem mms_moment {samples momentMs length : ℕ} (positive : 0 < length) :
    mms (momentBackend samples momentMs) (List.replicate length ()) ["a"] =
      some [("a", (momentMs, momentMs))] := by
  have time : tokenMs length length (16 * momentMs) = momentMs := by
    simp only [tokenMs, sampleRate]
    apply Nat.div_eq_of_eq_mul_right (by omega)
    ring
  have one : "a".length = 1 := by decide
  simp [mms, momentBackend, unflatten, spanMs, one, time, positive.ne']

theorem alignGroup_probe {samples momentMs : ℕ} {window : ℕ × ℕ} (before after : List (ℕ × ℕ))
    (active : window.1 < window.2) (room : 16 * window.2 ≤ samples) (timings : Timings) :
    alignGroup (momentBackend samples momentMs) (List.replicate samples ())
        (List.replicate before.length [] ++ ["a"] :: List.replicate after.length []) .auto
        (before ++ window :: after) timings [(before.length, 0)] =
      .ok (timings.set (before.length, 0) (momentMs + window.1, momentMs + window.1)) := by
  have span : groupWindow (before ++ window :: after) [(before.length, 0)] = window := by
    simp [groupWindow]
  have text : ((List.replicate before.length [] ++ ["a"] ::
      List.replicate after.length [] : List (List String))[before.length]?.bind
        fun words => words[0]?) = some "a" := by
    rw [List.getElem?_append_right (by simp)]
    simp
  have plain : alignmentWords (momentBackend samples momentMs) ["a"] .auto = .ok ["a"] := rfl
  have chunk : 0 < 16 * (window.2 - window.1) := by omega
  simp only [alignGroup]
  simp only [span, groupChunk_probe active room, List.map_cons, List.map_nil, text,
    Option.getD_some, plain, Except.map]
  rw [if_neg (by decide), mms_moment chunk]
  simp [remapped_single]

/-- The raw times of a probe. -/
theorem rawTimings_probe {samples momentMs : ℕ} (before : List (ℕ × ℕ)) (window : ℕ × ℕ)
    (after : List (ℕ × ℕ)) (room : 16 * window.2 ≤ samples) :
    rawTimings (momentBackend samples momentMs) (List.replicate samples ())
        (List.replicate before.length [] ++ ["a"] :: List.replicate after.length []) .auto
        (before ++ window :: after) =
      .ok (List.replicate before.length [] ++
        [(effective window).map fun window => (momentMs + window.1, momentMs + window.1)] ::
          List.replicate after.length []) := by
  have counts : (List.replicate before.length [] ++ ["a"] :: List.replicate after.length [] :
      List (List String)).map List.length =
      List.replicate before.length 0 ++ 1 :: List.replicate after.length 0 := by
    simp
  have untimed : (List.replicate before.length [] ++ ["a"] :: List.replicate after.length [] :
      List (List String)).map (fun words => List.replicate words.length
        (none : Option (ℕ × ℕ))) =
      List.replicate before.length [] ++ [none] :: List.replicate after.length [] := by
    simp
  simp only [rawTimings]
  rw [counts, untimed, probe_groups]
  by_cases noWindow : window.2 ≤ window.1
  · rw [if_pos noWindow, effective_eq_none.mpr noWindow]
    rfl
  · have active : window.1 < window.2 := by omega
    rw [if_neg noWindow, effective_eq_some.mpr ⟨active, rfl⟩]
    simp only [List.foldlM_cons, List.foldlM_nil, alignGroup_probe before after active room]
    have placed : Timings.set (List.replicate before.length [] ++
        [none] :: List.replicate after.length []) (before.length, 0)
          (momentMs + window.1, momentMs + window.1) =
        List.replicate before.length [] ++
          [some (momentMs + window.1, momentMs + window.1)] ::
            List.replicate after.length [] := by
      simp only [Timings.set]
      rw [List.modify_eq_take_cons_drop (by simp), List.drop_append]
      simp
    simp only [placed]
    rfl

/-- The time a probe's word ends up with. -/
def shownTime (momentMs : ℕ) (window : ℕ × ℕ) : ℕ × ℕ :=
  (corrected [(effective window).map fun window => (momentMs + window.1, momentMs + window.1)]
    window 0).getD (0, 0)

theorem alignOne_probe {samples momentMs : ℕ} (before : List (ℕ × ℕ)) (window : ℕ × ℕ)
    (after : List (ℕ × ℕ)) (room : 16 * window.2 ≤ samples) :
    (alignOne (momentBackend samples momentMs) (probe before window after)).map wordTimings =
      .ok (List.replicate before.length [] ++ [shownTime momentMs window] ::
        List.replicate after.length []) := by
  have nonempty : (probe before window after).utterances.isEmpty = false := by simp [probe]
  have wave : (momentBackend samples momentMs).wave (probe before window after).audio =
      .ok (List.replicate samples ()) := rfl
  have language : (probe before window after).language = .auto := rfl
  rw [alignOne_wordTimings, nonempty, if_neg (by simp), wave, probe_windows, probe_texts, language]
  simp only [Except.bind, rawTimings_probe before window after room, Except.map, List.map_append,
    List.map_cons, List.map_replicate, List.length_nil]
  rw [List.zip_append (by simp), List.zipWith_append (by simp), List.zip_cons_cons,
    List.zipWith_cons_cons]
  have wordless : ∀ windows : List (ℕ × ℕ), List.zipWith
      (fun utt times => wordTimes utt.1 utt.2 times)
      (windows.zip (List.replicate windows.length 0)) (List.replicate windows.length []) =
      List.replicate windows.length [] := by
    intro windows
    induction windows with
    | nil => rfl
    | cons window windows ih =>
        simp only [List.length_cons, List.replicate_succ, List.zip_cons_cons,
          List.zipWith_cons_cons, ih]
        rfl
  rw [wordless before, wordless after]
  rfl

theorem shownTime_active {momentMs : ℕ} {window : ℕ × ℕ}
    (inside : momentMs + window.1 < window.2) :
    shownTime momentMs window =
      (momentMs + window.1, min (momentMs + window.1 + 500) window.2) := by
  have active : window.1 < window.2 := by omega
  have start : max (momentMs + window.1) window.1 = momentMs + window.1 := by omega
  have ordered : momentMs + window.1 < min (momentMs + window.1 + 500) window.2 := by omega
  have last : nextUntimed [some (momentMs + window.1, momentMs + window.1)] 0 = true := rfl
  simp only [shownTime, corrected, effective_eq_some.mpr ⟨active, rfl⟩, Option.map_some,
    List.getElem?_cons_zero, Option.bind_some, id, last, if_true, gt_iff_lt, active, start]
  rw [Option.filter_some, if_pos (by simpa using ordered), Option.getD_some]

theorem shownTime_inactive {momentMs : ℕ} {window : ℕ × ℕ} (inactive : window.2 ≤ window.1) :
    shownTime momentMs window = (0, 0) := by
  simp [shownTime, corrected, effective_eq_none.mpr inactive, not_lt.mpr inactive]

/-- Different effective windows show at some moment: at the start, or just before the
earlier end. -/
theorem exists_shownTime_ne {window window' : ℕ × ℕ}
    (different : effective window ≠ effective window') :
    ∃ momentMs, shownTime momentMs window ≠ shownTime momentMs window' := by
  by_cases active : window.1 < window.2
  · by_cases active' : window'.1 < window'.2
    · rw [effective_eq_some.mpr ⟨active, rfl⟩, effective_eq_some.mpr ⟨active', rfl⟩,
        ne_eq, Option.some.injEq, Prod.ext_iff, not_and_or] at different
      by_cases sameStart : window.1 = window'.1
      · refine ⟨min window.2 window'.2 - window.1 - 1, ?_⟩
        rw [shownTime_active (by omega), shownTime_active (by omega), ne_eq, Prod.ext_iff]
        simp only [not_and]
        omega
      · refine ⟨0, ?_⟩
        rw [shownTime_active (by omega), shownTime_active (by omega), ne_eq, Prod.ext_iff]
        simp only [not_and]
        omega
    · refine ⟨0, ?_⟩
      rw [shownTime_active (by omega), shownTime_inactive (by omega), ne_eq, Prod.ext_iff]
      simp only [not_and]
      omega
  · by_cases active' : window'.1 < window'.2
    · refine ⟨0, ?_⟩
      rw [shownTime_inactive (by omega), shownTime_active (by omega), ne_eq, Prod.ext_iff]
      simp only [not_and]
      omega
    · rw [effective_eq_none.mpr (by omega), effective_eq_none.mpr (by omega)] at different
      exact absurd rfl different

/-- A difference between two lists of one length, by its position. -/
theorem exists_split_of_map_ne {α β : Type} {f : α → β} {as bs : List α}
    (lengths : as.length = bs.length) (different : as.map f ≠ bs.map f) :
    ∃ before a after before' b after', as = before ++ a :: after ∧ bs = before' ++ b :: after' ∧
      before.length = before'.length ∧ after.length = after'.length ∧ f a ≠ f b := by
  induction as generalizing bs with
  | nil =>
      cases bs with
      | nil => exact absurd rfl different
      | cons => simp at lengths
  | cons a as ih =>
      cases bs with
      | nil => simp at lengths
      | cons b bs =>
          simp only [List.length_cons, Nat.add_right_cancel_iff] at lengths
          by_cases here : f a = f b
          · have rest : as.map f ≠ bs.map f := by
              intro same
              apply different
              simp [here, same]
            rcases ih lengths rest with
              ⟨before, x, after, before', y, after', rfl, rfl, sameBefore, sameAfter, differ⟩
            exact ⟨a :: before, x, after, b :: before', y, after', rfl, rfl, by simp [sameBefore],
              sameAfter, differ⟩
          · exact ⟨[], a, as, [], b, bs, rfl, rfl, rfl, lengths, here⟩

end Probe

section Cached

/-- What the key promises about two lists of windows: requests that differ only in them get
the same word times, whatever the audio, the texts and the model. -/
def KeyDetermines (windows windows' : List (ℕ × ℕ)) : Prop :=
  ∀ (Sample Emission : Type) (backend : MmsBackend Sample Emission) (x y : FaInput),
    keyContent x = keyContent y → windowsOf x.utterances = windows →
      windowsOf y.utterances = windows' →
        (alignOne backend x).map wordTimings = (alignOne backend y).map wordTimings

theorem keyDetermines_iff {windows windows' : List (ℕ × ℕ)}
    (lengths : windows.length = windows'.length) :
    KeyDetermines windows windows' ↔ Interchangeable windows windows' := by
  constructor
  · intro determines
    by_contra different
    rcases exists_split_of_map_ne lengths different with
      ⟨before, window, after, before', window', after', rfl, rfl, sameBefore, sameAfter, differ⟩
    rcases exists_shownTime_ne differ with ⟨momentMs, shown⟩
    have answers := determines Unit ℕ (momentBackend (16 * max window.2 window'.2) momentMs)
      (probe before window after) (probe before' window' after')
      (probe_keyContent sameBefore sameAfter) (probe_windows before window after)
      (probe_windows before' window' after')
    rw [alignOne_probe before window after (by omega),
      alignOne_probe before' window' after' (by omega), sameBefore, sameAfter] at answers
    simp only [Except.ok.injEq, List.append_cancel_left_eq, List.cons.injEq, and_true] at answers
    exact shown answers
  · rintro same Sample Emission backend x y sameKey rfl rfl
    exact alignOne_congr backend sameKey same

end Cached

end Batchalign.Fa
