import Batchalign.Fa.CacheKey

/-!
# The bounds of a corrected word

What `_align_one` makes of the raw times of an utterance. Only the last word with a time is
given an end half a second after its start; as no word with a time comes after it, the words stay
in their order. An end that lies further away is cut.
-/

namespace Batchalign.Fa

open Batchalign.Alignment

section LastWord

variable {times : List (Option (ℕ × ℕ))} {widx : ℕ}

/-- The raw time of a word. -/
def rawTime (times : List (Option (ℕ × ℕ))) (widx : ℕ) : Option (ℕ × ℕ) := times[widx]?.bind id

theorem rawTime_eq_none_of_le (outside : times.length ≤ widx) : rawTime times widx = none := by
  rw [rawTime, List.getElem?_eq_none outside]
  rfl

/-- What lies between a word and the last one. -/
theorem getElem?_between {offset : ℕ} (inside : widx + 1 + offset < times.length - 1) :
    ((times.take (times.length - 1)).drop (widx + 1))[offset]? = times[widx + 1 + offset]? := by
  rw [List.getElem?_drop, List.getElem?_take_of_lt inside]

/-- The scan finds no time exactly if no later word has one. -/
theorem nextUntimed_iff :
    nextUntimed times widx ↔ ∀ later, widx < later → rawTime times later = none := by
  set between := (times.take (times.length - 1)).drop (widx + 1) with isBetween
  have passed : (between.takeWhile Option.isNone).length =
      between.findIdx fun time => !time.isNone := by
    rw [List.takeWhile_eq_take_findIdx_not, List.length_take]
    exact min_eq_left List.findIdx_le_length
  have isNext : nextUntimed times widx = (rawTime times (widx + 1 +
      between.findIdx fun time => !time.isNone)).isNone := by
    rw [← passed]
    rfl
  rw [isNext, Option.isNone_iff_eq_none]
  set offset := between.findIdx fun time => !time.isNone with isOffset
  have length : between.length = times.length - 1 - (widx + 1) := by
    simp [between]
  have offsetLe : offset ≤ between.length := List.findIdx_le_length
  constructor
  · intro untimed later after
    by_contra timed
    have inside : later < times.length := by
      by_contra outside
      exact timed (rawTime_eq_none_of_le (not_lt.mp outside))
    rcases lt_trichotomy later (widx + 1 + offset) with before | same | beyond
    · -- the scan went over this word
      obtain ⟨passedBy, rfl⟩ : ∃ passedBy, later = widx + 1 + passedBy :=
        ⟨later - (widx + 1), by omega⟩
      have isPassed : passedBy < offset := by omega
      have noTime := List.not_of_lt_findIdx isPassed
      rw [Bool.not_eq_false', Option.isNone_iff_eq_none] at noTime
      apply timed
      rw [rawTime, ← getElem?_between (by omega), ← isBetween,
        List.getElem?_eq_getElem (by omega), noTime]
      rfl
    · exact timed (same ▸ untimed)
    · -- the scan stopped in front of the last word, at a time
      have stopped : offset < between.length := by omega
      have isTime : (!between[offset].isNone) = true := List.findIdx_getElem (w := stopped)
      rw [rawTime, ← getElem?_between (by omega), ← isBetween,
        List.getElem?_eq_getElem stopped, Option.bind_some, id_eq] at untimed
      rw [untimed] at isTime
      cases isTime
  · intro untimed
    apply untimed
    omega

end LastWord

section Bounds

variable {times : List (Option (ℕ × ℕ))} {window time raw : ℕ × ℕ} {widx later : ℕ}

/-- The end of a word before it is bounded. -/
def extendedEnd (times : List (Option (ℕ × ℕ))) (widx : ℕ) (raw : ℕ × ℕ) : ℕ :=
  if nextUntimed times widx then raw.1 + 500 else raw.2

/-- The time that is left of a raw one in an utterance with a window. -/
theorem corrected_eq_some (active : window.1 < window.2) :
    corrected times window widx = some time ↔ ∃ raw, rawTime times widx = some raw ∧
      time = (max raw.1 window.1, min (extendedEnd times widx raw) window.2) ∧
      time.1 < time.2 := by
  have ends : ∀ raw : ℕ × ℕ, (if nextUntimed times widx then (raw.1, raw.1 + 500) else raw) =
      (raw.1, extendedEnd times widx raw) := by
    intro raw
    unfold extendedEnd
    split_ifs
    · rfl
    · rfl
  unfold corrected
  rw [if_pos active, Option.filter_eq_some_iff, decide_eq_true_eq, Option.map_map,
    Option.map_eq_some_iff]
  simp only [Function.comp_apply, ends]
  constructor
  · rintro ⟨⟨raw, isRaw, same⟩, proper⟩
    exact ⟨raw, isRaw, same.symm, proper⟩
  · rintro ⟨raw, isRaw, same, proper⟩
    exact ⟨⟨raw, isRaw, same.symm⟩, proper⟩

/-- The raw times follow one another. -/
def Follow (time : ℕ → Option (ℕ × ℕ)) : Prop :=
  (∀ widx raw, time widx = some raw → raw.1 ≤ raw.2) ∧
    ∀ widx later raw next, widx < later → time widx = some raw → time later = some next →
      raw.2 ≤ next.1

/-- A word that has a time after it keeps its end, and so the corrected times follow one
another. -/
theorem corrected_follow (active : window.1 < window.2) (follow : Follow (rawTime times)) :
    Follow (corrected times window) := by
  constructor
  · intro widx time isTime
    rcases (corrected_eq_some active).mp isTime with ⟨_, _, _, proper⟩
    exact proper.le
  · intro widx later time next after isTime isNext
    rcases (corrected_eq_some active).mp isTime with ⟨raw, isRaw, rfl, _⟩
    rcases (corrected_eq_some active).mp isNext with ⟨nextRaw, isNextRaw, rfl, _⟩
    have followed : ¬ nextUntimed times widx := by
      intro untimed
      rw [nextUntimed_iff.mp untimed later after] at isNextRaw
      cases isNextRaw
    have apart := follow.2 widx later raw nextRaw after isRaw isNextRaw
    rw [extendedEnd, if_neg followed]
    exact (min_le_left _ _).trans (apart.trans (le_max_left _ _))

/-- What the correction may do to the words of an utterance: they stay in the window, start where
they did, and end no earlier. -/
structure Extends (window : ℕ × ℕ) (times : List (Option (ℕ × ℕ)))
    (words : List (ℕ × ℕ)) : Prop where
  bounded : ∀ word ∈ words, word = (0, 0) ∨
    window.1 ≤ word.1 ∧ word.1 < word.2 ∧ word.2 ≤ window.2
  kept : ∀ widx raw word, rawTime times widx = some raw → words[widx]? = some word →
    word ≠ (0, 0) → word.1 = max raw.1 window.1 ∧ min raw.2 window.2 ≤ word.2
  follow : Follow (rawTime times) → Follow fun widx => words[widx]?.filter (· ≠ (0, 0))

/-- The last word with a time ends within half a second, if it is not cut to nothing. -/
def LastWordShort (window : ℕ × ℕ) (times : List (Option (ℕ × ℕ))) : Prop :=
  ∀ widx raw, rawTime times widx = some raw →
    (∀ later, widx < later → rawTime times later = none) →
    window.1 < raw.1 + 500 → raw.1 < window.2 → min raw.2 window.2 ≤ raw.1 + 500

theorem corrected_of_untimed (untimed : rawTime times widx = none) :
    corrected times window widx = none := by
  have noRaw : times[widx]?.bind id = none := untimed
  unfold corrected
  rw [noRaw, Option.map_none]
  exact ite_self none

/-- A time of a word is a corrected one, and no other word has a time. -/
theorem wordTimes_filter (active : window.1 < window.2) (widx : ℕ) :
    (wordTimes window times.length times)[widx]?.filter (· ≠ (0, 0)) =
      corrected times window widx := by
  by_cases inside : widx < times.length
  · have here : (wordTimes window times.length times)[widx]? =
        some ((corrected times window widx).getD (0, 0)) := by
      simp [wordTimes, inside]
    rw [here]
    cases isTime : corrected times window widx with
    | none => rfl
    | some time =>
        rcases (corrected_eq_some active).mp isTime with ⟨_, _, _, proper⟩
        rw [Option.getD_some, Option.filter_some, if_pos]
        rw [decide_eq_true_eq]
        rintro rfl
        exact lt_irrefl _ proper
  · rw [corrected_of_untimed (rawTime_eq_none_of_le (not_lt.mp inside)),
      List.getElem?_eq_none (by simpa [wordTimes] using inside)]
    rfl

/-- The end of a corrected word comes early only if its raw end is cut. -/
theorem min_le_extended_iff (raw : ℕ × ℕ) :
    min raw.2 window.2 ≤ min (extendedEnd times widx raw) window.2 ↔
      (nextUntimed times widx → min raw.2 window.2 ≤ raw.1 + 500) := by
  unfold extendedEnd
  split_ifs with untimed
  · simp only [untimed, true_implies]
    omega
  · exact iff_of_true le_rfl fun isUntimed => absurd isUntimed untimed

/-- Without raw times no word has a time. -/
theorem wordTimes_extends_of_untimed (noRaw : ∀ widx, rawTime times widx = none) :
    Extends window times (wordTimes window times.length times) := by
  have zeros : ∀ word ∈ wordTimes window times.length times, word = (0, 0) := by
    intro word member
    rcases List.mem_map.mp member with ⟨widx, _, rfl⟩
    rw [corrected_of_untimed (noRaw widx)]
    rfl
  have noTime : (fun widx : ℕ => (wordTimes window times.length times)[widx]?.filter
      (· ≠ (0, 0))) = fun _ => none := by
    funext widx
    rw [Option.filter_eq_none_iff]
    intro word isWord
    simp [zeros word (List.mem_of_getElem? isWord)]
  constructor
  · exact fun word member => Or.inl (zeros word member)
  · intro widx raw word isRaw
    cases (noRaw widx).symm.trans isRaw
  · intro _
    rw [noTime]
    exact ⟨fun _ _ isTime => (nomatch isTime), fun _ _ _ _ _ isTime => (nomatch isTime)⟩

/-- The correction only extends exactly if the last word with a time is short. -/
theorem wordTimes_extends_iff (untimed : window.2 ≤ window.1 → ∀ widx, rawTime times widx = none) :
    Extends window times (wordTimes window times.length times) ↔ LastWordShort window times := by
  by_cases active : window.1 < window.2
  · have words : ∀ widx, (wordTimes window times.length times)[widx]?.filter (· ≠ (0, 0)) =
        corrected times window widx := wordTimes_filter active
    have timed : ∀ (widx : ℕ) (time : ℕ × ℕ), corrected times window widx = some time ↔
        (wordTimes window times.length times)[widx]? = some time ∧ time ≠ (0, 0) := by
      intro widx time
      rw [← words, Option.filter_eq_some_iff, decide_eq_true_eq]
    constructor
    · intro extends_ widx raw isRaw last starts ends
      by_contra long
      have isUntimed := nextUntimed_iff.mpr last
      have isTime : corrected times window widx =
          some (max raw.1 window.1, min (extendedEnd times widx raw) window.2) := by
        refine (corrected_eq_some active).mpr ⟨raw, isRaw, rfl, ?_⟩
        rw [extendedEnd, if_pos isUntimed]
        exact lt_min (max_lt (by omega) starts) (max_lt ends active)
      rcases (timed widx _).mp isTime with ⟨isWord, notZero⟩
      have kept := (extends_.kept widx raw _ isRaw isWord notZero).2
      exact long ((min_le_extended_iff raw).mp kept isUntimed)
    · intro short
      refine ⟨fun word member => ?_, fun widx raw word isRaw isWord notZero => ?_, fun follow => ?_⟩
      · by_cases zero : word = (0, 0)
        · exact Or.inl zero
        · rcases List.getElem?_of_mem member with ⟨widx, isWord⟩
          rcases (corrected_eq_some active).mp ((timed widx word).mpr ⟨isWord, zero⟩) with
            ⟨raw, _, rfl, proper⟩
          exact Or.inr ⟨le_max_right _ _, proper, min_le_right _ _⟩
      · rcases (corrected_eq_some active).mp ((timed widx word).mpr ⟨isWord, notZero⟩) with
          ⟨_, sameRaw, rfl, proper⟩
        cases isRaw.symm.trans sameRaw
        refine ⟨rfl, (min_le_extended_iff raw).mpr fun isUntimed => ?_⟩
        rw [extendedEnd, if_pos isUntimed] at proper
        dsimp only at proper
        apply short widx raw isRaw (nextUntimed_iff.mp isUntimed)
        · exact (le_max_right _ _).trans_lt (proper.trans_le (min_le_left _ _))
        · exact (le_max_left _ _).trans_lt (proper.trans_le (min_le_right _ _))
      · have same : (fun widx : ℕ => (wordTimes window times.length times)[widx]?.filter
            (· ≠ (0, 0))) = corrected times window := funext words
        rw [same]
        exact corrected_follow active follow
  · have noRaw := untimed (not_lt.mp active)
    apply iff_of_true (wordTimes_extends_of_untimed noRaw)
    intro widx raw isRaw
    cases (noRaw widx).symm.trans isRaw

end Bounds

section RawTimes

variable {Sample Emission : Type} (backend : MmsBackend Sample Emission)

/-- A raw time for some words of the utterances, and for none of an utterance without a
window. -/
def RawAssignment (windows : List (ℕ × ℕ)) (counts : List ℕ) (timings : Timings) : Prop :=
  timings.map List.length = counts ∧
    ∀ (uidx : ℕ) (window : ℕ × ℕ) (times : List (Option (ℕ × ℕ))), windows[uidx]? = some window →
      timings[uidx]? = some times → window.2 ≤ window.1 → ∀ widx, rawTime times widx = none

variable {windows : List (ℕ × ℕ)} {counts : List ℕ} {timings : Timings}

theorem RawAssignment.start (windows : List (ℕ × ℕ)) (counts : List ℕ) :
    RawAssignment windows counts (counts.map fun count => List.replicate count none) := by
  constructor
  · simp [Function.comp_def]
  · intro uidx window times _ isTimes _ widx
    rw [List.getElem?_map, Option.map_eq_some_iff] at isTimes
    rcases isTimes with ⟨count, _, rfl⟩
    rw [rawTime, List.getElem?_replicate]
    split_ifs
    · rfl
    · rfl

/-- A time for a word of an utterance with a window. -/
theorem RawAssignment.set (assignment : RawAssignment windows counts timings) {member : ℕ × ℕ}
    {window : ℕ × ℕ} (atMember : windows[member.1]? = some window) (active : window.1 < window.2)
    (time : ℕ × ℕ) : RawAssignment windows counts (timings.set member time) := by
  constructor
  · rw [← assignment.1, Timings.set]
    apply List.ext_getElem?
    intro uidx
    rw [List.getElem?_map, List.getElem?_map, List.getElem?_modify]
    by_cases same : member.1 = uidx
    · simp [same, Function.comp_def]
    · simp [same]
  · intro uidx other times atIndex isTimes inactive
    rw [Timings.set, List.getElem?_modify] at isTimes
    by_cases same : member.1 = uidx
    · subst same
      rw [atMember] at atIndex
      cases atIndex
      omega
    · have unchanged : timings[uidx]? = some times := by
        simpa [same] using isTimes
      exact assignment.2 uidx other times atIndex unchanged inactive

/-- What every step of a loop keeps holds at its end. -/
theorem foldlM_invariant {α β ε : Type} {P : β → Prop} {f : β → α → Except ε β} {l : List α}
    {b c : β} (start : P b) (step : ∀ a ∈ l, ∀ b b', P b → f b a = .ok b' → P b')
    (isEnd : l.foldlM f b = .ok c) : P c := by
  induction l generalizing b with
  | nil =>
      cases isEnd
      exact start
  | cons a l ih =>
      rw [List.foldlM_cons] at isEnd
      cases next : f b a with
      | error _ =>
          rw [next] at isEnd
          cases isEnd
      | ok b' =>
          rw [next] at isEnd
          refine ih (step a List.mem_cons_self b b' start next) ?_ isEnd
          exact fun other member => step other (List.mem_cons_of_mem _ member)

theorem alignGroup_rawAssignment {wave : List Sample} {texts : List (List String)}
    {language : LanguageSpec} {grp : List (ℕ × ℕ)} {aligned : Timings}
    (assignment : RawAssignment windows counts timings)
    (active : ∀ member ∈ grp, ∃ window, windows[member.1]? = some window ∧ window.1 < window.2)
    (isAligned : alignGroup backend wave texts language windows timings grp = .ok aligned) :
    RawAssignment windows counts aligned := by
  unfold alignGroup at isAligned
  dsimp only at isAligned
  split at isAligned
  · cases isAligned
    exact assignment
  · rename_i chunk _
    cases romanized : alignmentWords backend (grp.map fun member =>
        (texts[member.1]?.bind fun words => words[member.2]?).getD "") language with
    | error _ =>
        rw [romanized] at isAligned
        cases isAligned
    | ok words =>
        rw [romanized] at isAligned
        cases isAligned
        dsimp only
        split
        · exact assignment
        · rename_i result _
          refine List.foldlRecOn (motive := RawAssignment windows counts) _ _ assignment ?_
          intro timings assignment entry _
          split
          · rename_i member isMember
            rcases active member (List.mem_of_getElem? isMember) with ⟨window, atMember, isActive⟩
            exact assignment.set atMember isActive _
          · exact assignment

/-- The group alignment times no utterance without a window. -/
theorem rawTimings_rawAssignment {wave : List Sample} {texts : List (List String)}
    {language : LanguageSpec} {aligned : Timings}
    (isAligned : rawTimings backend wave texts language windows = .ok aligned) :
    RawAssignment windows (texts.map List.length) aligned := by
  unfold rawTimings at isAligned
  have start : RawAssignment windows (texts.map List.length)
      (texts.map fun words => List.replicate words.length none) := by
    have whole := RawAssignment.start windows (texts.map List.length)
    rwa [List.map_map] at whole
  refine foldlM_invariant start ?_ isAligned
  intro grp isGroup timings next assignment isNext
  exact alignGroup_rawAssignment backend assignment (groups_active isGroup) isNext

end RawTimes

section Item

variable {Sample Emission : Type}

/-- The word counts of the utterances of an item. -/
def wordCounts (item : FaInput) : List ℕ := item.utterances.map fun utt => utt.words.length

/-- What `_align_one` emits for raw times. -/
def correctedOutput (item : FaInput) (timings : Timings) : FaOutput where
  sourceId := item.sourceId
  utterances := List.zipWith alignedUtterance item.utterances timings

/-- `_align_one` corrects a raw assignment. -/
theorem alignOne_corrects (backend : MmsBackend Sample Emission) {item : FaInput}
    {output : FaOutput} (isOutput : alignOne backend item = .ok output) :
    ∃ timings, RawAssignment (windowsOf item.utterances) (wordCounts item) timings ∧
      output = correctedOutput item timings := by
  unfold alignOne at isOutput
  split at isOutput
  · rename_i empty
    have noUtterances : item.utterances = [] := List.isEmpty_iff.mp empty
    cases isOutput
    refine ⟨[], ⟨?_, ?_⟩, ?_⟩
    · simp [wordCounts, noUtterances]
    · intro uidx window times _ isTimes
      cases isTimes
    · simp [correctedOutput, noUtterances]
  · cases wave : backend.wave item.audio with
    | error _ =>
        rw [wave] at isOutput
        cases isOutput
    | ok samples =>
        rw [wave] at isOutput
        dsimp only [Except.bind] at isOutput
        cases raw : rawTimings backend samples (textsOf item.utterances) item.language
            (windowsOf item.utterances) with
        | error _ =>
            rw [raw] at isOutput
            cases isOutput
        | ok timings =>
            rw [raw] at isOutput
            cases isOutput
            have assignment := rawTimings_rawAssignment backend raw
            rw [textsOf, List.map_map] at assignment
            refine ⟨timings, ?_, rfl⟩
            simpa [wordCounts, Function.comp_def] using assignment

/-- The times of the words of an utterance. -/
def segmentTimes (utt : AsrSegment) : List (ℕ × ℕ) :=
  utt.words.map fun word => (word.startMs, word.endMs)

/-- The words of an utterance have their corrected times. -/
theorem correctedOutput_getElem? {item : FaInput} {timings : Timings}
    (assignment : RawAssignment (windowsOf item.utterances) (wordCounts item) timings)
    {uidx : ℕ} {window : ℕ × ℕ} {times : List (Option (ℕ × ℕ))}
    (isWindow : (windowsOf item.utterances)[uidx]? = some window)
    (isTimes : timings[uidx]? = some times) :
    ∃ utt, (correctedOutput item timings).utterances[uidx]? = some utt ∧
      segmentTimes utt = wordTimes window times.length times := by
  rw [windowsOf, List.getElem?_map, Option.map_eq_some_iff] at isWindow
  rcases isWindow with ⟨utt, isUtt, rfl⟩
  have count : times.length = utt.words.length := by
    have both := congrArg (·[uidx]?) assignment.1
    simpa [wordCounts, isTimes, isUtt] using both
  refine ⟨alignedUtterance utt times, ?_, ?_⟩
  · simp [correctedOutput, List.getElem?_zipWith, isUtt, isTimes]
  · rw [segmentTimes, alignedUtterance_wordTimes, count]

/-- For raw times of whatever kind, the words that are emitted only extend them exactly if in
every utterance the last word with a time is short. -/
theorem correctedOutput_extends_iff (item : FaInput) :
    (∀ (Sample Emission : Type) (backend : MmsBackend Sample Emission) (output : FaOutput),
        alignOne backend item = .ok output →
        ∃ timings, RawAssignment (windowsOf item.utterances) (wordCounts item) timings ∧
          output = correctedOutput item timings) ∧
      ∀ timings, RawAssignment (windowsOf item.utterances) (wordCounts item) timings →
        ((∀ (uidx : ℕ) (window : ℕ × ℕ) (times : List (Option (ℕ × ℕ))) (utt : AsrSegment),
            (windowsOf item.utterances)[uidx]? = some window → timings[uidx]? = some times →
            (correctedOutput item timings).utterances[uidx]? = some utt →
              Extends window times (segmentTimes utt)) ↔
          ∀ (uidx : ℕ) (window : ℕ × ℕ) (times : List (Option (ℕ × ℕ))),
            (windowsOf item.utterances)[uidx]? = some window → timings[uidx]? = some times →
              LastWordShort window times) := by
  constructor
  · intro Sample Emission backend output
    exact alignOne_corrects backend
  · intro timings assignment
    have each : ∀ (uidx : ℕ) (window : ℕ × ℕ) (times : List (Option (ℕ × ℕ))),
        (windowsOf item.utterances)[uidx]? = some window → timings[uidx]? = some times →
          (Extends window times (wordTimes window times.length times) ↔
            LastWordShort window times) := by
      intro uidx window times isWindow isTimes
      exact wordTimes_extends_iff (assignment.2 uidx window times isWindow isTimes)
    constructor
    · intro extends_ uidx window times isWindow isTimes
      rcases correctedOutput_getElem? assignment isWindow isTimes with ⟨utt, isUtt, same⟩
      have here := extends_ uidx window times utt isWindow isTimes isUtt
      rw [same] at here
      exact (each uidx window times isWindow isTimes).mp here
    · intro short uidx window times utt isWindow isTimes isUtt
      rcases correctedOutput_getElem? assignment isWindow isTimes with ⟨found, isFound, same⟩
      cases isFound.symm.trans isUtt
      rw [same]
      exact (each uidx window times isWindow isTimes).mpr
        (short uidx window times isWindow isTimes)

end Item

section Second

/-- One utterance of a second, of the words `a` and `b`. -/
def secondLong : FaInput where
  sourceId := ""
  audio := ⟨[], sampleRate, 1, 0⟩
  utterances := [⟨0, 1000, "a b", none, [⟨"a", 0, 0, none⟩, ⟨"b", 0, 0, none⟩]⟩]
  language := .auto

/-- The second word ends at the given time. -/
def secondTimings (endMs : ℕ) : Timings := [[some (100, 300), some (300, endMs)]]

theorem secondTimings_rawAssignment (endMs : ℕ) :
    RawAssignment (windowsOf secondLong.utterances) (wordCounts secondLong)
      (secondTimings endMs) := by
  refine ⟨rfl, fun uidx window times isWindow _ inactive => ?_⟩
  have isUtt := List.mem_of_getElem? isWindow
  simp only [windowsOf, secondLong, List.map_cons, List.map_nil, List.mem_singleton] at isUtt
  subst isUtt
  cases inactive

/-- The second word loses its last tenth of a second. -/
theorem secondLong_cut :
    RawAssignment (windowsOf secondLong.utterances) (wordCounts secondLong) (secondTimings 900) ∧
      (correctedOutput secondLong (secondTimings 900)).utterances.map segmentTimes =
        [[(100, 300), (300, 800)]] ∧
      ¬ Extends (0, 1000) [some (100, 300), some (300, 900)] [(100, 300), (300, 800)] := by
  refine ⟨secondTimings_rawAssignment 900, by decide, fun extends_ => ?_⟩
  have kept := (extends_.kept 1 (300, 900) (300, 800) rfl rfl (by decide)).2
  exact absurd kept (by decide)

theorem secondLong_kept :
    ∀ (uidx : ℕ) (window : ℕ × ℕ) (times : List (Option (ℕ × ℕ))) (utt : AsrSegment),
      (windowsOf secondLong.utterances)[uidx]? = some window →
      (secondTimings 700)[uidx]? = some times →
      (correctedOutput secondLong (secondTimings 700)).utterances[uidx]? = some utt →
        Extends window times (segmentTimes utt) := by
  refine ((correctedOutput_extends_iff secondLong).2 (secondTimings 700)
    (secondTimings_rawAssignment 700)).mpr ?_
  intro uidx window times _ isTimes widx raw isRaw last _ _
  have isOnly := List.mem_of_getElem? isTimes
  simp only [secondTimings, List.mem_singleton] at isOnly
  subst isOnly
  rcases widx with _ | _ | widx
  · cases last 1 Nat.zero_lt_one
  · cases isRaw
    exact (min_le_left _ _).trans (by decide)
  · cases isRaw

end Second

end Batchalign.Fa
