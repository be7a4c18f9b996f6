import Batchalign.Asr.Blocks
import Batchalign.Asr.Documented
import Batchalign.Library.Runs

/-!
# What the retrace brackets enclose

The detection marks the words of the first copy of every phrase that is said twice in a row,
fillers aside. The builder puts a bracket around every maximal stretch of marked words, whatever
phrases it is made of, so that the words in a bracket follow again exactly when the stretch as a
whole is repeated.
-/

namespace Batchalign.Asr

open Batchalign.Runners Fallible Runs

section Marks

def isMarked (isRetrace : List Bool) (k : ℕ) : Prop := isRetrace[k]? = some true

/-- The step adds the marks of `places` and no others. -/
def Marks (step : List Bool → List Bool) (places : ℕ → Prop) : Prop :=
  ∀ isRetrace, (step isRetrace).length = isRetrace.length ∧
    ∀ k < isRetrace.length, isMarked (step isRetrace) k ↔ isMarked isRetrace k ∨ places k

theorem Marks.congr {step : List Bool → List Bool} {places places' : ℕ → Prop}
    (marks : Marks step places) (same : ∀ k, places k ↔ places' k) : Marks step places' := by
  intro isRetrace
  refine ⟨(marks isRetrace).1, ?_⟩
  intro k bound
  rw [(marks isRetrace).2 k bound, same]

/-- A loop adds the marks of all its passes. -/
theorem Marks.foldl {β : Type} {step : List Bool → β → List Bool} {places : β → ℕ → Prop}
    (marks : ∀ x, Marks (step · x) (places x)) (xs : List β) :
    Marks (xs.foldl step ·) fun k => ∃ x ∈ xs, places x k := by
  induction xs with
  | nil =>
      intro isRetrace
      simp
  | cons x xs ih =>
      intro isRetrace
      rcases marks x isRetrace with ⟨length, marked⟩
      rcases ih (step isRetrace x) with ⟨restLength, restMarked⟩
      refine ⟨restLength.trans length, ?_⟩
      intro k bound
      have within : k < (step isRetrace x).length := length.symm ▸ bound
      dsimp only
      rw [List.foldl_cons]
      refine (restMarked k within).trans ?_
      refine (or_congr_left (marked k bound)).trans ?_
      simp only [List.mem_cons, exists_eq_or_imp, or_assoc]

variable (texts : List String)

/-- The place lies in the slice and holds no filler. -/
def InSlice (begin n k : ℕ) : Prop :=
  begin ≤ k ∧ k < begin + n ∧ isFiller (texts.getD k "") = false

theorem markSlice_marks (begin n : ℕ) :
    Marks (markSlice texts begin n) (InSlice texts begin n) := by
  have one (i : ℕ) : Marks (fun isRetrace => if isFiller (texts.getD (begin + i) "") then isRetrace
      else isRetrace.set (begin + i) true)
      fun k => begin + i = k ∧ isFiller (texts.getD k "") = false := by
    intro isRetrace
    constructor
    · dsimp only
      split
      · rfl
      · exact List.length_set
    · intro k bound
      dsimp only
      by_cases here : begin + i = k
      · subst here
        split
        · rename_i filler
          constructor
          · exact Or.inl
          · rintro (old | ⟨_, spoken⟩)
            · exact old
            · rw [filler] at spoken
              cases spoken
        · rename_i spoken
          have marked : isMarked (isRetrace.set (begin + i) true) (begin + i) :=
            List.getElem?_set_self bound
          simp only [marked, true_iff, true_and]
          exact Or.inr (by simpa using spoken)
      · have same : isMarked (isRetrace.set (begin + i) true) k ↔ isMarked isRetrace k := by
          rw [isMarked, isMarked, List.getElem?_set_ne here]
        split <;> simp [here, same]
  apply (Marks.foldl one (List.range n)).congr
  intro k
  constructor
  · rintro ⟨i, member, rfl, spoken⟩
    have bound := List.mem_range.mp member
    exact ⟨by omega, by omega, spoken⟩
  · rintro ⟨lower, upper, spoken⟩
    exact ⟨k - begin, List.mem_range.mpr (by omega), by omega, spoken⟩

/-- Following the repeats marks the slice once if its first repeat is there. -/
theorem followRepeats_marks (begin n passes root : ℕ) :
    Marks (followRepeats texts begin n passes root) fun k => 0 < passes ∧
      root + 2 * n ≤ texts.length ∧ nextMatches texts begin root n ∧ InSlice texts begin n k := by
  induction passes generalizing root with
  | zero =>
      intro isRetrace
      simp [followRepeats]
  | succ passes ih =>
      intro isRetrace
      rw [followRepeats]
      split
      · rename_i repeats
        rcases markSlice_marks texts begin n isRetrace with ⟨length, marked⟩
        rcases ih (root + n) (markSlice texts begin n isRetrace) with ⟨restLength, restMarked⟩
        refine ⟨restLength.trans length, ?_⟩
        intro k bound
        rw [restMarked k (length.symm ▸ bound), marked k bound]
        constructor
        · rintro ((old | slice) | ⟨_, _, _, slice⟩)
          · exact Or.inl old
          · exact Or.inr ⟨Nat.succ_pos _, repeats.1, repeats.2, slice⟩
          · exact Or.inr ⟨Nat.succ_pos _, repeats.1, repeats.2, slice⟩
        · rintro (old | ⟨_, _, _, slice⟩)
          · exact Or.inl (Or.inl old)
          · exact Or.inl (Or.inr slice)
      · rename_i stops
        refine ⟨rfl, ?_⟩
        intro k bound
        constructor
        · exact Or.inl
        · rintro (old | ⟨_, fits, repeats, _⟩)
          · exact old
          · exact absurd ⟨fits, repeats⟩ stops

/-- The `k`-th text lies in the first copy of a phrase of at least `minNgram` texts that is
repeated at once. -/
def InFirstCopy (minNgram k : ℕ) : Prop :=
  ∃ begin ≤ k, ∃ n ≤ texts.length, minNgram ≤ n ∧ k < begin + n ∧
    begin + 2 * n ≤ texts.length ∧ nextMatches texts begin begin n

instance (minNgram k : ℕ) : Decidable (InFirstCopy texts minNgram k) :=
  inferInstanceAs (Decidable (∃ begin ≤ k, ∃ n ≤ texts.length, _))

/-- It does, and is no filler. -/
def Repeated (minNgram k : ℕ) : Prop :=
  InFirstCopy texts minNgram k ∧ isFiller (texts.getD k "") = false

instance (minNgram k : ℕ) : Decidable (Repeated texts minNgram k) :=
  inferInstanceAs (Decidable (_ ∧ _))

/-- The detection finds the first copies, of all lengths. -/
theorem detectRetraces_isMarked_iff {minNgram k : ℕ} (bound : k < texts.length) :
    isMarked (detectRetraces texts minNgram) k ↔ Repeated texts minNgram k := by
  have loops := Marks.foldl (fun n => Marks.foldl (fun begin =>
    followRepeats_marks texts begin n texts.length begin) (List.range (texts.length - n)))
    (List.range' minNgram (texts.length - minNgram))
  have marked := (loops (List.replicate texts.length false)).2 k
    (by rw [List.length_replicate]; exact bound)
  have fresh : ¬ isMarked (List.replicate texts.length false) k := by
    simp [isMarked, List.getElem?_replicate]
  unfold detectRetraces
  rw [marked]
  constructor
  · rintro (old | ⟨n, isLength, begin, isBegin, _, fits, repeats, lower, upper, spoken⟩)
    · exact absurd old fresh
    · have length := (List.mem_range'_1.mp isLength).1
      exact ⟨⟨begin, lower, n, by omega, length, upper, fits, repeats⟩, spoken⟩
  · rintro ⟨⟨begin, lower, n, _, length, upper, fits, repeats⟩, spoken⟩
    refine Or.inr ⟨n, List.mem_range'_1.mpr ⟨length, by omega⟩, begin,
      List.mem_range.mpr (by omega), by omega, fits, repeats, lower, upper, spoken⟩

theorem detectRetraces_length (minNgram : ℕ) :
    (detectRetraces texts minNgram).length = texts.length := by
  have loops := Marks.foldl (fun n => Marks.foldl (fun begin =>
    followRepeats_marks texts begin n texts.length begin) (List.range (texts.length - n)))
    (List.range' minNgram (texts.length - minNgram))
  have length := (loops (List.replicate texts.length false)).1
  rwa [List.length_replicate] at length

end Marks

section Shown

/-- The texts as they are shown, and whether they are repeated: `k` content words went before. -/
def shownFrom (texts : List String) (minNgram : ℕ) : ℕ → List AsrWord → List (String × Bool)
  | _, [] => []
  | k, word :: words =>
      if isPunctOrTerminator word.text then (word.text, false) :: shownFrom texts minNgram k words
      else if Repeated texts minNgram k then
        (stripPunct word.text, true) :: shownFrom texts minNgram (k + 1) words
      else (word.text, false) :: shownFrom texts minNgram (k + 1) words

def shown (words : List AsrWord) (lang : String) : List (String × Bool) :=
  shownFrom (contentTexts words) (minNgram lang) 0 words

def textAndRetrace (word : AsrWord) : String × Bool := (word.text, word.kind == .retrace)

theorem textAndRetrace_regular {word : AsrWord} (regular : word.kind = .regular) :
    textAndRetrace word = (word.text, false) := by
  rw [textAndRetrace, regular]
  rfl

theorem contentTexts_cons_punct {word : AsrWord} (words : List AsrWord)
    (punct : isPunctOrTerminator word.text = true) :
    contentTexts (word :: words) = contentTexts words := by
  simp [contentTexts, punct]

theorem contentTexts_cons_content {word : AsrWord} (words : List AsrWord)
    (content : isPunctOrTerminator word.text = false) :
    contentTexts (word :: words) = word.text :: contentTexts words := by
  simp [contentTexts, content]

theorem markRetraces_cons_punct (isRetrace : List Bool) {word : AsrWord} (words : List AsrWord)
    (punct : isPunctOrTerminator word.text = true) :
    markRetraces isRetrace (word :: words) = word :: markRetraces isRetrace words := by
  cases isRetrace <;> exact if_pos punct

theorem markRetraces_cons_content (mark : Bool) (isRetrace : List Bool) {word : AsrWord}
    (words : List AsrWord) (content : isPunctOrTerminator word.text = false) :
    markRetraces (mark :: isRetrace) (word :: words) =
      (if mark then { word with kind := .retrace, text := stripPunct word.text } else word) ::
        markRetraces isRetrace words := by
  have noPunct : ¬ isPunctOrTerminator word.text = true := by
    rw [content]
    exact Bool.false_ne_true
  cases mark <;> exact if_neg noPunct

/-- Applying the detected marks shows the words as declared. -/
theorem markRetraces_shown {texts : List String} {minNgram k : ℕ} {words : List AsrWord}
    (rest : contentTexts words = texts.drop k) (regular : ∀ word ∈ words, word.kind = .regular) :
    (markRetraces ((detectRetraces texts minNgram).drop k) words).map textAndRetrace =
      shownFrom texts minNgram k words := by
  induction words generalizing k with
  | nil =>
      cases (detectRetraces texts minNgram).drop k <;> rfl
  | cons word words ih =>
      have split := List.forall_mem_cons.mp regular
      have plain := textAndRetrace_regular split.1
      cases content : isPunctOrTerminator word.text with
      | true =>
          rw [contentTexts_cons_punct words content] at rest
          rw [markRetraces_cons_punct _ _ content, shownFrom, if_pos content, List.map_cons, plain,
            ih rest split.2]
      | false =>
          rw [contentTexts_cons_content words content] at rest
          have bound : k < texts.length := by
            by_contra beyond
            rw [List.drop_eq_nil_of_le (by omega)] at rest
            cases rest
          have rest' : contentTexts words = texts.drop (k + 1) := by
            rw [List.drop_eq_getElem_cons bound] at rest
            exact (List.cons.inj rest).2
          have marksBound : k < (detectRetraces texts minNgram).length := by
            rwa [detectRetraces_length]
          have marked : isMarked (detectRetraces texts minNgram) k ↔ Repeated texts minNgram k :=
            detectRetraces_isMarked_iff texts bound
          rw [isMarked, List.getElem?_eq_getElem marksBound, Option.some_inj] at marked
          have noPunct : ¬ isPunctOrTerminator word.text = true := by
            rw [content]
            exact Bool.false_ne_true
          rw [List.drop_eq_getElem_cons marksBound, markRetraces_cons_content _ _ _ content,
            shownFrom, if_neg noPunct, List.map_cons, ih rest' split.2]
          cases mark : (detectRetraces texts minNgram)[k] with
          | true =>
              rw [if_pos (marked.mp mark)]
              rfl
          | false =>
              have unmarked : ¬ Repeated texts minNgram k := by
                rw [← marked, mark]
                exact Bool.false_ne_true
              rw [if_neg unmarked, if_neg Bool.false_ne_true, plain]

theorem not_repeated_of_short {texts : List String} {minNgram : ℕ} (positive : 0 < minNgram)
    (short : texts.length < 2) (k : ℕ) : ¬ Repeated texts minNgram k := by
  rintro ⟨⟨begin, _, n, _, length, _, fits, _⟩, _⟩
  omega

theorem shownFrom_unrepeated {texts : List String} {minNgram : ℕ}
    (none_ : ∀ k, ¬ Repeated texts minNgram k) (k : ℕ) {words : List AsrWord}
    (regular : ∀ word ∈ words, word.kind = .regular) :
    words.map textAndRetrace = shownFrom texts minNgram k words := by
  induction words generalizing k with
  | nil => rfl
  | cons word words ih =>
      have split := List.forall_mem_cons.mp regular
      rw [List.map_cons, textAndRetrace_regular split.1, shownFrom]
      split
      · rw [ih k split.2]
      · rw [if_neg (none_ k), ih (k + 1) split.2]

theorem minNgram_pos (lang : String) : 0 < minNgram lang := by
  unfold minNgram
  split <;> omega

/-- The detection leaves the words as declared. -/
theorem retraceWords_shown {words : List AsrWord} (lang : String)
    (regular : ∀ word ∈ words, word.kind = .regular) :
    (retraceWords words lang).map textAndRetrace = shown words lang := by
  unfold retraceWords shown
  dsimp only
  split
  · rename_i short
    exact shownFrom_unrepeated (not_repeated_of_short (minNgram_pos lang) short) 0 regular
  · exact markRetraces_shown List.drop_zero.symm regular

end Shown

section Stripped

theorem replaceMatches_deletes_sublist (find : List Char → Option (ℕ × List Char))
    (deletes : ∀ chars hit, find chars = some hit → hit.2 = []) (skip : ℕ) (chars : List Char) :
    (replaceMatches find skip chars).Sublist chars := by
  induction chars generalizing skip with
  | nil => cases skip <;> exact List.Sublist.refl []
  | cons char chars ih =>
      cases skip with
      | succ skip => exact (ih skip).cons char
      | zero =>
          rw [replaceMatches]
          split
          · rename_i length replacement found
            have nothing : replacement = [] := deletes _ _ found
            rw [nothing, List.nil_append]
            exact (ih _).cons char
          · exact (ih 0).cons_cons char

theorem removeAll_sublist (pattern text : String) :
    (removeAll pattern text).toList.Sublist text.toList := by
  rw [removeAll, String.toList_ofList]
  apply replaceMatches_deletes_sublist
  intro chars hit found
  split at found
  · cases found
    rfl
  · cases found

theorem not_mem_removeAll_singleton (char : Char) (text : String) :
    char ∉ (removeAll (String.singleton char) text).toList := by
  rw [removeAll, String.toList_ofList]
  induction text.toList with
  | nil => exact List.not_mem_nil
  | cons first chars ih =>
      rw [replaceMatches]
      by_cases same : first = char
      · subst same
        simpa using ih
      · have other : ¬ char = first := fun equal => same equal.symm
        simpa [other] using ih

theorem foldl_removeAll_sublist (patterns : List String) (text : String) :
    (patterns.foldl (fun text pattern => removeAll pattern text) text).toList.Sublist
      text.toList := by
  induction patterns generalizing text with
  | nil => exact List.Sublist.refl _
  | cons pattern patterns ih => exact (ih _).trans (removeAll_sublist pattern text)

theorem not_mem_foldl_removeAll {patterns : List String} {char : Char}
    (removed : String.singleton char ∈ patterns) (text : String) :
    char ∉ (patterns.foldl (fun text pattern => removeAll pattern text) text).toList := by
  induction patterns generalizing text with
  | nil => cases removed
  | cons pattern patterns ih =>
      rcases List.mem_cons.mp removed with rfl | later
      · intro member
        apply not_mem_removeAll_singleton char text
        exact (foldl_removeAll_sublist patterns _).subset member
      · exact ih later _

theorem trim_sublist (text : String) : (trim text).toList.Sublist text.toList := by
  rw [trim, String.toList_ofList]
  exact (List.rdropWhile_prefix _ _).sublist.trans (List.dropWhile_suffix _).sublist

/-- No punctuation of one character is left. -/
theorem not_mem_stripPunct {char : Char}
    (removed : String.singleton char ∈ endingPunct ++ morPunct) (text : String) :
    char ∉ (stripPunct text).toList := by
  intro member
  exact not_mem_foldl_removeAll removed text ((trim_sublist _).subset member)

theorem stripPunct_avoids {texts : List String}
    (marked : ∀ text ∈ texts, ∃ char ∈ text.toList,
      String.singleton char ∈ endingPunct ++ morPunct)
    (text : String) : stripPunct text ∉ texts := by
  intro member
  rcases marked _ member with ⟨char, inside, removed⟩
  exact not_mem_stripPunct removed text inside

theorem shownFrom_marked {texts : List String} {minNgram k : ℕ} {words : List AsrWord}
    {text : String} (member : (text, true) ∈ shownFrom texts minNgram k words) :
    ∃ unstripped, text = stripPunct unstripped := by
  induction words generalizing k with
  | nil => cases member
  | cons word words ih =>
      rw [shownFrom] at member
      split at member
      · rcases List.mem_cons.mp member with same | later
        · cases same
        · exact ih later
      · split at member
        · rcases List.mem_cons.mp member with same | later
          · exact ⟨word.text, (Prod.mk.inj same).1⟩
          · exact ih later
        · rcases List.mem_cons.mp member with same | later
          · cases same
          · exact ih later

end Stripped

section Brackets

variable [ChatGrammar]

def chatTerminators : List String :=
  [".", "?", "!", "+...", "+/.", "+//.", "+/?", "+!?", "+\"/.", "+\".", "+//?", "+..?", "+."]

/-- What the grammar is known to do: the terminators are the closed set of CHAT, and a fragment
that parses is one token. -/
structure DocumentedGrammar : Prop where
  terminators : ∀ text, ChatGrammar.isChatTerminator text → text ∈ chatTerminators
  tokens : ∀ text word, ChatGrammar.parseWordFragment text = (some word, []) →
    text ≠ "" ∧ containsWhitespace text = false

def textOf (desc : WordDesc) : String := desc.text.text

/-- The words are the first ones of what follows. -/
def RepeatsInto (words following : List String) : Prop :=
  List.Forall₂ (fun word next => eqIgnoreAsciiCase word next) words
    (following.take words.length)

/-- The words of the blocks that are no fillers. -/
def spokenWords (blocks : List Block) : List String :=
  ((blocks.flatMap Block.words).map textOf).filter (! isFiller ·)

/-- The words in every bracket are repeated right after it. -/
def BracketsRepeat (blocks : List Block) : Prop :=
  ∀ front descs back, blocks = front ++ .retrace descs :: back →
    RepeatsInto (descs.map textOf) (spokenWords back)

/-- A text that is shown as a word. -/
def isWordText (text : String) : Bool :=
  ! ChatGrammar.isChatTerminator text && ! [",", "„", "‡"].contains text

/-- It is, and is no filler. -/
def isSpoken (text : String) : Bool := ! isFiller text && isWordText text

def sameTexts (texts : List String) : Bool :=
  match texts.map fun text => (parseAsrWord text).cleanedText with
  | [] => true
  | first :: rest => rest.all (eqIgnoreAsciiCase · first)

/-- What is said in the stretch is said again right after it: the whole stretch, or each of its
words if they are copies of one word. -/
def StretchRepeats (stretch following : List String) : Prop :=
  if sameTexts stretch then
    ∀ before word after, stretch = before ++ word :: after →
      RepeatsInto [word] ((after ++ following).filter isSpoken)
  else RepeatsInto stretch (following.filter isSpoken)

/-- Every maximal stretch of words from first copies is repeated. -/
def StretchesRepeat (words : List AsrWord) (lang : String) : Prop :=
  ∀ front stretch back, MaximalRun Prod.snd (shown words lang) front stretch back →
    StretchRepeats (stretch.map Prod.fst) (back.map Prod.fst)

theorem bracketsRepeat_nil : BracketsRepeat [] := by
  intro front descs back split
  cases front <;> cases split

theorem bracketsRepeat_cons_iff {block : Block} {blocks : List Block} :
    BracketsRepeat (block :: blocks) ↔
      (∀ descs, block = .retrace descs → RepeatsInto (descs.map textOf) (spokenWords blocks)) ∧
        BracketsRepeat blocks := by
  constructor
  · intro all
    constructor
    · rintro descs rfl
      exact all [] descs blocks rfl
    · intro front descs back split
      exact all (block :: front) descs back (by rw [split]; rfl)
  · rintro ⟨first, rest⟩ front descs back split
    cases front with
    | nil =>
        cases split
        exact first descs rfl
    | cons head front =>
        cases split
        exact rest front descs back rfl

theorem spokenWords_append (left right : List Block) :
    spokenWords (left ++ right) = spokenWords left ++ spokenWords right := by
  simp [spokenWords]

/-- A bracket for each word: every word is followed by itself. -/
theorem bracketsRepeat_singles_iff {words : List WordDesc} {blocks : List Block} :
    BracketsRepeat ((words.map fun word => .retrace [word]) ++ blocks) ↔
      (∀ before word after, words = before ++ word :: after →
        RepeatsInto [textOf word]
          ((after.map textOf).filter (! isFiller ·) ++ spokenWords blocks)) ∧
        BracketsRepeat blocks := by
  induction words with
  | nil =>
      constructor
      · intro rest
        refine ⟨?_, rest⟩
        intro before word after split
        cases before <;> cases split
      · rintro ⟨_, rest⟩
        exact rest
  | cons first words ih =>
      have following : spokenWords ((words.map fun word => Block.retrace [word]) ++ blocks) =
          (words.map textOf).filter (! isFiller ·) ++ spokenWords blocks := by
        rw [spokenWords_append]
        congr 1
        rw [spokenWords, List.flatMap_map]
        simp [Block.words]
      rw [List.map_cons, List.cons_append, bracketsRepeat_cons_iff, ih, following]
      constructor
      · rintro ⟨head, later, rest⟩
        refine ⟨?_, rest⟩
        intro before word after split
        cases before with
        | nil =>
            cases split
            exact head [first] rfl
        | cons _ before =>
            cases split
            exact later before word after rfl
      · rintro ⟨all, rest⟩
        refine ⟨?_, ?_, rest⟩
        · rintro descs isBlock
          cases isBlock
          exact all [] first words rfl
        · intro before word after split
          exact all (first :: before) word after (by rw [split]; rfl)

/-- What the description of a word outside of a run becomes. -/
def outside (desc : WordDesc) : List Block :=
  if ChatGrammar.isChatTerminator (textOf desc) then []
  else if [",", "„", "‡"].contains (textOf desc) then [.separator (textOf desc)]
  else [.word desc]

theorem spokenWords_outside (desc : WordDesc) :
    spokenWords (outside desc) = [textOf desc].filter isSpoken := by
  unfold outside
  split
  · rename_i terminator
    have unspoken : isSpoken (textOf desc) = false := by
      rw [isSpoken, isWordText, terminator, Bool.not_true, Bool.false_and, Bool.and_false]
    rw [List.filter_singleton, unspoken]
    rfl
  · rename_i noTerminator
    split
    · rename_i tag
      have unspoken : isSpoken (textOf desc) = false := by
        rw [isSpoken, isWordText, tag, Bool.not_true, Bool.and_false, Bool.and_false]
      rw [List.filter_singleton, unspoken]
      rfl
    · rename_i noTag
      have spoken : isSpoken (textOf desc) = ! isFiller (textOf desc) := by
        rw [isSpoken, isWordText, Bool.eq_false_iff.mpr noTerminator,
          Bool.eq_false_iff.mpr noTag, Bool.not_false, Bool.and_true, Bool.and_true]
      rw [List.filter_singleton, spoken]
      exact List.filter_singleton

theorem bracketsRepeat_outside_iff {desc : WordDesc} {blocks : List Block} :
    BracketsRepeat (outside desc ++ blocks) ↔ BracketsRepeat blocks := by
  unfold outside
  split
  · rfl
  · split <;>
    · rw [List.singleton_append, bracketsRepeat_cons_iff]
      simp

end Brackets

section Tokens

theorem trim_token {text : String} (token : containsWhitespace text = false) :
    trim text = text := by
  have none_ : ∀ char ∈ text.toList, ¬ isWhitespace char = true := by
    simpa [containsWhitespace] using token
  have front : text.toList.dropWhile isWhitespace = text.toList := by
    apply List.dropWhile_eq_self_iff.mpr
    intro nonempty
    exact none_ _ (List.getElem_mem nonempty)
  have back : text.toList.rdropWhile isWhitespace = text.toList := by
    apply List.rdropWhile_eq_self_iff.mpr
    intro nonempty
    exact none_ _ (List.getLast_mem nonempty)
  rw [trim, front, back, String.ofList_toList]

variable [ChatGrammar]

/-- What the gate accepts is one token. -/
theorem ChatWordText.token (laws : DocumentedGrammar) (text : ChatWordText) :
    text.text ≠ "" ∧ containsWhitespace text.text = false := by
  have known : ∀ known ∈ chatTerminators ++ morPunct,
      known ≠ "" ∧ containsWhitespace known = false := by decide
  have legal := text.legal
  unfold structuralCheck at legal
  split at legal
  · rename_i terminator
    exact known _ (List.mem_append_left _ (laws.terminators _ terminator))
  · split at legal
    · rename_i tag
      exact known _ (List.mem_append_right _ (by simpa using tag))
    · split at legal
      · rename_i word parsed
        exact laws.tokens _ word parsed
      · cases legal

theorem trim_textOf (laws : DocumentedGrammar) (desc : WordDesc) :
    trim desc.text.text = textOf desc := trim_token (desc.text.token laws).2

theorem isBlank_eq_false (laws : DocumentedGrammar) (desc : WordDesc) : isBlank desc = false := by
  rw [isBlank, trim_textOf laws]
  simpa [textOf] using (desc.text.token laws).1

theorem filter_isBlank (laws : DocumentedGrammar) (descs : List WordDesc) :
    descs.filter (! isBlank ·) = descs := by
  apply List.filter_eq_self.mpr
  intro desc _
  rw [isBlank_eq_false laws]
  rfl

theorem bracketed_outside (laws : DocumentedGrammar) {desc : WordDesc} (descs : List WordDesc)
    (plain : desc.isRetrace = false) :
    bracketed 0 (desc :: descs) = outside desc ++ bracketed 0 descs := by
  rw [bracketed, isBlank_eq_false laws, trim_textOf laws, plain, outside, Bool.false_or]
  split
  · rfl
  · split <;> rfl

theorem bracketed_retrace (laws : DocumentedGrammar) {desc : WordDesc} (descs : List WordDesc)
    (marked : desc.isRetrace = true) (word : isWordText (textOf desc) = true) :
    bracketed 0 (desc :: descs) =
      bracketRun (desc :: descs.takeWhile WordDesc.isRetrace) ++
        bracketed 0 (descs.dropWhile WordDesc.isRetrace) := by
  simp only [isWordText, Bool.and_eq_true, Bool.not_eq_true'] at word
  rw [bracketed, isBlank_eq_false laws, trim_textOf laws, word.1, word.2, marked]
  dsimp only
  rw [bracketed_run]
  rfl

/-- No marked word is a terminator or a tag marker. -/
def MarkedWords (descs : List WordDesc) : Prop :=
  ∀ desc ∈ descs, desc.isRetrace = true → isWordText (textOf desc) = true

theorem MarkedWords.run {desc : WordDesc} {descs : List WordDesc}
    (marked : MarkedWords (desc :: descs)) (first : desc.isRetrace = true) :
    ∀ word ∈ desc :: descs.takeWhile WordDesc.isRetrace, isWordText (textOf word) = true := by
  refine List.forall_mem_cons.mpr ⟨marked desc List.mem_cons_self first, ?_⟩
  intro word member
  apply marked word (List.mem_cons_of_mem _ ((List.takeWhile_prefix _).subset member))
  exact List.mem_takeWhile_imp member

theorem filter_isSpoken {words : List WordDesc}
    (all : ∀ word ∈ words, isWordText (textOf word) = true) :
    (words.map textOf).filter isSpoken = (words.map textOf).filter (! isFiller ·) := by
  apply List.filter_congr
  intro text member
  rcases List.mem_map.mp member with ⟨word, isWord, rfl⟩
  rw [isSpoken, all word isWord, Bool.and_true]

theorem spokenWords_bracketRun (laws : DocumentedGrammar) (run : List WordDesc) :
    spokenWords (bracketRun run) = (run.map textOf).filter (! isFiller ·) := by
  rw [spokenWords, bracketRun_words, filter_isBlank laws]

/-- The words of the blocks are the texts shown as words. -/
theorem spokenWords_bracketed (laws : DocumentedGrammar) {descs : List WordDesc}
    (marked : MarkedWords descs) :
    spokenWords (bracketed 0 descs) = (descs.map textOf).filter isSpoken := by
  induction descs using runs_induction WordDesc.isRetrace with
  | nil => rfl
  | outside desc descs plain ih =>
      have rest : MarkedWords descs := fun word member =>
        marked word (List.mem_cons_of_mem _ member)
      rw [bracketed_outside laws descs plain, spokenWords_append, spokenWords_outside, ih rest,
        List.map_cons, ← List.filter_append, List.singleton_append]
  | run desc descs first ih =>
      have rest : MarkedWords (descs.dropWhile WordDesc.isRetrace) := fun word member =>
        marked word (List.mem_cons_of_mem _ ((List.dropWhile_suffix _).subset member))
      rw [bracketed_retrace laws descs first (marked desc List.mem_cons_self first),
        spokenWords_append, spokenWords_bracketRun laws, ih rest,
        ← filter_isSpoken (marked.run first), ← List.filter_append, ← List.map_append,
        List.cons_append, List.takeWhile_append_dropWhile]

theorem sameTexts_eq (laws : DocumentedGrammar) (run : List WordDesc) :
    sameTexts (run.map textOf) = sameWord run := by
  have cleaned (desc : WordDesc) :
      (parseAsrWord (textOf desc)).cleanedText = (timedWord desc).cleanedText := by
    unfold timedWord
    rw [trim_textOf laws]
    split <;> rfl
  cases run with
  | nil => rfl
  | cons first rest =>
      rw [sameTexts, sameWord, List.map_cons, List.map_cons, List.map_map]
      dsimp only
      rw [cleaned, List.all_map]
      simp [Function.comp_def, cleaned]

theorem bracketsRepeat_run_iff (laws : DocumentedGrammar) {run : List WordDesc}
    {blocks : List Block} {following : List String}
    (all : ∀ word ∈ run, isWordText (textOf word) = true)
    (spoken : spokenWords blocks = following.filter isSpoken) :
    BracketsRepeat (bracketRun run ++ blocks) ↔
      StretchRepeats (run.map textOf) following ∧ BracketsRepeat blocks := by
  unfold bracketRun
  dsimp only
  rw [filter_isBlank laws, StretchRepeats, sameTexts_eq laws]
  split
  · rw [bracketsRepeat_singles_iff, spoken]
    apply and_congr_left'
    constructor
    · intro each before word after split
      rcases List.map_eq_append_iff.mp split with ⟨before', rest, rfl, rfl, isRest⟩
      rcases List.map_eq_cons_iff.mp isRest with ⟨word', after', rfl, rfl, rfl⟩
      have later : ∀ word ∈ after', isWordText (textOf word) = true := by
        intro word member
        exact all word (by simp [member])
      rw [List.filter_append, filter_isSpoken later]
      exact each before' word' after' rfl
    · rintro each before word after rfl
      have later : ∀ word ∈ after, isWordText (textOf word) = true := by
        intro word member
        exact all word (by simp [member])
      rw [← filter_isSpoken later, ← List.filter_append]
      exact each (before.map textOf) (textOf word) (after.map textOf) (by simp)
  · rw [List.singleton_append, bracketsRepeat_cons_iff, spoken]
    apply and_congr_left'
    constructor
    · intro each
      exact each run rfl
    · rintro each descs same
      cases same
      exact each

/-- The brackets repeat when the maximal runs of marked words do. -/
theorem bracketsRepeat_bracketed_iff (laws : DocumentedGrammar) {descs : List WordDesc}
    (marked : MarkedWords descs) :
    BracketsRepeat (bracketed 0 descs) ↔
      ∀ front run back, MaximalRun WordDesc.isRetrace descs front run back →
        StretchRepeats (run.map textOf) (back.map textOf) := by
  induction descs using runs_induction WordDesc.isRetrace with
  | nil => exact iff_of_true bracketsRepeat_nil forall_maximalRun_nil
  | outside desc descs plain ih =>
      have rest : MarkedWords descs := fun word member =>
        marked word (List.mem_cons_of_mem _ member)
      rw [bracketed_outside laws descs plain, bracketsRepeat_outside_iff, ih rest]
      exact (forall_maximalRun_cons_neg plain).symm
  | run desc descs first ih =>
      have rest : MarkedWords (descs.dropWhile WordDesc.isRetrace) := fun word member =>
        marked word (List.mem_cons_of_mem _ ((List.dropWhile_suffix _).subset member))
      rw [bracketed_retrace laws descs first (marked desc List.mem_cons_self first),
        bracketsRepeat_run_iff laws (marked.run first) (spokenWords_bracketed laws rest), ih rest]
      exact (forall_maximalRun_cons_pos (Q := fun run back =>
        StretchRepeats (run.map textOf) (back.map textOf)) first).symm

end Tokens

section Utterances

theorem retokenizeFrom_regular {speaker : ℕ} {buf words : List AsrWord}
    (bufRegular : ∀ word ∈ buf, word.kind = .regular)
    (regular : ∀ word ∈ words, word.kind = .regular) {utterance : Utterance}
    (member : utterance ∈ retokenizeFrom speaker buf words) :
    ∀ word ∈ utterance.words, word.kind = .regular := by
  induction words generalizing buf with
  | nil =>
      rw [retokenizeFrom, flushRemaining] at member
      split at member
      · cases member
      · rw [List.mem_singleton] at member
        subst member
        intro word inside
        rcases List.mem_append.mp inside with kept | added
        · exact bufRegular word ((List.rdropWhile_prefix _ _).subset kept)
        · rw [List.mem_singleton.mp added]
          rfl
  | cons word words ih =>
      have split := List.forall_mem_cons.mp regular
      have fresh : ∀ word ∈ ([] : List AsrWord), word.kind = .regular := by simp
      have extended (added : List AsrWord) (all : ∀ word ∈ added, word.kind = .regular) :
          ∀ word ∈ buf ++ added, word.kind = .regular :=
        List.forall_mem_append.mpr ⟨bufRegular, all⟩
      rw [retokenizeFrom] at member
      dsimp only at member
      split at member
      · rcases List.mem_cons.mp member with rfl | later
        · apply extended
          simpa using split.1
        · exact ih fresh split.2 later
      · split at member
        · rcases List.mem_cons.mp member with rfl | later
          · apply extended
            intro part isPart
            rcases List.mem_append.mp isPart with wordPart | punctPart
            · split at wordPart
              · cases wordPart
              · rw [List.mem_singleton.mp wordPart]
                rfl
            · rw [List.mem_singleton.mp punctPart]
              rfl
          · exact ih fresh split.2 later
        · apply ih (extended _ _) split.2 member
          simpa using split.1

variable [ChatGrammar]

theorem isWordText_stripPunct (laws : DocumentedGrammar) (text : String) :
    isWordText (stripPunct text) = true := by
  have marks : ∀ char ∈ ['.', '?', '!', ',', '„', '‡'],
      String.singleton char ∈ endingPunct ++ morPunct := by
    simp [endingPunct, morPunct]
  have inside : ∀ known ∈ chatTerminators ++ [",", "„", "‡"],
      ∃ char ∈ ['.', '?', '!', ',', '„', '‡'], char ∈ known.toList := by
    simp [chatTerminators]
  have removed : ∀ known ∈ chatTerminators ++ [",", "„", "‡"], ∃ char ∈ known.toList,
      String.singleton char ∈ endingPunct ++ morPunct := by
    intro known isKnown
    rcases inside known isKnown with ⟨char, mark, member⟩
    exact ⟨char, member, marks char mark⟩
  have avoids := stripPunct_avoids removed text
  have noTerminator : ChatGrammar.isChatTerminator (stripPunct text) = false := by
    apply Bool.eq_false_iff.mpr
    intro terminator
    exact avoids (List.mem_append_left _ (laws.terminators _ terminator))
  have noTag : [",", "„", "‡"].contains (stripPunct text) = false := by
    apply Bool.eq_false_iff.mpr
    intro tag
    exact avoids (List.mem_append_right _ (List.contains_iff_mem.mp tag))
  rw [isWordText, noTerminator, noTag]
  rfl

def shownDesc (desc : WordDesc) : String × Bool := (textOf desc, desc.isRetrace)

theorem markedWords_of_shown (laws : DocumentedGrammar) {descs : List WordDesc}
    {words : List AsrWord} {lang : String} (same : descs.map shownDesc = shown words lang) :
    MarkedWords descs := by
  intro desc member isRetrace
  have inside : (textOf desc, true) ∈ shown words lang := by
    rw [← same, ← isRetrace]
    exact List.mem_map_of_mem member
  rcases shownFrom_marked inside with ⟨unstripped, isStripped⟩
  rw [isStripped]
  exact isWordText_stripPunct laws unstripped

theorem buildWordUtterance_content [WorGenerator] {speaker : String} {descs : List WordDesc}
    {writeWor : Bool} {startMs endMs : Option ℕ} {chat : Chat.Utterance}
    (built : buildWordUtterance speaker descs writeWor startMs endMs = some chat) :
    chat.main.content.content = (bracketed 0 descs).map Block.content := by
  unfold buildWordUtterance at built
  dsimp only at built
  split at built
  · cases built
  · cases built
    change (pushWords 0 descs .initial).content = _
    rw [pushWords_eq]
    rfl

/-- The brackets of an utterance are repeated right after them exactly when every maximal
stretch of words from first copies is repeated as a whole. -/
theorem brackets_repeat_iff_stretches_repeat [ChatBuilder] [WorGenerator]
    (laws : DocumentedGrammar) {speaker : ℕ} {words : List AsrWord}
    (regular : ∀ word ∈ words, word.kind = .regular) {utterance : Utterance}
    (cut : utterance ∈ retokenize speaker words) {lang primary : String}
    {participantIds : List String} {uttIdx : ℕ} {retraced : Utterance}
    (isRetraced : applyRetraceDetection [utterance] lang = [retraced]) {desc : UtteranceDesc}
    (described : describeUtterance participantIds primary retraced uttIdx = .ok desc)
    {writeWor : Bool} {chat : Chat.Utterance}
    (built : buildWordUtterance desc.speaker (desc.words.getD []) writeWor desc.startMs
      desc.endMs = some chat) :
    chat.main.content.content = (bracketed 0 (desc.words.getD [])).map Block.content ∧
      (BracketsRepeat (bracketed 0 (desc.words.getD [])) ↔
        StretchesRepeat utterance.words lang) := by
  refine ⟨buildWordUtterance_content built, ?_⟩
  have uttRegular := retokenizeFrom_regular (by simp) regular cut
  have same : (desc.words.getD []).map shownDesc = shown utterance.words lang := by
    rw [← retraceWords_shown lang uttRegular]
    have kept := congrArg (List.map fun item : String × Option ℕ × Option ℕ × WordKind =>
      (item.1, item.2.2.2 == .retrace)) (describeUtterance_words described)
    rw [List.map_map, List.map_map, ← (List.cons.inj isRetraced).1] at kept
    exact kept
  rw [bracketsRepeat_bracketed_iff laws (markedWords_of_shown laws same), StretchesRepeat, ← same]
  rw [forall_maximalRun_map (p := WordDesc.isRetrace) (g := shownDesc)]
  · simp only [List.map_map]
    rfl
  · intro desc _
    rfl

end Utterances

section Samples

open Documented

theorem wordChar_no_whitespace {char : Char} (isWord : isWordChar char = true) :
    isWhitespace char = false := by
  rw [isWordChar, Bool.or_eq_true] at isWord
  rcases isWord with letter | mark
  · have code : (65 ≤ char.toNat ∧ char.toNat ≤ 90) ∨ (97 ≤ char.toNat ∧ char.toNat ≤ 122) := by
      simpa [Char.isAlpha, Char.isUpper, Char.isLower, UInt32.le_iff_toNat_le] using letter
    simp only [isWhitespace, Bool.or_eq_false_iff, Bool.and_eq_false_imp, decide_eq_true_eq,
      decide_eq_false_iff_not, beq_eq_false_iff_ne]
    omega
  · have known := List.contains_iff_mem.mp mark
    simp only [List.mem_cons, List.not_mem_nil, or_false] at known
    rcases known with rfl | rfl | rfl | rfl <;> decide

theorem documentedGrammar : DocumentedGrammar where
  terminators := by
    intro text terminator
    have known : text ∈ Documented.terminators.map Prod.fst := List.contains_iff_mem.mp terminator
    have all : ∀ text ∈ Documented.terminators.map Prod.fst, text ∈ chatTerminators := by
      simp [Documented.terminators, chatTerminators]
    exact all text known
  tokens := by
    intro text word parsed
    have token (chars : List Char) (word : ! chars.isEmpty && chars.all isWordChar) :
        chars ≠ [] ∧ ∀ char ∈ chars, isWhitespace char = false := by
      rw [Bool.and_eq_true, List.all_eq_true] at word
      refine ⟨by simpa using word.1, ?_⟩
      intro char member
      exact wordChar_no_whitespace (word.2 char member)
    change parseFragment text = _ at parsed
    unfold parseFragment at parsed
    have whole : text.toList ≠ [] ∧ ∀ char ∈ text.toList, isWhitespace char = false := by
      split at parsed
      · rename_i chars isFiller
        split at parsed
        · rename_i word
          refine ⟨by simp [isFiller], ?_⟩
          rw [isFiller]
          simpa [show isWhitespace '&' = false by decide,
            show isWhitespace '-' = false by decide] using (token chars word).2
        · cases parsed
      · split at parsed
        · rename_i word
          exact token _ word
        · cases parsed
    refine ⟨by simpa using whole.1, ?_⟩
    simpa [containsWhitespace] using whole.2

def spoken (texts : List String) : List AsrWord :=
  texts.map fun text => AsrWord.new text none none

instance (words following : List String) : Decidable (RepeatsInto words following) :=
  inferInstanceAs (Decidable (List.Forall₂ _ _ _))

instance decidableBracketsRepeat : (blocks : List Block) → Decidable (BracketsRepeat blocks)
  | [] => isTrue bracketsRepeat_nil
  | .word desc :: blocks =>
      have := decidableBracketsRepeat blocks
      decidable_of_iff (BracketsRepeat blocks) (by simp [bracketsRepeat_cons_iff])
  | .separator text :: blocks =>
      have := decidableBracketsRepeat blocks
      decidable_of_iff (BracketsRepeat blocks) (by simp [bracketsRepeat_cons_iff])
  | .retrace descs :: blocks =>
      have := decidableBracketsRepeat blocks
      decidable_of_iff (RepeatsInto (descs.map textOf) (spokenWords blocks) ∧
        BracketsRepeat blocks) (by simp [bracketsRepeat_cons_iff])

/-- A phrase said three times: the first two copies share a bracket, and one copy follows. -/
theorem triple_phrase_not_repeated :
    ∃ utterance ∈ retokenize 0 (spoken ["I", "want", "I", "want", "I", "want", "cookie", "."]),
      ∃ retraced ∈ applyRetraceDetection [utterance] "eng",
        ∃ desc ∈ (describeUtterance ["CHI"] "eng" retraced 0).toOption,
          (buildWordUtterance desc.speaker (desc.words.getD []) false desc.startMs
            desc.endMs).isSome ∧ ¬ BracketsRepeat (bracketed 0 (desc.words.getD [])) := by
  decide +kernel

theorem brackets_repeat_sample :
    ∃ utterance ∈ retokenize 0 (spoken ["the", "the", "dog", "barks", "."]),
      ∃ retraced ∈ applyRetraceDetection [utterance] "eng",
        ∃ desc ∈ (describeUtterance ["CHI"] "eng" retraced 0).toOption,
          BracketsRepeat (bracketed 0 (desc.words.getD [])) ∧
            StretchesRepeat utterance.words "eng" := by
  have run : ∃ utterance ∈ retokenize 0 (spoken ["the", "the", "dog", "barks", "."]),
      ∃ retraced ∈ applyRetraceDetection [utterance] "eng",
        ∃ desc ∈ (describeUtterance ["CHI"] "eng" retraced 0).toOption,
          (buildWordUtterance desc.speaker (desc.words.getD []) false desc.startMs
            desc.endMs).isSome ∧ BracketsRepeat (bracketed 0 (desc.words.getD [])) := by
    decide +kernel
  rcases run with ⟨utterance, cut, retraced, isRetraced, desc, described, built, repeats⟩
  refine ⟨utterance, cut, retraced, isRetraced, desc, described, repeats, ?_⟩
  rcases Option.isSome_iff_exists.mp built with ⟨chat, built⟩
  have applied : applyRetraceDetection [utterance] "eng" = [retraced] :=
    congrArg (fun applied => [applied]) (List.mem_singleton.mp isRetraced).symm
  exact (brackets_repeat_iff_stretches_repeat documentedGrammar (by simp [spoken, AsrWord.new])
    cut applied (ok_of_mem_toOption described) built).2.mp repeats

end Samples

end Batchalign.Asr
