import Batchalign.Library.Fallible
import Batchalign.Library.Fragments
import Batchalign.Morphosyntax.Ascii
import Batchalign.Morphosyntax.Handlers

/-!
# Which lemmas are stems

The cleaning leaves none of the marks of `%mor` syntax in a lemma. A stem is missed where nothing
is left, where the surface takes the place of the cleaned lemma after the cleaning, and where a
word that counts as punctuation is written with its surface.
-/

namespace Batchalign.Morphosyntax

open Fallible PythonText Replacement

section Spec

def strippedMarks : List Char := ['|', '-', '~', '$', '+', '_', ',', '.', '(', ')']

def HasNoMark (text : String) : Prop := ∀ mark ∈ strippedMarks, mark ∉ text.toList

def IsStem (lemmaText : String) : Prop := lemmaText ≠ "" ∧ HasNoMark lemmaText

variable [PythonText]

/-- `handle` returns, and the lemma of its unit, if it returns one, is a stem. -/
def RendersStem (lang : Option String) (word : NormalizedWord) : Prop :=
  ∃ unit, handleWord word lang = .ok unit ∧ ∀ analysis ∈ unit, IsStem analysis.lemmaText

/-- The parts of speech whose handlers read the features. -/
def featuredPos : List String := ["PRON", "DET", "ADJ", "NOUN", "PROPN", "AUX", "VERB"]

/-- Every feature has a key and a value. -/
def FeatsSplit (word : NormalizedWord) : Prop :=
  ∀ feats ∈ word.feats, ∀ feat ∈ splitAt '|' feats, '=' ∈ feat.toList

/-- The language that the handler gets. -/
def handlerLang (word : NormalizedWord) (lang : Option String) : Option String :=
  if word.upos = "PROPN" then none else lang

/-- A branch of the Japanese table gives the lemma. -/
def IsTabled (lang : Option String) (word : NormalizedWord) : Prop :=
  lang = some "ja" ∧ (verbformRule (lower word.upos) (stemText word) word.text).isSome

/-- Something other than white space is left, a form marker apart. -/
def Leaves (text : String) : Prop := ∃ char ∈ (dropForm text).toList, isSpace char = false

/-- Hyphens are written as dashes. -/
def dashed (text : String) : String := replaceText "-" "–" text

/-- In Japanese a comma is written `cm`. -/
def commas (lang : Option String) (text : String) : String :=
  if lang = some "ja" then replaceText "," "cm" text else text

def cleanedText (word : NormalizedWord) : String := cleanMarks (baseText word)

/-- A word of a part of speech other than punctuation has something left of its lemma. Where the
surface is written in its place, that has something to show, and no marks. -/
def HasStem (lang : Option String) (word : NormalizedWord) : Prop :=
  openedText word ≠ "" ∧
    (IsTabled lang word ∨
      if '“' ∈ (cleanedText word).toList ∨
          cleanedText word = "door zogen" ∧ '“' ∈ word.text.toList then
        Leaves (commas lang word.text) ∧ HasNoMark (dropForm (commas lang word.text))
      else if cleanedText word = "door zogen" then
        Leaves (commas lang (dashed word.text)) ∧
          HasNoMark (dropForm (commas lang (dashed word.text)))
      else Leaves (dashed (cleanedText word)))

def Renderable (lang : Option String) (word : NormalizedWord) : Prop :=
  word.lemmaText ∈ punctLemmas ∨
    if word.upos ∈ ["PUNCT", "SYM"] then
      isLexicalSurface word.text = true → word.text = "," ∨ HasNoMark word.text
    else
      (word.upos ∈ featuredPos → FeatsSplit word) ∧ HasStem (handlerLang word lang) word

end Spec

section Cleaning

theorem remove_shrinks (text : String) : Shrinks (remove text) :=
  fun _ => replace_subset (List.nil_subset _)

theorem not_mem_remove {text : String} {mark : Char} (single : text.toList = [mark])
    (chars : List Char) : mark ∉ remove text chars := by
  rw [remove, single, mem_replace_singleton]
  simp

theorem dropFirst_shrinks (mark : Char) : Shrinks (dropFirst mark) := by
  intro chars
  cases chars with
  | nil => exact List.Subset.refl []
  | cons char chars =>
      rw [dropFirst]
      split
      · exact List.subset_cons_self ..
      · exact List.Subset.refl _

theorem dropLast_shrinks (mark : Char) : Shrinks (dropLast mark) := by
  intro chars
  rw [dropLast]
  split
  · exact List.dropLast_subset chars
  · exact List.Subset.refl chars

theorem strip_sublist (text : String) : (strip text).toList.Sublist text.toList := by
  rw [strip, String.toList_ofList]
  exact (List.rdropWhile_prefix _ _).sublist.trans (List.dropWhile_sublist _)

theorem mem_headD_splitAt {separator char : Char} {text : String}
    (member : char ∈ ((splitAt separator text).headD "").toList) :
    char ∈ text.toList ∧ char ≠ separator := by
  rw [splitAt] at member
  cases split : text.toList.splitOn separator with
  | nil => exact absurd split (List.splitOn_ne_nil separator _)
  | cons first rest =>
      rw [split, List.map_cons, List.headD_cons, String.toList_ofList] at member
      have inFlat : char ∈ (text.toList.splitOn separator).flatten := by
        rw [split]
        exact List.mem_flatten_of_mem List.mem_cons_self member
      rw [Fragments.flatten_splitOn, List.mem_filter] at inFlat
      simpa using inFlat

theorem mem_beforeBar {char : Char} {chars : List Char} (member : char ∈ beforeBar chars) :
    char ∈ chars ∧ char ≠ '|' := by
  rw [beforeBar] at member
  split at member
  · simpa using mem_headD_splitAt ((strip_sublist _).subset member)
  · next none => exact ⟨member, fun bar => none (bar ▸ member)⟩

theorem cleaningSteps_shrink : ∀ step ∈ cleaningSteps, Shrinks step := by
  intro step member
  simp only [cleaningSteps, List.mem_cons, List.not_mem_nil, or_false] at member
  rcases member with rfl | rfl | rfl | rfl | rfl | rfl | rfl | rfl | rfl | rfl | rfl | rfl | rfl |
    rfl | rfl | rfl | rfl | rfl | rfl
  all_goals first
    | exact remove_shrinks _
    | exact dropFirst_shrinks _
    | exact dropLast_shrinks _
    | exact fun _ _ member => (mem_beforeBar member).1
    | exact fun _ => replace_subset (by simp)

/-- Of the marks only hyphens are left, which are written as dashes. -/
theorem not_mem_cleanMarks (target : String) {mark : Char} (isMark : mark ∈ strippedMarks)
    (noHyphen : mark ≠ '-') : mark ∉ (cleanMarks target).toList := by
  rw [cleanMarks, String.toList_ofList]
  apply not_mem_foldl cleaningSteps_shrink
  simp only [strippedMarks, List.mem_cons, List.not_mem_nil, or_false] at isMark
  rcases isMark with rfl | rfl | rfl | rfl | rfl | rfl | rfl | rfl | rfl | rfl
  · exact ⟨beforeBar, by simp [cleaningSteps], fun _ member => (mem_beforeBar member).2 rfl⟩
  · exact absurd rfl noHyphen
  · exact ⟨remove "~", by simp [cleaningSteps], not_mem_remove rfl⟩
  · exact ⟨remove "$", by simp [cleaningSteps], not_mem_remove rfl⟩
  · exact ⟨remove "+", by simp [cleaningSteps], not_mem_remove rfl⟩
  · exact ⟨remove "_", by simp [cleaningSteps], not_mem_remove rfl⟩
  · exact ⟨remove ",", by simp [cleaningSteps], not_mem_remove rfl⟩
  · exact ⟨remove ".", by simp [cleaningSteps], not_mem_remove rfl⟩
  · exact ⟨remove "(", by simp [cleaningSteps], not_mem_remove rfl⟩
  · exact ⟨remove ")", by simp [cleaningSteps], not_mem_remove rfl⟩

end Cleaning

section Finish

variable {lang : Option String} {text : String} {char : Char}

theorem mem_dashed :
    char ∈ (dashed text).toList ↔
      char ∈ text.toList ∧ char ≠ '-' ∨ '-' ∈ text.toList ∧ char = '–' := by
  rw [dashed, replaceText, String.toList_ofList]
  change char ∈ replace ['-'] ['–'] text.toList ↔ _
  rw [mem_replace_singleton, List.mem_singleton]

theorem commas_of_not_mem (none : ',' ∉ text.toList) : commas lang text = text := by
  rw [commas]
  split
  · rw [replaceText, ← String.toList_inj, String.toList_ofList]
    exact replace_singleton_of_not_mem none
  · rfl

theorem mem_dropWhile {chars : List Char} (visible : isSpace char = false) :
    char ∈ chars.dropWhile isSpace ↔ char ∈ chars := by
  refine ⟨fun member => (List.dropWhile_sublist _).subset member, fun member => ?_⟩
  rw [← List.takeWhile_append_dropWhile (p := isSpace) (l := chars), List.mem_append] at member
  refine member.resolve_left fun taken => ?_
  rw [List.mem_takeWhile_imp taken] at visible
  cases visible

/-- Stripping keeps what is not white space. -/
theorem mem_strip (visible : isSpace char = false) :
    char ∈ (strip text).toList ↔ char ∈ text.toList := by
  rw [strip, String.toList_ofList, List.rdropWhile, List.mem_reverse, mem_dropWhile visible,
    List.mem_reverse, mem_dropWhile visible]

theorem isSpace_of_mark {mark : Char} (isMark : mark ∈ strippedMarks) : isSpace mark = false := by
  simp only [strippedMarks, List.mem_cons, List.not_mem_nil, or_false] at isMark
  rcases isMark with rfl | rfl | rfl | rfl | rfl | rfl | rfl | rfl | rfl | rfl <;> rfl

theorem toNat_of_mark {mark : Char} (isMark : mark ∈ strippedMarks) : mark.toNat < 128 := by
  simp only [strippedMarks, List.mem_cons, List.not_mem_nil, or_false] at isMark
  rcases isMark with rfl | rfl | rfl | rfl | rfl | rfl | rfl | rfl | rfl | rfl <;> decide

theorem isStem_strip_iff :
    IsStem (strip text) ↔ (∃ char ∈ text.toList, isSpace char = false) ∧ HasNoMark text := by
  have marks : HasNoMark (strip text) ↔ HasNoMark text :=
    forall₂_congr fun mark isMark => not_congr (mem_strip (isSpace_of_mark isMark))
  rw [IsStem, marks]
  refine and_congr_left fun _ => ?_
  constructor
  · intro some
    by_contra nothing
    push Not at nothing
    apply some
    have dropped : text.toList.dropWhile isSpace = [] := by
      rw [List.dropWhile_eq_nil_iff]
      intro char member
      simpa using nothing char member
    rw [strip, dropped]
    rfl
  · rintro ⟨char, member, visible⟩ empty
    rw [← mem_strip visible, empty] at member
    cases member

variable [PythonText]

theorem dropForm_subset : (dropForm text).toList ⊆ text.toList := by
  intro char member
  rw [← List.mem_reverse]
  rw [dropForm] at member
  split at member
  · next second rest ends =>
    rw [ends]
    split at member
    · rw [String.toList_ofList, List.mem_reverse] at member
      rcases List.mem_cons.mp member with rfl | inRest
      · exact List.mem_cons_self
      · simp [inRest]
    · rwa [← ends, List.mem_reverse]
  · next last rest _ ends =>
    rw [ends]
    split at member
    · rw [String.toList_ofList, List.mem_reverse] at member
      simp [member]
    · rwa [← ends, List.mem_reverse]
  · rwa [List.mem_reverse]

end Finish

section Forms

/-- The table writes Japanese characters only. -/
theorem verbformRules_japanese :
    ∀ rule ∈ verbformRules, rule.lemmaText ≠ "" ∧
      rule.lemmaText.toList.all (fun char => 0x3000 < char.toNat) = true := by
  decide

theorem isSpace_of_japanese {char : Char} (beyond : 0x3000 < char.toNat) :
    isSpace char = false := by
  simp only [isSpace, isWhitespace, Bool.or_eq_false_iff, Bool.and_eq_false_iff,
    decide_eq_false_iff_not, beq_eq_false_iff_ne]
  omega

theorem not_mem_of_japanese {text : String} (japanese : ∀ char ∈ text.toList, 0x3000 < char.toNat)
    {char : Char} (ascii : char.toNat < 128) : char ∉ text.toList := by
  intro member
  have beyond := japanese char member
  omega

variable [PythonText] {lang : Option String} {word : NormalizedWord}

theorem dropForm_of_not_mem {text : String} (none : '@' ∉ text.toList) : dropForm text = text := by
  rw [dropForm]
  split
  · next char rest ends =>
    apply absurd _ none
    rw [← List.mem_reverse, ends]
    simp
  · next char rest _ ends =>
    apply absurd _ none
    rw [← List.mem_reverse, ends]
    simp
  · rfl

omit [PythonText] in
theorem mem_of_verbformRule {upos target text : String} {rule : VerbformRule}
    (found : verbformRule upos target text = some rule) : rule ∈ verbformRules := by
  unfold verbformRule at found
  exact List.mem_of_find?_eq_some found

theorem formed_of_rule {rule : VerbformRule}
    (found : verbformRule (lower word.upos) (stemText word) word.text = some rule) :
    (formed word (some "ja")).2 = replaceText "," "cm" rule.lemmaText := by
  rw [formed, if_pos rfl, verbform, found]

theorem formed_of_untabled (untabled : ¬ IsTabled lang word) :
    (formed word lang).2 = commas lang (stemText word) := by
  rw [IsTabled, not_and, Option.not_isSome_iff_eq_none] at untabled
  rw [formed, commas, verbform]
  generalize stemText word = stem at untabled ⊢
  split
  · next japanese => rw [untabled japanese]
  · rfl

/-- What the table writes is a stem. -/
theorem isStem_tabled {rule : VerbformRule} (listed : rule ∈ verbformRules) :
    IsStem (strip (dropForm (replaceText "," "cm" rule.lemmaText))) := by
  rcases verbformRules_japanese rule listed with ⟨nonempty, japanese⟩
  simp only [List.all_eq_true, decide_eq_true_eq] at japanese
  have noCommas := @commas_of_not_mem (some "ja") _ (not_mem_of_japanese japanese (by decide))
  rw [commas, if_pos rfl] at noCommas
  rw [noCommas, dropForm_of_not_mem (not_mem_of_japanese japanese (by decide)), isStem_strip_iff]
  constructor
  · rcases List.exists_mem_of_ne_nil _ (mt String.toList_eq_nil_iff.mp nonempty) with
      ⟨char, member⟩
    exact ⟨char, member, isSpace_of_japanese (japanese char member)⟩
  · exact fun mark isMark => not_mem_of_japanese japanese (toNat_of_mark isMark)

omit [PythonText] in
/-- The text that the handler finishes when no branch of the Japanese table gives one. -/
theorem stemText_eq (word : NormalizedWord) :
    stemText word =
      if '“' ∈ (cleanedText word).toList ∨
          cleanedText word = "door zogen" ∧ '“' ∈ word.text.toList then word.text
      else if cleanedText word = "door zogen" then dashed word.text
      else dashed (cleanedText word) := by
  have quoted : ∀ text, isIn "“" (dashed text) = true ↔ '“' ∈ text.toList := by
    intro text
    rw [isIn, decide_eq_true_eq]
    change ['“'] <:+: _ ↔ _
    rw [List.singleton_infix_iff, mem_dashed]
    simp
  have chosen : stemText word = if isIn "“" (dashed (if cleanedText word = "door zogen" then
      word.text else cleanedText word)) then word.text else
      dashed (if cleanedText word = "door zogen" then word.text else cleanedText word) := rfl
  rw [chosen]
  by_cases zogen : cleanedText word = "door zogen"
  · have plain : '“' ∉ "door zogen".toList := by decide
    simp only [zogen, quoted, plain, if_true, true_and, false_or]
  · simp only [zogen, quoted, if_false, false_and, or_false]

omit [PythonText] in
theorem hasNoMark_dashed_cleanedText (word : NormalizedWord) :
    HasNoMark (dashed (cleanedText word)) := by
  intro mark isMark member
  rcases mem_dashed.mp member with ⟨left, noHyphen⟩ | ⟨-, rfl⟩
  · exact not_mem_cleanMarks _ isMark noHyphen left
  · revert isMark
    decide

theorem isStem_strip_dropForm_iff {text : String} :
    IsStem (strip (dropForm text)) ↔ Leaves text ∧ HasNoMark (dropForm text) :=
  isStem_strip_iff

/-- Without a branch of the table the lemma is the text that is left, or the surface. -/
theorem isStem_stemText_iff :
    IsStem (strip (dropForm (commas lang (stemText word)))) ↔
      if '“' ∈ (cleanedText word).toList ∨
          cleanedText word = "door zogen" ∧ '“' ∈ word.text.toList then
        Leaves (commas lang word.text) ∧ HasNoMark (dropForm (commas lang word.text))
      else if cleanedText word = "door zogen" then
        Leaves (commas lang (dashed word.text)) ∧
          HasNoMark (dropForm (commas lang (dashed word.text)))
      else Leaves (dashed (cleanedText word)) := by
  rw [isStem_strip_dropForm_iff, stemText_eq]
  split
  · rfl
  · split
    · rfl
    · have unmarked := hasNoMark_dashed_cleanedText word
      rw [commas_of_not_mem (unmarked ',' (by decide))]
      exact and_iff_left fun mark isMark member => unmarked mark isMark (dropForm_subset member)

omit [PythonText] in
theorem exists_ok_pair_iff {first second : String} {holds : String → Prop} :
    (∃ pos lemmaText, (.ok (first, second) : Except PythonError (String × String)) =
      .ok (pos, lemmaText) ∧ holds lemmaText) ↔ holds second := by
  constructor
  · rintro ⟨pos, lemmaText, same, here⟩
    cases same
    exact here
  · exact fun here => ⟨_, _, rfl, here⟩

/-- The handler's lemma is a stem exactly when the word has one. -/
theorem isStem_handler_iff :
    (∃ pos lemmaText, handler word lang = .ok (pos, lemmaText) ∧ IsStem lemmaText) ↔
      HasStem lang word := by
  rw [HasStem, ← isStem_stemText_iff]
  by_cases nothing : openedText word = ""
  · have raised : handler word lang = .error .indexError := by
      rw [handler, nothing]
      rfl
    simp [raised, nothing]
  · have returned : handler word lang =
        .ok ((if isUnknown word then "0" else "") ++ (formed word lang).1,
          strip (dropForm (formed word lang).2)) := by
      have first : ∃ char, pyGet (openedText word).toList 0 = .ok char := by
        cases chars : (openedText word).toList with
        | nil => exact absurd (String.toList_eq_nil_iff.mp chars) nothing
        | cons char rest => exact ⟨char, by simp [pyGet, pyIndex]⟩
      rcases first with ⟨char, found⟩
      rw [handler, found]
      rfl
    rw [returned, exists_ok_pair_iff, and_iff_right nothing]
    by_cases tabled : IsTabled lang word
    · rcases tabled with ⟨rfl, found⟩
      rcases Option.isSome_iff_exists.mp found with ⟨rule, isRule⟩
      rw [formed_of_rule isRule]
      exact iff_of_true (isStem_tabled (mem_of_verbformRule isRule)) (Or.inl ⟨rfl, found⟩)
    · rw [formed_of_untabled tabled, or_iff_right tabled]

end Forms

section Features

variable [PythonText] {lang : Option String} {word : NormalizedWord}
  {outcome : Except PythonError MorAnalysis}

/-- The outcome reads the features, calls the handler, and keeps its lemma. -/
structure Follows (word : NormalizedWord) (lang : Option String)
    (outcome : Except PythonError MorAnalysis) : Prop where
  returned : ∀ {unit}, outcome = .ok unit → (∃ feats, parseFeats word.feats = .ok feats) ∧
    ∃ pos, handler word lang = .ok (pos, unit.lemmaText)
  returns : ∀ {feats pos lemmaText}, parseFeats word.feats = .ok feats →
    handler word lang = .ok (pos, lemmaText) →
      ∃ unit, outcome = .ok unit ∧ unit.lemmaText = lemmaText

theorem follows_of_bind
    {finish : List (String × String) → String × String → Except PythonError MorAnalysis}
    (isBind : outcome = parseFeats word.feats >>= fun feats => handler word lang >>= finish feats)
    (keeps : ∀ feats handled, ∃ unit, finish feats handled = .ok unit ∧
      unit.lemmaText = handled.2) : Follows word lang outcome := by
  constructor
  · intro unit ok
    rw [isBind] at ok
    cases parsed : parseFeats word.feats with
    | error fault =>
        rw [parsed] at ok
        cases ok
    | ok feats =>
        cases handled : handler word lang with
        | error fault =>
            rw [parsed, handled] at ok
            cases ok
        | ok lemma_ =>
            rcases keeps feats lemma_ with ⟨kept, finished, same⟩
            rw [parsed, handled] at ok
            change finish feats lemma_ = _ at ok
            rw [finished] at ok
            cases ok
            exact ⟨⟨feats, rfl⟩, lemma_.1, by rw [same]⟩
  · intro feats pos lemmaText parsed handled
    rw [isBind, parsed, handled]
    exact keeps feats (pos, lemmaText)

theorem follows_handlerPron : Follows word lang (handlerPron word lang) :=
  follows_of_bind rfl fun _ _ => ⟨_, rfl, rfl⟩

theorem follows_handlerDet : Follows word lang (handlerDet word lang) :=
  follows_of_bind rfl fun _ _ => ⟨_, rfl, rfl⟩

theorem follows_handlerAdj : Follows word lang (handlerAdj word lang) :=
  follows_of_bind rfl fun _ _ => ⟨_, rfl, rfl⟩

theorem follows_handlerNoun : Follows word lang (handlerNoun word lang) :=
  follows_of_bind rfl fun _ _ => ⟨_, rfl, rfl⟩

theorem follows_handlerVerb : Follows word lang (handlerVerb word lang) := by
  refine follows_of_bind rfl fun feats handled => ?_
  dsimp only
  split
  · exact ⟨_, rfl, rfl⟩
  · split
    · exact ⟨_, rfl, rfl⟩
    · split <;> exact ⟨_, rfl, rfl⟩

theorem follows_handlerPropn : Follows word none (handlerPropn word) := by
  constructor
  · intro unit ok
    rw [handlerPropn] at ok
    cases noun : handlerNoun word none with
    | error fault =>
        rw [noun] at ok
        cases ok
    | ok named =>
        rw [noun] at ok
        cases ok
        have kept := follows_handlerNoun.returned noun
        exact kept
  · intro feats pos lemmaText parsed handled
    rcases follows_handlerNoun.returns parsed handled with ⟨named, noun, same⟩
    rw [handlerPropn, noun]
    exact ⟨_, rfl, same⟩

theorem Follows.isStem_iff (follows : Follows word lang outcome) :
    (∃ unit, outcome = .ok unit ∧ IsStem unit.lemmaText) ↔
      (∃ feats, parseFeats word.feats = .ok feats) ∧ HasStem lang word := by
  rw [← isStem_handler_iff]
  constructor
  · rintro ⟨unit, ok, stem⟩
    rcases follows.returned ok with ⟨parsed, pos, handled⟩
    exact ⟨parsed, pos, unit.lemmaText, handled, stem⟩
  · rintro ⟨⟨feats, parsed⟩, pos, lemmaText, handled, stem⟩
    rcases follows.returns parsed handled with ⟨unit, ok, same⟩
    exact ⟨unit, ok, by rwa [same]⟩

omit [PythonText] in
theorem two_le_length_splitAt_iff {separator : Char} {text : String} :
    2 ≤ (splitAt separator text).length ↔ separator ∈ text.toList := by
  rw [splitAt, List.length_map]
  constructor
  · intro long
    by_contra none
    rw [List.splitOn_eq_singleton none] at long
    simp at long
  · intro member
    rcases List.append_of_mem member with ⟨front, back, split⟩
    rw [split, List.splitOn_append_cons_self, List.length_append]
    have first := List.length_pos_iff.mpr (List.splitOn_ne_nil separator front)
    have second := List.length_pos_iff.mpr (List.splitOn_ne_nil separator back)
    omega

omit [PythonText] in
theorem exists_parseFeat_iff {feat : String} :
    (∃ entry, parseFeat feat = .ok entry) ↔ '=' ∈ feat.toList := by
  rw [← two_le_length_splitAt_iff, parseFeat]
  match splitAt '=' feat with
  | [] | [_] => simp
  | key :: first :: rest => simp

omit [PythonText] in
theorem exists_parseFeats_iff : (∃ feats, parseFeats word.feats = .ok feats) ↔ FeatsSplit word := by
  rw [FeatsSplit]
  cases word.feats with
  | none => simp [parseFeats]
  | some text =>
      have parts : (∃ entries, (splitAt '|' text).mapM parseFeat = .ok entries) ↔
          ∀ feat ∈ splitAt '|' text, '=' ∈ feat.toList := by
        rw [exists_mapM_ok_iff]
        exact forall₂_congr fun _ _ => exists_parseFeat_iff
      simp only [Option.mem_some_iff, forall_eq', ← parts, parseFeats]
      cases (splitAt '|' text).mapM parseFeat with
      | error fault => simp [bind, Except.bind]
      | ok entries => simp [bind, Except.bind, pure, Except.pure]

/-- A handler that reads the features. -/
theorem Follows.renders_iff (follows : Follows word (handlerLang word lang) outcome)
    (featured : word.upos ∈ featuredPos) :
    (∃ unit, outcome = .ok unit ∧ IsStem unit.lemmaText) ↔
      (word.upos ∈ featuredPos → FeatsSplit word) ∧ HasStem (handlerLang word lang) word := by
  rw [follows.isStem_iff, exists_parseFeats_iff, forall_prop_of_true featured]

omit [PythonText] in
theorem handlerLang_of_ne (other : word.upos ≠ "PROPN") : handlerLang word lang = lang :=
  if_neg other

theorem posHandler_isStem_iff (word : NormalizedWord) (lang : Option String) :
    (∃ unit, posHandler word lang = .ok unit ∧ IsStem unit.lemmaText) ↔
      (word.upos ∈ featuredPos → FeatsSplit word) ∧ HasStem (handlerLang word lang) word := by
  rw [posHandler]
  split_ifs with pron det adj noun propn verb
  · apply Follows.renders_iff
    · rw [handlerLang_of_ne (by simp [pron])]
      exact follows_handlerPron
    · simp [featuredPos, pron]
  · apply Follows.renders_iff
    · rw [handlerLang_of_ne (by simp [det])]
      exact follows_handlerDet
    · simp [featuredPos, det]
  · apply Follows.renders_iff
    · rw [handlerLang_of_ne (by simp [adj])]
      exact follows_handlerAdj
    · simp [featuredPos, adj]
  · apply Follows.renders_iff
    · rw [handlerLang_of_ne (by simp [noun])]
      exact follows_handlerNoun
    · simp [featuredPos, noun]
  · apply Follows.renders_iff
    · rw [handlerLang, if_pos propn]
      exact follows_handlerPropn
    · simp [featuredPos, propn]
  · apply Follows.renders_iff
    · rw [handlerLang_of_ne propn]
      exact follows_handlerVerb
    · rcases verb with verb | verb <;> simp [featuredPos, verb]
  · have unfeatured : word.upos ∉ featuredPos := by
      rw [not_or] at verb
      simp [featuredPos, pron, det, adj, noun, propn, verb]
    rw [handlerLang_of_ne propn, ← isStem_handler_iff]
    cases handled : handler word lang with
    | error fault => simp [Except.map, unfeatured]
    | ok pair =>
        rcases pair with ⟨pos, lemmaText⟩
        simp [Except.map, unfeatured]

end Features

section Punctuation

variable [PythonText] {word : NormalizedWord}

omit [PythonText] in
theorem isStem_handlerActualPunct (word : NormalizedWord) :
    ∀ analysis ∈ handlerActualPunct word, IsStem analysis.lemmaText := by
  rw [handlerActualPunct]
  split_ifs <;> simp [IsStem, HasNoMark, strippedMarks]

theorem nonempty_of_isLexicalSurface {text : String} (lexical : isLexicalSurface text = true) :
    text ≠ "" := by
  rintro rfl
  cases lexical

/-- A word that counts as punctuation is written with its surface, if that is lexical. -/
theorem isStem_handlerPunct_iff (unlisted : word.lemmaText ∉ punctLemmas) :
    (∀ analysis ∈ handlerPunct word, IsStem analysis.lemmaText) ↔
      (isLexicalSurface word.text = true → word.text = "," ∨ HasNoMark word.text) := by
  rw [handlerPunct, if_neg unlisted]
  split_ifs with quoted da aiya lexical mon comma
  · refine iff_of_true (isStem_handlerActualPunct word) fun _ => Or.inr ?_
    simp only [List.mem_cons, List.not_mem_nil, or_false] at quoted
    rcases quoted with text | text <;> simp [text, HasNoMark, strippedMarks]
  · simp [da, IsStem, HasNoMark, strippedMarks]
  · simp [aiya, IsStem, HasNoMark, strippedMarks]
  · simp [mon, IsStem, HasNoMark, strippedMarks]
  · simp [comma, IsStem, HasNoMark, strippedMarks]
  · simp [lexical, comma, IsStem, nonempty_of_isLexicalSurface lexical]
  · simp [lexical]

end Punctuation

section Main

variable [PythonText]

/-- `handle` returns a unit with a stem, or none, exactly for the words that can be rendered. -/
theorem rendersStem_iff (lang : Option String) (word : NormalizedWord) :
    RendersStem lang word ↔ Renderable lang word := by
  rw [RendersStem, Renderable, handleWord]
  by_cases listed : word.lemmaText ∈ punctLemmas
  · rw [if_pos listed]
    exact iff_of_true ⟨_, rfl, isStem_handlerActualPunct word⟩ (Or.inl listed)
  · rw [if_neg listed, or_iff_right listed]
    split
    · rw [← isStem_handlerPunct_iff listed]
      simp
    · rw [← posHandler_isStem_iff]
      cases posHandler word lang <;> simp [Except.map]

end Main

section Failures

/-- A corner bracket that is taken for a word. -/
def cornerBracket : NormalizedWord := ⟨"「", "「", "X", none, 0, "root", 1⟩

/-- A hyphenated word that is taken for a symbol. -/
def hyphenated : NormalizedWord := ⟨"a-b", "a-b", "SYM", none, 0, "root", 1⟩

/-- Without the bracket nothing is left to look at the first character of, and a hyphen stays in
the lemma of a symbol. -/
theorem cornerBracket_raises :
    handleWord cornerBracket (some "ja") = .error .indexError ∧
      handleWord hyphenated (some "en") = .ok (some ⟨"x", "a-b", []⟩) ∧
      ¬ RendersStem (some "ja") cornerBracket ∧ ¬ RendersStem (some "en") hyphenated := by
  have raised : handleWord cornerBracket (some "ja") = .error .indexError := rfl
  have written : handleWord hyphenated (some "en") = .ok (some ⟨"x", "a-b", []⟩) := rfl
  refine ⟨raised, written, ?_, ?_⟩
  · rintro ⟨unit, returned, -⟩
    rw [raised] at returned
    cases returned
  · rintro ⟨unit, returned, stems⟩
    rw [written] at returned
    cases returned
    exact (stems _ rfl).2 '-' (by decide) (by decide)

end Failures

end Batchalign.Morphosyntax
