import Batchalign.Library.Unbordered
import Batchalign.Morphosyntax.Ascii
import Batchalign.Morphosyntax.Slices

/-!
# When the postprocessor conserves the text

Most branches write the token as it stands. Three do not in general: an `aujourd'` is completed
without a look at the next token, which is dropped, a clitic word that ends with an apostrophe
gives an empty token, and a word with the head of `jusqu'` must have one apostrophe. The text is
conserved exactly when no token takes one of these branches in a shape it is not written for, and
no token has white space in it.
-/

namespace Batchalign.Morphosyntax

open Fragments Marks PythonText
open Batchalign.Alignment (Similarity)

section Spec

variable [PythonText]

/-- One of the first branches keeps the token in one piece. -/
def staysWhole (lang : List String) (i : StanzaToken) : Bool :=
  isConventional lang i || isUnlistedEnglish lang i || isUnlistedItalian lang i || isElided lang i

/-- The token is an `aujourd'` that is completed. -/
def completes (lang : List String) (i : StanzaToken) : Bool :=
  ! staysWhole lang i && lang.contains "fr" && matchesWord i "aujourd'"

/-- Split at the apostrophes, the text has nothing behind the last one, or an elided head and not
just one other part. -/
def splitsBadly (lang : List String) (i : StanzaToken) : Bool :=
  let parts := splitAt '\'' (conform i)
  let elided := elidedHeads.contains (headOf (conform i))
  ! staysWhole lang i && lang.contains "fr" &&
    ((isClitic (conform i) || elided) && parts.getLastD "" == "" ||
      elided && parts.length != 2)

/-- How the branches read the tokens: one by one, but for what follows a completed one. -/
inductive Move where
  | single (token : StanzaToken)
  | complete (next : Option StanzaToken)

def moves (lang : List String) : List StanzaToken → List Move
  | [] => []
  | [token] => if completes lang token then [.complete none] else [.single token]
  | token :: next :: rest =>
      if completes lang token then .complete (some next) :: moves lang rest
      else .single token :: moves lang (next :: rest)

def hui : List Char := ['h', 'u', 'i']

/-- What is completed is followed by the rest of its word, and no other token is taken apart in
the wrong places or has white space in it. -/
def Move.Sound (lang : List String) : Move → Prop
  | .single token =>
      (∀ char ∈ (conform token).toList, isSpace char = false) ∧ splitsBadly lang token = false
  | .complete next => next.map (fun token => visible (conform token)) = some hui

/-- The text of the tokens, one after another. -/
def written (tokens : List StanzaToken) : List Char :=
  tokens.flatMap fun token => (conform token).toList

def Proper (tokens : List StanzaToken) : Prop := ∀ token ∈ tokens, conform token ≠ ""

/-- The outcome is a list of tokens, none of them empty, that write this text. -/
def Returns (outcome : Except TokenizerError (List StanzaToken)) (chars : List Char) : Prop :=
  ∃ tokens, outcome = .ok tokens ∧ Proper tokens ∧ written tokens = chars

variable (Threshold : Type) [Similarity Threshold]

/-- The tokens are returned, none is empty, and together they are the line without its white
space. -/
def ConservesText (coreBuilt : Bool) (lang : List String) (passage : Passage) : Prop :=
  Returns (tokenizerProcessor Threshold coreBuilt passage.tokens lang passage.sent)
    (visible passage.sent)

end Spec

section Texts

@[simp]
theorem conform_str (text : String) : conform (.str text) = text := rfl

@[simp]
theorem conform_pair (text : String) (isMwt : Bool) : conform (.pair text isMwt) = text := rfl

@[simp]
theorem written_append (front back : List StanzaToken) :
    written (front ++ back) = written front ++ written back := List.flatMap_append

@[simp]
theorem written_singleton (token : StanzaToken) : written [token] = (conform token).toList :=
  List.flatMap_singleton ..

@[simp]
theorem proper_append {front back : List StanzaToken} :
    Proper (front ++ back) ↔ Proper front ∧ Proper back := List.forall_mem_append

@[simp]
theorem proper_singleton {token : StanzaToken} : Proper [token] ↔ conform token ≠ "" :=
  List.forall_mem_singleton

theorem append_getLastD_eq_intercalate {α : Type} (separator : α) {parts : List (List α)}
    (some : parts ≠ []) :
    parts.dropLast.flatMap (· ++ [separator]) ++ parts.getLastD [] =
      [separator].intercalate parts := by
  induction parts with
  | nil => exact absurd rfl some
  | cons part parts ih =>
      cases parts with
      | nil => simp
      | cons next parts =>
          have later := ih (List.cons_ne_nil next parts)
          rw [List.getLastD_cons] at later
          rw [List.dropLast_cons_of_ne_nil (List.cons_ne_nil next parts), List.flatMap_cons,
            List.append_assoc, List.getLastD_cons, List.getLastD_cons, later,
            List.intercalate_cons_cons]

theorem intercalate_splitAt (separator : Char) (text : String) :
    [separator].intercalate ((splitAt separator text).map String.toList) = text.toList := by
  have whole : [separator].intercalate (text.toList.splitOn separator) = text.toList :=
    List.intercalate_splitOn separator
  rw [splitAt, List.map_map]
  simp [Function.comp_def, whole]

theorem splitAt_ne_nil (separator : Char) (text : String) : splitAt separator text ≠ [] := by
  simp [splitAt]

/-- The parts of a clitic word are the word. -/
theorem written_splitClitics (text : String) : written (splitClitics text) = text.toList := by
  have some : (splitAt '\'' text).map String.toList ≠ [] := by simp [splitAt]
  rw [← intercalate_splitAt '\'' text, ← append_getLastD_eq_intercalate _ some]
  rw [splitClitics, written_append, written_singleton]
  congr 1
  · rw [written, List.flatMap_map, ← List.map_dropLast, List.flatMap_map]
    simp [conform]
  · rw [conform, List.getLastD_eq_getLast?, List.getLastD_eq_getLast?, List.getLast?_map]
    cases (splitAt '\'' text).getLast? <;> rfl

theorem proper_splitClitics {text : String} :
    Proper (splitClitics text) ↔ (splitAt '\'' text).getLastD "" ≠ "" := by
  rw [splitClitics, proper_append, proper_singleton]
  refine and_iff_right ?_
  intro token member
  rcases List.mem_map.mp member with ⟨elem, -, rfl⟩
  simp [conform]

theorem toList_of_splitAt_pair {text before after : String}
    (split : splitAt '\'' text = [before, after]) :
    text.toList = before.toList ++ '\'' :: after.toList := by
  rw [← intercalate_splitAt '\'' text, split]
  simp

end Texts

section Branches

variable {res : List StanzaToken} {i : StanzaToken}

/-- The outcome is the result so far with the text of the token behind it. -/
def Writes (res : List StanzaToken) (i : StanzaToken)
    (outcome : Except TokenizerError (List StanzaToken × Bool)) : Prop :=
  ∃ res', outcome = .ok (res', false) ∧ written res' = written res ++ (conform i).toList ∧
    (Proper res' ↔ Proper res)

theorem writes_append {tokens : List StanzaToken} (same : written tokens = (conform i).toList)
    (proper : Proper tokens) : Writes res i (.ok (res ++ tokens, false)) := by
  refine ⟨_, rfl, ?_, ?_⟩
  · rw [written_append, same]
  · rw [proper_append]
    exact and_iff_left proper

theorem writes_singleton {token : StanzaToken} (same : conform token = conform i)
    (some : conform i ≠ "") : Writes res i (.ok (res ++ [token], false)) := by
  apply writes_append
  · rw [written_singleton, same]
  · rwa [proper_singleton, same]

/-- `le` and `i` are `lei`. -/
theorem writes_lei (isI : conform i = "i") (isLe : res.getLast?.any (matchesWord · "le") = true) :
    Writes res i (.ok (res.dropLast ++ [.str "lei"], false)) := by
  rcases List.eq_nil_or_concat' res with rfl | ⟨front, last, rfl⟩
  · cases isLe
  · have le : conform last = "le" := by simpa [matchesWord] using isLe
    refine ⟨_, rfl, ?_, ?_⟩
    · simp [isI, le]
    · simp [le]

theorem writes_ite {c : Bool} {x y : Except TokenizerError (List StanzaToken × Bool)}
    (yes : c = true → Writes res i x) (no : c = false → Writes res i y) :
    Writes res i (if c then x else y) := by
  cases c with
  | true => exact yes rfl
  | false => exact no rfl

variable [PythonText] {lang : List String}

/-- A token that the French branches see is split badly by its parts alone. -/
theorem splitsBadly_eq_false (parted : staysWhole lang i = false)
    (french : lang.contains "fr" = true) :
    splitsBadly lang i = false ↔
      (isClitic (conform i) = true ∨ headOf (conform i) ∈ elidedHeads →
        (splitAt '\'' (conform i)).getLastD "" ≠ "") ∧
      (headOf (conform i) ∈ elidedHeads → (splitAt '\'' (conform i)).length = 2) := by
  simp only [splitsBadly, parted, french, Bool.not_false, Bool.true_and, Bool.or_eq_false_iff,
    Bool.and_eq_false_imp, Bool.or_eq_true, List.contains_iff_mem, beq_eq_false_iff_ne,
    bne_eq_false_iff_eq]

theorem step_writes (single : completes lang i = false) (well : splitsBadly lang i = false)
    (some : conform i ≠ "") : Writes res i (step lang res i) := by
  unfold step
  refine writes_ite (fun _ => writes_singleton rfl some) fun notConventional => ?_
  refine writes_ite (fun _ => writes_singleton rfl some) fun notEnglish => ?_
  refine writes_ite (fun _ => writes_singleton rfl some) fun notItalian => ?_
  refine writes_ite (fun _ => writes_singleton rfl some) fun notElided => ?_
  have parted : staysWhole lang i = false := by
    simp [staysWhole, notConventional, notEnglish, notItalian, notElided]
  refine writes_ite (fun lei => ?_) fun _ => ?_
  · simp only [Bool.and_eq_true, matchesWord, beq_iff_eq] at lei
    exact writes_lei lei.1.2 lei.2
  refine writes_ite (fun água => ?_) fun _ => ?_
  · simp only [Bool.and_eq_true, matchesWord, beq_iff_eq] at água
    exact writes_singleton água.2.symm some
  refine writes_ite (fun whole => ?_) fun _ => ?_
  · simp only [Bool.and_eq_true, matchesWord, beq_iff_eq] at whole
    exact writes_singleton whole.2.symm some
  refine writes_ite (fun completed => ?_) fun _ => ?_
  · rw [completes, parted, Bool.not_false, Bool.true_and, completed] at single
    cases single
  refine writes_ite (fun _ => writes_singleton rfl some) fun _ => ?_
  refine writes_ite (fun clitic => ?_) fun _ => ?_
  · rw [Bool.and_eq_true] at clitic
    rw [splitsBadly_eq_false parted clitic.1] at well
    apply writes_append (written_splitClitics _)
    exact proper_splitClitics.mpr (well.1 (.inl clitic.2))
  refine writes_ite (fun elided => ?_) fun _ => ?_
  · rw [Bool.and_eq_true] at elided
    rw [splitsBadly_eq_false parted elided.1] at well
    have head := List.contains_iff_mem.mp elided.2
    have ended := well.1 (.inr head)
    rcases List.length_eq_two.mp (well.2 head) with ⟨before, after, split⟩
    rw [split] at ended ⊢
    apply writes_append
    · simp [written, toList_of_splitAt_pair split]
    · simpa [Proper] using ended
  refine writes_ite (fun _ => writes_singleton rfl some) fun _ => ?_
  refine writes_ite (fun _ => writes_singleton rfl some) fun _ => ?_
  exact writes_singleton rfl some

theorem staysWhole_eq_false : staysWhole lang i = false ↔
    isConventional lang i = false ∧ isUnlistedEnglish lang i = false ∧
      isUnlistedItalian lang i = false ∧ isElided lang i = false := by
  simp only [staysWhole, Bool.or_eq_false_iff, and_assoc]

theorem step_completes (completed : completes lang i = true) :
    step lang res i = .ok (res ++ [.str "aujourd'hui"], true) := by
  simp only [completes, Bool.and_eq_true, Bool.not_eq_true', staysWhole_eq_false, matchesWord,
    beq_iff_eq] at completed
  rcases completed with ⟨⟨⟨notConventional, notEnglish, notItalian, notElided⟩, french⟩, text⟩
  have member := List.contains_iff_mem.mp french
  simp [step, notConventional, notEnglish, notItalian, notElided, member, matchesWord, text]

/-- The words that a branch knows are not split badly. -/
theorem splitsBadly_of_listed (parted : staysWhole lang i = false)
    (french : lang.contains "fr" = true)
    (listed : conform i ∈ ["i", "d'água", "aujourd'hui", "au"]) : splitsBadly lang i = false := by
  rw [splitsBadly_eq_false parted french]
  simp only [List.mem_cons, List.not_mem_nil, or_false] at listed
  rcases listed with text | text | text | text
  all_goals
    rw [text]
    exact ⟨fun _ => by decide, by decide⟩

/-- The head of a clitic word has one character at most. -/
theorem headOf_not_elided {text : String} (clitic : isClitic text = true) :
    headOf text ∉ elidedHeads := by
  have long : ∀ head ∈ elidedHeads, 1 < head.toList.length := by decide
  intro elided
  have short := long _ elided
  rw [headOf, splitAt] at short
  rcases chars : text.toList with _ | ⟨first, _ | ⟨second, _ | ⟨third, rest⟩⟩⟩
  · simp [isClitic, chars] at clitic
  · simp [isClitic, chars] at clitic
  · simp [isClitic, chars] at clitic
  · simp only [isClitic, chars, Bool.and_eq_true, beq_iff_eq] at clitic
    rw [chars, clitic.1.2, List.splitOn_cons_eq_if_modifyHead,
      List.splitOn_cons_eq_if_modifyHead] at short
    by_cases apostrophe : first = '\''
    · simp [apostrophe] at short
    · simp [apostrophe] at short

/-- A badly split token is an error, or gives an empty token. -/
theorem step_splitsBadly (res : List StanzaToken) (single : completes lang i = false)
    (bad : splitsBadly lang i = true) :
    step lang res i = .error .valueError ∨
      ∃ res', step lang res i = .ok (res', false) ∧ ¬ Proper res' := by
  have seen : staysWhole lang i = false ∧ lang.contains "fr" = true := by
    simp only [splitsBadly, Bool.and_eq_true, Bool.not_eq_true'] at bad
    exact bad.1
  rcases seen with ⟨parted, french⟩
  have unlisted : ∀ word ∈ ["i", "d'água", "aujourd'hui", "au"], matchesWord i word = false := by
    intro word isListed
    rw [matchesWord, beq_eq_false_iff_ne]
    rintro rfl
    rw [splitsBadly_of_listed parted french isListed] at bad
    cases bad
  rw [completes, parted, french, Bool.not_false, Bool.true_and, Bool.true_and] at single
  simp only [List.forall_mem_cons] at unlisted
  rcases staysWhole_eq_false.mp parted with
    ⟨notConventional, notEnglish, notItalian, notElided⟩
  have member := List.contains_iff_mem.mp french
  rw [← Bool.not_eq_false, splitsBadly_eq_false parted french] at bad
  by_cases clitic : isClitic (conform i) = true
  · right
    refine ⟨res ++ splitClitics (conform i), ?_, ?_⟩
    · simp [step, notConventional, notEnglish, notItalian, notElided, unlisted, single, member,
        clitic]
    · rw [proper_append, proper_splitClitics]
      rintro ⟨-, ended⟩
      exact bad ⟨fun _ => ended, fun head => absurd head (headOf_not_elided clitic)⟩
  · have head : headOf (conform i) ∈ elidedHeads := by
      by_contra other
      exact bad ⟨fun either => absurd either (not_or.mpr ⟨clitic, other⟩),
        fun head => absurd head other⟩
    simp only [step, notConventional, notEnglish, notItalian, notElided, unlisted, single, member,
      clitic, head, List.contains_iff_mem, Bool.and_eq_true, Bool.and_false, Bool.false_and,
      Bool.false_eq_true, and_self, if_false, if_true]
    match split : splitAt '\'' (conform i) with
    | [] => exact absurd split (splitAt_ne_nil '\'' _)
    | [_] | _ :: _ :: _ :: _ => exact Or.inl rfl
    | [before, after] =>
        right
        refine ⟨_, rfl, ?_⟩
        rw [split] at bad
        intro proper
        have ended : after ≠ "" := proper (.pair after false) (by simp)
        exact bad ⟨fun _ => ended, fun _ => rfl⟩

end Branches

section Runs

variable {lang : List String} {res tokens : List StanzaToken} {token : StanzaToken}

def aujourd : List Char := ['a', 'u', 'j', 'o', 'u', 'r', 'd', '\'']

theorem written_completed (res : List StanzaToken) :
    written (res ++ [.str "aujourd'hui"]) = written res ++ (aujourd ++ hui) := by
  rw [written_append, written_singleton]
  rfl

theorem proper_completed : Proper (res ++ [.str "aujourd'hui"]) ↔ Proper res := by
  rw [proper_append, proper_singleton]
  exact and_iff_left (by decide)

variable [PythonText]

/-- The first condition of `Move.Sound` without the one on white space. -/
def Move.SplitsWell (lang : List String) : Move → Prop
  | .single token => splitsBadly lang token = false
  | .complete _ => True

/-- The text of a move, where what follows an `aujourd'` is told apart. -/
def Move.piece : Move → Piece Char
  | .single token => .kept (conform token).toList
  | .complete next => .marked ((next.map fun token => visible (conform token)).getD [])

theorem moves_single (single : completes lang token = false) :
    moves lang (token :: tokens) = .single token :: moves lang tokens := by
  cases tokens <;> simp [moves, single]

theorem moves_complete_nil (completed : completes lang token = true) :
    moves lang [token] = [.complete none] := by
  simp [moves, completed]

theorem moves_complete_cons {next : StanzaToken} (completed : completes lang token = true) :
    moves lang (token :: next :: tokens) = .complete (some next) :: moves lang tokens := by
  simp [moves, completed]

/-- Induction along the moves. -/
theorem moves_induction {motive : List StanzaToken → Prop} (lang : List String) (nil : motive [])
    (single : ∀ token tokens, completes lang token = false → motive tokens →
      motive (token :: tokens))
    (last : ∀ token, completes lang token = true → motive [token])
    (complete : ∀ token next tokens, completes lang token = true → motive tokens →
      motive (token :: next :: tokens)) : ∀ tokens, motive tokens
  | [] => nil
  | [token] => by
      by_cases completed : completes lang token = true
      · exact last token completed
      · exact single token [] (Bool.eq_false_iff.mpr completed) nil
  | token :: next :: tokens => by
      by_cases completed : completes lang token = true
      · exact complete token next tokens completed
          (moves_induction lang nil single last complete tokens)
      · exact single token (next :: tokens) (Bool.eq_false_iff.mpr completed)
          (moves_induction lang nil single last complete (next :: tokens))

theorem processFrom_of_ok {res' : List StanzaToken} {skip : Bool}
    (stepped : step lang res token = .ok (res', skip)) :
    processFrom lang false res (token :: tokens) = processFrom lang skip res' tokens := by
  rw [processFrom, stepped]
  rfl

/-- The run returns proper tokens exactly when nothing is split badly, and then it has written the
text of the moves. -/
theorem returns_processFrom_iff (nonempty : Proper tokens) {chars : List Char} :
    Returns (processFrom lang false res tokens) chars ↔
      Proper res ∧ (∀ move ∈ moves lang tokens, move.SplitsWell lang) ∧
        written res ++ rewritten aujourd hui ((moves lang tokens).map Move.piece) = chars := by
  induction tokens using moves_induction lang generalizing res with
  | nil =>
      rw [processFrom]
      constructor
      · rintro ⟨out, returned, proper, text⟩
        cases returned
        exact ⟨proper, by simp [moves], by simpa [moves] using text⟩
      · rintro ⟨proper, -, text⟩
        exact ⟨res, rfl, proper, by simpa [moves] using text⟩
  | single token tokens single ih =>
      rw [Proper, List.forall_mem_cons] at nonempty
      rw [moves_single single, List.forall_mem_cons, List.map_cons, Move.piece, rewritten_kept,
        ← List.append_assoc]
      by_cases bad : splitsBadly lang token = true
      · constructor
        · intro returns
          exfalso
          rcases step_splitsBadly res single bad with failed | ⟨res', stepped, improper⟩
          · rcases returns with ⟨out, returned, -⟩
            rw [processFrom, failed] at returned
            cases returned
          · rw [processFrom_of_ok stepped, ih nonempty.2] at returns
            exact improper returns.1
        · rintro ⟨-, ⟨well, -⟩, -⟩
          rw [Move.SplitsWell, bad] at well
          cases well
      · rw [Bool.not_eq_true] at bad
        rcases step_writes single bad nonempty.1 with ⟨res', stepped, text, proper⟩
        rw [processFrom_of_ok stepped, ih nonempty.2, text, proper]
        simp [Move.SplitsWell, bad]
  | last token completed =>
      rw [processFrom_of_ok (step_completes completed), processFrom, moves_complete_nil completed]
      constructor
      · rintro ⟨out, returned, proper, text⟩
        cases returned
        rw [proper_completed] at proper
        rw [written_completed] at text
        exact ⟨proper, by simp [Move.SplitsWell], by simpa [Move.piece] using text⟩
      · rintro ⟨proper, -, text⟩
        refine ⟨_, rfl, proper_completed.mpr proper, ?_⟩
        rw [written_completed]
        simpa [Move.piece] using text
  | complete token next tokens completed ih =>
      rw [Proper, List.forall_mem_cons, List.forall_mem_cons] at nonempty
      rw [processFrom_of_ok (step_completes completed), processFrom,
        moves_complete_cons completed, ih nonempty.2.2, proper_completed, written_completed,
        List.forall_mem_cons, List.map_cons, Move.piece, rewritten_marked]
      simp [Move.SplitsWell]

end Runs

section Words

variable {lang : List String} {tokens : List StanzaToken}

/-- What the tokens show. -/
def shown (tokens : List StanzaToken) : List Char :=
  tokens.flatMap fun token => visible (conform token)

theorem shown_eq_filter (tokens : List StanzaToken) :
    shown tokens = (written tokens).filter fun char => ! isSpace char :=
  (List.filter_flatMap ..).symm

/-- Several tokens are kept, or their text is that of one. -/
theorem joinTokens_cases (lang : List String) (tokens : List StanzaToken) :
    joinTokens lang tokens = tokens ∨
      ∃ token, joinTokens lang tokens = [token] ∧ (conform token).toList = written tokens := by
  match tokens with
  | [] | [_] => exact Or.inl rfl
  | first :: second :: rest =>
      simp only [joinTokens]
      split
      · exact Or.inl rfl
      · refine Or.inr ⟨_, rfl, ?_⟩
        rw [conform_pair, String.toList_join, List.flatMap_map]
        rfl

theorem written_joinTokens (lang : List String) (tokens : List StanzaToken) :
    written (joinTokens lang tokens) = written tokens := by
  rcases joinTokens_cases lang tokens with same | ⟨token, joined, text⟩
  · rw [same]
  · rw [joined, written_singleton, text]

theorem isShown_iff {token : StanzaToken} :
    isShown token = true ↔ visible (conform token) ≠ [] := by
  simp [isShown]

theorem isShown_joinTokens (areShown : ∀ token ∈ tokens, isShown token = true) :
    ∀ token ∈ joinTokens lang tokens, isShown token = true := by
  rcases joinTokens_cases lang tokens with same | ⟨token, joined, text⟩
  · rwa [same]
  · rw [joined, List.forall_mem_singleton, isShown_iff, visible, text, ← shown_eq_filter]
    cases tokens with
    | nil => cases joined
    | cons first rest =>
        intro nothing
        rw [shown, List.flatMap_eq_nil_iff] at nothing
        exact isShown_iff.mp (areShown first List.mem_cons_self) (nothing first List.mem_cons_self)

theorem shown_filter_isShown (row : List StanzaToken) : shown (row.filter isShown) = shown row := by
  induction row with
  | nil => rfl
  | cons token row ih =>
      by_cases isShown_ : isShown token = true
      · rw [List.filter_cons_of_pos isShown_, shown, List.flatMap_cons]
        exact congrArg (_ ++ ·) ih
      · rw [List.filter_cons_of_neg isShown_, ih, shown, shown, List.flatMap_cons]
        rw [isShown_iff, not_not] at isShown_
        rw [isShown_, List.nil_append]

theorem proper_of_isShown (areShown : ∀ token ∈ tokens, isShown token = true) : Proper tokens := by
  intro token member text
  have some := areShown token member
  rw [isShown, text] at some
  cases some

theorem proper_words (lang : List String) (passage : Passage) : Proper (passage.words lang) := by
  apply proper_of_isShown
  intro token member
  rcases List.mem_flatMap.mp member with ⟨row, -, inRow⟩
  exact isShown_joinTokens (fun _ kept => (List.mem_filter.mp kept).2) token inRow

theorem shown_rows (passage : Passage) : shown passage.rows.flatten = visible passage.sent := by
  have words : (passage.sent.toList.splitOn ' ').flatten.filter (fun char => ! isSpace char) =
      shown passage.rows.flatten := by
    have shows := rows_showsSame passage
    generalize passage.sent.toList.splitOn ' ' = words at shows ⊢
    generalize passage.rows = rows at shows ⊢
    induction shows with
    | nil => rfl
    | cons here _ ih =>
        rw [List.flatten_cons, List.filter_append, ih, here, List.flatten_cons, shown, shown,
          List.flatMap_append]
  rw [← words, flatten_splitOn, List.filter_filter, visible]
  apply List.filter_congr
  intro char _
  by_cases space : char = ' '
  · rw [space]
    rfl
  · simp [space]

/-- Joining the tokens of a word changes nothing of the text. -/
theorem shown_words (lang : List String) (passage : Passage) :
    shown (passage.words lang) = visible passage.sent := by
  rw [← shown_rows, Passage.words]
  induction passage.rows with
  | nil => rfl
  | cons row rows ih =>
      rw [List.flatMap_cons, shown, List.flatMap_append, List.flatten_cons, shown,
        List.flatMap_append]
      have joined : shown (joinTokens lang (row.filter isShown)) = shown row := by
        rw [shown_eq_filter, written_joinTokens, ← shown_eq_filter, shown_filter_isShown]
      exact congrArg₂ (· ++ ·) joined ih

end Words

section Main

theorem unbordered_aujourd : Unbordered aujourd := by
  unfold Unbordered
  decide

variable [PythonText] {lang : List String} {tokens : List StanzaToken}

/-- Where no token that is kept has white space in it, the pieces are what the tokens show. -/
theorem original_moves
    (solid : ∀ xs, .kept xs ∈ (moves lang tokens).map Move.piece →
      ∀ char ∈ xs, isSpace char = false) :
    original aujourd ((moves lang tokens).map Move.piece) = shown tokens := by
  induction tokens using moves_induction lang with
  | nil => simp [moves, shown]
  | single token tokens single ih =>
      rw [moves_single single, List.map_cons, Move.piece] at solid ⊢
      have here := solid _ List.mem_cons_self
      rw [original_kept, ih fun xs member => solid xs (List.mem_cons_of_mem _ member), shown,
        shown, List.flatMap_cons, visible, List.filter_eq_self.mpr]
      intro char member
      rw [here char member, Bool.not_false]
  | last token completed =>
      have text : conform token = "aujourd'" := by simp_all [completes, matchesWord]
      rw [moves_complete_nil completed, shown, List.flatMap_singleton, text]
      rfl
  | complete token next tokens completed ih =>
      have text : conform token = "aujourd'" := by simp_all [completes, matchesWord]
      rw [moves_complete_cons completed, List.map_cons, Move.piece] at solid ⊢
      rw [original_marked, ih fun xs member => solid xs (List.mem_cons_of_mem _ member), shown,
        shown, List.flatMap_cons, List.flatMap_cons, text]
      rfl

/-- The moves write what the tokens show exactly when they are sound, as far as they split well. -/
theorem rewritten_moves_iff :
    ((∀ move ∈ moves lang tokens, move.SplitsWell lang) ∧
      rewritten aujourd hui ((moves lang tokens).map Move.piece) = shown tokens) ↔
      ∀ move ∈ moves lang tokens, move.Sound lang := by
  have fits : hui.length < aujourd.length := by decide
  constructor
  · rintro ⟨well, same⟩
    have solid : ∀ xs, .kept xs ∈ (moves lang tokens).map Move.piece →
        ∀ char ∈ xs, isSpace char = false := by
      intro xs member char isChar
      have inText : char ∈ rewritten aujourd hui ((moves lang tokens).map Move.piece) :=
        mem_rewritten_of_kept member isChar
      rw [same, shown_eq_filter] at inText
      simpa using (List.mem_filter.mp inText).2
    rw [← original_moves solid, rewritten_eq_iff unbordered_aujourd fits] at same
    intro move member
    have inPieces := List.mem_map_of_mem (f := Move.piece) member
    cases move with
    | single token => exact ⟨solid _ inPieces, well _ member⟩
    | complete next =>
        have tail := same _ inPieces
        cases next with
        | none => cases tail
        | some next => exact congrArg some tail
  · intro sound
    have solid : ∀ xs, .kept xs ∈ (moves lang tokens).map Move.piece →
        ∀ char ∈ xs, isSpace char = false := by
      intro xs member
      rcases List.mem_map.mp member with ⟨move, isMove, isPiece⟩
      cases move with
      | single token =>
          cases isPiece
          exact (sound _ isMove).1
      | complete next => cases isPiece
    refine ⟨?_, ?_⟩
    · intro move member
      cases move with
      | single token => exact (sound _ member).2
      | complete next => trivial
    · rw [← original_moves solid]
      apply rewritten_eq_of_tails
      intro tail member
      rcases List.mem_map.mp member with ⟨move, isMove, isPiece⟩
      cases move with
      | single token => cases isPiece
      | complete next =>
          cases isPiece
          have follows := sound _ isMove
          rw [Move.Sound] at follows
          rw [follows]
          rfl

variable (Threshold : Type) [Similarity Threshold]

/-- The text is conserved exactly when what is completed is followed by the rest of its word, and
no other word is split badly or has white space in it. -/
theorem conservesText_iff (coreBuilt : Bool) (lang : List String) (passage : Passage) :
    ConservesText Threshold coreBuilt lang passage ↔
      ∀ move ∈ moves lang (passage.words lang), move.Sound lang := by
  have nothing : Proper [] := by simp [Proper]
  rw [ConservesText, tokenizerProcessor_slices, returns_processFrom_iff (proper_words lang passage),
    ← rewritten_moves_iff, shown_words]
  exact and_iff_right nothing

end Main

section Failure

/-- French `jusqu` as a word of its own. -/
def jusquAlone : Passage := ⟨[⟨"", .str "jusqu", by simp⟩], "", by simp⟩

/-- It has one part and not two, and the line is lost with an error. -/
theorem jusquAlone_raises :
    jusquAlone.sent = "jusqu" ∧
      tokenizerProcessor ℚ true jusquAlone.tokens ["fr"] jusquAlone.sent =
        .error .valueError ∧
      ¬ ConservesText ℚ true ["fr"] jusquAlone := by
  have raises : tokenizerProcessor ℚ true jusquAlone.tokens ["fr"] jusquAlone.sent =
      .error .valueError := by
    rw [tokenizerProcessor_slices]
    rfl
  refine ⟨rfl, raises, ?_⟩
  rintro ⟨tokens, returned, -⟩
  rw [raises] at returned
  cases returned

end Failure

end Batchalign.Morphosyntax
