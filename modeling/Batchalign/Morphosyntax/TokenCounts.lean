import Batchalign.Morphosyntax.Conservation
import Batchalign.Morphosyntax.ItalianTrees

/-!
# How many tokens there are

The postprocessor makes one token of each word of a line, or several of an elided French one; in
Italian an `i` goes into a `le` in front, and the tokens of an elided word stay as they are. The
passes over the analysis then add and drop none, but for the grouping under the words of the line.
-/

namespace Batchalign.Morphosyntax

open Fallible PythonText
open Batchalign.Alignment (Similarity)

section Pieces

variable [PythonText]

/-- A French branch splits the token at its apostrophes. -/
def isParted (langs : List String) (token : StanzaToken) : Bool :=
  langs.contains "fr" && ! staysWhole langs token && conform token != "aujourd'hui" &&
    ! (langs.contains "pt" && conform token == "d'água") &&
      (isClitic (conform token) || elidedHeads.contains (headOf (conform token)))

/-- The texts that are written for a token. -/
def piecesOf (langs : List String) (token : StanzaToken) : List String :=
  if isParted langs token then (splitClitics (conform token)).map conform else [conform token]

/-- In Italian an `i` goes into a `le` in front. -/
def intoLe (langs : List String) (previous : String) (token : StanzaToken) : Bool :=
  langs.contains "it" && ! staysWhole langs token && conform token == "i" && previous == "le"

/-- How many tokens are written behind one with this text. -/
def countFrom (langs : List String) : String → List Move → ℕ
  | _, [] => 0
  | _, .complete _ :: moves => 1 + countFrom langs "aujourd'hui" moves
  | previous, .single token :: moves =>
      if intoLe langs previous token then countFrom langs "lei" moves
      else (piecesOf langs token).length +
        countFrom langs ((piecesOf langs token).getLastD "") moves

/-- How many tokens the postprocessor makes of a line. -/
def tokenCount (langs : List String) (passage : Passage) : ℕ :=
  countFrom langs "" (moves langs (passage.words langs))

variable {langs : List String} {res res' tokens : List StanzaToken} {token : StanzaToken}
  {skip : Bool} {previous : String}

/-- The result so far ends with `le` exactly if this is the text in front. -/
def EndsWithLe (res : List StanzaToken) (previous : String) : Prop :=
  res.getLast?.any (matchesWord · "le") = (previous == "le")

omit [PythonText] in
theorem endsWithLe_append {out : List StanzaToken} (some : out ≠ []) :
    EndsWithLe (res ++ out) ((out.map conform).getLastD "") := by
  rcases List.eq_nil_or_concat' out with rfl | ⟨front, last, rfl⟩
  · exact absurd rfl some
  · rw [EndsWithLe, ← List.append_assoc, List.getLast?_concat, List.map_append, List.map_singleton,
      List.getLastD_eq_getLast?, List.getLast?_concat]
    rfl

theorem piecesOf_ne_nil : piecesOf langs token ≠ [] := by
  unfold piecesOf
  split
  · simp [splitClitics]
  · simp

theorem piecesOf_of_whole (whole : isParted langs token = false) :
    piecesOf langs token = [conform token] := by
  rw [piecesOf, whole, if_neg (by simp)]

theorem step_staysWhole (res : List StanzaToken) (whole : staysWhole langs token = true) :
    ∃ token', conform token' = conform token ∧
      step langs res token = .ok (res ++ [token'], false) := by
  simp only [staysWhole, Bool.or_eq_true] at whole
  unfold step
  by_cases conventional : isConventional langs token = true
  · exact ⟨.str (conform token), rfl, if_pos conventional⟩
  rw [if_neg conventional]
  by_cases unlistedEnglish : isUnlistedEnglish langs token = true
  · exact ⟨.str (conform token), rfl, if_pos unlistedEnglish⟩
  rw [if_neg unlistedEnglish]
  by_cases unlistedItalian : isUnlistedItalian langs token = true
  · exact ⟨.str (conform token), rfl, if_pos unlistedItalian⟩
  rw [if_neg unlistedItalian]
  have elided : isElided langs token = true := by
    simpa [conventional, unlistedEnglish, unlistedItalian] using whole
  exact ⟨token, rfl, if_pos elided⟩

/-- The `i` goes into the token in front. -/
theorem step_intoLe (follows : EndsWithLe res previous)
    (into : intoLe langs previous token = true) :
    step langs res token = .ok (res.dropLast ++ [.str "lei"], false) ∧ res ≠ [] := by
  simp only [intoLe, Bool.and_eq_true, Bool.not_eq_true', staysWhole_eq_false, beq_iff_eq] at into
  rcases into with ⟨⟨⟨italian, notConventional, notEnglish, notItalian, notElided⟩, isI⟩, rfl⟩
  rw [EndsWithLe, beq_self_eq_true] at follows
  constructor
  · simp only [step, notConventional, notEnglish, notItalian, notElided, italian, matchesWord, isI,
      Bool.false_eq_true, if_false, Bool.true_and, beq_self_eq_true]
    exact if_pos follows
  · rintro rfl
    cases follows

theorem isParted_of_split (whole : staysWhole langs token = false)
    (french : langs.contains "fr" = true)
    (today : ¬ (langs.contains "fr" && matchesWord token "aujourd'hui") = true)
    (água : ¬ (langs.contains "pt" && matchesWord token "d'água") = true)
    (splits : isClitic (conform token) = true ∨
      elidedHeads.contains (headOf (conform token)) = true) : isParted langs token = true := by
  rw [matchesWord, Bool.not_eq_true] at today água
  rw [french, Bool.true_and] at today
  rw [isParted, french, whole, água, bne, today]
  simpa using splits

theorem isParted_of_kept (clitic : ¬ (langs.contains "fr" && isClitic (conform token)) = true)
    (elided : ¬ (langs.contains "fr" && elidedHeads.contains (headOf (conform token))) = true) :
    isParted langs token = false := by
  cases french : langs.contains "fr" with
  | false => simp only [isParted, french, Bool.false_and]
  | true =>
      rw [french, Bool.true_and, Bool.not_eq_true] at clitic elided
      rw [isParted, clitic, elided, Bool.or_self, Bool.and_false]

/-- Other tokens are written behind the result so far. -/
theorem step_pieces (follows : EndsWithLe res previous) (single : completes langs token = false)
    (apart : intoLe langs previous token = false)
    (stepped : step langs res token = .ok (res', skip)) :
    skip = false ∧ ∃ out, out.map conform = piecesOf langs token ∧ res' = res ++ out := by
  have alone : ∀ token' : StanzaToken, conform token' = conform token →
      isParted langs token = false →
      (Except.ok (res ++ [token'], false) : Except TokenizerError _) = .ok (res', skip) →
      skip = false ∧ ∃ out, out.map conform = piecesOf langs token ∧ res' = res ++ out := by
    intro token' text whole same
    cases same
    refine ⟨rfl, [token'], ?_, rfl⟩
    rw [piecesOf_of_whole whole, List.map_singleton, text]
  by_cases whole : staysWhole langs token = true
  · rcases step_staysWhole res whole with ⟨token', text, same⟩
    exact alone token' text (by simp [isParted, whole]) (same.symm.trans stepped)
  rw [Bool.not_eq_true] at whole
  rcases staysWhole_eq_false.mp whole with ⟨notConventional, notEnglish, notItalian, notElided⟩
  have noLe : (langs.contains "it" && matchesWord token "i" &&
      res.getLast?.any (matchesWord · "le")) = false := by
    rw [follows]
    simpa [intoLe, whole, matchesWord] using apart
  have notCompleted : (langs.contains "fr" && matchesWord token "aujourd'") = false := by
    simpa [completes, whole] using single
  simp only [step, notConventional, notEnglish, notItalian, notElided, noLe, notCompleted,
    Bool.false_eq_true, if_false] at stepped
  split_ifs at stepped with água today au clitic elided english dutch
  · simp only [Bool.and_eq_true, matchesWord, beq_iff_eq, List.contains_iff_mem] at água
    exact alone (.pair "d'água" true) água.2.symm (by simp [isParted, água]) stepped
  · simp only [Bool.and_eq_true, matchesWord, beq_iff_eq] at today
    exact alone (.str "aujourd'hui") today.2.symm (by simp [isParted, today]) stepped
  · simp only [Bool.and_eq_true, matchesWord, beq_iff_eq] at au
    have notHead : headOf "au" ∉ elidedHeads := by decide
    exact alone (.pair (conform token) true) rfl (by simp [isParted, au, isClitic, notHead])
      stepped
  · cases stepped
    rw [Bool.and_eq_true] at clitic
    have parted := isParted_of_split whole clitic.1 today água (Or.inl clitic.2)
    refine ⟨rfl, splitClitics (conform token), ?_, rfl⟩
    rw [piecesOf, if_pos parted]
  · rw [Bool.and_eq_true] at elided
    have parted := isParted_of_split whole elided.1 today água (Or.inr elided.2)
    split at stepped
    · rename_i before after parts
      cases stepped
      refine ⟨rfl, splitClitics (conform token), ?_, ?_⟩
      · rw [piecesOf, if_pos parted]
      · rw [splitClitics, parts]
        rfl
    · cases stepped
  all_goals have plain := isParted_of_kept clitic elided
  · exact alone (.pair (conform token) true) rfl plain stepped
  · exact alone (.pair (conform token) false) rfl plain stepped
  · exact alone token rfl plain stepped

/-- The run writes as many tokens as are counted along the moves. -/
theorem processFrom_length {out : List StanzaToken} (follows : EndsWithLe res previous)
    (ran : processFrom langs false res tokens = .ok out) :
    out.length = res.length + countFrom langs previous (moves langs tokens) := by
  induction tokens using moves_induction langs generalizing res previous with
  | nil =>
      rw [processFrom] at ran
      cases ran
      rfl
  | single token tokens single ih =>
      rw [moves_single single, countFrom]
      by_cases into : intoLe langs previous token = true
      · rcases step_intoLe follows into with ⟨stepped, some_⟩
        rw [processFrom_of_ok stepped] at ran
        have lei : EndsWithLe (res.dropLast ++ [.str "lei"]) "lei" := endsWithLe_append (by simp)
        rw [ih lei ran, if_pos into, List.length_append, List.length_dropLast,
          List.length_singleton, Nat.sub_add_cancel (List.length_pos_iff.mpr some_)]
      · rw [Bool.not_eq_true] at into
        rcases stepped : step langs res token with error | ⟨res', skip⟩
        · rw [processFrom, stepped] at ran
          cases ran
        · rcases step_pieces follows single into stepped with ⟨rfl, written, texts, rfl⟩
          have some_ : written ≠ [] := by
            rintro rfl
            exact piecesOf_ne_nil texts.symm
          rw [processFrom_of_ok stepped] at ran
          rw [ih (endsWithLe_append some_) ran, into, if_neg (by simp), ← texts, List.length_append,
            List.length_map, Nat.add_assoc]
  | last token completed =>
      rw [processFrom_of_ok (step_completes completed), processFrom] at ran
      cases ran
      rw [moves_complete_nil completed]
      simp [countFrom]
  | complete token next tokens completed ih =>
      rw [processFrom_of_ok (step_completes completed), processFrom] at ran
      have today : EndsWithLe (res ++ [.str "aujourd'hui"]) "aujourd'hui" :=
        endsWithLe_append (by simp)
      rw [ih today ran, moves_complete_cons completed, countFrom, List.length_append,
        List.length_singleton, Nat.add_assoc]

omit [PythonText] in
theorem length_joinTokens (notItalian : langs.contains "it" = false) {row : List StanzaToken}
    (some : row ≠ []) : (joinTokens langs row).length = 1 := by
  rcases row with _ | ⟨token, _ | ⟨next, rest⟩⟩
  · exact absurd rfl some
  · rfl
  · rw [joinTokens, notItalian, Bool.false_and, if_neg (by simp), List.length_singleton]
    · simp
    · simp

variable {passage : Passage}

omit [PythonText] in
/-- Outside of Italian every word that shows something is one token. -/
theorem length_words (notItalian : langs.contains "it" = false)
    (spoken : ∀ word ∈ splitAt ' ' passage.sent, visible word ≠ []) :
    (passage.words langs).length = (splitAt ' ' passage.sent).length := by
  have shows := rows_showsSame passage
  unfold Passage.words
  unfold splitAt at spoken ⊢
  generalize passage.sent.toList.splitOn ' ' = words at spoken shows ⊢
  generalize passage.rows = rows at shows ⊢
  induction shows with
  | nil => rfl
  | @cons word row words rows here _ ih =>
      rw [List.map_cons, List.forall_mem_cons] at spoken
      have some_ : row.filter isShown ≠ [] := by
        intro none
        apply spoken.1
        rw [visible, String.toList_ofList, here, List.flatMap_eq_nil_iff]
        intro token isToken
        have hidden := List.filter_eq_nil_iff.mp none token isToken
        simpa [isShown] using hidden
      rw [List.flatMap_cons, List.length_append, length_joinTokens notItalian some_, ih spoken.2,
        List.map_cons, List.length_cons, Nat.add_comm]

/-- In other languages than Italian and French the tokens are those of the words. -/
theorem tokenCount_of_other (notItalian : langs.contains "it" = false)
    (notFrench : langs.contains "fr" = false)
    (spoken : ∀ word ∈ splitAt ' ' passage.sent, visible word ≠ []) :
    tokenCount langs passage = (splitAt ' ' passage.sent).length := by
  have single : ∀ token, completes langs token = false := by
    intro token
    rw [completes, notFrench, Bool.and_false, Bool.false_and]
  rw [tokenCount, ← length_words notItalian spoken]
  generalize passage.words langs = tokens
  generalize "" = previous
  induction tokens using moves_induction langs generalizing previous with
  | nil => rfl
  | single token tokens _ ih =>
      have apart : intoLe langs previous token = false := by
        rw [intoLe, notItalian, Bool.false_and, Bool.false_and, Bool.false_and]
      have whole : isParted langs token = false := by
        simp only [isParted, notFrench, Bool.false_and]
      rw [moves_single (single token), countFrom, apart, if_neg (by simp), ih,
        piecesOf_of_whole whole, List.length_singleton, List.length_cons, Nat.add_comm]
  | last token completed => simp [single] at completed
  | complete token next tokens completed _ => simp [single] at completed

variable (Threshold : Type) [Similarity Threshold]

/-- The postprocessor makes so many tokens of the line. -/
theorem tokenizerProcessor_length {coreBuilt : Bool} {toks : List StanzaToken}
    (tokenized : tokenizerProcessor Threshold coreBuilt passage.tokens langs passage.sent =
      .ok toks) :
    toks.length = tokenCount langs passage := by
  have begins : EndsWithLe [] "" := rfl
  rw [tokenizerProcessor_slices] at tokenized
  rw [tokenCount, processFrom_length begins tokenized, List.length_nil, Nat.zero_add]

end Pieces

section Rewrites

/-- There are as many tokens as before, and each has words if each had some. -/
structure KeepsTokens (tokens tokens' : List Token) : Prop where
  length : tokens'.length = tokens.length
  nonempty : (∀ token ∈ tokens, token.id ≠ []) → ∀ token ∈ tokens', token.id ≠ []

variable {tokens tokens' tokens'' : List Token} {words : List NormalizedWord}

theorem KeepsTokens.refl (tokens : List Token) : KeepsTokens tokens tokens := ⟨rfl, fun all => all⟩

theorem KeepsTokens.trans (first : KeepsTokens tokens tokens')
    (second : KeepsTokens tokens' tokens'') : KeepsTokens tokens tokens'' :=
  ⟨second.length.trans first.length, fun all => second.nonempty (first.nonempty all)⟩

theorem takeElision_suffix (authoritative surface : String) (wordIds : List ℕ)
    (tokens : List Token) : (takeElision authoritative surface wordIds tokens).2.2 <:+ tokens := by
  induction tokens generalizing surface wordIds with
  | nil => exact List.suffix_rfl
  | cons token tokens ih =>
      rw [takeElision]
      split
      · exact (ih _ _).trans (List.suffix_cons token tokens)
      · exact List.suffix_rfl

theorem elisionGroups_length {authoritativeWords : List String} {grouped : List Token}
    (fits : elisionGroups authoritativeWords tokens = some grouped) :
    grouped.length = authoritativeWords.length ∧
      ((∀ token ∈ tokens, token.id ≠ []) → ∀ token ∈ grouped, token.id ≠ []) := by
  induction authoritativeWords generalizing tokens grouped with
  | nil =>
      rw [elisionGroups] at fits
      split at fits
      · cases fits
        simp
      · cases fits
  | cons authoritative words ih =>
      cases tokens with
      | nil => cases fits
      | cons token tokens =>
          rw [elisionGroups] at fits
          split at fits
          · rcases Option.map_eq_some_iff.mp fits with ⟨later, laterFits, rfl⟩
            refine ⟨congrArg (· + 1) (ih laterFits).1, fun all => ?_⟩
            rw [List.forall_mem_cons] at all ⊢
            exact ⟨all.1, (ih laterFits).2 all.2⟩
          · split at fits
            · cases fits
            · dsimp only at fits
              split at fits
              · cases fits
              · rename_i taken
                rcases Option.map_eq_some_iff.mp fits with ⟨later, laterFits, rfl⟩
                refine ⟨congrArg (· + 1) (ih laterFits).1, fun all => ?_⟩
                rw [List.forall_mem_cons]
                refine ⟨fun none => taken (Or.inr none), (ih laterFits).2 ?_⟩
                intro other isOther
                exact all other ((takeElision_suffix authoritative "" [] _).subset isOther)

variable [PythonText]

theorem normalizeItalianCompoundImperatives_keepsTokens :
    KeepsTokens tokens (normalizeItalianCompoundImperatives words tokens).tokens := by
  unfold normalizeItalianCompoundImperatives
  dsimp only
  split
  · exact .refl tokens
  · rename_i touched
    have oneEach : tokens.map (·.id) = (List.range' 1 words.length).map ([·]) := by
      by_contra other
      exact touched (Or.inl other)
    have length : tokens.length = words.length := by
      simpa using congrArg List.length oneEach
    constructor
    · simp [length]
    · intro _ token member
      rcases List.mem_map.mp member with ⟨expanded, isExpanded, rfl⟩
      rcases List.mem_map.mp isExpanded with ⟨item, _, rfl⟩
      rw [expandImperative_token, expandImperative_ids]
      simp

theorem normalizeItalianLegacyMwts_keepsTokens :
    KeepsTokens tokens (normalizeItalianLegacyMwts words tokens).tokens := by
  unfold normalizeItalianLegacyMwts
  split
  · exact .refl tokens
  · rename_i rows found
    split
    · exact .refl tokens
    · rcases rows_resolved found with ⟨tokensOf, resolved⟩
      constructor
      · rw [List.length_map, List.length_map, ← tokensOf, List.length_map]
      · intro all token member
        rcases List.mem_map.mp member with ⟨rewritten, isRewritten, rfl⟩
        rcases List.mem_map.mp isRewritten with ⟨row, isRow, rfl⟩
        have own : row.token.id ≠ [] := all _ (tokensOf ▸ List.mem_map_of_mem isRow)
        unfold rewriteRow
        split
        · rename_i rule _ _ legacy _
          have known := legacyRule_known found row isRow rule legacy
          have some_ := legacy_components_nonempty rule known
          exact List.ne_nil_of_length_pos (by simpa using some_)
        · simpa using own

omit [PythonText] in
theorem collapseToken_nonempty (collapses : List (ℕ × Collapse)) (oldToNew : List (ℕ × ℕ))
    {token : Token} (nonempty : token.id ≠ []) :
    (collapseToken collapses oldToNew token).id ≠ [] := by
  rcases List.exists_cons_of_ne_nil nonempty with ⟨first, rest, ids⟩
  unfold collapseToken
  rw [ids]
  dsimp only
  split
  · simp
  · apply List.ne_nil_of_mem
    rw [List.mem_reverse, List.mem_dedup, List.mem_reverse, List.map_cons]
    exact List.mem_cons_self

theorem normalizeItalianFalseMwts_keepsTokens :
    KeepsTokens tokens (normalizeItalianFalseMwts words tokens).tokens := by
  unfold normalizeItalianFalseMwts
  dsimp only
  split
  · exact .refl tokens
  · constructor
    · exact List.length_map _
    · intro all token member
      rcases List.mem_map.mp member with ⟨old, isOld, rfl⟩
      exact collapseToken_nonempty _ _ (all old isOld)

/-- The tokens that the words of the line are found in. -/
def groupedTokens (lang : String) (authoritativeWords : List String) (tokens : List Token) :
    List Token :=
  if lang = "it" then groupItalianElisionTokens tokens authoritativeWords else tokens

/-- Behind the grouping no pass adds or drops a token. -/
theorem rewriteSentence_keepsTokens (lang : String) (authoritativeWords : List String)
    (words : List NormalizedWord) (tokens : List Token) :
    KeepsTokens (groupedTokens lang authoritativeWords tokens)
      (rewriteSentence lang (some authoritativeWords) words tokens).tokens := by
  unfold rewriteSentence groupedTokens
  split
  · exact (normalizeItalianCompoundImperatives_keepsTokens.trans
      normalizeItalianLegacyMwts_keepsTokens).trans normalizeItalianFalseMwts_keepsTokens
  · split
    · exact .refl tokens
    · exact .refl tokens

end Rewrites

end Batchalign.Morphosyntax
