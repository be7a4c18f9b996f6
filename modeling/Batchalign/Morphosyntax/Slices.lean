import Batchalign.Alignment.ShimCorrectness
import Batchalign.Library.Fragments
import Batchalign.Morphosyntax.Tokenize

/-!
# Tokens that are slices of a line

The words of a line and the tokens that Stanza made of it hold the same characters but for white
space, so the aligner matches all of them and every group holds the tokens of one word. What the
postprocessor goes on with is each word with its tokens joined (`tokenizerProcessor_slices`).
-/

namespace Batchalign.Morphosyntax

open Fragments
open Batchalign.Alignment (Similarity)

section Passages

/-- The characters of a text that are not white space. -/
def visible (text : String) : List Char := text.toList.filter fun char => ! isSpace char

/-- A token with the white space in front of it. -/
structure Slice where
  gap : String
  token : StanzaToken
  blank : ∀ char ∈ gap.toList, isSpace char = true

/-- A line cut into tokens and white space. -/
structure Passage where
  slices : List Slice
  tail : String
  blank : ∀ char ∈ tail.toList, isSpace char = true

def Slice.chars (slice : Slice) : List Char := slice.gap.toList ++ (conform slice.token).toList

def Passage.sent (passage : Passage) : String :=
  String.ofList (passage.slices.flatMap Slice.chars ++ passage.tail.toList)

def Passage.tokens (passage : Passage) : List StanzaToken := passage.slices.map Slice.token

/-- White space lies in the words on both sides of each space and adds no token to them. -/
def gapRows (gap : String) : List (List StanzaToken) := (splitAt ' ' gap).map fun _ => []

/-- Each space in a token begins a new word. -/
def tokenRows (token : StanzaToken) : List (List StanzaToken) := (splitCandidate token).map ([·])

def Slice.rows (slice : Slice) : List (List StanzaToken) :=
  glue (gapRows slice.gap) (tokenRows slice.token)

/-- For every word of the line, the tokens that it is made of. -/
def Passage.rows (passage : Passage) : List (List StanzaToken) :=
  passage.slices.foldr (fun slice rows => glue slice.rows rows) (gapRows passage.tail)

/-- The token shows something. -/
def isShown (token : StanzaToken) : Bool := ! (visible (conform token)).isEmpty

/-- The words of the line as tokens. -/
def Passage.words (lang : List String) (passage : Passage) : List StanzaToken :=
  passage.rows.flatMap fun row => joinTokens lang (row.filter isShown)

end Passages

section Rows

/-- The word shows what its tokens show. -/
def ShowsSame (word : List Char) (row : List StanzaToken) : Prop :=
  (word.filter fun char => ! isSpace char) = row.flatMap fun token => visible (conform token)

theorem ShowsSame.append {word word' : List Char} {row row' : List StanzaToken}
    (same : ShowsSame word row) (same' : ShowsSame word' row') :
    ShowsSame (word ++ word') (row ++ row') := by
  rw [ShowsSame, List.filter_append, List.flatMap_append, same, same']

theorem gapRows_showsSame {gap : String} (blank : ∀ char ∈ gap.toList, isSpace char = true) :
    List.Forall₂ ShowsSame (gap.toList.splitOn ' ') (gapRows gap) := by
  rw [gapRows, splitAt, List.map_map, List.forall₂_map_right_iff, List.forall₂_same]
  intro word member
  rw [Function.comp_apply, ShowsSame, List.flatMap_nil, List.filter_eq_nil_iff]
  intro char isChar
  have inGap := List.mem_flatten_of_mem member isChar
  rw [flatten_splitOn] at inGap
  simp [blank char (List.mem_of_mem_filter inGap)]

theorem showsSame_str (word : List Char) : ShowsSame word [.str (String.ofList word)] := by
  simp [ShowsSame, visible, conform]

theorem tokenRows_showsSame (token : StanzaToken) :
    List.Forall₂ ShowsSame ((conform token).toList.splitOn ' ') (tokenRows token) := by
  have whole : [' '].intercalate ((conform token).toList.splitOn ' ') = (conform token).toList :=
    List.intercalate_splitOn ' '
  rw [tokenRows, splitCandidate, splitAt]
  match split : (conform token).toList.splitOn ' ' with
  | [] => exact absurd split (List.splitOn_ne_nil ' ' _)
  | [word] =>
      rw [split, List.intercalate_singleton] at whole
      refine .cons ?_ .nil
      rw [whole, ShowsSame, List.flatMap_singleton]
      rfl
  | first :: second :: rest =>
      simp only [List.map_cons, List.map_map]
      refine .cons (showsSame_str first) (.cons (showsSame_str second) ?_)
      rw [List.forall₂_map_right_iff, List.forall₂_same]
      exact fun word _ => showsSame_str word

theorem rows_showsSame (passage : Passage) :
    List.Forall₂ ShowsSame (passage.sent.toList.splitOn ' ') passage.rows := by
  rcases passage with ⟨slices, tail, blank⟩
  rw [Passage.sent, String.toList_ofList, Passage.rows]
  dsimp only
  induction slices with
  | nil => exact gapRows_showsSame blank
  | cons slice slices ih =>
      rw [List.flatMap_cons, List.append_assoc, splitOn_append, Slice.chars, splitOn_append,
        List.foldr_cons]
      apply forall₂_glue ShowsSame.append _ ih
      exact forall₂_glue ShowsSame.append (gapRows_showsSame slice.blank)
        (tokenRows_showsSame slice.token)

theorem flatten_gapRows (gap : String) : (gapRows gap).flatten = [] := by
  simp [gapRows]

theorem flatten_tokenRows (token : StanzaToken) :
    (tokenRows token).flatten = splitCandidate token := by
  rw [tokenRows, ← List.flatMap_def, List.flatMap_singleton']

theorem flatten_rows (passage : Passage) :
    passage.rows.flatten = passage.tokens.flatMap splitCandidate := by
  rcases passage with ⟨slices, tail, blank⟩
  rw [Passage.rows, Passage.tokens]
  dsimp only
  induction slices with
  | nil => exact flatten_gapRows tail
  | cons slice slices ih =>
      rw [List.foldr_cons, flatten_glue, ih, Slice.rows, flatten_glue, flatten_gapRows,
        flatten_tokenRows, List.nil_append, List.map_cons, List.flatMap_cons]

end Rows

section Characters

theorem strip_singleton (char : Char) :
    strip (String.singleton char) = if isSpace char then "" else String.singleton char := by
  rw [strip, String.toList_singleton]
  by_cases blank : isSpace char = true
  · simp [blank]
  · simp only [List.dropWhile_cons_of_neg blank, if_neg blank]
    rw [List.rdropWhile_singleton, if_neg blank]
    rfl

theorem charKeys_eq_map (text : String) : charKeys text = (visible text).map String.singleton := by
  rw [charKeys, visible]
  induction text.toList with
  | nil => rfl
  | cons char chars ih =>
      rw [List.map_cons, strip_singleton]
      by_cases blank : isSpace char = true
      · rw [if_pos blank, List.filter_cons_of_neg (by simp), ih,
          List.filter_cons_of_neg (by simp [blank])]
      · rw [if_neg blank, List.filter_cons_of_pos (by simp), ih,
          List.filter_cons_of_pos (by simp [blank]), List.map_cons]

variable {tokenized : List StanzaToken} {words : List String}

theorem targetsOf_key (tokenized : List StanzaToken) :
    (targetsOf tokenized).map Dp.PayloadTarget.key =
      tokenized.flatMap fun i => charKeys (conform i) := by
  rw [targetsOf, List.map_flatMap]
  simp only [List.map_map, Function.comp_def, List.map_id']
  exact flatMap_zipIdx_fst (fun i => charKeys (conform i)) tokenized 0

theorem refsOf_key (words : List String) :
    (refsOf words).map Dp.ReferenceTarget.key = words.flatMap charKeys := by
  rw [refsOf, List.map_flatMap]
  simp only [List.map_map, Function.comp_def, List.map_id']
  exact flatMap_zipIdx_fst charKeys words 0

theorem targetsOf_payload (tokenized : List StanzaToken) :
    (targetsOf tokenized).map Dp.PayloadTarget.payload =
      (labels 0 (tokenized.map fun i => (charKeys (conform i)).length)).map some := by
  rw [targetsOf, List.map_flatMap]
  simp only [List.map_map, Function.comp_def]
  exact flatMap_zipIdx_snd (fun i => charKeys (conform i)) tokenized 0

theorem refsOf_payload (words : List String) :
    (refsOf words).map Dp.ReferenceTarget.payload =
      (labels 0 (words.map fun i => (charKeys i).length)).map some := by
  rw [refsOf, List.map_flatMap]
  simp only [List.map_map, Function.comp_def]
  exact flatMap_zipIdx_snd charKeys words 0

end Characters

section Alignment

open Dp

variable {Key : Type} {str : Key → String} {matchFn : Key → Key → Bool}
  {payload : List (PayloadTarget Key ℕ)} {reference : List (ReferenceTarget Key ℕ)}

/-- An alignment that costs nothing pairs the items one by one. -/
theorem mapM_payloadsOf {matchFn : String → String → Bool} {str : String → String}
    {payload : List (PayloadTarget String ℕ)} {reference : List (ReferenceTarget String ℕ)}
    {records : List (Record String ℕ)}
    (aligned : RecordsAlign str matchFn payload reference records) (free : totalCost records = 0)
    {ps rs : List ℕ} (isPayload : payload.map PayloadTarget.payload = ps.map some)
    (isReference : reference.map ReferenceTarget.payload = rs.map some) :
    records.mapM payloadsOf = .ok (rs.zip ps) := by
  induction aligned generalizing ps rs with
  | nil =>
      cases List.map_eq_nil_iff.mp isPayload.symm
      cases List.map_eq_nil_iff.mp isReference.symm
      rfl
  | @isMatch payItem refItem payload reference records key _ _ _ ih =>
      cases ps with
      | nil => cases isPayload
      | cons p ps =>
          cases rs with
          | nil => cases isReference
          | cons r rs =>
              rw [totalCost_cons_isMatch] at free
              rw [List.map_cons, List.map_cons, List.cons.injEq] at isPayload isReference
              rw [List.mapM_cons, ih free isPayload.2 isReference.2, isPayload.1, isReference.1]
              rfl
  | extraPayload _ _ _ =>
      rw [totalCost_cons_extra] at free
      omega
  | extraReference _ _ _ =>
      rw [totalCost_cons_extra] at free
      omega

theorem sequencesOf_eq {targets : List (PayloadTarget String ℕ)}
    {refs : List (ReferenceTarget String ℕ)}
    (same : targets.map PayloadTarget.key = refs.map ReferenceTarget.key) :
    (sequencesOf targets refs).payload = targets ∧
      (sequencesOf targets refs).reference = refs := by
  cases targets with
  | nil =>
      cases List.map_eq_nil_iff.mp same.symm
      exact ⟨rfl, rfl⟩
  | cons first rest => exact ⟨rfl, rfl⟩

variable (Threshold : Type) [Similarity Threshold]

/-- Where the characters are the same the aligner pairs them one by one. -/
theorem alignChars_eq (coreBuilt : Bool) {tokenized : List StanzaToken} {words : List String}
    (same : (tokenized.flatMap fun i => charKeys (conform i)) = words.flatMap charKeys) :
    alignChars Threshold coreBuilt tokenized words =
      .ok ((labels 0 (words.map fun i => (charKeys i).length)).zip
        (labels 0 (tokenized.map fun i => (charKeys (conform i)).length))) := by
  have keys : (targetsOf tokenized).map PayloadTarget.key =
      (refsOf words).map ReferenceTarget.key := by
    rw [targetsOf_key, refsOf_key, same]
  rcases sequencesOf_eq keys with ⟨isPayload, isReference⟩
  have honours : Honours Threshold (textKeys coreBuilt)
      (sequencesOf (targetsOf tokenized) (refsOf words)) MatchFn.default :=
    honours_of_honouredAt Threshold fun _ _ _ _ => ⟨_, rfl, fun _ _ => rfl⟩
  rcases honours with ⟨records, returned, aligned, least⟩
  rw [isPayload, isReference] at aligned least
  rcases exists_free_of_keys_eq (fun _ => beq_self_eq_true _) keys with ⟨other, isOther, free⟩
  have cheap : totalCost records = 0 := by
    have bound := least other isOther
    omega
  rw [alignChars, returned]
  exact mapM_payloadsOf aligned cheap (targetsOf_payload tokenized) (refsOf_payload words)

end Alignment

section Groups

/-- How many characters the token shows. -/
def shownCount (token : StanzaToken) : ℕ := (charKeys (conform token)).length

theorem isShown_eq (token : StanzaToken) : isShown token = decide (0 < shownCount token) := by
  rw [isShown, shownCount, charKeys_eq_map, List.length_map]
  cases visible (conform token) <;> simp

theorem ShowsSame.charKeys_eq {word : List Char} {row : List StanzaToken}
    (same : ShowsSame word row) :
    charKeys (String.ofList word) = row.flatMap fun token => charKeys (conform token) := by
  rw [charKeys_eq_map, visible, String.toList_ofList, same, List.map_flatMap]
  exact List.flatMap_congr fun token _ => (charKeys_eq_map _).symm

theorem sortedSet_labels (start : ℕ) (counts : List ℕ) :
    sortedSet (labels start counts) = occurring start counts := by
  have increasing := @occurring_pairwise start counts
  apply @List.Perm.eq_of_pairwise _ (· ≤ ·)
  · exact fun x y _ _ => le_antisymm
  · exact List.pairwise_insertionSort (· ≤ ·) _
  · exact increasing.imp le_of_lt
  · apply (List.perm_insertionSort _ _).trans
    rw [List.perm_ext_iff_of_nodup (List.nodup_dedup _) (increasing.imp ne_of_lt)]
    intro x
    rw [List.mem_dedup, mem_labels]

theorem mapM_tokenAt (front row rest : List StanzaToken) :
    (occurring front.length (row.map shownCount)).mapM (tokenAt (front ++ (row ++ rest))) =
      .ok (row.filter isShown) := by
  induction row generalizing front with
  | nil => rfl
  | cons token row ih =>
      have later := ih (front ++ [token])
      rw [List.length_append, List.length_singleton, List.append_assoc,
        List.singleton_append] at later
      rw [List.map_cons, occurring_cons, List.cons_append, List.filter_cons, isShown_eq]
      by_cases shown : 0 < shownCount token
      · have here : tokenAt (front ++ token :: (row ++ rest)) front.length = .ok token := by
          simp [tokenAt]
        rw [if_pos shown, List.singleton_append, List.mapM_cons, here, later, if_pos (by simpa)]
        rfl
      · rw [if_neg shown, List.nil_append, later, if_neg (by simpa using shown)]

theorem filter_isShown_of_labels {start : ℕ} {row : List StanzaToken}
    (empty : labels start (row.map shownCount) = []) : row.filter isShown = [] := by
  have counted := congrArg List.length empty
  rw [length_labels, List.length_nil, List.sum_eq_zero_iff] at counted
  rw [List.filter_eq_nil_iff]
  intro token member
  simp [isShown_eq, counted _ (List.mem_map_of_mem member)]

/-- The groups give each word of the line the tokens in it that show something. -/
theorem newToks_chunks (lang : List String) {front : List StanzaToken}
    {rows : List (List StanzaToken)} {seen : List ℕ} {r : ℕ} (old : ∀ x ∈ seen, x < front.length) :
    newToks lang (front ++ rows.flatten) seen
        (((chunks r front.length (rows.map (List.map shownCount))).filter (! ·.isEmpty)).map
          fun group => sortedSet (group.map Prod.snd)) =
      .ok (rows.flatMap fun row => joinTokens lang (row.filter isShown)) := by
  induction rows generalizing front seen r with
  | nil => rfl
  | cons row rows ih =>
      have regroup : front ++ (row :: rows).flatten = front ++ row ++ rows.flatten := by simp
      have length : front.length + (row.map shownCount).length = (front ++ row).length := by simp
      rw [List.map_cons, chunks, length, regroup, List.flatMap_cons]
      by_cases empty : labels front.length (row.map shownCount) = []
      · rw [List.filter_cons_of_neg (by simp [empty]), filter_isShown_of_labels empty]
        apply ih
        intro x member
        rw [List.length_append]
        exact Nat.lt_add_right _ (old x member)
      · rw [List.filter_cons_of_pos (by simp [empty]), List.map_cons, List.map_map]
        have labelled : List.map (Prod.snd ∘ Prod.mk r)
            (labels front.length (row.map shownCount)) =
              labels front.length (row.map shownCount) := List.map_id _
        have fresh : (occurring front.length (row.map shownCount)).filter (fun x => x ∉ seen) =
            occurring front.length (row.map shownCount) := by
          rw [List.filter_eq_self]
          intro x member
          simp only [decide_eq_true_eq]
          exact fun isSeen => (old x isSeen).not_ge (bounds_of_mem_occurring member).1
        have seenNow : ∀ x ∈ seen ++ occurring front.length (row.map shownCount),
            x < (front ++ row).length := by
          intro x member
          rw [← length]
          rcases List.mem_append.mp member with before | here
          · exact Nat.lt_add_right _ (old x before)
          · exact (bounds_of_mem_occurring here).2
        rw [labelled, sortedSet_labels, newToks, fresh, ih seenNow, List.append_assoc,
          mapM_tokenAt front row rows.flatten]
        rfl

end Groups

section Passage

/-- Word by word the line has the characters of the tokens. -/
theorem map_charKeys_sent (passage : Passage) :
    (splitAt ' ' passage.sent).map charKeys =
      passage.rows.map fun row => row.flatMap fun token => charKeys (conform token) := by
  rw [splitAt, List.map_map]
  have shows := rows_showsSame passage
  generalize passage.sent.toList.splitOn ' ' = words at shows ⊢
  generalize passage.rows = rows at shows ⊢
  induction shows with
  | nil => rfl
  | cons here _ ih =>
      rw [List.map_cons, List.map_cons, ih, Function.comp_apply, here.charKeys_eq]

theorem flatMap_charKeys_sent (passage : Passage) :
    (passage.rows.flatten.flatMap fun token => charKeys (conform token)) =
      (splitAt ' ' passage.sent).flatMap charKeys := by
  have flat := congrArg List.flatten (map_charKeys_sent passage)
  rw [← List.flatMap_def, ← List.flatMap_def] at flat
  rw [flat, ← List.flatMap_id, List.flatMap_assoc]
  rfl

theorem map_length_charKeys_sent (passage : Passage) :
    ((splitAt ' ' passage.sent).map fun word => (charKeys word).length) =
      (passage.rows.map (List.map shownCount)).map List.sum := by
  have lengths := congrArg (List.map List.length) (map_charKeys_sent passage)
  rw [List.map_map, List.map_map] at lengths
  rw [List.map_map]
  refine lengths.trans (List.map_congr_left fun row _ => ?_)
  exact List.length_flatMap

variable [PythonText] (Threshold : Type) [Similarity Threshold]

/-- The branches see the words of the line, each with its tokens joined. -/
theorem tokenizerProcessor_slices (coreBuilt : Bool) (lang : List String) (passage : Passage) :
    tokenizerProcessor Threshold coreBuilt passage.tokens lang passage.sent =
      processFrom lang false [] (passage.words lang) := by
  have aligned := alignChars_eq Threshold coreBuilt (flatMap_charKeys_sent passage)
  have counts : (passage.rows.flatten.map fun token => (charKeys (conform token)).length) =
      (passage.rows.map (List.map shownCount)).flatten := by
    rw [List.map_flatten]
    rfl
  rw [map_length_charKeys_sent, counts] at aligned
  have groups := @newToks_chunks lang [] passage.rows [] 0 (by simp)
  rw [List.nil_append, List.length_nil, ← splitBy_zip_labels] at groups
  rw [tokenizerProcessor, ← flatten_rows, aligned]
  change newToks lang passage.rows.flatten [] (groupsOf _) >>= _ = _
  rw [groupsOf, groups]
  rfl

end Passage

end Batchalign.Morphosyntax
