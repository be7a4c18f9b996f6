import Batchalign.Library.Fallible
import Batchalign.Morphosyntax.Rewrites

/-!
# The label of the root

A word is labelled as root exactly when its head is 0. The repair of the fields sees to it, and
every pass for Italian or English keeps it: a word that a pass makes up hangs on the word it was
made for, and a new numbering goes from positive numbers to positive numbers.
-/

namespace Batchalign.Morphosyntax

open Fallible PythonText

section Labelled

theorem isRootLabel_iff {label : String} :
    IsRootLabel label ↔ label.toList.map Char.toLower = ['r', 'o', 'o', 't'] := by
  unfold IsRootLabel
  rw [← String.toList_inj, String.toList_map]
  rfl

/-- The ids count from 1, the label agrees with the head, and the label has a subtype if it has
one of the marks that `%gra` leaves out. -/
structure Labelled (word : NormalizedWord) : Prop where
  counted : 0 < word.id
  root : IsRootLabel word.deprel ↔ word.head = 0
  marks : ∀ mark ∈ ['<', '>'], mark ∈ word.deprel.toList → ':' ∈ word.deprel.toList

/-- The relations that the repair and the passes write for a word that is not the root. -/
def plainDeprels : List String := ["aux", "nsubj", "obj", "iobj", "fixed", "dep"]

variable {word other : NormalizedWord}

theorem Labelled.of_plain (counted : 0 < word.id) (hangs : word.head ≠ 0)
    (plain : word.deprel ∈ plainDeprels) : Labelled word where
  counted := counted
  root := by
    have notRoot : ∀ deprel ∈ plainDeprels, ¬ IsRootLabel deprel := by
      simp [plainDeprels, isRootLabel_iff]
    exact iff_of_false (notRoot word.deprel plain) hangs
  marks := by
    have unmarked : ∀ deprel ∈ plainDeprels, ∀ mark ∈ ['<', '>'], mark ∉ deprel.toList := by
      simp [plainDeprels]
    intro mark isMark inside
    exact absurd inside (unmarked word.deprel plain mark isMark)

/-- Only the label counts, and whether there is a head. -/
theorem Labelled.congr (labelled : Labelled word) (counted : 0 < other.id)
    (deprel : other.deprel = word.deprel) (head : other.head = 0 ↔ word.head = 0) :
    Labelled other where
  counted := counted
  root := by rw [deprel, head, labelled.root]
  marks := by
    rw [deprel]
    exact labelled.marks

end Labelled

section Renumbering

/-- A renumbering from 1, to numbers from 1. -/
def Counting (oldToNew : List (ℕ × ℕ)) : Prop := ∀ entry ∈ oldToNew, 0 < entry.1 ∧ 0 < entry.2

variable {oldToNew : List (ℕ × ℕ)} {word : NormalizedWord}

theorem Counting.nil : Counting [] := by simp [Counting]

theorem Counting.set (counting : Counting oldToNew) {old new : ℕ} (fromOne : 0 < old)
    (toOne : 0 < new) : Counting (dictSet old new oldToNew) := by
  intro entry member
  rcases mem_dictSet member with rfl | kept
  · exact ⟨fromOne, toOne⟩
  · exact counting entry kept

theorem Counting.mappedId_eq_zero (counting : Counting oldToNew) (id : ℕ) :
    mappedId oldToNew id = 0 ↔ id = 0 := by
  unfold mappedId
  cases found : oldToNew.lookup id with
  | none => rfl
  | some new =>
      rcases List.lookup_eq_some_iff.mp found with ⟨before, after, entries, _⟩
      have entry := counting (id, new) (by simp [entries])
      rw [Option.getD_some]
      omega

theorem Counting.mappedId_pos (counting : Counting oldToNew) {id : ℕ} (counted : 0 < id) :
    0 < mappedId oldToNew id := by
  have zero := counting.mappedId_eq_zero id
  omega

theorem Labelled.renumber (labelled : Labelled word) (counting : Counting oldToNew) :
    Labelled (renumberWord oldToNew word) := by
  apply labelled.congr
  · exact counting.mappedId_pos labelled.counted
  · rfl
  · exact counting.mappedId_eq_zero word.head

theorem wordById_mem {words : List NormalizedWord} {id : ℕ}
    (found : wordById words id = some word) : word ∈ words ∧ word.id = id := by
  have here := List.find?_some found
  exact ⟨List.mem_reverse.mp (List.mem_of_find?_eq_some found), by simpa using here⟩

end Renumbering

section Normalize

variable [PythonText] [LawfulPythonText]

/-- A relation that passes the repair has a subtype where it has a mark. -/
theorem deprelHead_marked {deprel : String} (known : deprelHead (casefold deprel) ∈ udDeprels)
    {mark : Char} (isMark : mark ∈ ['<', '>']) (inside : mark ∈ deprel.toList) :
    ':' ∈ deprel.toList := by
  have unmarked : ∀ known ∈ udDeprels, ∀ mark ∈ ['<', '>'], mark ∉ known.toList := by
    simp [udDeprels]
  have separators : ∀ mark ∈ ['<', '>'], mark ∈ labelSeparators := by simp [labelSeparators]
  rw [← LawfulPythonText.mem_casefold deprel ':' (by simp [labelSeparators])]
  rw [← LawfulPythonText.mem_casefold deprel mark (separators mark isMark)] at inside
  by_contra noSubtype
  have whole : (casefold deprel).toList.takeWhile (· ≠ ':') = (casefold deprel).toList := by
    apply List.takeWhile_eq_self_iff.mpr
    intro char member
    simp only [ne_eq, decide_eq_true_eq]
    rintro rfl
    exact noSubtype member
  rw [deprelHead, whole, String.ofList_toList] at known
  exact unmarked _ known mark isMark inside

variable {index head : ℕ} {text : String} {word : StanzaWord}

omit [LawfulPythonText] in
/-- The repaired label is the given one, of a known relation, or one of three. -/
theorem repairDeprel_cases (index : ℕ) (text : String) (head : ℕ) (word : StanzaWord) :
    (repairDeprel index text head word).1 = (if head = 0 then "root" else
        if casefold (word.deprel.getD "") = "iob" then "iobj" else "dep") ∨
      (repairDeprel index text head word).1 = word.deprel.getD "" ∧
        deprelHead (casefold (word.deprel.getD "")) ∈ udDeprels ∧
        (casefold (word.deprel.getD "") = "root" ↔ head = 0) := by
  unfold repairDeprel
  dsimp only
  split
  · exact Or.inl rfl
  · rename_i accepted
    rcases not_or.mp accepted with ⟨valid, consistent⟩
    rcases not_or.mp consistent with ⟨joint, notTruncated⟩
    refine Or.inr ⟨rfl, ?_, not_not.mp joint⟩
    by_contra unknown
    exact valid (Or.inr (Or.inr ⟨unknown, notTruncated⟩))

theorem repairDeprel_root :
    IsRootLabel (repairDeprel index text head word).1 ↔ head = 0 := by
  rcases repairDeprel_cases index text head word with replaced | ⟨same, -, joint⟩
  · rw [replaced]
    split_ifs with root truncated
    · simp [isRootLabel_iff, root]
    · simp [isRootLabel_iff, root]
    · simp [isRootLabel_iff, root]
  · rw [same, ← LawfulPythonText.casefold_eq_root, joint]

theorem repairDeprel_marks {mark : Char} (isMark : mark ∈ ['<', '>'])
    (inside : mark ∈ (repairDeprel index text head word).1.toList) :
    ':' ∈ (repairDeprel index text head word).1.toList := by
  rcases repairDeprel_cases index text head word with replaced | ⟨same, known, -⟩
  · exfalso
    have unmarked : ∀ label ∈ ["root", "iobj", "dep"], ∀ mark ∈ ['<', '>'],
        mark ∉ label.toList := by
      simp
    refine unmarked _ ?_ mark isMark inside
    rw [replaced]
    split_ifs
    · simp
    · simp
    · simp
  · rw [same] at inside ⊢
    exact deprelHead_marked known isMark inside

theorem normalizeWord_labelled (count rootId : ℕ) (counted : ∀ id, word.id = some id → 0 < id)
    (indexed : 0 < index) : Labelled (normalizeWord count rootId index word).1 where
  counted := by
    change 0 < (repairId index (repairText index word).1 word).1
    unfold repairId
    split
    · rename_i id here
      exact counted id here
    · exact indexed
  root := repairDeprel_root
  marks mark isMark inside := repairDeprel_marks isMark inside

/-- The repair labels the words. -/
theorem normalizeWords_labelled {rawWords : List StanzaWord}
    (counted : ∀ word ∈ rawWords, ∀ id, word.id = some id → 0 < id) :
    ∀ word ∈ (normalizeWords rawWords).1, Labelled word := by
  intro word member
  rcases List.mem_map.mp member with ⟨repaired, isRepaired, rfl⟩
  rcases List.mem_map.mp isRepaired with ⟨⟨raw, index⟩, listed, rfl⟩
  rcases List.mem_zipIdx listed with ⟨indexed, _, same⟩
  apply normalizeWord_labelled
  · rw [same]
    exact counted _ (List.getElem_mem _)
  · exact indexed

end Normalize

section Compound

variable {oldToNew : List (ℕ × ℕ)} {word : NormalizedWord} {rule : CompoundImperativeRule}

theorem compoundIds_counting {oldId nextId : ℕ} (fromOne : 0 < oldId) (toOne : 0 < nextId)
    (rules : List (Option CompoundImperativeRule)) : Counting (compoundIds oldId nextId rules) := by
  induction rules generalizing oldId nextId with
  | nil => exact Counting.nil
  | cons rule rules ih =>
      intro entry member
      rcases List.mem_cons.mp member with rfl | later
      · exact ⟨fromOne, toOne⟩
      · exact ih (by omega) (by omega) entry later

/-- The clitics of the table are objects. -/
theorem clitics_plain (known : rule ∈ compoundImperativeRules) {clitic : CliticRule}
    (member : clitic ∈ rule.clitics) : clitic.deprel ∈ plainDeprels := by
  have table : ∀ rule ∈ compoundImperativeRules, ∀ clitic ∈ rule.clitics,
      clitic.deprel ∈ plainDeprels := by
    simp [compoundImperativeRules, compoundImperative, plainDeprels, cliticMe, cliticLa, cliticLo,
      cliticLi, cliticLe]
  exact table rule known clitic member

theorem cliticWord_labelled {mainId : ℕ} (counted : 0 < mainId)
    (known : rule ∈ compoundImperativeRules) {item : CliticRule × ℕ}
    (member : item.1 ∈ rule.clitics) :
    Labelled (cliticWord mainId item) := by
  apply Labelled.of_plain
  · exact Nat.add_pos_left counted _
  · exact counted.ne'
  · exact clitics_plain known member

theorem expandImperative_labelled (counting : Counting oldToNew) {oldId : ℕ} (counted : 0 < oldId)
    (labelled : Labelled word) (token : Token) {rule : Option CompoundImperativeRule}
    (known : ∀ rule' ∈ rule, rule' ∈ compoundImperativeRules) :
    ∀ new ∈ (expandImperative oldToNew oldId word token rule).1, Labelled new := by
  have mainCounted : 0 < mappedId oldToNew oldId := counting.mappedId_pos counted
  intro new member
  cases rule with
  | none =>
      rw [List.mem_singleton.mp member]
      exact labelled.congr mainCounted rfl (counting.mappedId_eq_zero word.head)
  | some rule =>
      rcases List.mem_cons.mp member with rfl | clitic
      · exact labelled.congr mainCounted rfl (counting.mappedId_eq_zero word.head)
      · rcases List.mem_map.mp clitic with ⟨item, listed, rfl⟩
        apply cliticWord_labelled mainCounted (known rule rfl)
        rcases List.mem_zipIdx listed with ⟨_, _, same⟩
        rw [same]
        exact List.getElem_mem _

variable [PythonText]

theorem ruleFor_mem {surface upos : String} (found : ruleFor surface upos = some rule) :
    rule ∈ compoundImperativeRules :=
  List.mem_of_find?_eq_some (Option.filter_eq_some_iff.mp found).1

theorem normalizeItalianCompoundImperatives_labelled {words : List NormalizedWord}
    (labelled : ∀ word ∈ words, Labelled word) (tokens : List Token) :
    ∀ word ∈ (normalizeItalianCompoundImperatives words tokens).words, Labelled word := by
  unfold normalizeItalianCompoundImperatives
  dsimp only
  split
  · exact labelled
  · intro new member
    rcases List.mem_flatMap.mp member with ⟨expanded, isExpanded, inside⟩
    rcases List.mem_map.mp isExpanded with ⟨⟨⟨word, token, rule⟩, oldId⟩, listed, rfl⟩
    rcases List.mem_zipIdx listed with ⟨counted, _, same⟩
    have zipped : (word, token, rule) ∈
        words.zip (tokens.zip (words.map fun word => ruleFor word.text word.upos)) := by
      rw [same]
      exact List.getElem_mem _
    rcases List.of_mem_zip zipped with ⟨isWord, others⟩
    refine expandImperative_labelled (compoundIds_counting one_pos one_pos _) counted
      (labelled word isWord) token ?_ new inside
    intro rule' isRule
    rcases List.mem_map.mp (List.of_mem_zip others).2 with ⟨named, _, found⟩
    exact ruleFor_mem (found.trans (Option.mem_def.mp isRule))

end Compound

section Rows

/-- The words of a row are those of its token. -/
structure ItalianTokenRow.Resolved (words : List NormalizedWord) (row : ItalianTokenRow) :
    Prop where
  ids : row.words.map (·.id) = row.token.id
  nonempty : row.words ≠ []
  mem : ∀ word ∈ row.words, word ∈ words

variable {words : List NormalizedWord} {row : ItalianTokenRow}

theorem resolved_words {ids : List ℕ} {native : List NormalizedWord}
    (found : List.Forall₂ (fun id word => wordById words id = some word) ids native) :
    native.map (·.id) = ids ∧ ∀ word ∈ native, word ∈ words := by
  induction found with
  | nil => simp
  | cons first _ ih =>
      rcases wordById_mem first with ⟨isWord, id⟩
      constructor
      · rw [List.map_cons, id, ih.1]
      · intro word member
        rcases List.mem_cons.mp member with rfl | later
        · exact isWord
        · exact ih.2 word later

variable [PythonText]

theorem italianTokenRow_resolved {token : Token} (found : italianTokenRow words token = some row) :
    row.token = token ∧ row.Resolved words := by
  unfold italianTokenRow at found
  split at found
  · cases found
  · cases found
  · rename_i native nonempty resolved
    cases found
    rcases resolved_words (mapM_eq_some_iff.mp resolved) with ⟨ids, mem⟩
    exact ⟨rfl, ids, nonempty, mem⟩

theorem rows_resolved {tokens : List Token} {rows : List ItalianTokenRow}
    (found : tokens.mapM (italianTokenRow words) = some rows) :
    rows.map (·.token) = tokens ∧ ∀ row ∈ rows, row.Resolved words := by
  have each := mapM_eq_some_iff.mp found
  clear found
  induction each with
  | nil => simp
  | cons first later ih =>
      rcases italianTokenRow_resolved first with ⟨token, resolved⟩
      constructor
      · rw [List.map_cons, token, ih.1]
      · intro row member
        rcases List.mem_cons.mp member with rfl | later
        · exact resolved
        · exact ih.2 row later

end Rows

section Legacy

variable {words : List NormalizedWord} {row : ItalianTokenRow} {oldToNew : List (ℕ × ℕ)}

theorem Counting.foldl_dictSet (counting : Counting oldToNew) {entries : List (ℕ × ℕ)}
    {newId : ℕ × ℕ → ℕ} (fromOne : ∀ entry ∈ entries, 0 < entry.1)
    (toOne : ∀ entry, 0 < newId entry) :
    Counting (entries.foldl (fun ids entry => dictSet entry.1 (newId entry) ids)
      oldToNew) := by
  induction entries generalizing oldToNew with
  | nil => exact counting
  | cons entry entries ih =>
      apply ih
      · exact counting.set (fromOne entry List.mem_cons_self) (toOne entry)
      · exact fun other member => fromOne other (List.mem_cons_of_mem _ member)

theorem legacyIds_counting {rows : List ItalianTokenRow} {nextId : ℕ}
    (counted : ∀ row ∈ rows, ∀ id ∈ row.token.id, 0 < id) (toOne : 0 < nextId)
    (counting : Counting oldToNew) : Counting (legacyIds nextId oldToNew rows) := by
  induction rows generalizing nextId oldToNew with
  | nil => exact counting
  | cons row rows ih =>
      rw [legacyIds]
      apply ih
      · exact fun other member => counted other (List.mem_cons_of_mem _ member)
      · omega
      · apply counting.foldl_dictSet
        · rintro ⟨oldId, offset⟩ member
          rcases List.mem_zipIdx member with ⟨_, _, same⟩
          simp only [same]
          exact counted row List.mem_cons_self _ (List.getElem_mem _)
        · intro entry
          omega

theorem componentWord_labelled (counting : Counting oldToNew) {source : NormalizedWord}
    (labelled : Labelled source) {mainId : ℕ} (counted : 0 < mainId)
    (item : LegacyMwtComponent × ℕ) : Labelled (componentWord oldToNew source mainId item) := by
  rcases item with ⟨component, offset⟩
  by_cases first : offset = 0
  · apply labelled.congr
    · exact Nat.add_pos_left counted offset
    · simp [componentWord, first]
    · simp only [componentWord, first, if_true]
      exact counting.mappedId_eq_zero source.head
  · apply Labelled.of_plain
    · exact Nat.add_pos_left counted offset
    · simp only [componentWord, if_neg first]
      omega
    · simp [componentWord, first, plainDeprels]

theorem rewriteRow_labelled (counting : Counting oldToNew) (resolved : row.Resolved words)
    (labelled : ∀ word ∈ words, Labelled word) :
    ∀ new ∈ (rewriteRow oldToNew row).1, Labelled new := by
  intro new member
  have own : ∀ word ∈ row.words, Labelled word := fun word isWord =>
    labelled word (resolved.mem word isWord)
  unfold rewriteRow at member
  split at member
  · rename_i rule first rest _ native
    have source : Labelled (((first :: rest).find? (·.head ∉ row.token.id)).getD first) := by
      apply own
      rw [native]
      cases found : (first :: rest).find? (·.head ∉ row.token.id) with
      | none => exact List.mem_cons_self
      | some source => exact List.mem_of_find?_eq_some found
    have counted : 0 < row.token.id.headD 0 := by
      rw [← resolved.ids, native]
      exact (own first (native ▸ List.mem_cons_self)).counted
    rcases List.mem_map.mp member with ⟨item, _, rfl⟩
    exact componentWord_labelled counting source (counting.mappedId_pos counted) item
  · rcases List.mem_map.mp member with ⟨word, isWord, rfl⟩
    exact (own word isWord).renumber counting

variable [PythonText]

theorem normalizeItalianLegacyMwts_labelled (labelled : ∀ word ∈ words, Labelled word)
    (tokens : List Token) :
    ∀ word ∈ (normalizeItalianLegacyMwts words tokens).words, Labelled word := by
  unfold normalizeItalianLegacyMwts
  split
  · exact labelled
  · rename_i rows found
    split
    · exact labelled
    · rcases rows_resolved found with ⟨_, resolved⟩
      have counting : Counting (legacyIds 1 [] rows) := by
        apply legacyIds_counting _ one_pos Counting.nil
        intro row isRow id isId
        rw [← (resolved row isRow).ids] at isId
        rcases List.mem_map.mp isId with ⟨word, isWord, rfl⟩
        exact (labelled word ((resolved row isRow).mem word isWord)).counted
      intro new member
      rcases List.mem_flatMap.mp member with ⟨rewritten, isRewritten, inside⟩
      rcases List.mem_map.mp isRewritten with ⟨row, isRow, rfl⟩
      exact rewriteRow_labelled counting (resolved row isRow) labelled new inside

end Legacy

section Components

variable [PythonText] {words : List NormalizedWord}

/-- Only the analysis of a word is another one. -/
theorem normalizeItalianMwtComponents_labelled (labelled : ∀ word ∈ words, Labelled word)
    (tokens : List Token) :
    ∀ word ∈ (normalizeItalianMwtComponents words tokens).1, Labelled word := by
  intro new member
  rcases List.mem_map.mp member with ⟨rewritten, isRewritten, rfl⟩
  rcases List.mem_map.mp isRewritten with ⟨word, isWord, rfl⟩
  split
  · exact labelled word isWord
  · exact (labelled word isWord).congr (labelled word isWord).counted rfl Iff.rfl

end Components

section FalseMwts

variable {words : List NormalizedWord} {tokens : List Token} {oldToNew : List (ℕ × ℕ)}
  {collapses : List (ℕ × Collapse)}

/-- What is collected under the id of a first word. -/
structure Collapse.Of (words : List NormalizedWord) (tokens : List Token) (first : ℕ)
    (collapse : Collapse) : Prop where
  token : collapse.token ∈ tokens
  ids : collapse.ids = collapse.token.id
  first : collapse.ids.head? = some first
  resolved : ∀ id ∈ collapse.ids, ∃ word ∈ words, word.id = id

theorem collapsedIds_counting (counted : ∀ word ∈ words, 0 < word.id)
    (listed : ∀ entry ∈ collapses, ∀ id ∈ entry.2.ids, 0 < id) {nextId : ℕ} (toOne : 0 < nextId)
    (counting : Counting oldToNew) : Counting (collapsedIds collapses nextId oldToNew words) := by
  induction words generalizing nextId oldToNew with
  | nil => exact counting
  | cons word words ih =>
      have later : ∀ word ∈ words, 0 < word.id := fun other member =>
        counted other (List.mem_cons_of_mem _ member)
      rw [collapsedIds]
      split
      · apply ih later (Nat.succ_pos nextId)
        exact counting.set (counted word List.mem_cons_self) toOne
      · rename_i containing found
        split
        · exact ih later toOne counting
        · apply ih later (Nat.succ_pos nextId)
          rcases List.mem_map.mp (List.mem_of_find?_eq_some found) with ⟨entry, isEntry, rfl⟩
          apply List.foldlRecOn
          · exact counting
          · intro ids counting' oldId member
            exact counting'.set (listed entry isEntry oldId member) toOne

theorem collapseWord_labelled (counting : Counting oldToNew)
    (labelled : ∀ word ∈ words, Labelled word) {word : NormalizedWord} (isWord : word ∈ words)
    {rewritten : NormalizedWord × List AnalysisAnomaly}
    (collapsed : collapseWord words collapses oldToNew word = some rewritten) :
    Labelled rewritten.1 := by
  unfold collapseWord at collapsed
  split at collapsed
  · rename_i collapse _
    cases collapsed
    have sample : Labelled ((wordById words (collapse.ids.headD 0)).getD word) := by
      cases found : wordById words (collapse.ids.headD 0) with
      | none => exact labelled word isWord
      | some sample => exact labelled sample (wordById_mem found).1
    apply sample.congr
    · exact counting.mappedId_pos sample.counted
    · rfl
    · exact counting.mappedId_eq_zero _
  · split at collapsed
    · cases collapsed
    · cases collapsed
      exact (labelled word isWord).renumber counting

variable [PythonText]

theorem falseMwtCollapses_of :
    ∀ entry ∈ falseMwtCollapses words tokens, entry.2.Of words tokens entry.1 := by
  unfold falseMwtCollapses
  refine List.foldlRecOn (motive := fun collapses : List (ℕ × Collapse) =>
    ∀ entry ∈ collapses, entry.2.Of words tokens entry.1) tokens _ ?_ ?_
  · intro entry member
    cases member
  · intro collapses collected token isToken entry member
    split at member
    · rename_i rule first second rest _ ids
      split at member
      · rename_i resolved
        rcases mem_dictSet member with rfl | earlier
        · refine ⟨isToken, ids.symm, rfl, fun id isId => ?_⟩
          rcases Option.isSome_iff_exists.mp (resolved id isId) with ⟨word, found⟩
          exact ⟨word, wordById_mem found⟩
        · exact collected entry earlier
      · exact collected entry member
    · exact collected entry member

theorem normalizeItalianFalseMwts_labelled (labelled : ∀ word ∈ words, Labelled word) :
    ∀ word ∈ (normalizeItalianFalseMwts words tokens).words, Labelled word := by
  unfold normalizeItalianFalseMwts
  dsimp only
  split
  · exact labelled
  · have counting : Counting (collapsedIds (falseMwtCollapses words tokens) 1 [] words) := by
      apply collapsedIds_counting _ _ one_pos Counting.nil
      · exact fun word isWord => (labelled word isWord).counted
      · intro entry isEntry id isId
        rcases (falseMwtCollapses_of entry isEntry).resolved id isId with ⟨word, isWord, rfl⟩
        exact (labelled word isWord).counted
    intro new member
    rcases List.mem_map.mp member with ⟨rewritten, isRewritten, rfl⟩
    rcases List.mem_filterMap.mp isRewritten with ⟨word, isWord, collapsed⟩
    exact collapseWord_labelled counting labelled isWord collapsed

end FalseMwts

section English

variable {part possessor verb oldRoot word : NormalizedWord}

variable [PythonText]

/-- The words that the rescue hangs on the verb are no roots, and the verb becomes the root. -/
theorem rescueProgressive_labelled (isVerb : 0 < verb.id) (isRoot : 0 < oldRoot.id)
    (labelled : Labelled word) :
    Labelled (rescueProgressive part possessor verb oldRoot word) := by
  unfold rescueProgressive
  split_ifs with isPart isPossessor isGerund wasRoot dependent
  · exact Labelled.of_plain labelled.counted isVerb.ne' (by simp [plainDeprels])
  · exact Labelled.of_plain labelled.counted isVerb.ne' (by simp [plainDeprels])
  · constructor
    · exact labelled.counted
    · simp [isRootLabel_iff]
    · simp
  · exact Labelled.of_plain labelled.counted isVerb.ne' (by simp [plainDeprels])
  · have hung : word.head = oldRoot.id := dependent.2.1
    have both : verb.id = 0 ↔ word.head = 0 := by omega
    exact labelled.congr labelled.counted rfl both
  · exact labelled

theorem applyEnglishCopulaProgressive_labelled {words : List NormalizedWord}
    (labelled : ∀ word ∈ words, Labelled word) (tokens : List Token) :
    ∀ word ∈ (applyEnglishCopulaProgressive words tokens).1, Labelled word := by
  unfold applyEnglishCopulaProgressive
  split
  · exact labelled
  · split
    · exact labelled
    · split
      · rename_i part verb parts nouns
        split
        · rename_i possessor oldRoot _ roots
          split
          · have isVerb : verb ∈ words :=
              (List.mem_filter.mp (nouns ▸ List.mem_singleton_self verb)).1
            have isRoot : oldRoot ∈ words :=
              (List.mem_filter.mp (roots ▸ List.mem_singleton_self oldRoot)).1
            intro new member
            rcases List.mem_map.mp member with ⟨word, isWord, rfl⟩
            exact rescueProgressive_labelled (labelled verb isVerb).counted
              (labelled oldRoot isRoot).counted (labelled word isWord)
          · exact labelled
        · exact labelled
      · exact labelled

end English

section Sentence

variable [PythonText]

/-- The words that are rendered are labelled. -/
theorem rewriteSentence_labelled {words : List NormalizedWord}
    (labelled : ∀ word ∈ words, Labelled word) (lang : String)
    (authoritativeWords : Option (List String)) (tokens : List Token) :
    ∀ word ∈ (rewriteSentence lang authoritativeWords words tokens).words, Labelled word := by
  unfold rewriteSentence
  split
  · apply normalizeItalianFalseMwts_labelled
    apply normalizeItalianMwtComponents_labelled
    apply normalizeItalianLegacyMwts_labelled
    apply normalizeItalianCompoundImperatives_labelled
    exact labelled
  · split
    · exact applyEnglishCopulaProgressive_labelled labelled tokens
    · exact labelled

end Sentence

end Batchalign.Morphosyntax
