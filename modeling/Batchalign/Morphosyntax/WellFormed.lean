import Batchalign.Morphosyntax.Ascii
import Batchalign.Morphosyntax.Relations

/-!
# Well-formed relations

The relations of an utterance are well formed exactly if the root has a unit, no word with a unit
hangs on itself or on a word without one in front of the root, and the first unit is not joined
to one in front of it. A parse can be a tree without this: a word that is left out may be the head
of another before the root has been seen, and then two relations go to 0.
-/

namespace Batchalign.Morphosyntax

open Fallible Numbering PythonText Runners

section Sound

/-- The relations of the units, in their order, and the one of the terminator. -/
def relationsOf (units : List MorphosyntaxUnit) (terminator : GraTerminator) :
    List (ℕ × ℕ × String) :=
  units.map (fun unit => (unit.index, unit.head, unit.deprel)) ++
    [(terminator.index, terminator.head, terminator.deprel)]

/-- The relations are numbered from 1, hang on one another, and one of them is the root, on which
the terminator hangs. -/
structure WellFormed (units : List MorphosyntaxUnit) (terminator : GraTerminator) : Prop where
  indices : (relationsOf units terminator).map Prod.fst =
    List.range' 1 (relationsOf units terminator).length
  heads : ∀ relation ∈ relationsOf units terminator,
    relation.2.1 ≤ (relationsOf units terminator).length ∧ relation.2.1 ≠ relation.1
  root : ∃ root, (relationsOf units terminator).filter (·.2.1 = 0) = [root] ∧
    (relationsOf units terminator).filter (·.2.2 = "ROOT") = [root] ∧ terminator.head = root.1

variable [PythonText] [MorHandlers]

/-- Where the relations of a sentence come out well formed. The root has a unit, no word with a
unit hangs on itself or on a word without one in front of the root, and the first word with a unit
is not joined to another. -/
structure Sound (lang : String) (words : List NormalizedWord) (tokens : List Token) : Prop where
  rootUnit : ∀ word ∈ words, word.head = 0 → hasUnit lang word = true
  noLoop : ∀ word ∈ words, hasUnit lang word = true → word.head ≠ word.id
  behindRoot : ∀ word ∈ words, hasUnit lang word = true → ∀ head ∈ words, head.id = word.head →
    hasUnit lang head = false → ∀ root ∈ words, root.head = 0 → root.id < head.id
  firstApart : ∀ first : ℕ, words.findIdx? (hasUnit lang) = some first →
    ¬ JoinedAt lang tokens first

variable {lang : String} {root : ℕ} {words : List NormalizedWord}
  {tokens : List Token} {order : List ℕ} {units : List MorphosyntaxUnit}
  {terminator : GraTerminator}

/-- The numbers of the relations are right exactly if the units keep the order of the words. -/
theorem Emission.indices_iff (emission : Emission lang words tokens root order units)
    (last : terminator.index = words.countP (hasUnit lang) + 1) :
    (relationsOf units terminator).map Prod.fst =
        List.range' 1 (relationsOf units terminator).length ↔
      order = positions (hasUnit lang) words := by
  have indices : (relationsOf units terminator).map Prod.fst =
      order.map (number (hasUnit lang) words) ++ [words.countP (hasUnit lang) + 1] := by
    rw [← emission.indices, ← last]
    simp [relationsOf]
  have length : (relationsOf units terminator).length = order.length + 1 := by
    have same := congrArg List.length indices
    simpa using same
  rw [indices, length, List.range'_concat, Nat.one_mul]
  constructor
  · intro counts
    have split := List.append_inj' counts rfl
    have count : order.length = words.countP (hasUnit lang) := by
      have end_ := split.2
      simp only [List.cons.injEq, and_true] at end_
      omega
    rw [count] at split
    exact eq_positions_of_map_number emission.kept split.1
  · rintro rfl
    rw [map_number_positions, length_positions, Nat.add_comm 1]

variable {place : ℕ} {word rootWord : NormalizedWord} {unit : MorphosyntaxUnit}

omit [PythonText] [MorHandlers] in
theorem Numbered.id_eq (numbered : Numbered words tokens) (here : words[place]? = some word) :
    word.id = place + 1 := by
  have entry := congrArg (·[place]?) numbered.counted
  have inside := (List.getElem?_eq_some_iff.mp here).1
  simp only [List.getElem?_map, here, Option.map_some, List.length_map] at entry
  rw [List.getElem?_range' inside] at entry
  have same := Option.some.inj entry
  omega

omit [PythonText] [MorHandlers] in
theorem RootAt.head_eq_zero_iff (rootAt : RootAt words root)
    (labelled : ∀ word ∈ words, Labelled word) (here : words[place]? = some word) :
    word.head = 0 ↔ place = root := by
  rw [← (labelled word (List.mem_of_getElem? here)).root, rootAt place word here]

/-- The root goes to 0, every other unit to the number of another word with a unit. -/
theorem Sound.emitted (sound : Sound lang words tokens) (numbered : Numbered words tokens)
    (labelled : ∀ word ∈ words, Labelled word) (rootAt : RootAt words root)
    (isRoot : words[root]? = some rootWord) (here : words[place]? = some word)
    (kept : hasUnit lang word = true) (emits : Emits lang words root place word unit) :
    (place = root ∧ unit.head = 0 ∧ unit.deprel = "ROOT") ∨
      (place ≠ root ∧ unit.deprel ≠ "ROOT" ∧ ∃ target ∈ positions (hasUnit lang) words,
        target ≠ place ∧ unit.head = number (hasUnit lang) words target) := by
  have isWord := List.mem_of_getElem? here
  have rootWord_mem := List.mem_of_getElem? isRoot
  have rootHead : rootWord.head = 0 := (rootAt.head_eq_zero_iff labelled isRoot).mpr rfl
  have rootKept := sound.rootUnit rootWord rootWord_mem rootHead
  by_cases zero : word.head = 0
  · exact Or.inl ⟨(rootAt.head_eq_zero_iff labelled here).mp zero, emits.isRoot zero⟩
  · have apart : place ≠ root := fun same =>
      zero ((rootAt.head_eq_zero_iff labelled here).mpr same)
    rcases emits.hangs zero with ⟨inRange, head, label⟩
    have inside : word.head - 1 < words.length := by omega
    have target : words[word.head - 1]? = some words[word.head - 1] :=
      List.getElem?_eq_getElem inside
    have targetId := numbered.id_eq target
    have ownId := numbered.id_eq here
    have rootId := numbered.id_eq isRoot
    refine Or.inr ⟨apart, label, ?_⟩
    rw [head, resolvedNumber, target, Option.any_some]
    by_cases hasOne : hasUnit lang words[word.head - 1] = true
    · refine ⟨word.head - 1, mem_positions.mpr ⟨_, target, hasOne⟩, fun same => ?_, if_pos hasOne⟩
      have loop := sound.noLoop word isWord kept
      omega
    · have behind := sound.behindRoot word isWord kept _ (List.mem_of_getElem? target) (by omega)
        (Bool.eq_false_iff.mpr hasOne) rootWord rootWord_mem rootHead
      refine ⟨root, mem_positions.mpr ⟨rootWord, isRoot, rootKept⟩, Ne.symm apart, ?_⟩
      rw [if_neg hasOne, rootNumber, if_pos ⟨by omega, by simpa [isRoot] using rootKept⟩]

omit [PythonText] [MorHandlers] in
theorem mem_relationsOf {relation : ℕ × ℕ × String} :
    relation ∈ relationsOf units terminator ↔
      (∃ unit ∈ units, relation = (unit.index, unit.head, unit.deprel)) ∨
        relation = (terminator.index, terminator.head, terminator.deprel) := by
  unfold relationsOf
  rw [List.mem_append, List.mem_map, List.mem_singleton]
  simp only [eq_comm]

/-- What the terminator is given. -/
structure Terminates (lang : String) (words : List NormalizedWord) (root : ℕ)
    (terminator : GraTerminator) : Prop where
  index : terminator.index = words.countP (hasUnit lang) + 1
  head : terminator.head = rootNumber lang words root words.length
  deprel : terminator.deprel = "PUNCT"

theorem Emission.wellFormed (emission : Emission lang words tokens root order units)
    (terminates : Terminates lang words root terminator) (numbered : Numbered words tokens)
    (labelled : ∀ word ∈ words, Labelled word) (rootAt : RootAt words root)
    (isRoot : words[root]? = some rootWord) (sound : Sound lang words tokens) :
    WellFormed units terminator := by
  have inOrder : order = positions (hasUnit lang) words := by
    cases head : (positions (hasUnit lang) words).head? with
    | none =>
        rw [List.head?_eq_none_iff] at head
        rw [head, List.eq_nil_iff_forall_not_mem]
        intro place member
        exact absurd (head ▸ emission.kept place member) List.not_mem_nil
    | some first =>
        exact (emission.inOrder first head).mpr (sound.firstApart first (head?_positions ▸ head))
  have indices := (emission.indices_iff terminates.index).mpr inOrder
  have rootKept : hasUnit lang rootWord = true := by
    apply sound.rootUnit rootWord (List.mem_of_getElem? isRoot)
    exact (rootAt.head_eq_zero_iff labelled isRoot).mpr rfl
  have lastHead : terminator.head = number (hasUnit lang) words root := by
    have inside := (List.getElem?_eq_some_iff.mp isRoot).1
    rw [terminates.head, rootNumber, if_pos ⟨inside, by simpa [isRoot] using rootKept⟩]
  have rootPosition : root ∈ positions (hasUnit lang) words :=
    mem_positions.mpr ⟨rootWord, isRoot, rootKept⟩
  have nodup : (relationsOf units terminator).Nodup := by
    apply List.Nodup.of_map Prod.fst
    rw [indices]
    exact List.nodup_range'
  have isRelation : (number (hasUnit lang) words root, 0, "ROOT") ∈
      relationsOf units terminator := by
    rcases emission.ofPlace root (inOrder ▸ rootPosition) with ⟨unit, isUnit, word, here, emits⟩
    have zero := (rootAt.head_eq_zero_iff labelled here).mpr rfl
    rw [← (emits.isRoot zero).1, ← (emits.isRoot zero).2, ← emits.index]
    exact mem_relationsOf.mpr (Or.inl ⟨unit, isUnit, by rw [(emits.isRoot zero).1]⟩)
  have inRange : ∀ target ∈ positions (hasUnit lang) words,
      number (hasUnit lang) words target ≤ (relationsOf units terminator).length := by
    intro target member
    have listed : number (hasUnit lang) words target ∈
        (relationsOf units terminator).map Prod.fst := by
      rcases emission.ofPlace target (inOrder ▸ member) with ⟨unit, isUnit, word, here, emits⟩
      rw [← emits.index]
      exact List.mem_map_of_mem (f := Prod.fst) (mem_relationsOf.mpr (Or.inl ⟨unit, isUnit, rfl⟩))
    rw [indices, List.mem_range'_1] at listed
    omega
  have each : ∀ relation ∈ relationsOf units terminator,
      relation = (number (hasUnit lang) words root, 0, "ROOT") ∨
        relation.2.2 ≠ "ROOT" ∧ ∃ target ∈ positions (hasUnit lang) words,
          relation.2.1 = number (hasUnit lang) words target ∧ relation.2.1 ≠ relation.1 := by
    intro relation member
    rcases mem_relationsOf.mp member with ⟨unit, isUnit, rfl⟩ | rfl
    · rcases emission.ofUnit unit isUnit with ⟨place, isPlace, word, here, emits⟩
      have position := emission.kept place isPlace
      rcases mem_positions.mp position with ⟨other, here', kept⟩
      obtain rfl : word = other := Option.some.inj (here.symm.trans here')
      rcases sound.emitted numbered labelled rootAt isRoot here kept emits with
        ⟨rfl, zero, label⟩ | ⟨_, label, target, isTarget, apart, head⟩
      · left
        rw [zero, label, emits.index]
      · right
        refine ⟨label, target, isTarget, head, ?_⟩
        rw [head, emits.index]
        exact fun same => apart (number_injOn isTarget position same)
    · right
      refine ⟨?_, root, rootPosition, lastHead, ?_⟩
      · simp [terminates.deprel]
      · have before := number_le rootPosition
        have index := terminates.index
        dsimp only
        omega
  refine ⟨indices, fun relation member => ?_,
    (number (hasUnit lang) words root, 0, "ROOT"), ?_, ?_, lastHead⟩
  · rcases each relation member with rfl | ⟨_, target, isTarget, head, apart⟩
    · exact ⟨Nat.zero_le _, number_pos.ne⟩
    · exact ⟨head ▸ inRange target isTarget, apart⟩
  · refine filter_eq_singleton nodup isRelation fun relation member => ?_
    rw [decide_eq_true_eq]
    constructor
    · intro zero
      rcases each relation member with same | ⟨_, target, _, head, _⟩
      · exact same
      · exact absurd (head.symm.trans zero) number_pos.ne'
    · rintro rfl
      rfl
  · refine filter_eq_singleton nodup isRelation fun relation member => ?_
    rw [decide_eq_true_eq]
    constructor
    · intro label
      rcases each relation member with same | ⟨other, _⟩
      · exact same
      · exact absurd label other
    · rintro rfl
      rfl

/-- Well-formed relations come of a sound sentence only. -/
theorem Emission.sound (emission : Emission lang words tokens root order units)
    (terminates : Terminates lang words root terminator) (numbered : Numbered words tokens)
    (labelled : ∀ word ∈ words, Labelled word) (rootAt : RootAt words root)
    (wellFormed : WellFormed units terminator) : Sound lang words tokens := by
  have inOrder := (emission.indices_iff terminates.index).mp wellFormed.indices
  rcases wellFormed.root with ⟨relation, zeros, roots, _⟩
  have isRelation : relation ∈ relationsOf units terminator ∧ relation.2.2 = "ROOT" := by
    have member : relation ∈ (relationsOf units terminator).filter (·.2.2 = "ROOT") :=
      roots ▸ List.mem_singleton_self relation
    simpa using List.mem_filter.mp member
  have emitted : ∀ {place : ℕ} {word : NormalizedWord}, words[place]? = some word →
      hasUnit lang word = true → ∃ unit ∈ units, Emits lang words root place word unit := by
    intro place word here kept
    have position : place ∈ order := inOrder ▸ mem_positions.mpr ⟨word, here, kept⟩
    rcases emission.ofPlace place position with ⟨unit, isUnit, other, here', emits⟩
    obtain rfl : word = other := Option.some.inj (here.symm.trans here')
    exact ⟨unit, isUnit, emits⟩
  have notZero : ∀ {place : ℕ} {word : NormalizedWord} {unit : MorphosyntaxUnit}, unit ∈ units →
      Emits lang words root place word unit → word.head ≠ 0 → unit.head ≠ 0 := by
    intro place word unit isUnit emits hangs zero
    have member : (unit.index, unit.head, unit.deprel) ∈
        (relationsOf units terminator).filter (·.2.1 = 0) :=
      List.mem_filter.mpr ⟨mem_relationsOf.mpr (Or.inl ⟨unit, isUnit, rfl⟩), by simpa using zero⟩
    rw [zeros, List.mem_singleton] at member
    apply (emits.hangs hangs).2.2
    rw [← isRelation.2, ← member]
  constructor
  · intro word isWord zero
    rcases mem_relationsOf.mp isRelation.1 with ⟨unit, isUnit, same⟩ | same
    · rcases emission.ofUnit unit isUnit with ⟨place, isPlace, other, here, emits⟩
      have isRoot : other.head = 0 := by
        by_contra hangs
        apply (emits.hangs hangs).2.2
        rw [← isRelation.2, same]
      rcases mem_positions.mp (emission.kept place isPlace) with ⟨kept, here', hasOne⟩
      rcases List.getElem?_of_mem isWord with ⟨ownPlace, own⟩
      have placeRoot := (rootAt.head_eq_zero_iff labelled here).mp isRoot
      have ownRoot := (rootAt.head_eq_zero_iff labelled own).mp zero
      obtain rfl : kept = word := by
        rw [placeRoot, ← ownRoot, own] at here'
        exact (Option.some.inj here').symm
      exact hasOne
    · exfalso
      have label := isRelation.2
      simp [same, terminates.deprel] at label
  · intro word isWord kept loop
    rcases List.getElem?_of_mem isWord with ⟨place, here⟩
    have id := numbered.id_eq here
    rcases emitted here kept with ⟨unit, isUnit, emits⟩
    have hangs : word.head ≠ 0 := by omega
    have own := wellFormed.heads _ (mem_relationsOf.mpr (Or.inl ⟨unit, isUnit, rfl⟩))
    apply own.2
    have target : word.head - 1 = place := by omega
    dsimp only
    rw [(emits.hangs hangs).2.1, target, resolvedNumber, here, emits.index]
    exact if_pos kept
  · intro word isWord kept head isHead headId noUnit rootWord isRootWord zero
    rcases List.getElem?_of_mem isWord with ⟨place, here⟩
    rcases List.getElem?_of_mem isHead with ⟨headPlace, headHere⟩
    rcases List.getElem?_of_mem isRootWord with ⟨rootPlace, rootHere⟩
    have headAt := numbered.id_eq headHere
    have rootPlaced := numbered.id_eq rootHere
    have rootIs := (rootAt.head_eq_zero_iff labelled rootHere).mp zero
    have hangs : word.head ≠ 0 := by omega
    rcases emitted here kept with ⟨unit, isUnit, emits⟩
    have target : word.head - 1 = headPlace := by omega
    by_contra before
    apply notZero isUnit emits hangs
    rw [(emits.hangs hangs).2.1, target, resolvedNumber, headHere, Option.any_some, noUnit,
      if_neg (by simp), rootNumber, if_neg fun both => by omega]
  · intro first found
    exact (emission.inOrder first (head?_positions.trans found)).mp inOrder

end Sound

section Sentence

variable [PythonText] [LawfulPythonText]

/-- One root was counted, and it is the word that is labelled so. -/
theorem rootAt_of_validate {words : List NormalizedWord} (nonempty : words ≠ [])
    (labelled : ∀ word ∈ words, Labelled word) (valid : validateRootStructure words = .ok ()) :
    ∃ root rootWord, RootAt words root ∧ words[root]? = some rootWord := by
  have one : (rootWords words).length = 1 := by
    by_contra several
    unfold validateRootStructure at valid
    rw [if_pos ⟨nonempty, several⟩] at valid
    cases valid
  rw [rootWords, ← List.countP_eq_length_filter, ← length_positions,
    List.length_eq_one_iff] at one
  rcases one with ⟨root, isRoot⟩
  rcases mem_positions.mp (isRoot ▸ List.mem_singleton_self root) with ⟨rootWord, rootHere, _⟩
  refine ⟨root, rootWord, fun place word here => ?_, rootHere⟩
  have label := (labelled word (List.mem_of_getElem? here)).root
  rw [← List.mem_singleton, ← isRoot, mem_positions]
  constructor
  · intro isLabel
    refine ⟨word, here, ?_⟩
    simpa [LawfulPythonText.lower_eq_root] using And.intro (label.mp isLabel) isLabel
  · rintro ⟨other, here', counted⟩
    obtain rfl : word = other := Option.some.inj (here.symm.trans here')
    have both : word.head = 0 ∧ lower word.deprel = "root" := by simpa using counted
    exact label.mpr both.1

/-- The words are numbered from 1, and the tokens go over them in their order. -/
structure Partitioned (sentence : StanzaSentence) : Prop where
  ids : sentence.words.map (·.id) = (List.range' 1 sentence.words.length).map some
  spans : sentence.tokens.flatMap (·.id) = List.range' 1 sentence.words.length

/-- A parse as Stanza gives it: every word but one hangs on another, and there is no cycle. -/
structure TreeShaped (sentence : StanzaSentence) : Prop extends Partitioned sentence where
  tokens : ∀ token ∈ sentence.tokens, token.id ≠ []
  heads : ∀ word ∈ sentence.words, ∃ head : ℕ, word.head = some (head : ℤ) ∧
    head ≤ sentence.words.length ∧ word.id ≠ some head
  oneRoot : (sentence.words.filter (·.head = some 0)).length = 1
  acyclic : ∃ depth : ℕ → ℕ, ∀ word ∈ sentence.words, ∀ (id head : ℕ), word.id = some id →
    word.head = some (head : ℤ) → head ≠ 0 → depth head < depth id

/-- The words and tokens that are rendered. -/
def rewrittenOf (sentence : StanzaSentence) (lang : String)
    (authoritativeWords : Option (List String)) : Rewritten :=
  rewriteSentence lang authoritativeWords (normalizeWords sentence.words).1 sentence.tokens

theorem Partitioned.labelled {sentence : StanzaSentence} (partitioned : Partitioned sentence)
    (lang : String) (authoritativeWords : Option (List String)) :
    ∀ word ∈ (rewrittenOf sentence lang authoritativeWords).words, Labelled word := by
  apply rewriteSentence_labelled
  apply normalizeWords_labelled
  intro word isWord id isId
  have listed : some id ∈ sentence.words.map (·.id) := isId ▸ List.mem_map_of_mem isWord
  rw [partitioned.ids] at listed
  rcases List.mem_map.mp listed with ⟨counted, inRange, same⟩
  rw [List.mem_range'_1] at inRange
  have positive : id = counted := (Option.some.inj same).symm
  omega

omit [LawfulPythonText] in
theorem Partitioned.normalized {sentence : StanzaSentence} (partitioned : Partitioned sentence) :
    Numbered (normalizeWords sentence.words).1 sentence.tokens := by
  have ids := normalizeWords_ids partitioned.ids
  exact ⟨ids ▸ countsFrom_range' _, partitioned.spans.trans ids.symm⟩

omit [LawfulPythonText] in
theorem Partitioned.numbered {sentence : StanzaSentence} (partitioned : Partitioned sentence)
    (lang : String) (authoritativeWords : Option (List String)) :
    Numbered (rewrittenOf sentence lang authoritativeWords).words
      (rewrittenOf sentence lang authoritativeWords).tokens :=
  rewriteSentence_numbered partitioned.normalized lang authoritativeWords

variable [MorHandlers]

/-- The relations of an output are well formed. -/
def OutputWellFormed (output : MorphosyntaxOutput) : Prop :=
  ∃ terminator, output.terminator = some terminator ∧
    WellFormed (output.tokens.flatMap (·.units)) terminator

theorem words_ne_nil {lang : String} {specialForms : List (String × String)}
    {words : List NormalizedWord} {tokens : List Token} {groups : List MorWordGroup}
    {terminator : ℕ × ℕ × String} (labelled : ∀ word ∈ words, Labelled word)
    (numbered : Numbered words tokens) (nonempty : groups ≠ [])
    (rendered : renderWords lang specialForms words tokens = .ok (groups, terminator)) :
    words ≠ [] := by
  rintro rfl
  have nowhere : RootAt [] 0 := by simp [RootAt]
  rcases (renderWords_emission labelled numbered nowhere rendered).1 with ⟨order, emission⟩
  have noUnits : groups.flatMap (·.units) = [] := by
    rw [List.eq_nil_iff_forall_not_mem]
    intro unit member
    rcases emission.ofUnit _ (List.mem_map_of_mem member) with ⟨place, _, word, here, _⟩
    simp at here
  rcases List.exists_mem_of_ne_nil groups nonempty with ⟨group, member⟩
  rcases bind_eq_ok_iff.mp rendered with ⟨_, _, rendered⟩
  rcases bind_eq_ok_iff.mp rendered with ⟨_, _, rendered⟩
  rcases bind_eq_ok_iff.mp rendered with ⟨_, _, rendered⟩
  rcases bind_eq_ok_iff.mp rendered with ⟨_, _, rendered⟩
  cases rendered
  exact materializeGroup_nonempty member (List.flatMap_eq_nil_iff.mp noUnits group member)

/-- The relations that are emitted for a sentence are well formed exactly if the sentence is
sound after the passes for its language. -/
theorem outputWellFormed_iff {sentence : StanzaSentence} (partitioned : Partitioned sentence)
    (specialForms : List (String × String)) (lang : String)
    (authoritativeWords : Option (List String)) (item : MorphosyntaxInput)
    {analysis : SentenceAnalysis}
    (parsed : parseSentence sentence specialForms lang authoritativeWords = .ok analysis)
    (nonempty : analysis.words ≠ []) :
    OutputWellFormed (analysisToOutput item analysis) ↔
      Sound lang (rewrittenOf sentence lang authoritativeWords).words
        (rewrittenOf sentence lang authoritativeWords).tokens := by
  have labelled := partitioned.labelled lang authoritativeWords
  have numbered := partitioned.numbered lang authoritativeWords
  rcases bind_eq_ok_iff.mp parsed with ⟨_, valid, parsed⟩
  rcases bind_eq_ok_iff.mp parsed with ⟨⟨groups, terminator⟩, rendered, parsed⟩
  have notEmpty : groups ≠ [] := by
    rintro rfl
    apply nonempty
    rw [← Except.ok.inj parsed]
    rfl
  have isEmpty : groups.isEmpty = false := by simpa using notEmpty
  dsimp only at parsed
  rw [isEmpty, if_neg (by simp)] at parsed
  obtain rfl := Except.ok.inj parsed
  have someWords := words_ne_nil labelled numbered notEmpty rendered
  rcases rootAt_of_validate someWords labelled valid with ⟨root, rootWord, rootAt, isRoot⟩
  rcases renderWords_emission labelled numbered rootAt rendered with ⟨⟨order, emission⟩, rfl⟩
  set words := (rewrittenOf sentence lang authoritativeWords).words with wordsDef
  have terminates : Terminates lang words root (outputTerminator
      (words.countP (hasUnit lang) + 1, rootNumber lang words root words.length, "PUNCT")) := by
    have notRoot : lower "PUNCT" ≠ "root" := by
      rw [Ne, LawfulPythonText.lower_eq_root, isRootLabel_iff]
      decide
    exact ⟨rfl, if_neg notRoot, rfl⟩
  have units : (groups.map fun word =>
      (⟨word.text, word.units.map outputUnit⟩ : MorphosyntaxToken)).flatMap (·.units) =
        (groups.flatMap (·.units)).map outputUnit := by
    rw [List.flatMap_map, List.map_flatMap]
  unfold OutputWellFormed analysisToOutput
  dsimp only
  rw [isEmpty, units, if_neg (by simp), Option.map_some]
  constructor
  · rintro ⟨terminator, same, wellFormed⟩
    obtain rfl := Option.some.inj same
    exact emission.sound terminates numbered labelled rootAt wellFormed
  · intro sound
    exact ⟨_, rfl, emission.wellFormed terminates numbered labelled rootAt isRoot sound⟩

end Sentence

section Sentences

/-- A handler that writes the part of speech in lower case and keeps the lemma. -/
instance genericHandlers : MorHandlers where
  handler word _ := .ok ⟨asciiMap Char.toLower word.upos, word.lemmaText, []⟩

/-- A word that is its own lemma. -/
def stanzaWord (id : ℕ) (text upos deprel : String) (head : ℕ) : StanzaWord :=
  ⟨some text, some text, some upos, none, some head, some deprel, some id⟩

def taggingItem : MorphosyntaxInput := ⟨"dog.cha", 0, .auto, ["0", "big", "barks"], false, ""⟩

/-- An adjective hangs on a word that is left out, in front of the root. -/
def omittedFirst : StanzaSentence where
  words := [stanzaWord 1 "0" "NUM" "nsubj" 3, stanzaWord 2 "big" "ADJ" "amod" 1,
    stanzaWord 3 "barks" "VERB" "root" 0]
  tokens := [⟨"0", [1]⟩, ⟨"big", [2]⟩, ⟨"barks", [3]⟩]

def omittedAnalysis : SentenceAnalysis where
  words := [⟨"big", [⟨"adj", "big", [], 1, 0, "AMOD"⟩]⟩,
    ⟨"barks", [⟨"verb", "barks", [], 2, 0, "ROOT"⟩]⟩]
  terminator := some (3, 2, "PUNCT")
  anomalies := []

theorem treeShaped_omittedFirst : TreeShaped omittedFirst where
  ids := by decide
  spans := by decide
  tokens := by decide
  heads := by
    simp only [omittedFirst, List.forall_mem_cons]
    exact ⟨⟨3, by decide⟩, ⟨1, by decide⟩, ⟨0, by decide⟩, by simp⟩
  oneRoot := by decide
  acyclic := by
    refine ⟨fun id => if id = 3 then 1 else if id = 1 then 2 else 3, ?_⟩
    simp only [omittedFirst, stanzaWord, List.forall_mem_cons, Option.some.injEq, Nat.cast_inj]
    refine ⟨?_, ?_, ?_, by simp⟩
    · rintro id head rfl rfl _
      decide
    · rintro id head rfl rfl _
      decide
    · rintro id head rfl rfl hangs
      exact absurd rfl hangs

/-- Two relations go to 0, in a parse that is a tree. -/
theorem omittedHead_secondRoot :
    TreeShaped omittedFirst ∧ parseSentence omittedFirst [] "en" none = .ok omittedAnalysis ∧
      omittedAnalysis.words ≠ [] ∧
      ¬ OutputWellFormed (analysisToOutput taggingItem omittedAnalysis) := by
  refine ⟨treeShaped_omittedFirst, by decide +kernel, by decide, ?_⟩
  rintro ⟨terminator, same, wellFormed⟩
  obtain rfl := Option.some.inj same
  rcases wellFormed.root with ⟨root, zeros, _⟩
  have two : ((relationsOf ((analysisToOutput taggingItem omittedAnalysis).tokens.flatMap (·.units))
      (outputTerminator (3, 2, "PUNCT"))).filter (·.2.1 = 0)).length = 2 := by decide +kernel
  rw [zeros] at two
  cases two

def dogsBark : StanzaSentence where
  words := [stanzaWord 1 "dogs" "NOUN" "nsubj" 2, stanzaWord 2 "bark" "VERB" "root" 0]
  tokens := [⟨"dogs", [1]⟩, ⟨"bark", [2]⟩]

def dogsBarkAnalysis : SentenceAnalysis where
  words := [⟨"dogs", [⟨"noun", "dogs", [], 1, 2, "NSUBJ"⟩]⟩,
    ⟨"bark", [⟨"verb", "bark", [], 2, 0, "ROOT"⟩]⟩]
  terminator := some (3, 2, "PUNCT")
  anomalies := []

theorem wellFormed_dogsBark :
    OutputWellFormed (analysisToOutput taggingItem dogsBarkAnalysis) :=
  ⟨outputTerminator (3, 2, "PUNCT"), by decide +kernel,
    by decide +kernel, by decide +kernel,
    (2, 0, "ROOT"), by decide +kernel, by decide +kernel, by decide +kernel⟩

theorem outputWellFormed_dogsBark :
    Sound "en" (rewrittenOf dogsBark "en" none).words (rewrittenOf dogsBark "en" none).tokens :=
  (outputWellFormed_iff ⟨by decide, by decide⟩ [] "en" none taggingItem
    (by decide +kernel : parseSentence dogsBark [] "en" none = .ok dogsBarkAnalysis)
    (by decide)).mp wellFormed_dogsBark

end Sentences

end Batchalign.Morphosyntax
