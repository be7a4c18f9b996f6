import Batchalign.Library.Acyclic
import Batchalign.Morphosyntax.Ascii
import Batchalign.Morphosyntax.Numbers

/-!
# The tree of heads

The heads of a sentence form a tree with one root. The rescue of a progressive hangs the clitic,
the possessor, the old root and its function words on the `-ing` word, and makes that word the
root. This is a tree again unless the possessor is the `-ing` word itself: then the word hangs on
itself, and no root is left.
-/

namespace Batchalign.Morphosyntax

open AcyclicRelation PythonText

section SingleRooted

/-- A word with the first id has the second one as its head. -/
def HangsOn (words : List NormalizedWord) (id head : ℕ) : Prop :=
  ∃ word ∈ words, word.id = id ∧ word.head = head ∧ head ≠ 0

/-- The heads form a tree, and the one word with head 0 is labelled as root. -/
structure SingleRooted [PythonText] (words : List NormalizedWord) : Prop where
  counted : ∀ word ∈ words, 0 < word.id
  nodup : (words.map (·.id)).Nodup
  attached : ∀ word ∈ words, word.head = 0 ∨ word.head ∈ words.map (·.id)
  acyclic : Acyclic (HangsOn words)
  root : ∃ root, words.filter (·.head = 0) = [root] ∧ lower root.deprel = "root"

variable {words : List NormalizedWord} {word other : NormalizedWord}

theorem eq_of_id_eq (nodup : (words.map (·.id)).Nodup) (isWord : word ∈ words)
    (isOther : other ∈ words) (same : word.id = other.id) : word = other :=
  List.inj_on_of_nodup_map nodup isWord isOther same

variable [PythonText]

/-- The root is found by its head and by its label. -/
theorem SingleRooted.exists_root (tree : SingleRooted words) :
    ∃ root ∈ words, root.head = 0 ∧ lower root.deprel = "root" ∧
      (∀ word ∈ words, word.head = 0 → word = root) ∧ rootWords words = [root] := by
  rcases tree.root with ⟨root, isRoot, label⟩
  have isHead : root ∈ words ∧ root.head = 0 := by
    have member : root ∈ words.filter (·.head = 0) := isRoot ▸ List.mem_singleton_self root
    simpa using List.mem_filter.mp member
  refine ⟨root, isHead.1, isHead.2, label, fun word isWord zero => ?_, ?_⟩
  · have member : word ∈ words.filter (·.head = 0) :=
      List.mem_filter.mpr ⟨isWord, by simpa using zero⟩
    rwa [isRoot, List.mem_singleton] at member
  · have both : rootWords words =
        (words.filter (·.head = 0)).filter fun word => lower word.deprel = "root" := by
      rw [rootWords, List.filter_filter]
      refine List.filter_congr fun word _ => ?_
      simp [Bool.and_comm]
    rw [both, isRoot]
    simp [label]

end SingleRooted

section Rescue

variable [PythonText]

/-- What the rescue asks of a sentence. -/
structure Rescues (words : List NormalizedWord) (tokens : List Token)
    (part possessor verb oldRoot : NormalizedWord) : Prop where
  noFinite : (words.any fun word => word.feats.any (isIn "VerbForm=Fin")) = false
  multiword : (tokens.any fun token => 1 < token.id.length) = true
  isPart : possessiveParts words = [part]
  isVerb : ingNouns words = [verb]
  isPossessor : wordById words part.head = some possessor
  isRoot : rootWords words = [oldRoot]
  possesses : possessor.upos ∈ ["NOUN", "PROPN"] ∧ lower possessor.deprel = "nmod:poss"

variable {words : List NormalizedWord} {tokens : List Token}
  {part possessor verb oldRoot word : NormalizedWord}

theorem applyEnglishCopulaProgressive_cases (words : List NormalizedWord) (tokens : List Token) :
    (applyEnglishCopulaProgressive words tokens).1 = words ∨
      ∃ part possessor verb oldRoot, Rescues words tokens part possessor verb oldRoot := by
  unfold applyEnglishCopulaProgressive
  split
  · exact Or.inl rfl
  · rename_i noFinite
    split
    · exact Or.inl rfl
    · rename_i multiword
      split
      · rename_i part verb parts nouns
        split
        · rename_i possessor oldRoot isPossessor roots
          split
          · rename_i possesses
            exact Or.inr ⟨part, possessor, verb, oldRoot, by simpa using noFinite,
              not_not.mp multiword, parts, nouns, isPossessor, roots, possesses⟩
          · exact Or.inl rfl
        · exact Or.inl rfl
      · exact Or.inl rfl

theorem Rescues.result (rescues : Rescues words tokens part possessor verb oldRoot) :
    (applyEnglishCopulaProgressive words tokens).1 =
      words.map (rescueProgressive part possessor verb oldRoot) := by
  rw [applyEnglishCopulaProgressive, rescues.noFinite, rescues.multiword, rescues.isPart,
    rescues.isVerb, rescues.isRoot]
  dsimp only
  rw [rescues.isPossessor]
  simp [rescues.possesses]

/-- What becomes of the head of a word. -/
theorem rescueProgressive_head (part possessor verb oldRoot word : NormalizedWord) :
    ((rescueProgressive part possessor verb oldRoot word).head = verb.id ∧
        (word.id = part.id ∨ word.id = possessor.id ∨ word.id ≠ verb.id)) ∨
      (word.id = verb.id ∧ word.id ≠ part.id ∧ word.id ≠ possessor.id ∧
        (rescueProgressive part possessor verb oldRoot word).head = 0 ∧
        (rescueProgressive part possessor verb oldRoot word).deprel = "root") ∨
      (word.id ≠ verb.id ∧ word.id ≠ oldRoot.id ∧
        (rescueProgressive part possessor verb oldRoot word).head = word.head) := by
  unfold rescueProgressive
  split_ifs with isPart isPossessor isVerb wasRoot dependent
  · exact Or.inl ⟨rfl, Or.inl isPart⟩
  · exact Or.inl ⟨rfl, Or.inr (Or.inl isPossessor)⟩
  · exact Or.inr (Or.inl ⟨isVerb, isPart, isPossessor, rfl, rfl⟩)
  · exact Or.inl ⟨rfl, Or.inr (Or.inr isVerb)⟩
  · exact Or.inl ⟨rfl, Or.inr (Or.inr isVerb)⟩
  · refine Or.inr (Or.inr ⟨isVerb, fun same => wasRoot ⟨same, ?_⟩, rfl⟩)
    rw [← same]
    exact isVerb

theorem rescueProgressive_id :
    (rescueProgressive part possessor verb oldRoot word).id = word.id ∧
      (rescueProgressive part possessor verb oldRoot word).text = word.text := by
  unfold rescueProgressive
  split_ifs <;> exact ⟨rfl, rfl⟩

/-- The words that take part in a rescue. -/
structure Rescues.Roles (words : List NormalizedWord)
    (part possessor verb oldRoot : NormalizedWord) : Prop where
  verb_mem : verb ∈ words
  root_mem : oldRoot ∈ words
  root_head : oldRoot.head = 0
  onlyRoot : ∀ word ∈ words, word.head = 0 → word = oldRoot
  part_ne : part.id ≠ verb.id
  possessor_ne : possessor.id ≠ oldRoot.id

theorem Rescues.roles (rescues : Rescues words tokens part possessor verb oldRoot)
    (tree : SingleRooted words) : Roles words part possessor verb oldRoot := by
  have isPart : part ∈ possessiveParts words := rescues.isPart ▸ List.mem_singleton_self part
  have isVerb : verb ∈ ingNouns words := rescues.isVerb ▸ List.mem_singleton_self verb
  have isPossessor := (wordById_mem rescues.isPossessor).1
  rcases List.mem_filter.mp isPart with ⟨part_mem, partShape⟩
  rcases List.mem_filter.mp isVerb with ⟨verb_mem, verbShape⟩
  rcases tree.exists_root with ⟨root, root_mem, head, label, only, roots⟩
  obtain rfl : root = oldRoot := by
    have same := roots.symm.trans rescues.isRoot
    simpa using same
  refine ⟨verb_mem, root_mem, head, only, fun same => ?_, fun same => ?_⟩
  · obtain rfl := eq_of_id_eq tree.nodup part_mem verb_mem same
    have isPart : part.upos = "PART" := by
      simp only [decide_eq_true_eq] at partShape
      exact partShape.1
    have noun : part.upos = "NOUN" := by
      simp only [decide_eq_true_eq] at verbShape
      exact verbShape.1
    rw [isPart] at noun
    exact absurd noun (by decide)
  · obtain rfl := eq_of_id_eq tree.nodup isPossessor root_mem same
    have possessive := rescues.possesses.2
    rw [label] at possessive
    exact absurd possessive (by decide)

/-- If the possessor is another word, the heads form a tree again. -/
theorem Rescues.singleRooted [LawfulPythonText]
    (rescues : Rescues words tokens part possessor verb oldRoot)
    (tree : SingleRooted words) (differ : possessor.id ≠ verb.id) :
    SingleRooted (words.map (rescueProgressive part possessor verb oldRoot)) := by
  have roles := rescues.roles tree
  have ids : (words.map (rescueProgressive part possessor verb oldRoot)).map (·.id) =
      words.map (·.id) := by
    rw [List.map_map]
    exact List.map_congr_left fun word _ => rescueProgressive_id.1
  have verbId : verb.id ∈ words.map (·.id) := List.mem_map_of_mem roles.verb_mem
  have nodup : ((words.map (rescueProgressive part possessor verb oldRoot)).map (·.id)).Nodup :=
    ids ▸ tree.nodup
  have verbRoot : (rescueProgressive part possessor verb oldRoot verb).head = 0 ∧
      (rescueProgressive part possessor verb oldRoot verb).deprel = "root" := by
    rcases rescueProgressive_head part possessor verb oldRoot verb with
      ⟨_, isPart | isPossessor | other⟩ | ⟨_, _, _, root⟩ | ⟨other, _⟩
    · exact absurd isPart.symm roles.part_ne
    · exact absurd isPossessor.symm differ
    · exact absurd rfl other
    · exact root
    · exact absurd rfl other
  refine ⟨?_, nodup, ?_, ?_, rescueProgressive part possessor verb oldRoot verb, ?_, ?_⟩
  · intro new member
    rcases List.mem_map.mp member with ⟨word, isWord, rfl⟩
    rw [rescueProgressive_id.1]
    exact tree.counted word isWord
  · intro new member
    rw [ids]
    rcases List.mem_map.mp member with ⟨word, isWord, rfl⟩
    rcases rescueProgressive_head part possessor verb oldRoot word with
      ⟨head, _⟩ | ⟨_, _, _, head, _⟩ | ⟨_, _, head⟩
    · rw [head]
      exact Or.inr verbId
    · exact Or.inl head
    · rw [head]
      exact tree.attached word isWord
  · apply tree.acyclic.of_sink verb.id
    · rintro id head ⟨new, member, isId, isHead, notZero⟩
      rcases List.mem_map.mp member with ⟨word, isWord, rfl⟩
      rw [rescueProgressive_id.1] at isId
      rcases rescueProgressive_head part possessor verb oldRoot word with
        ⟨changed, _⟩ | ⟨_, _, _, changed, _⟩ | ⟨_, _, kept⟩
      · exact Or.inr (isHead.symm.trans changed)
      · exact absurd (isHead.symm.trans changed) notZero
      · exact Or.inl ⟨word, isWord, isId, kept.symm.trans isHead, notZero⟩
    · rintro head ⟨new, member, isId, isHead, notZero⟩
      rcases List.mem_map.mp member with ⟨word, isWord, rfl⟩
      rw [rescueProgressive_id.1] at isId
      rcases rescueProgressive_head part possessor verb oldRoot word with
        ⟨_, isPart | isPossessor | other⟩ | ⟨_, _, _, changed, _⟩ | ⟨other, _⟩
      · exact roles.part_ne (isPart.symm.trans isId)
      · exact differ (isPossessor.symm.trans isId)
      · exact other isId
      · exact notZero (isHead.symm.trans changed)
      · exact other isId
  · refine filter_eq_singleton (List.Nodup.of_map _ nodup) (List.mem_map_of_mem roles.verb_mem) ?_
    intro new member
    rcases List.mem_map.mp member with ⟨word, isWord, rfl⟩
    rw [decide_eq_true_eq]
    constructor
    · intro zero
      rcases rescueProgressive_head part possessor verb oldRoot word with
        ⟨head, _⟩ | ⟨isVerb, _⟩ | ⟨_, notRoot, kept⟩
      · have counted := tree.counted verb roles.verb_mem
        omega
      · rw [eq_of_id_eq tree.nodup isWord roles.verb_mem isVerb]
      · exact absurd (congrArg (·.id) (roles.onlyRoot word isWord (kept.symm.trans zero))) notRoot
    · intro same
      rw [same]
      exact verbRoot.1
  · rw [verbRoot.2, LawfulPythonText.lower_eq_root, isRootLabel_iff]
    rfl

/-- If the possessor is the `-ing` word, no root is left. -/
theorem Rescues.rootless (rescues : Rescues words tokens part possessor verb oldRoot)
    (tree : SingleRooted words) (same : possessor.id = verb.id) :
    ∀ word ∈ words.map (rescueProgressive part possessor verb oldRoot), word.head ≠ 0 := by
  have roles := rescues.roles tree
  intro new member zero
  rcases List.mem_map.mp member with ⟨word, isWord, rfl⟩
  rcases rescueProgressive_head part possessor verb oldRoot word with
    ⟨head, _⟩ | ⟨isVerb, _, notPossessor, _⟩ | ⟨_, notRoot, head⟩
  · have counted := tree.counted verb roles.verb_mem
    omega
  · exact notPossessor (isVerb.trans same.symm)
  · exact notRoot (congrArg (·.id) (roles.onlyRoot word isWord (head.symm.trans zero)))

end Rescue

section Kept

variable [PythonText] [LawfulPythonText] {words : List NormalizedWord}

/-- The rescue keeps the tree exactly if the possessor and the `-ing` word are two words. -/
theorem applyEnglishCopulaProgressive_singleRooted_iff (tree : SingleRooted words)
    (tokens : List Token) :
    (SingleRooted (applyEnglishCopulaProgressive words tokens).1 ∧
        (applyEnglishCopulaProgressive words tokens).1.map (·.text) = words.map (·.text)) ↔
      ∀ part possessor verb oldRoot, Rescues words tokens part possessor verb oldRoot →
        possessor.id ≠ verb.id := by
  constructor
  · rintro ⟨kept, _⟩ part possessor verb oldRoot rescues same
    rw [rescues.result] at kept
    rcases kept.exists_root with ⟨root, isWord, zero, _⟩
    exact rescues.rootless tree same root isWord zero
  · intro apart
    rcases applyEnglishCopulaProgressive_cases words tokens with
      untouched | ⟨part, possessor, verb, oldRoot, rescues⟩
    · rw [untouched]
      exact ⟨tree, rfl⟩
    · rw [rescues.result]
      refine ⟨rescues.singleRooted tree (apart part possessor verb oldRoot rescues), ?_⟩
      rw [List.map_map]
      exact List.map_congr_left fun word _ => rescueProgressive_id.2

end Kept

section Phrases

/-- A word that is its own lemma. -/
def taggedWord (id : ℕ) (text upos deprel : String) (head : ℕ) : NormalizedWord :=
  ⟨text, text, upos, none, head, deprel, id⟩

/-- The possessor of `the building's roof` ends like a participle. -/
def buildingsRoof : List NormalizedWord :=
  [taggedWord 1 "the" "DET" "det" 2, taggedWord 2 "building" "NOUN" "nmod:poss" 4,
    taggedWord 3 "'s" "PART" "case" 2, taggedWord 4 "roof" "NOUN" "root" 0]

def buildingsRoofTokens : List Token := [⟨"the", [1]⟩, ⟨"building's", [2, 3]⟩, ⟨"roof", [4]⟩]

/-- Every chain of heads in a possessive phrase of this shape leads to the last word. -/
theorem singleRooted_possessive {owner owned : String} :
    SingleRooted [taggedWord 1 "the" "DET" "det" 2, taggedWord 2 owner "NOUN" "nmod:poss" 4,
      taggedWord 3 "'s" "PART" "case" 2, taggedWord 4 owned "NOUN" "root" 0] where
  counted := by simp [taggedWord]
  nodup := by simp [taggedWord]
  attached := by simp [taggedWord]
  acyclic := by
    apply acyclic_of_rank fun id => if id = 4 then 0 else if id = 2 then 1 else 2
    rintro id head ⟨word, member, rfl, rfl, notZero⟩
    simp only [List.mem_cons, List.not_mem_nil, or_false] at member
    rcases member with rfl | rfl | rfl | rfl
    all_goals simp_all [taggedWord]
  root := ⟨taggedWord 4 owned "NOUN" "root" 0, by simp [taggedWord], by
    change lower "root" = "root"
    decide +kernel⟩

theorem buildingsRoof_rootless :
    SingleRooted buildingsRoof ∧
      ¬ SingleRooted (applyEnglishCopulaProgressive buildingsRoof buildingsRoofTokens).1 := by
  refine ⟨singleRooted_possessive, fun tree => ?_⟩
  have noRoot : ∀ word ∈ (applyEnglishCopulaProgressive buildingsRoof buildingsRoofTokens).1,
      word.head ≠ 0 := by decide +kernel
  rcases tree.exists_root with ⟨root, isWord, zero, _⟩
  exact noRoot root isWord zero

/-- In `the queen's singing` the `-ing` word is another one. -/
def queensSinging : List NormalizedWord :=
  [taggedWord 1 "the" "DET" "det" 2, taggedWord 2 "queen" "NOUN" "nmod:poss" 4,
    taggedWord 3 "'s" "PART" "case" 2, taggedWord 4 "singing" "NOUN" "root" 0]

def queensSingingTokens : List Token :=
  [⟨"the", [1]⟩, ⟨"queen's", [2, 3]⟩, ⟨"singing", [4]⟩]

theorem queensSinging_singleRooted :
    SingleRooted (applyEnglishCopulaProgressive queensSinging queensSingingTokens).1 ∧
      (applyEnglishCopulaProgressive queensSinging queensSingingTokens).1.map (·.text) =
        queensSinging.map (·.text) := by
  refine (applyEnglishCopulaProgressive_singleRooted_iff singleRooted_possessive
    queensSingingTokens).mpr fun part possessor verb oldRoot rescues => ?_
  have isPart : possessiveParts queensSinging = [taggedWord 3 "'s" "PART" "case" 2] := by
    decide +kernel
  have isVerb : ingNouns queensSinging = [taggedWord 4 "singing" "NOUN" "root" 0] := by
    decide +kernel
  obtain rfl : taggedWord 3 "'s" "PART" "case" 2 = part := by
    simpa using isPart.symm.trans rescues.isPart
  obtain rfl : taggedWord 4 "singing" "NOUN" "root" 0 = verb := by
    simpa using isVerb.symm.trans rescues.isVerb
  rw [(wordById_mem rescues.isPossessor).2]
  decide

end Phrases

end Batchalign.Morphosyntax
