import Batchalign.Morphosyntax.Trees

/-!
# The tree of heads in Italian

Each pass for Italian takes some tokens for one of their words: the other words of the token go,
what hung on them hangs on the word in their place, and that word takes its head. The heads form
a tree again exactly if no chain of heads that goes on from these words returns to its token,
and the root is the word that its token is taken for.
-/

namespace Batchalign.Morphosyntax

open AcyclicRelation Fallible PythonText

section Contractions

/-- The heads still form a tree after every word is taken for its stand-in. -/
structure Carries (words : List NormalizedWord) (standIn : ℕ → ℕ) : Prop where
  root : ∀ word ∈ words, word.head = 0 → standIn word.id = word.id
  acyclic : Acyclic fun id head => HangsOn words (standIn id) head

/-- The word with its new id, and the new id of its head. -/
structure Succeeds (newId : ℕ → ℕ) (word other : NormalizedWord) : Prop where
  id : other.id = newId word.id
  head : other.head = newId word.head
  deprel : other.deprel = word.deprel

/-- The stand-ins under their new ids, and further words that hang on them. -/
structure Contraction (words new : List NormalizedWord) (standIn newId : ℕ → ℕ) : Prop where
  zero : ∀ id, newId id = 0 ↔ id = 0
  same : ∀ id, newId (standIn id) = newId id
  mem : ∀ id, standIn id ∈ words.map (·.id) ↔ id ∈ words.map (·.id)
  apart : ∀ id ∈ words.map (·.id), ∀ other ∈ words.map (·.id),
    newId id = newId other → standIn id = standIn other
  kept : ∀ word ∈ words, standIn word.id = word.id → ∃ other ∈ new, Succeeds newId word other
  only : ∀ other ∈ new, (∃ word ∈ words, Succeeds newId word other ∧
      standIn word.id = word.id) ∨ ∃ id ∈ words.map (·.id), other.head = newId id

variable {words new : List NormalizedWord} {standIn newId : ℕ → ℕ}

/-- The word that stands for an id has a successor. -/
theorem Contraction.successor (contraction : Contraction words new standIn newId) {id : ℕ}
    (member : id ∈ words.map (·.id)) :
    ∃ word ∈ words, ∃ other ∈ new, word.id = standIn id ∧ Succeeds newId word other ∧
      other.id = newId id := by
  have standsIn := (contraction.mem id).mpr member
  rcases List.mem_map.mp standsIn with ⟨word, isWord, isStandIn⟩
  have itself : standIn word.id = word.id := by
    rw [isStandIn]
    exact contraction.apart _ standsIn _ member (contraction.same id)
  rcases contraction.kept word isWord itself with ⟨other, isOther, succeeds⟩
  refine ⟨word, isWord, other, isOther, isStandIn, succeeds, ?_⟩
  rw [succeeds.id, isStandIn, contraction.same]

/-- A step from a stand-in is a step of the new words. -/
theorem Contraction.hangsOn (contraction : Contraction words new standIn newId)
    (nodup : (words.map (·.id)).Nodup) {id head : ℕ} (hangs : HangsOn words (standIn id) head) :
    HangsOn new (newId id) (newId head) := by
  have member : id ∈ words.map (·.id) := by
    rcases hangs with ⟨word, isWord, isId, _⟩
    rw [← contraction.mem, ← isId]
    exact List.mem_map_of_mem isWord
  rcases contraction.successor member with ⟨word, isWord, other, isOther, standsIn, succeeds, isId⟩
  rcases hangs with ⟨same, isSame, sameId, sameHead, notZero⟩
  obtain rfl := eq_of_id_eq nodup isSame isWord (sameId.trans standsIn.symm)
  refine ⟨other, isOther, isId, ?_, fun zero => notZero ((contraction.zero head).mp zero)⟩
  rw [succeeds.head, sameHead]

/-- The new heads are 0 or the ids of new words, if the old ones are so. -/
theorem Contraction.attached (contraction : Contraction words new standIn newId)
    (attached : ∀ word ∈ words, word.head = 0 ∨ word.head ∈ words.map (·.id)) :
    ∀ other ∈ new, other.head = 0 ∨ other.head ∈ new.map (·.id) := by
  have carried : ∀ id ∈ words.map (·.id), newId id ∈ new.map (·.id) := by
    intro id member
    rcases contraction.successor member with ⟨_, _, other, isOther, _, _, isId⟩
    exact isId ▸ List.mem_map_of_mem isOther
  intro other isOther
  rcases contraction.only other isOther with ⟨word, isWord, succeeds, _⟩ | ⟨id, isId, head⟩
  · rw [succeeds.head, contraction.zero]
    exact (attached word isWord).imp_right (carried _)
  · rw [head]
    exact Or.inr (carried id isId)

/-- Words of which only the analysis is another one stand for themselves. -/
theorem contraction_map {f : NormalizedWord → NormalizedWord}
    (same : ∀ word, Succeeds (fun id => id) word (f word)) :
    Contraction words (words.map f) (fun id => id) (fun id => id) where
  zero _ := Iff.rfl
  same _ := rfl
  mem _ := Iff.rfl
  apart _ _ _ _ equal := equal
  kept word isWord _ := ⟨f word, List.mem_map_of_mem isWord, same word⟩
  only := by
    intro other isOther
    rcases List.mem_map.mp isOther with ⟨word, isWord, rfl⟩
    exact Or.inl ⟨word, isWord, same word, rfl⟩

theorem Contraction.refl (words : List NormalizedWord) :
    Contraction words words (fun id => id) (fun id => id) := by
  have itself : Contraction words (words.map fun word => word) (fun id => id) (fun id => id) :=
    contraction_map fun _ => ⟨rfl, rfl, rfl⟩
  rwa [List.map_id'] at itself

variable [PythonText]

/-- What the new words hang on, other than the further words, hung on one another before. -/
theorem Contraction.acyclic (contraction : Contraction words new standIn newId)
    (tree : SingleRooted words) (nodup : (new.map (·.id)).Nodup)
    (carries : Carries words standIn) : Acyclic (HangsOn new) := by
  have fibres : ∀ id other head below, HangsOn words (standIn below) id →
      newId id = newId other → HangsOn words (standIn other) head →
      HangsOn words (standIn id) head := by
    rintro id other head below ⟨word, isWord, _, rfl, notZero⟩ same ⟨next, isNext, isId, rest⟩
    have member : word.head ∈ words.map (·.id) := (tree.attached word isWord).resolve_left notZero
    have otherMember : other ∈ words.map (·.id) := by
      rw [← contraction.mem, ← isId]
      exact List.mem_map_of_mem isNext
    rw [contraction.apart _ member _ otherMember same]
    exact ⟨next, isNext, isId, rest⟩
  have stepsOn : ∀ word ∈ words, ∀ other ∈ new, Succeeds newId word other →
      standIn word.id = word.id → other.head ≠ 0 →
      Relation.Map (fun id head => HangsOn words (standIn id) head) newId newId
        other.id other.head := by
    intro word isWord other _ succeeds itself notZero
    rw [succeeds.head, ne_eq, contraction.zero] at notZero
    exact ⟨word.id, word.head, ⟨word, isWord, itself.symm, rfl, notZero⟩, succeeds.id.symm,
      succeeds.head.symm⟩
  apply (carries.acyclic.image fibres).of_sources fun id => id ∉ (words.map (·.id)).map newId
  · rintro id head ⟨other, isOther, rfl, rfl, notZero⟩
    by_cases old : other.id ∈ (words.map (·.id)).map newId
    · rcases List.mem_map.mp old with ⟨id, isId, same⟩
      rcases contraction.successor isId with
        ⟨word, isWord, another, isAnother, standsIn, succeeds, itsId⟩
      obtain rfl := List.inj_on_of_nodup_map nodup isAnother isOther (itsId.trans same)
      refine Or.inl (stepsOn word isWord another isAnother succeeds ?_ notZero)
      rw [standsIn]
      exact contraction.apart _ ((contraction.mem id).mpr isId) _ isId (contraction.same id)
    · exact Or.inr old
  · rintro id head source ⟨other, isOther, _, rfl, notZero⟩
    apply source
    rcases contraction.only other isOther with ⟨word, isWord, succeeds, _⟩ | ⟨below, isId, itsHead⟩
    · rw [succeeds.head, ne_eq, contraction.zero] at notZero
      rw [succeeds.head]
      exact List.mem_map_of_mem ((tree.attached word isWord).resolve_left notZero)
    · rw [itsHead]
      exact List.mem_map_of_mem isId

theorem SingleRooted.carries (tree : SingleRooted words) :
    Carries words fun id => id where
  root _ _ _ := rfl
  acyclic := tree.acyclic

/-- The new heads form a tree exactly if the stand-ins carry the old one. -/
theorem Contraction.singleRooted_iff (contraction : Contraction words new standIn newId)
    (tree : SingleRooted words) (counted : ∀ other ∈ new, 0 < other.id)
    (nodup : (new.map (·.id)).Nodup) : SingleRooted new ↔ Carries words standIn := by
  have positive : ∀ id ∈ words.map (·.id), 0 < id := by
    intro id member
    rcases List.mem_map.mp member with ⟨word, isWord, rfl⟩
    exact tree.counted word isWord
  rcases tree.exists_root with ⟨root, isRoot, zero, label, onlyRoot, _⟩
  constructor
  · intro newTree
    constructor
    · rcases newTree.exists_root with ⟨newRoot, isNew, newZero, _⟩
      intro word isWord wordZero
      obtain rfl := onlyRoot word isWord wordZero
      rcases contraction.only newRoot isNew with ⟨old, isOld, succeeds, itself⟩ | ⟨id, isId, head⟩
      · have oldZero : old.head = 0 := by
          rw [← contraction.zero, ← succeeds.head, newZero]
        rwa [onlyRoot old isOld oldZero] at itself
      · have idZero : id = 0 := by rw [← contraction.zero, ← head, newZero]
        exact absurd idZero (positive id isId).ne'
    · apply newTree.acyclic.comap (f := newId)
      intro id head hangs
      apply Relation.TransGen.single
      exact contraction.hangsOn tree.nodup hangs
  · intro carries
    rcases contraction.kept root isRoot (carries.root root isRoot zero) with
      ⟨newRoot, isNew, succeeds⟩
    have newZero : newRoot.head = 0 := by
      rw [succeeds.head, contraction.zero]
      exact zero
    refine ⟨counted, nodup, fun other isOther => ?_, ?_, newRoot, ?_, ?_⟩
    · have attached : ∀ id ∈ words.map (·.id), newId id ∈ new.map (·.id) := by
        intro id member
        rcases contraction.successor member with ⟨_, _, another, isAnother, _, _, isId⟩
        exact isId ▸ List.mem_map_of_mem isAnother
      rcases contraction.only other isOther with ⟨word, isWord, succeeds, _⟩ | ⟨id, isId, head⟩
      · rw [succeeds.head, contraction.zero]
        exact (tree.attached word isWord).imp_right (attached word.head)
      · rw [head]
        exact Or.inr (attached id isId)
    · exact contraction.acyclic tree nodup carries
    · refine filter_eq_singleton (List.Nodup.of_map _ nodup) isNew fun other isOther => ?_
      rw [decide_eq_true_eq]
      refine ⟨fun otherZero => ?_, fun same => same ▸ newZero⟩
      rcases contraction.only other isOther with ⟨word, isWord, follows, _⟩ | ⟨id, isId, head⟩
      · have wordZero : word.head = 0 := by
          rw [← contraction.zero, ← follows.head, otherZero]
        obtain rfl := onlyRoot word isWord wordZero
        apply List.inj_on_of_nodup_map nodup isOther isNew
        rw [follows.id, succeeds.id]
      · have idZero : id = 0 := by rw [← contraction.zero, ← head, otherZero]
        exact absurd idZero (positive id isId).ne'
    · rw [succeeds.deprel]
      exact label

end Contractions

section StandIns

/-- The ids of a token, with the one that stands for them all if there is one. -/
abbrev Carrier := List ℕ × Option ℕ

/-- The id that stands for an id. -/
def standInFor (carriers : List Carrier) (id : ℕ) : ℕ :=
  ((carriers.find? (id ∈ ·.1)).bind (·.2)).getD id

variable {carriers : List Carrier} {carrier : Carrier} {id other : ℕ}

/-- A stand-in is an id of the same token. -/
theorem standInFor_of_mem (nodup : (carriers.flatMap (·.1)).Nodup) (isCarrier : carrier ∈ carriers)
    (member : id ∈ carrier.1) : standInFor carriers id = carrier.2.getD id := by
  suffices found : carriers.find? (id ∈ ·.1) = some carrier by
    rw [standInFor, found]
    rfl
  induction carriers with
  | nil => cases isCarrier
  | cons first carriers ih =>
      rw [List.flatMap_cons, List.nodup_append'] at nodup
      rcases List.mem_cons.mp isCarrier with rfl | later
      · exact List.find?_cons_of_pos (by simpa using member)
      · have notFirst : id ∉ first.1 := fun inside =>
          nodup.2.2 inside (List.mem_flatMap_of_mem later member)
        rw [List.find?_cons_of_neg (by simpa using notFirst)]
        exact ih nodup.2.1 later

theorem standInFor_of_none (noCarrier : ∀ carrier ∈ carriers, carrier.2 = none) :
    standInFor carriers = fun id => id := by
  funext id
  rw [standInFor]
  cases found : carriers.find? (id ∈ ·.1) with
  | none => rfl
  | some carrier =>
      rw [Option.bind_some, noCarrier carrier (List.mem_of_find?_eq_some found)]
      rfl

theorem standInFor_of_notMem (outside : id ∉ carriers.flatMap (·.1)) :
    standInFor carriers id = id := by
  have absent : carriers.find? (id ∈ ·.1) = none := by
    rw [List.find?_eq_none]
    intro carrier isCarrier inside
    exact outside (List.mem_flatMap_of_mem isCarrier (by simpa using inside))
  rw [standInFor, absent]
  rfl

end StandIns

section Spreads

variable {newId : ℕ → ℕ} {blocks : List Block} {block : Block} {nextId id other : ℕ}

theorem Spreads.le (spreads : Spreads newId nextId blocks) (member : id ∈ blocks.flatMap Prod.fst) :
    nextId ≤ newId id := by
  induction blocks generalizing nextId with
  | nil => cases member
  | cons block blocks ih =>
      rcases spreads with ⟨stays, joined, later⟩
      rcases List.mem_append.mp member with here | there
      · cases kind : block.2 with
        | none =>
            have inRange : newId id ∈ List.range' nextId block.1.length :=
              stays kind ▸ List.mem_map_of_mem here
            exact (List.mem_range'_1.mp inRange).1
        | some size => exact (joined (by simp [kind]) id here).ge
      · exact (Nat.le_add_right _ _).trans (ih later there)

/-- The ids of one block come before those of the next. -/
theorem Spreads.lt (spreads : Spreads newId nextId (block :: blocks))
    (sized : ∀ size ∈ block.2, 0 < size) (member : id ∈ block.1) :
    newId id < nextId + block.size := by
  rcases spreads with ⟨stays, joined, _⟩
  cases kind : block.2 with
  | none =>
      have inRange : newId id ∈ List.range' nextId block.1.length :=
        stays kind ▸ List.mem_map_of_mem member
      rw [Block.size, kind]
      exact (List.mem_range'_1.mp inRange).2
  | some size =>
      rw [joined (by simp [kind]) id member, Block.size, kind]
      exact Nat.lt_add_of_pos_right (sized size kind)

/-- Only the ids of one block that is joined get the same new id. -/
theorem Spreads.apart (spreads : Spreads newId nextId blocks)
    (sized : ∀ block ∈ blocks, ∀ size ∈ block.2, 0 < size)
    (member : id ∈ blocks.flatMap Prod.fst) (otherMember : other ∈ blocks.flatMap Prod.fst)
    (same : newId id = newId other) :
    ∃ block ∈ blocks, id ∈ block.1 ∧ other ∈ block.1 ∧ (block.2 = none → id = other) := by
  induction blocks generalizing nextId with
  | nil => cases member
  | cons block blocks ih =>
      have below : ∀ id ∈ block.1, newId id < nextId + block.size := fun id =>
        spreads.lt (sized block List.mem_cons_self)
      rcases spreads with ⟨stays, joined, later⟩
      rcases List.mem_append.mp member with here | there
      · rcases List.mem_append.mp otherMember with otherHere | otherThere
        · refine ⟨block, List.mem_cons_self, here, otherHere, fun kind => ?_⟩
          have nodup : (block.1.map newId).Nodup := stays kind ▸ List.nodup_range'
          exact List.inj_on_of_nodup_map nodup here otherHere same
        · have first := below id here
          have second := later.le otherThere
          omega
      · rcases List.mem_append.mp otherMember with otherHere | otherThere
        · have first := below other otherHere
          have second := later.le there
          omega
        · have others : ∀ block ∈ blocks, ∀ size ∈ block.2, 0 < size := fun found isFound =>
            sized found (List.mem_cons_of_mem _ isFound)
          rcases ih later others there otherThere with ⟨found, isFound, rest⟩
          exact ⟨found, List.mem_cons_of_mem _ isFound, rest⟩

theorem Spreads.joined (spreads : Spreads newId nextId blocks) (isBlock : block ∈ blocks)
    (kind : block.2 ≠ none) (member : id ∈ block.1) (otherMember : other ∈ block.1) :
    newId id = newId other := by
  induction blocks generalizing nextId with
  | nil => cases isBlock
  | cons first blocks ih =>
      rcases spreads with ⟨_, joined, later⟩
      rcases List.mem_cons.mp isBlock with rfl | there
      · rw [joined kind id member, joined kind other otherMember]
      · exact ih later there

end Spreads

section Tokens

variable {α : Type} {items : List α} {block : α → Block} {words new : List NormalizedWord}
  {newId : ℕ → ℕ}

/-- What a pass makes of the words of one token. -/
structure TakenFor (words : List NormalizedWord) (newId : ℕ → ℕ) (block : Block)
    (carrier : Option ℕ) (new : List NormalizedWord) : Prop where
  joined : block.2 = none ↔ carrier = none
  sized : ∀ size ∈ block.2, 0 < size
  inside : ∀ id ∈ carrier, id ∈ block.1
  kept : ∀ word ∈ words, word.id ∈ block.1 → carrier.getD word.id = word.id →
    ∃ other ∈ new, Succeeds newId word other
  only : ∀ other ∈ new, (∃ word ∈ words, word.id ∈ block.1 ∧ Succeeds newId word other ∧
      carrier.getD word.id = word.id) ∨ ∃ id ∈ block.1, other.head = newId id

/-- Tokens that are each taken for a word. -/
theorem contraction_of_spreads (carrier : α → Option ℕ) (rewrite : α → List NormalizedWord)
    (members : ∀ other, other ∈ new ↔ ∃ item ∈ items, other ∈ rewrite item)
    (zero : ∀ id, newId id = 0 ↔ id = 0) {start : ℕ}
    (spreads : Spreads newId start (items.map block))
    (ids : (items.map block).flatMap Prod.fst = words.map (·.id))
    (nodup : (words.map (·.id)).Nodup)
    (taken : ∀ item ∈ items, TakenFor words newId (block item) (carrier item) (rewrite item)) :
    Contraction words new
      (standInFor (items.map fun item => ((block item).1, carrier item))) newId := by
  have carrierIds : (items.map fun item => ((block item).1, carrier item)).flatMap Prod.fst =
      words.map (·.id) := by
    rw [← ids, List.flatMap_map, List.flatMap_map]
  have standIn : ∀ item ∈ items, ∀ id ∈ (block item).1,
      standInFor (items.map fun item => ((block item).1, carrier item)) id =
        (carrier item).getD id := by
    intro item isItem id member
    refine standInFor_of_mem ?_ (List.mem_map_of_mem isItem) member
    rw [carrierIds]
    exact nodup
  have itemOf : ∀ id ∈ words.map (·.id), ∃ item ∈ items, id ∈ (block item).1 := by
    intro id member
    rw [← ids, List.flatMap_map] at member
    exact List.mem_flatMap.mp member
  have outside : ∀ id, id ∉ words.map (·.id) →
      standInFor (items.map fun item => ((block item).1, carrier item)) id = id := by
    intro id notMember
    apply standInFor_of_notMem
    rw [carrierIds]
    exact notMember
  have blockIds : ∀ item ∈ items, ∀ id ∈ (block item).1, id ∈ words.map (·.id) := by
    intro item isItem id member
    rw [← ids, List.flatMap_map]
    exact List.mem_flatMap_of_mem isItem member
  have carried : ∀ item ∈ items, ∀ id ∈ (block item).1,
      (carrier item).getD id ∈ (block item).1 := by
    intro item isItem id member
    cases isCarrier : carrier item with
    | none => exact member
    | some carried => exact (taken item isItem).inside carried isCarrier
  constructor
  · exact zero
  · intro id
    by_cases member : id ∈ words.map (·.id)
    · rcases itemOf id member with ⟨item, isItem, here⟩
      rw [standIn item isItem id here]
      cases isCarrier : carrier item with
      | none => rfl
      | some carried =>
          apply spreads.joined (List.mem_map_of_mem isItem) _ _ here
          · rw [ne_eq, (taken item isItem).joined, isCarrier]
            simp
          · exact (taken item isItem).inside carried isCarrier
    · rw [outside id member]
  · intro id
    by_cases member : id ∈ words.map (·.id)
    · rcases itemOf id member with ⟨item, isItem, here⟩
      rw [standIn item isItem id here]
      exact iff_of_true (blockIds item isItem _ (carried item isItem id here)) member
    · rw [outside id member]
  · intro id member other otherMember same
    rw [← ids] at member otherMember
    have sized : ∀ found ∈ items.map block, ∀ size ∈ found.2, 0 < size := by
      intro found isFound
      rcases List.mem_map.mp isFound with ⟨item, isItem, rfl⟩
      exact (taken item isItem).sized
    rcases spreads.apart sized member otherMember same with
      ⟨found, isFound, here, otherHere, alone⟩
    rcases List.mem_map.mp isFound with ⟨item, isItem, rfl⟩
    rw [standIn item isItem id here, standIn item isItem other otherHere]
    cases isCarrier : carrier item with
    | none => exact alone ((taken item isItem).joined.mpr isCarrier)
    | some carried => rfl
  · intro word isWord itself
    rcases itemOf word.id (List.mem_map_of_mem isWord) with ⟨item, isItem, here⟩
    rw [standIn item isItem word.id here] at itself
    rcases (taken item isItem).kept word isWord here itself with ⟨other, isOther, succeeds⟩
    exact ⟨other, (members other).mpr ⟨item, isItem, isOther⟩, succeeds⟩
  · intro other isOther
    rcases (members other).mp isOther with ⟨item, isItem, inside⟩
    rcases (taken item isItem).only other inside with
      ⟨word, isWord, here, succeeds, itself⟩ | ⟨id, here, head⟩
    · refine Or.inl ⟨word, isWord, succeeds, ?_⟩
      rw [standIn item isItem word.id here, itself]
    · exact Or.inr ⟨id, blockIds item isItem id here, head⟩

end Tokens

section Compound

variable {rules : List (Option CompoundImperativeRule)} {oldId nextId id other new : ℕ}

theorem lookup_compoundIds_le (found : (compoundIds oldId nextId rules).lookup id = some new) :
    nextId ≤ new := by
  induction rules generalizing oldId nextId with
  | nil => cases found
  | cons rule rules ih =>
      rw [compoundIds, List.lookup_cons] at found
      split at found
      · cases found
        exact le_rfl
      · have later := ih found
        omega

theorem lookup_compoundIds_inj (found : (compoundIds oldId nextId rules).lookup id = some new)
    (again : (compoundIds oldId nextId rules).lookup other = some new) : id = other := by
  induction rules generalizing oldId nextId with
  | nil => cases found
  | cons rule rules ih =>
      rw [compoundIds, List.lookup_cons] at found again
      split at found
      · rename_i isFirst
        cases found
        split at again
        · rename_i alsoFirst
          exact (beq_iff_eq.mp isFirst).trans (beq_iff_eq.mp alsoFirst).symm
        · have later := lookup_compoundIds_le again
          omega
      · split at again
        · cases again
          have later := lookup_compoundIds_le found
          omega
        · exact ih found again

theorem lookup_compoundIds_isSome (first : oldId ≤ id) (last : id < oldId + rules.length) :
    ∃ new, (compoundIds oldId nextId rules).lookup id = some new := by
  induction rules generalizing oldId nextId with
  | nil =>
      rw [List.length_nil] at last
      omega
  | cons rule rules ih =>
      rw [compoundIds, List.lookup_cons]
      split
      · exact ⟨nextId, rfl⟩
      · rename_i notFirst
        rw [List.length_cons] at last
        have differ : id ≠ oldId := by simpa using notFirst
        exact ih (by omega) (by omega)

variable {oldToNew : List (ℕ × ℕ)} {word : NormalizedWord} {token : Token}
  {rule : Option CompoundImperativeRule}

/-- The verb or the word itself comes first. -/
theorem expandImperative_succeeds (oldToNew : List (ℕ × ℕ)) (word : NormalizedWord)
    (token : Token) (rule : Option CompoundImperativeRule) :
    ∃ other ∈ (expandImperative oldToNew word.id word token rule).1,
      Succeeds (mappedId oldToNew) word other := by
  cases rule with
  | none => exact ⟨_, List.mem_singleton_self _, ⟨rfl, rfl, rfl⟩⟩
  | some rule => exact ⟨_, List.mem_cons_self, ⟨rfl, rfl, rfl⟩⟩

theorem expandImperative_only {other : NormalizedWord}
    (member : other ∈ (expandImperative oldToNew word.id word token rule).1) :
    Succeeds (mappedId oldToNew) word other ∨ other.head = mappedId oldToNew word.id := by
  cases rule with
  | none =>
      rw [List.mem_singleton.mp member]
      exact Or.inl ⟨rfl, rfl, rfl⟩
  | some rule =>
      rcases List.mem_cons.mp member with rfl | clitic
      · exact Or.inl ⟨rfl, rfl, rfl⟩
      · rcases List.mem_map.mp clitic with ⟨item, _, rfl⟩
        exact Or.inr rfl

/-- Every word has its place under its id. -/
theorem mem_zipIdx_of_counted
    {items : List (NormalizedWord × Token × Option CompoundImperativeRule)}
    (counted : CountsFrom 1 (items.map (·.1.id))) {item} {oldId : ℕ} :
    (item, oldId) ∈ items.zipIdx 1 ↔ item ∈ items ∧ item.1.id = oldId := by
  have idOf : ∀ (place : ℕ) (inside : place < items.length), items[place].1.id = 1 + place := by
    intro place inside
    have entry := congrArg (·[place]?) counted
    simpa [inside] using entry
  constructor
  · intro member
    rcases List.mem_zipIdx member with ⟨fromOne, _, same⟩
    rw [same]
    refine ⟨List.getElem_mem _, ?_⟩
    rw [idOf]
    omega
  · rintro ⟨member, rfl⟩
    rcases List.getElem_of_mem member with ⟨place, inside, rfl⟩
    rw [idOf place inside, List.mk_mem_zipIdx_iff_le_and_getElem?_sub]
    refine ⟨Nat.le_add_right 1 place, ?_⟩
    rw [Nat.add_sub_cancel_left, List.getElem?_eq_getElem inside]

/-- The expansion takes every word for itself. -/
theorem expandImperative_contraction
    {items : List (NormalizedWord × Token × Option CompoundImperativeRule)}
    (counted : CountsFrom 1 (items.map (·.1.id))) :
    Contraction (items.map (·.1))
      ((items.zipIdx 1).flatMap fun item => (expandImperative
        (compoundIds 1 1 (items.map (·.2.2))) item.2 item.1.1 item.1.2.1 item.1.2.2).1)
      (fun id => id) (mappedId (compoundIds 1 1 (items.map (·.2.2)))) where
  zero := (compoundIds_counting one_pos one_pos _).mappedId_eq_zero
  same _ := rfl
  mem _ := Iff.rfl
  apart := by
    have found : ∀ id ∈ (items.map (·.1)).map (·.id), ∃ new,
        (compoundIds 1 1 (items.map (·.2.2))).lookup id = some new := by
      intro id member
      rw [List.map_map] at member
      have inRange : id ∈ List.range' 1 items.length := by
        have isRange := counted
        rw [CountsFrom, List.length_map] at isRange
        exact isRange ▸ member
      rw [List.mem_range'_1] at inRange
      apply lookup_compoundIds_isSome inRange.1
      rw [List.length_map]
      exact inRange.2
    intro id member other otherMember same
    rcases found id member with ⟨new, isNew⟩
    rcases found other otherMember with ⟨otherNew, isOtherNew⟩
    rw [mappedId, mappedId, isNew, isOtherNew, Option.getD_some, Option.getD_some] at same
    rw [← same] at isOtherNew
    exact lookup_compoundIds_inj isNew isOtherNew
  kept := by
    intro word isWord _
    rcases List.mem_map.mp isWord with ⟨item, isItem, rfl⟩
    rcases expandImperative_succeeds (compoundIds 1 1 (items.map (·.2.2))) item.1 item.2.1
      item.2.2 with ⟨other, isOther, succeeds⟩
    refine ⟨other, List.mem_flatMap.mpr ⟨(item, item.1.id), ?_, isOther⟩, succeeds⟩
    exact (mem_zipIdx_of_counted counted).mpr ⟨isItem, rfl⟩
  only := by
    intro other member
    rcases List.mem_flatMap.mp member with ⟨⟨item, oldId⟩, listed, inside⟩
    rcases (mem_zipIdx_of_counted counted).mp listed with ⟨isItem, rfl⟩
    have isWord : item.1 ∈ items.map (·.1) := List.mem_map_of_mem isItem
    rcases expandImperative_only inside with succeeds | hangs
    · exact Or.inl ⟨item.1, isWord, succeeds, rfl⟩
    · exact Or.inr ⟨item.1.id, List.mem_map_of_mem isWord, hangs⟩

theorem Numbered.positive {words : List NormalizedWord} {tokens : List Token}
    (numbered : Numbered words tokens) : ∀ word ∈ words, 0 < word.id := by
  intro word isWord
  have member := List.mem_map_of_mem (f := NormalizedWord.id) isWord
  rw [numbered.counted, List.mem_range'_1] at member
  exact member.1

variable [PythonText]

/-- The pass takes every word for itself. -/
theorem normalizeItalianCompoundImperatives_contraction {words : List NormalizedWord}
    {tokens : List Token} (numbered : Numbered words tokens) :
    ∃ newId, Contraction words (normalizeItalianCompoundImperatives words tokens).words
      (fun id => id) newId := by
  unfold normalizeItalianCompoundImperatives
  dsimp only
  split
  · exact ⟨_, .refl words⟩
  · rename_i touched
    have length : tokens.length = words.length := by
      have oneEach : tokens.map (·.id) = (List.range' 1 words.length).map ([·]) := by
        by_contra other
        exact touched (Or.inl other)
      simpa using congrArg List.length oneEach
    set items := words.zip (tokens.zip (words.map fun word => ruleFor word.text word.upos))
      with isItems
    have wordsOf : items.map (·.1) = words := List.map_fst_zip (by simp [length])
    have rulesOf : items.map (·.2.2) = words.map fun word => ruleFor word.text word.upos :=
      map_zip_rules length (List.length_map _)
    have counted : CountsFrom 1 (items.map (·.1.id)) := by
      have ids : items.map (·.1.id) = words.map (·.id) := by
        rw [← wordsOf, List.map_map]
        rfl
      rw [ids]
      exact numbered.counted
    have contraction := expandImperative_contraction counted
    rw [wordsOf, rulesOf] at contraction
    rw [List.flatMap_map]
    exact ⟨_, contraction⟩

/-- The expansion into verbs and clitics keeps the tree. -/
theorem normalizeItalianCompoundImperatives_singleRooted {words : List NormalizedWord}
    {tokens : List Token} (tree : SingleRooted words) (numbered : Numbered words tokens) :
    SingleRooted (normalizeItalianCompoundImperatives words tokens).words := by
  have newNumbered := normalizeItalianCompoundImperatives_numbered numbered
  rcases normalizeItalianCompoundImperatives_contraction numbered with ⟨newId, contraction⟩
  apply (contraction.singleRooted_iff tree _ _).mpr tree.carries
  · exact newNumbered.positive
  · exact newNumbered.counted.nodup

end Compound

section Legacy

/-- A rewritten token is taken for its first word that hangs outside of it, or else for its first
word. -/
def ItalianTokenRow.carrier (row : ItalianTokenRow) : Option ℕ :=
  row.legacyRule.bind fun _ =>
    ((row.words.find? (·.head ∉ row.token.id)).or row.words.head?).map (·.id)

variable {words : List NormalizedWord} {row : ItalianTokenRow} {oldToNew : List (ℕ × ℕ)}
  {nextId : ℕ}

theorem legacy_components_nonempty : ∀ rule ∈ legacyMwtRules, 0 < rule.components.length := by
  decide

theorem ItalianTokenRow.carrier_eq {rule : LegacyMwtRule} {first : NormalizedWord}
    {rest : List NormalizedWord} (legacy : row.legacyRule = some rule)
    (native : row.words = first :: rest) :
    row.carrier = some (((first :: rest).find? (·.head ∉ row.token.id)).getD first).id := by
  rw [carrier, legacy, native, Option.bind_some, List.head?_cons]
  cases (first :: rest).find? (·.head ∉ row.token.id) with
  | none => rfl
  | some source => rfl

/-- The words of a token that stays. -/
theorem renumberWord_takenFor (resolved : row.Resolved words) (legacy : row.legacyRule = none)
    (nodup : (words.map (·.id)).Nodup) :
    TakenFor words (mappedId oldToNew) row.block row.carrier
      (row.words.map (renumberWord oldToNew)) where
  joined := by simp [ItalianTokenRow.block, ItalianTokenRow.carrier, legacy]
  sized := by simp [ItalianTokenRow.block, legacy]
  inside := by simp [ItalianTokenRow.carrier, legacy]
  kept := by
    intro word isWord here _
    rw [ItalianTokenRow.block, ← resolved.ids] at here
    rcases List.mem_map.mp here with ⟨own, isOwn, same⟩
    obtain rfl := eq_of_id_eq nodup (resolved.mem own isOwn) isWord same
    exact ⟨renumberWord oldToNew own, List.mem_map_of_mem isOwn, rfl, rfl, rfl⟩
  only := by
    intro other isOther
    rcases List.mem_map.mp isOther with ⟨word, isWord, rfl⟩
    refine Or.inl ⟨word, resolved.mem word isWord, ?_, ⟨rfl, rfl, rfl⟩, ?_⟩
    · rw [ItalianTokenRow.block, ← resolved.ids]
      exact List.mem_map_of_mem isWord
    · simp [ItalianTokenRow.carrier, legacy]

/-- The components of a token that is rewritten. -/
theorem componentWord_takenFor (resolved : row.Resolved words) {rule : LegacyMwtRule}
    (legacy : row.legacyRule = some rule) (known : rule ∈ legacyMwtRules)
    (nodup : (words.map (·.id)).Nodup) {source : NormalizedWord} (isSource : source ∈ row.words)
    (carries : row.carrier = some source.id) {mainId : ℕ}
    (main : ∀ id ∈ row.token.id, mappedId oldToNew id = mainId) :
    TakenFor words (mappedId oldToNew) row.block row.carrier
      (rule.components.zipIdx.map (componentWord oldToNew source mainId)) where
  joined := by simp [ItalianTokenRow.block, legacy, carries]
  sized := by
    intro size isSize
    rw [ItalianTokenRow.block, legacy] at isSize
    cases isSize
    exact legacy_components_nonempty rule known
  inside := by
    intro id isId
    rw [carries] at isId
    cases isId
    rw [ItalianTokenRow.block, ← resolved.ids]
    exact List.mem_map_of_mem isSource
  kept := by
    intro word isWord here itself
    rw [carries, Option.getD_some] at itself
    obtain rfl := eq_of_id_eq nodup (resolved.mem source isSource) isWord itself
    have nonempty := legacy_components_nonempty rule known
    refine ⟨componentWord oldToNew source mainId (rule.components[0], 0), ?_, ?_, ?_, ?_⟩
    · apply List.mem_map_of_mem
      exact List.mk_mem_zipIdx_iff_getElem?.mpr (List.getElem?_eq_getElem nonempty)
    · exact (main source.id here).symm
    · rfl
    · rfl
  only := by
    intro other isOther
    rcases List.mem_map.mp isOther with ⟨⟨component, offset⟩, _, rfl⟩
    have sourceId : source.id ∈ row.token.id := by
      rw [← resolved.ids]
      exact List.mem_map_of_mem isSource
    by_cases first : offset = 0
    · subst first
      left
      refine ⟨source, resolved.mem source isSource, sourceId, ⟨?_, rfl, rfl⟩, ?_⟩
      · exact (main source.id sourceId).symm
      · rw [carries, Option.getD_some]
    · right
      refine ⟨source.id, sourceId, ?_⟩
      rw [main source.id sourceId]
      exact if_neg first

theorem rewriteRow_takenFor (resolved : row.Resolved words)
    (known : ∀ rule ∈ row.legacyRule, rule ∈ legacyMwtRules)
    (nodup : (words.map (·.id)).Nodup)
    (joined : row.block.2 ≠ none → ∀ id ∈ row.token.id, ∀ other ∈ row.token.id,
      mappedId oldToNew id = mappedId oldToNew other) :
    TakenFor words (mappedId oldToNew) row.block row.carrier (rewriteRow oldToNew row).1 := by
  cases legacy : row.legacyRule with
  | none =>
      have same : (rewriteRow oldToNew row).1 = row.words.map (renumberWord oldToNew) := by
        simp [rewriteRow, legacy]
      rw [same]
      exact renumberWord_takenFor resolved legacy nodup
  | some rule =>
      cases native : row.words with
      | nil => exact absurd native resolved.nonempty
      | cons first rest =>
          simp only [rewriteRow, legacy, native]
          apply componentWord_takenFor resolved legacy (known rule legacy) nodup
          · rw [native]
            cases found : (first :: rest).find? (·.head ∉ row.token.id) with
            | none => exact List.mem_cons_self
            | some source => exact List.mem_of_find?_eq_some found
          · exact ItalianTokenRow.carrier_eq legacy native
          · intro id isId
            apply joined (by simp [ItalianTokenRow.block, legacy]) id isId
            rw [← resolved.ids, native]
            exact List.mem_cons_self

variable [PythonText] {tokens : List Token}

theorem italianTokenRow_known {token : Token} (found : italianTokenRow words token = some row) :
    ∀ rule ∈ row.legacyRule, rule ∈ legacyMwtRules := by
  unfold italianTokenRow at found
  split at found
  · cases found
  · cases found
  · cases found
    intro rule isRule
    exact List.mem_of_find?_eq_some (Option.filter_eq_some_iff.mp isRule).1

theorem legacyRule_known {rows : List ItalianTokenRow}
    (found : tokens.mapM (italianTokenRow words) = some rows) :
    ∀ row ∈ rows, ∀ rule ∈ row.legacyRule, rule ∈ legacyMwtRules := by
  have each := mapM_eq_some_iff.mp found
  clear found
  induction each with
  | nil => simp
  | cons first _ ih =>
      intro row isRow
      rcases List.mem_cons.mp isRow with rfl | later
      · exact italianTokenRow_known first
      · exact ih row later

/-- What the tokens are taken for, where all of them have words. -/
def legacyCarriers (words : List NormalizedWord) (tokens : List Token) : List Carrier :=
  ((tokens.mapM (italianTokenRow words)).getD []).map fun row => (row.token.id, row.carrier)

/-- The rewritten tokens are taken for their carriers. -/
theorem normalizeItalianLegacyMwts_contraction (numbered : Numbered words tokens) :
    ∃ newId, Contraction words (normalizeItalianLegacyMwts words tokens).words
      (standInFor (legacyCarriers words tokens)) newId := by
  unfold normalizeItalianLegacyMwts legacyCarriers
  cases found : tokens.mapM (italianTokenRow words) with
  | none => exact ⟨_, .refl words⟩
  | some rows =>
      dsimp only [Option.getD_some]
      split
      · rename_i untouched
        rw [standInFor_of_none]
        · exact ⟨_, .refl words⟩
        · intro carrier isCarrier
          rcases List.mem_map.mp isCarrier with ⟨row, isRow, rfl⟩
          have noRule := List.all_eq_true.mp untouched row isRow
          simp [ItalianTokenRow.carrier, Option.isNone_iff_eq_none.mp noRule]
      · rcases rows_resolved found with ⟨tokensOf, resolved⟩
        have ids : (rows.map (·.block)).flatMap Prod.fst = words.map (·.id) := by
          rw [← numbered.spans, ← tokensOf, List.flatMap_map, List.flatMap_map]
          rfl
        have nodup : (words.map (·.id)).Nodup := numbered.counted.nodup
        have spreads : Spreads (mappedId (legacyIds 1 [] rows)) 1 (rows.map (·.block)) := by
          rw [legacyIds_eq_spread]
          exact spread_spreads 1 [] (ids ▸ nodup)
        have counting : Counting (legacyIds 1 [] rows) := by
          apply legacyIds_counting _ one_pos Counting.nil
          intro row isRow id isId
          rw [← (resolved row isRow).ids] at isId
          rcases List.mem_map.mp isId with ⟨word, isWord, rfl⟩
          exact numbered.positive word ((resolved row isRow).mem word isWord)
        have contraction := contraction_of_spreads ItalianTokenRow.carrier
          (fun row => (rewriteRow (legacyIds 1 [] rows) row).1) (fun other => List.mem_flatMap)
          counting.mappedId_eq_zero spreads ids nodup fun row isRow =>
            rewriteRow_takenFor (resolved row isRow) (legacyRule_known found row isRow) nodup
              fun kind _ here _ otherHere =>
                spreads.joined (List.mem_map_of_mem isRow) kind here otherHere
        rw [List.flatMap_map]
        exact ⟨_, contraction⟩

/-- The rewrite of the older analyses keeps the tree exactly if the words that the tokens are
taken for carry it. -/
theorem normalizeItalianLegacyMwts_singleRooted_iff (tree : SingleRooted words)
    (numbered : Numbered words tokens) :
    SingleRooted (normalizeItalianLegacyMwts words tokens).words ↔
      Carries words (standInFor (legacyCarriers words tokens)) := by
  have newNumbered := normalizeItalianLegacyMwts_numbered numbered
  rcases normalizeItalianLegacyMwts_contraction numbered with ⟨newId, contraction⟩
  exact contraction.singleRooted_iff tree newNumbered.positive newNumbered.counted.nodup

end Legacy

section FalseMwts

variable [PythonText] {words : List NormalizedWord} {tokens : List Token} {token : Token}
  {first id : ℕ}

/-- A token with a rule and several words is taken for its first word. -/
def falseMwtCarrier (token : Token) : Option ℕ :=
  match falseMwtRuleFor token.text, token.id with
  | some _, first :: _ :: _ => some first
  | _, _ => none

theorem falseMwtCarrier_head (carries : falseMwtCarrier token = some first) :
    token.id.head? = some first := by
  unfold falseMwtCarrier at carries
  split at carries
  · rename_i ids
    cases carries
    rw [ids]
    rfl
  · cases carries

omit [PythonText] in
theorem wordById_isSome (member : id ∈ words.map (·.id)) : (wordById words id).isSome := by
  rcases List.mem_map.mp member with ⟨word, isWord, rfl⟩
  rw [wordById, List.find?_isSome]
  exact ⟨word, List.mem_reverse.mpr isWord, by simp⟩

omit [PythonText] in
/-- The keys that are entered one after the other. -/
theorem lookup_foldl_isSome {ν : Type} {step : List (ℕ × ν) → Token → List (ℕ × ν)}
    (key : Token → Option ℕ)
    (each : ∀ token ∈ tokens, ∀ entries, ((step entries token).lookup first).isSome ↔
      (entries.lookup first).isSome ∨ key token = some first) (entries : List (ℕ × ν)) :
    ((tokens.foldl step entries).lookup first).isSome ↔
      (entries.lookup first).isSome ∨ ∃ token ∈ tokens, key token = some first := by
  induction tokens generalizing entries with
  | nil => simp
  | cons token tokens ih =>
      rw [List.foldl_cons, ih fun other member => each other (List.mem_cons_of_mem _ member),
        each token List.mem_cons_self]
      simp [or_assoc]

/-- The collapses are those of the tokens that are taken for a word. -/
theorem lookup_falseMwtCollapses
    (resolved : ∀ token ∈ tokens, ∀ id ∈ token.id, (wordById words id).isSome) :
    ((falseMwtCollapses words tokens).lookup first).isSome ↔
      ∃ token ∈ tokens, falseMwtCarrier token = some first := by
  unfold falseMwtCollapses
  rw [lookup_foldl_isSome falseMwtCarrier]
  · simp
  · intro token isToken entries
    split
    · rename_i start second rest known ids
      have carries : falseMwtCarrier token = some start := by
        simp [falseMwtCarrier, known, ids]
      rw [if_pos (ids ▸ resolved token isToken), lookup_dictSet, carries]
      by_cases same : first = start
      · simp [same]
      · simp [same, Ne.symm same]
    · rename_i other
      have noCarrier : falseMwtCarrier token = none := by
        unfold falseMwtCarrier
        split
        · rename_i known ids
          exact absurd ids (other _ _ _ _ known)
        · rfl
      simp [noCarrier]

omit [PythonText] in
/-- A word is found under its id. -/
theorem wordById_eq {word : NormalizedWord} (nodup : (words.map (·.id)).Nodup)
    (isWord : word ∈ words) : wordById words word.id = some word := by
  rcases Option.isSome_iff_exists.mp (wordById_isSome (List.mem_map_of_mem isWord)) with
    ⟨other, found⟩
  rcases wordById_mem found with ⟨isOther, same⟩
  rw [found, eq_of_id_eq nodup isOther isWord same]

/-- What is collected for the tokens of a sentence. -/
structure CollectedFor (words : List NormalizedWord) (tokens : List Token)
    (collapses : List (ℕ × Collapse)) : Prop where
  collected : Collected tokens collapses
  nodup : (words.map (·.id)).Nodup
  disjoint : (tokens.flatMap (·.id)).Nodup
  listed : ∀ id, (collapses.lookup id).isSome ↔ ∃ token ∈ tokens, falseMwtCarrier token = some id

variable {collapses : List (ℕ × Collapse)} {oldToNew : List (ℕ × ℕ)}

theorem CollectedFor.lookup (collected : CollectedFor words tokens collapses)
    (isToken : token ∈ tokens)
    (inside : id ∈ token.id) :
    (collapses.lookup id).isSome ↔ falseMwtCarrier token = some id := by
  rw [collected.listed]
  constructor
  · rintro ⟨other, isOther, carries⟩
    have isFirst := List.mem_of_mem_head? (falseMwtCarrier_head carries)
    rwa [token_eq_of_id collected.disjoint isToken isOther inside isFirst]
  · exact fun carries => ⟨token, isToken, carries⟩

theorem CollectedFor.joined (collected : CollectedFor words tokens collapses)
    (isToken : token ∈ tokens) :
    (collapseBlock collapses token).2 = none ↔ falseMwtCarrier token = none := by
  cases start : token.id.head? with
  | none =>
      have noCarrier : falseMwtCarrier token = none := by
        by_contra some_
        rcases Option.ne_none_iff_exists'.mp some_ with ⟨first, carries⟩
        cases start.symm.trans (falseMwtCarrier_head carries)
      simp [collapseBlock, start, noCarrier]
  | some first =>
      have block : (collapseBlock collapses token).2 = (collapses.lookup first).map fun _ => 1 := by
        simp only [collapseBlock, start, Option.bind_some]
      rw [block, Option.map_eq_none_iff, ← Option.not_isSome_iff_eq_none,
        collected.lookup isToken (List.mem_of_mem_head? start)]
      cases carries : falseMwtCarrier token with
      | none => simp
      | some other =>
          cases start.symm.trans (falseMwtCarrier_head carries)
          simp

/-- The word that stands for a collapse keeps its head. -/
theorem CollectedFor.sample (collected : CollectedFor words tokens collapses)
    (oldToNew : List (ℕ × ℕ)) {word : NormalizedWord} (isWord : word ∈ words)
    (isFirst : (collapses.lookup word.id).isSome) :
    ∃ rewritten, collapseWord words collapses oldToNew word = some rewritten ∧
      Succeeds (mappedId oldToNew) word rewritten.1 := by
  rcases Option.isSome_iff_exists.mp isFirst with ⟨collapse, here⟩
  have sample : (wordById words (collapse.ids.headD 0)).getD word = word := by
    have first : collapse.ids.headD 0 = word.id := by
      rw [List.headD_eq_head?_getD, collected.collected.first _ (mem_of_lookup here)]
      rfl
    rw [first, wordById_eq collected.nodup isWord, Option.getD_some]
  refine ⟨_, by rw [collapseWord, here], ?_, ?_, ?_⟩
  · dsimp only
    rw [sample]
  · dsimp only
    rw [sample]
  · dsimp only
    rw [sample]

theorem CollectedFor.takenFor (collected : CollectedFor words tokens collapses)
    (isToken : token ∈ tokens) :
    TakenFor words (mappedId oldToNew) (collapseBlock collapses token) (falseMwtCarrier token)
      ((words.filter (·.id ∈ token.id)).filterMap fun word =>
        (collapseWord words collapses oldToNew word).map Prod.fst) where
  joined := collected.joined isToken
  sized := by
    intro size isSize
    rcases Option.map_eq_some_iff.mp isSize with ⟨_, _, rfl⟩
    exact one_pos
  inside := fun first carries => List.mem_of_mem_head? (falseMwtCarrier_head carries)
  kept := by
    intro word isWord here itself
    have listed : word ∈ words.filter (·.id ∈ token.id) :=
      List.mem_filter.mpr ⟨isWord, decide_eq_true here⟩
    suffices rewritten : ∃ rewritten,
        collapseWord words collapses oldToNew word = some rewritten ∧
          Succeeds (mappedId oldToNew) word rewritten.1 by
      rcases rewritten with ⟨rewritten, isRewritten, succeeds⟩
      refine ⟨rewritten.1, List.mem_filterMap.mpr ⟨word, listed, ?_⟩, succeeds⟩
      rw [isRewritten, Option.map_some]
    cases carries : falseMwtCarrier token with
    | none =>
        refine ⟨_, collapseWord_of_apart collected.collected ?_, ⟨rfl, rfl, rfl⟩⟩
        rw [collected.collected.containing isToken here, (collected.joined isToken).mpr carries,
          Option.map_none]
    | some first =>
        rw [carries, Option.getD_some] at itself
        apply collected.sample oldToNew isWord
        rw [collected.lookup isToken here, carries, itself]
  only := by
    intro other isOther
    rcases List.mem_filterMap.mp isOther with ⟨word, listed, isRewritten⟩
    rcases List.mem_filter.mp listed with ⟨isWord, here⟩
    rw [decide_eq_true_eq] at here
    rcases Option.map_eq_some_iff.mp isRewritten with ⟨rewritten, collapsed, rfl⟩
    have containing := collected.collected.containing isToken here
    refine Or.inl ⟨word, isWord, here, ?_⟩
    cases carries : falseMwtCarrier token with
    | none =>
        rw [(collected.joined isToken).mpr carries, Option.map_none] at containing
        rw [collapseWord_of_apart collected.collected containing] at collapsed
        cases collapsed
        exact ⟨⟨rfl, rfl, rfl⟩, rfl⟩
    | some first =>
        have isFirst := collected.lookup isToken here
        by_cases same : word.id = first
        · rw [carries, same] at isFirst
          rcases collected.sample oldToNew isWord (same ▸ isFirst.mpr rfl) with
            ⟨again, isAgain, succeeds⟩
          cases isAgain.symm.trans collapsed
          exact ⟨succeeds, same.symm⟩
        · have notFirst : collapses.lookup word.id = none := by
            rw [← Option.not_isSome_iff_eq_none, isFirst, carries, Option.some.injEq]
            exact Ne.symm same
          have isJoined : (collapseBlock collapses token).2 ≠ none := by
            rw [ne_eq, collected.joined isToken, carries]
            simp
          have inside : word.id ∈ collapses.flatMap (·.2.ids) := by
            rcases Option.ne_none_iff_exists'.mp isJoined with ⟨size, isSize⟩
            rw [isSize, Option.map_some] at containing
            exact mem_collapsed_of_containing containing
          rw [collapseWord, notFirst] at collapsed
          dsimp only at collapsed
          rw [if_pos inside] at collapsed
          cases collapsed

theorem falseMwtCollapses_collectedFor (numbered : Numbered words tokens) :
    CollectedFor words tokens (falseMwtCollapses words tokens) where
  collected := falseMwtCollapses_collected (numbered.spans ▸ numbered.counted.nodup)
  nodup := numbered.counted.nodup
  disjoint := numbered.spans ▸ numbered.counted.nodup
  listed first := by
    apply lookup_falseMwtCollapses
    intro token isToken id inside
    apply wordById_isSome
    rw [← numbered.spans]
    exact List.mem_flatMap_of_mem isToken inside

omit [PythonText] in
/-- What becomes of the words, token by token. -/
theorem mem_filterMap_tokens {f : NormalizedWord → Option (NormalizedWord × List AnalysisAnomaly)}
    (spans : tokens.flatMap (·.id) = words.map (·.id)) {other : NormalizedWord} :
    other ∈ (words.filterMap f).map Prod.fst ↔ ∃ token ∈ tokens,
      other ∈ (words.filter (·.id ∈ token.id)).filterMap fun word => (f word).map Prod.fst := by
  constructor
  · intro member
    rcases List.mem_map.mp member with ⟨rewritten, isRewritten, rfl⟩
    rcases List.mem_filterMap.mp isRewritten with ⟨word, isWord, same⟩
    have spanned : word.id ∈ tokens.flatMap (·.id) := spans ▸ List.mem_map_of_mem isWord
    rcases List.mem_flatMap.mp spanned with ⟨token, isToken, inside⟩
    refine ⟨token, isToken, List.mem_filterMap.mpr ⟨word, ?_, ?_⟩⟩
    · exact List.mem_filter.mpr ⟨isWord, decide_eq_true inside⟩
    · rw [same, Option.map_some]
  · rintro ⟨token, _, member⟩
    rcases List.mem_filterMap.mp member with ⟨word, listed, isRewritten⟩
    rcases Option.map_eq_some_iff.mp isRewritten with ⟨rewritten, same, rfl⟩
    apply List.mem_map_of_mem
    exact List.mem_filterMap.mpr ⟨word, (List.mem_filter.mp listed).1, same⟩

/-- The collapsed tokens are taken for their first words. -/
theorem normalizeItalianFalseMwts_contraction (numbered : Numbered words tokens) :
    ∃ newId, Contraction words (normalizeItalianFalseMwts words tokens).words
      (standInFor (tokens.map fun token => (token.id, falseMwtCarrier token))) newId := by
  have collected := falseMwtCollapses_collectedFor numbered
  unfold normalizeItalianFalseMwts
  dsimp only
  split
  · rename_i untouched
    rw [standInFor_of_none]
    · exact ⟨_, .refl words⟩
    · intro carrier isCarrier
      rcases List.mem_map.mp isCarrier with ⟨token, isToken, rfl⟩
      cases carries : falseMwtCarrier token with
      | none => rfl
      | some first =>
          have found := (collected.listed first).mpr ⟨token, isToken, carries⟩
          rw [List.isEmpty_iff.mp untouched] at found
          cases found
  · set collapses := falseMwtCollapses words tokens
    have ids : (tokens.map (collapseBlock collapses)).flatMap Prod.fst = words.map (·.id) := by
      rw [← numbered.spans, List.flatMap_map]
      rfl
    have spreads : Spreads (mappedId (collapsedIds collapses 1 [] words)) 1
        (tokens.map (collapseBlock collapses)) := by
      rw [collapsedIds_eq_spread collected.collected numbered.spans.symm collected.disjoint
        (by simp)]
      exact spread_spreads 1 [] (ids ▸ collected.nodup)
    have counting : Counting (collapsedIds collapses 1 [] words) := by
      apply collapsedIds_counting numbered.positive _ one_pos Counting.nil
      intro entry isEntry id isId
      rcases (falseMwtCollapses_of entry isEntry).resolved id isId with ⟨word, isWord, rfl⟩
      exact numbered.positive word isWord
    have members : ∀ other, other ∈ (words.filterMap
        (collapseWord words collapses (collapsedIds collapses 1 [] words))).map Prod.fst ↔
        ∃ token ∈ tokens, other ∈ (words.filter (·.id ∈ token.id)).filterMap fun word =>
          (collapseWord words collapses (collapsedIds collapses 1 [] words) word).map
            Prod.fst := fun other => mem_filterMap_tokens numbered.spans
    exact ⟨_, contraction_of_spreads falseMwtCarrier _ members counting.mappedId_eq_zero spreads
      ids collected.nodup fun token isToken => collected.takenFor isToken⟩

/-- The collapse keeps the tree exactly if the first words of the collapsed tokens carry it. -/
theorem normalizeItalianFalseMwts_singleRooted_iff (tree : SingleRooted words)
    (numbered : Numbered words tokens) :
    SingleRooted (normalizeItalianFalseMwts words tokens).words ↔
      Carries words (standInFor (tokens.map fun token => (token.id, falseMwtCarrier token))) := by
  have newNumbered := normalizeItalianFalseMwts_numbered numbered
  rcases normalizeItalianFalseMwts_contraction numbered with ⟨newId, contraction⟩
  exact contraction.singleRooted_iff tree newNumbered.positive newNumbered.counted.nodup

end FalseMwts

section Passes

variable [PythonText] {words : List NormalizedWord} {tokens : List Token}

/-- What a pass leaves is numbered, and its heads form a tree. -/
structure Rewritten.Tree (rewritten : Rewritten) : Prop where
  rooted : SingleRooted rewritten.words
  numbered : Numbered rewritten.words rewritten.tokens

/-- The tree goes through the words that the tokens with an older analysis are taken for. -/
def LegacyCarries (words : List NormalizedWord) (tokens : List Token) : Prop :=
  Carries words (standInFor (legacyCarriers words tokens))

/-- The tree goes through the first words of the tokens that are no multiword tokens. -/
def FalseMwtCarries (words : List NormalizedWord) (tokens : List Token) : Prop :=
  Carries words (standInFor (tokens.map fun token => (token.id, falseMwtCarrier token)))

/-- The pass takes every word for itself. -/
theorem normalizeItalianMwtComponents_contraction (words : List NormalizedWord)
    (tokens : List Token) :
    Contraction words (normalizeItalianMwtComponents words tokens).1 (fun id => id)
      (fun id => id) := by
  unfold normalizeItalianMwtComponents
  dsimp only
  rw [List.map_map]
  apply contraction_map
  intro word
  simp only [Function.comp_apply]
  split
  · exact ⟨rfl, rfl, rfl⟩
  · exact ⟨rfl, rfl, rfl⟩

theorem normalizeItalianMwtComponents_singleRooted (tree : SingleRooted words)
    (tokens : List Token) : SingleRooted (normalizeItalianMwtComponents words tokens).1 := by
  have ids := normalizeItalianMwtComponents_ids words tokens
  have contraction := normalizeItalianMwtComponents_contraction words tokens
  refine (contraction.singleRooted_iff tree ?_ (ids ▸ tree.nodup)).mpr tree.carries
  intro other isOther
  have member : other.id ∈ words.map (·.id) := ids ▸ List.mem_map_of_mem isOther
  rcases List.mem_map.mp member with ⟨word, isWord, same⟩
  exact same ▸ tree.counted word isWord

theorem normalizeItalianCompoundImperatives_tree (tree : SingleRooted words)
    (numbered : Numbered words tokens) : (normalizeItalianCompoundImperatives words tokens).Tree :=
  ⟨normalizeItalianCompoundImperatives_singleRooted tree numbered,
    normalizeItalianCompoundImperatives_numbered numbered⟩

theorem normalizeItalianLegacyMwts_tree (tree : SingleRooted words)
    (numbered : Numbered words tokens) (carries : LegacyCarries words tokens) :
    (normalizeItalianLegacyMwts words tokens).Tree :=
  ⟨(normalizeItalianLegacyMwts_singleRooted_iff tree numbered).mpr carries,
    normalizeItalianLegacyMwts_numbered numbered⟩

theorem normalizeItalianFalseMwts_tree (tree : SingleRooted words)
    (numbered : Numbered words tokens) (carries : FalseMwtCarries words tokens) :
    (normalizeItalianFalseMwts words tokens).Tree :=
  ⟨(normalizeItalianFalseMwts_singleRooted_iff tree numbered).mpr carries,
    normalizeItalianFalseMwts_numbered numbered⟩

/-- The passes keep the tree exactly if it goes through the words that their tokens are taken
for, and so does a sentence if this holds in front of each of them. -/
theorem italianPasses_tree_iff (tree : SingleRooted words) (numbered : Numbered words tokens) :
    ((normalizeItalianCompoundImperatives words tokens).Tree ∧
        (normalizeItalianLegacyMwts words tokens).Tree ∧
        (normalizeItalianFalseMwts words tokens).Tree ↔
      LegacyCarries words tokens ∧ FalseMwtCarries words tokens) ∧
    ∀ authoritativeWords : Option (List String),
      let grouped := authoritativeWords.elim tokens (groupItalianElisionTokens tokens)
      let compound := normalizeItalianCompoundImperatives words grouped
      let legacy := normalizeItalianLegacyMwts compound.words compound.tokens
      let components := normalizeItalianMwtComponents legacy.words legacy.tokens
      LegacyCarries compound.words compound.tokens → FalseMwtCarries components.1 legacy.tokens →
        (rewriteSentence "it" authoritativeWords words tokens).Tree := by
  constructor
  · constructor
    · rintro ⟨_, legacy, collapsed⟩
      exact ⟨(normalizeItalianLegacyMwts_singleRooted_iff tree numbered).mp legacy.rooted,
        (normalizeItalianFalseMwts_singleRooted_iff tree numbered).mp collapsed.rooted⟩
    · rintro ⟨legacy, collapsed⟩
      exact ⟨normalizeItalianCompoundImperatives_tree tree numbered,
        normalizeItalianLegacyMwts_tree tree numbered legacy,
        normalizeItalianFalseMwts_tree tree numbered collapsed⟩
  · intro authoritativeWords grouped compound legacy components legacyCarries falseCarries
    have start : Numbered words grouped := by
      cases authoritativeWords with
      | none => exact numbered
      | some authoritative =>
          exact ⟨numbered.counted, (groupItalianElisionTokens_ids _ _).trans numbered.spans⟩
    have first := normalizeItalianCompoundImperatives_tree tree start
    have second := normalizeItalianLegacyMwts_tree first.rooted first.numbered legacyCarries
    have third : SingleRooted components.1 :=
      normalizeItalianMwtComponents_singleRooted second.rooted legacy.tokens
    have renumbered : Numbered components.1 legacy.tokens :=
      second.numbered.of_ids (normalizeItalianMwtComponents_ids _ _)
    have last := normalizeItalianFalseMwts_tree third renumbered falseCarries
    unfold rewriteSentence
    rw [if_pos rfl]
    exact ⟨last.rooted, last.numbered⟩

end Passes

section Sentences

/-- The second half of `parla` is the root, and the first one hangs on it. -/
def parla : List NormalizedWord :=
  [taggedWord 1 "par" "VERB" "compound" 2, taggedWord 2 "la" "PRON" "root" 0]

def parlaTokens : List Token := [⟨"parla", [1, 2]⟩]

theorem singleRooted_parla : SingleRooted parla where
  counted := by simp [parla, taggedWord]
  nodup := by simp [parla, taggedWord]
  attached := by simp [parla, taggedWord]
  acyclic := by
    apply acyclic_of_rank fun id => if id = 2 then 0 else 1
    rintro id head ⟨word, member, rfl, rfl, notZero⟩
    simp only [parla, List.mem_cons, List.not_mem_nil, or_false] at member
    rcases member with rfl | rfl
    · simp [taggedWord]
    · exact absurd rfl notZero
  root := ⟨taggedWord 2 "la" "PRON" "root" 0, by simp [parla, taggedWord], by
    change lower "root" = "root"
    decide +kernel⟩

/-- The collapsed word hangs on itself. -/
theorem parla_rootless :
    SingleRooted parla ∧ Numbered parla parlaTokens ∧
      ¬ (normalizeItalianFalseMwts parla parlaTokens).Tree := by
  refine ⟨singleRooted_parla, ⟨rfl, rfl⟩, fun tree => ?_⟩
  have noRoot : ∀ word ∈ (normalizeItalianFalseMwts parla parlaTokens).words, word.head ≠ 0 := by
    decide +kernel
  rcases tree.rooted.exists_root with ⟨root, isWord, zero, _⟩
  exact noRoot root isWord zero

/-- In `vuole alzarsi` the verb is the word that the token is taken for. -/
def vuoleAlzarsi : List NormalizedWord :=
  [taggedWord 1 "vuole" "VERB" "root" 0, taggedWord 2 "alzar" "VERB" "xcomp" 1,
    taggedWord 3 "si" "PRON" "expl" 2]

def vuoleAlzarsiTokens : List Token := [⟨"vuole", [1]⟩, ⟨"alzarsi", [2, 3]⟩]

theorem carries_vuoleAlzarsi {standIn : ℕ → ℕ} (first : standIn 1 = 1) (second : standIn 2 = 2) :
    Carries vuoleAlzarsi standIn where
  root := by
    intro word member zero
    simp only [vuoleAlzarsi, List.mem_cons, List.not_mem_nil, or_false] at member
    rcases member with rfl | rfl | rfl
    · exact first
    · cases zero
    · cases zero
  acyclic := by
    apply acyclic_of_rank fun id => if standIn id = 1 then 0 else if standIn id = 2 then 1 else 2
    rintro id head ⟨word, member, isId, rfl, notZero⟩
    simp only [vuoleAlzarsi, List.mem_cons, List.not_mem_nil, or_false] at member
    rcases member with rfl | rfl | rfl
    · exact absurd rfl notZero
    · simp [taggedWord, ← isId, first]
    · simp [taggedWord, ← isId, second]

theorem singleRooted_vuoleAlzarsi : SingleRooted vuoleAlzarsi where
  counted := by simp [vuoleAlzarsi, taggedWord]
  nodup := by simp [vuoleAlzarsi, taggedWord]
  attached := by simp [vuoleAlzarsi, taggedWord]
  acyclic := by
    have carries : Carries vuoleAlzarsi fun id => id := carries_vuoleAlzarsi rfl rfl
    exact carries.acyclic
  root := ⟨taggedWord 1 "vuole" "VERB" "root" 0, by simp [vuoleAlzarsi, taggedWord], by
    change lower "root" = "root"
    decide +kernel⟩

theorem vuoleAlzarsi_tree :
    (normalizeItalianCompoundImperatives vuoleAlzarsi vuoleAlzarsiTokens).Tree ∧
      (normalizeItalianLegacyMwts vuoleAlzarsi vuoleAlzarsiTokens).Tree ∧
      (normalizeItalianFalseMwts vuoleAlzarsi vuoleAlzarsiTokens).Tree := by
  have carriers : legacyCarriers vuoleAlzarsi vuoleAlzarsiTokens =
      [([1], none), ([2, 3], some 2)] := by decide +kernel
  have noCarriers : (vuoleAlzarsiTokens.map fun token => (token.id, falseMwtCarrier token)) =
      [([1], none), ([2, 3], none)] := by decide +kernel
  apply (italianPasses_tree_iff singleRooted_vuoleAlzarsi ⟨rfl, rfl⟩).1.mpr
  constructor
  · rw [LegacyCarries, carriers]
    exact carries_vuoleAlzarsi rfl rfl
  · rw [FalseMwtCarries, noCarriers]
    exact carries_vuoleAlzarsi rfl rfl

end Sentences

end Batchalign.Morphosyntax
