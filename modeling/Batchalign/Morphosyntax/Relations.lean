import Batchalign.Morphosyntax.Grouping
import Batchalign.Morphosyntax.Numbers

/-!
# The relations of the units

The words with a unit are numbered from 1. A head is taken to the number of its word, or of the
root if that word has no unit and stands behind the root, and to 0 if it stands in front of it.
The units come out in the order of the words unless the first one is joined to one in front.
-/

namespace Batchalign.Morphosyntax

open Fallible Numbering Gathering PythonText Runners

section Units

variable [PythonText] [MorHandlers]

/-- What the loop over the words asks before it makes a unit. -/
def hasUnit (lang : String) (word : NormalizedWord) : Bool :=
  decide (word.text ≠ "") && decide (strip word.text ≠ "0") &&
    ((match handle word lang with
      | .ok unit => unit.isSome
      | .error _ => false) || decide (strip word.text ∈ sentinels))

variable {lang : String} {word : NormalizedWord} {state next : LoopState} {indx : ℕ}

omit [PythonText] [MorHandlers] in
theorem resolveUnit_ok {unit : Option MorAnalysis} {resolved : LoopState × MorAnalysis}
    (ok : resolveUnit state word unit = .ok resolved) :
    ∃ forms formIds, resolved.1 =
      { state with specialForms := forms, specialFormIds := formIds } := by
  unfold resolveUnit at ok
  dsimp only at ok
  split at ok
  · split at ok
    · cases ok
    · rcases bind_eq_ok_iff.mp ok with ⟨special, _, ok⟩
      cases ok
      exact ⟨_, _, rfl⟩
  · split at ok
    · cases ok
      exact ⟨state.specialForms, state.specialFormIds, rfl⟩
    · cases ok

/-- What one round does: the word gets a unit, or it is skipped. -/
theorem wordStep_cases (stepped : wordStep lang state (word, indx) = .ok next) :
    (hasUnit lang word = true ∧ ∃ unit forms formIds,
        next = LoopState.keep { state with specialForms := forms, specialFormIds := formIds }
          (indx + 1 - state.numSkipped) word unit) ∨
      (hasUnit lang word = false ∧ next = state.skip word.text) := by
  unfold wordStep at stepped
  dsimp only at stepped
  split at stepped
  · rename_i noText
    right
    exact ⟨by simp [hasUnit, noText], by rw [noText]; exact (Except.ok.inj stepped).symm⟩
  · rename_i text
    rcases bind_eq_ok_iff.mp stepped with ⟨unit, handled, stepped⟩
    split at stepped
    · rename_i omitted
      right
      exact ⟨by simp [hasUnit, omitted], (Except.ok.inj stepped).symm⟩
    · rename_i spoken
      split at stepped
      · rename_i kept
        rcases bind_eq_ok_iff.mp stepped with ⟨resolved, isResolved, stepped⟩
        rcases resolveUnit_ok isResolved with ⟨forms, formIds, same⟩
        left
        refine ⟨by simpa [hasUnit, text, spoken, handled] using kept,
          resolved.2, forms, formIds, ?_⟩
        rw [← same]
        have keep := (Except.ok.inj stepped).symm
        rw [keep, same]
      · rename_i noUnit
        right
        refine ⟨?_, (Except.ok.inj stepped).symm⟩
        simpa [hasUnit, text, spoken, handled] using noUnit

end Units

section Rounds

variable [PythonText] [MorHandlers]

/-- The word at this position is the one that is labelled as root. -/
def RootAt (words : List NormalizedWord) (root : ℕ) : Prop :=
  ∀ (place : ℕ) (word : NormalizedWord), words[place]? = some word →
    (IsRootLabel word.deprel ↔ place = root)

/-- The number of the root, as far as the loop has come. -/
def rootNumber (lang : String) (words : List NormalizedWord) (root place : ℕ) : ℕ :=
  if root < place ∧ (words[root]?).any (hasUnit lang) then number (hasUnit lang) words root else 0

/-- What a head at this position is taken to. -/
def resolvedNumber (lang : String) (words : List NormalizedWord) (root place : ℕ) : ℕ :=
  if (words[place]?).any (hasUnit lang) then number (hasUnit lang) words place
  else rootNumber lang words root place

/-- The arrays after the rounds for these words. -/
structure Rounds (lang : String) (root : ℕ) (words : List NormalizedWord) (state : LoopState) :
    Prop where
  analyses : state.analyses.map Option.isSome = words.map (hasUnit lang)
  surfaces : state.surfaces.length = words.length
  indices : state.graTmp.map Prod.fst = List.range' 1 (words.countP (hasUnit lang))
  relations : ∀ (place : ℕ) (word : NormalizedWord), words[place]? = some word →
    hasUnit lang word = true →
      (number (hasUnit lang) words place, word.head, graLabel word.deprel) ∈ state.graTmp
  actual : state.actualIndicies =
    (List.range words.length).map (resolvedNumber lang words root)
  skipped : state.numSkipped + words.countP (hasUnit lang) = words.length
  lastRoot : state.root = rootNumber lang words root words.length

variable {lang : String} {root place : ℕ} {words : List NormalizedWord} {word : NormalizedWord}
  {state next : LoopState}

theorem rootNumber_concat (inside : place ≤ words.length) :
    rootNumber lang (words ++ [word]) root place = rootNumber lang words root place := by
  unfold rootNumber
  by_cases seen : root < place
  · rw [List.getElem?_append_left (by omega), number_append (by omega)]
  · simp [seen]

theorem resolvedNumber_concat (inside : place < words.length) :
    resolvedNumber lang (words ++ [word]) root place = resolvedNumber lang words root place := by
  unfold resolvedNumber
  rw [List.getElem?_append_left inside, number_append inside.le, rootNumber_concat inside.le]

theorem resolvedNumber_concat_last :
    resolvedNumber lang (words ++ [word]) root words.length =
      if hasUnit lang word then words.countP (hasUnit lang) + 1
      else rootNumber lang words root words.length := by
  unfold resolvedNumber
  rw [rootNumber_concat le_rfl, number_append le_rfl, number_length]
  simp

theorem range_map_resolvedNumber_concat :
    (List.range (words ++ [word]).length).map (resolvedNumber lang (words ++ [word]) root) =
      (List.range words.length).map (resolvedNumber lang words root) ++
        [if hasUnit lang word then words.countP (hasUnit lang) + 1
          else rootNumber lang words root words.length] := by
  rw [List.length_append, List.length_singleton, List.range_succ, List.map_append,
    List.map_singleton, resolvedNumber_concat_last]
  congr 1
  refine List.map_congr_left fun place inside => ?_
  exact resolvedNumber_concat (List.mem_range.mp inside)

theorem rootNumber_concat_succ (isRoot : IsRootLabel word.deprel ↔ words.length = root) :
    rootNumber lang (words ++ [word]) root (words ++ [word]).length =
      if hasUnit lang word ∧ IsRootLabel word.deprel then words.countP (hasUnit lang) + 1
      else rootNumber lang words root words.length := by
  have length : (words ++ [word]).length = words.length + 1 := List.length_append
  rw [length]
  simp only [isRoot]
  by_cases here : words.length = root
  · subst here
    unfold rootNumber
    rw [number_append le_rfl, number_length]
    simp
  · have same : rootNumber lang (words ++ [word]) root (words.length + 1) =
        rootNumber lang (words ++ [word]) root words.length := by
      have behind : root < words.length + 1 ↔ root < words.length := by omega
      simp only [rootNumber, behind]
    rw [same, rootNumber_concat le_rfl, if_neg fun both => here both.2]

theorem Rounds.initial (specialForms : List (String × String)) :
    Rounds lang root [] (LoopState.initial specialForms) where
  analyses := rfl
  surfaces := rfl
  indices := rfl
  relations := by simp
  actual := rfl
  skipped := rfl
  lastRoot := rfl

/-- A round keeps the arrays in step with the words. -/
theorem Rounds.step [LawfulPythonText] (rounds : Rounds lang root words state)
    (isRoot : IsRootLabel word.deprel ↔ words.length = root)
    (stepped : wordStep lang state (word, words.length) = .ok next) :
    Rounds lang root (words ++ [word]) next := by
  have counted := rounds.skipped
  have own : ∀ (place : ℕ) (other : NormalizedWord), (words ++ [word])[place]? = some other →
      words[place]? = some other ∨ place = words.length ∧ other = word := by
    intro place other here
    rcases Nat.lt_or_ge place words.length with inside | last
    · rw [List.getElem?_append_left inside] at here
      exact Or.inl here
    · rw [List.getElem?_append_right last, List.getElem?_singleton] at here
      split_ifs at here with atEnd
      exact Or.inr ⟨by omega, (Option.some.inj here).symm⟩
  rcases wordStep_cases stepped with ⟨kept, unit, forms, formIds, rfl⟩ | ⟨skipped, rfl⟩
  · have index : words.length + 1 - state.numSkipped = words.countP (hasUnit lang) + 1 := by
      omega
    have count : (words ++ [word]).countP (hasUnit lang) = words.countP (hasUnit lang) + 1 := by
      simp [kept]
    constructor
    · simp [LoopState.keep, rounds.analyses, kept]
    · simp [LoopState.keep, rounds.surfaces]
    · simp only [LoopState.keep, List.map_append, rounds.indices, List.map_singleton, index]
      rw [count, List.range'_concat, Nat.one_mul, Nat.add_comm 1]
    · intro place other here hasOne
      rcases own place other here with inside | ⟨rfl, rfl⟩
      · rw [number_append (List.getElem?_eq_some_iff.mp inside).1.le]
        exact List.mem_append_left _ (rounds.relations place other inside hasOne)
      · rw [number_append le_rfl, number_length, ← index]
        exact List.mem_append_right _ List.mem_cons_self
    · rw [range_map_resolvedNumber_concat, if_pos kept, ← rounds.actual, ← index]
      rfl
    · simp only [LoopState.keep, List.length_append, List.length_singleton]
      omega
    · rw [rootNumber_concat_succ isRoot, ← rounds.lastRoot, ← index]
      simp only [LoopState.keep, LawfulPythonText.upper_eq_root, kept, true_and]
  · have count : (words ++ [word]).countP (hasUnit lang) = words.countP (hasUnit lang) := by
      simp [skipped]
    constructor
    · simp [LoopState.skip, rounds.analyses, skipped]
    · simp [LoopState.skip, rounds.surfaces]
    · rw [count]
      exact rounds.indices
    · intro place other here hasOne
      rcases own place other here with inside | ⟨rfl, rfl⟩
      · rw [number_append (List.getElem?_eq_some_iff.mp inside).1.le]
        exact rounds.relations place other inside hasOne
      · rw [skipped] at hasOne
        cases hasOne
    · rw [range_map_resolvedNumber_concat, skipped, ← rounds.actual, ← rounds.lastRoot]
      rfl
    · simp only [LoopState.skip, List.length_append, List.length_singleton]
      omega
    · rw [rootNumber_concat_succ isRoot, skipped, ← rounds.lastRoot]
      rfl

/-- The arrays after the loop. -/
theorem rounds_of_foldlM [LawfulPythonText] {specialForms : List (String × String)}
    (rootAt : RootAt words root)
    (ran : words.zipIdx.foldlM (wordStep lang) (LoopState.initial specialForms) = .ok state) :
    Rounds lang root words state := by
  induction words using List.reverseRecOn generalizing state with
  | nil =>
      obtain rfl : LoopState.initial specialForms = state := Except.ok.inj ran
      exact Rounds.initial specialForms
  | append_singleton words word ih =>
      rw [List.zipIdx_append, List.foldlM_append] at ran
      rcases bind_eq_ok_iff.mp ran with ⟨middle, before, last⟩
      rw [Nat.zero_add, List.zipIdx_singleton, List.foldlM_cons] at last
      rcases bind_eq_ok_iff.mp last with ⟨after, stepped, done⟩
      obtain rfl : after = state := Except.ok.inj done
      have earlier : RootAt words root := by
        intro place other here
        apply rootAt
        rw [List.getElem?_append_left (List.getElem?_eq_some_iff.mp here).1, here]
      exact (ih earlier before).step (rootAt words.length word (by simp)) stepped

end Rounds

section Labels

variable [PythonText] [LawfulPythonText] {deprel : String}

omit [LawfulPythonText] in
theorem graLabel_of_upper_root (root : upper deprel = "ROOT") : graLabel deprel = "ROOT" := by
  rw [graLabel, root]
  rfl

omit [LawfulPythonText] in
/-- Without a subtype and a mark the label is written in upper case, as it is. -/
theorem graLabel_eq_upper (plain : ∀ mark ∈ [':', '<', '>'], mark ∉ (upper deprel).toList) :
    graLabel deprel = upper deprel := by
  have colonless : (upper deprel).toList.map (fun char => if char = ':' then '-' else char) =
      (upper deprel).toList := by
    refine (List.map_congr_left fun char member => ?_).trans (List.map_id' _)
    refine if_neg fun colon => ?_
    exact plain ':' (by simp) (colon ▸ member)
  have unmarked : (upper deprel).toList.filter (fun char => char ≠ '<' ∧ char ≠ '>') =
      (upper deprel).toList := by
    refine List.filter_eq_self.mpr fun char member => ?_
    have left : char ≠ '<' := fun mark => plain '<' (by simp) (mark ▸ member)
    have right : char ≠ '>' := fun mark => plain '>' (by simp) (mark ▸ member)
    simp [left, right]
  rw [graLabel, colonless, unmarked, String.ofList_toList]

omit [LawfulPythonText] in
theorem colon_notMem_upper (reads : IsRootLabel (graLabel deprel)) :
    ':' ∉ (upper deprel).toList := by
  intro colon
  rw [isRootLabel_iff, graLabel, String.toList_ofList] at reads
  have dash : '-' ∈ ((upper deprel).toList.map fun char => if char = ':' then '-' else char).filter
      fun char => char ≠ '<' ∧ char ≠ '>' := by
    refine List.mem_filter.mpr ⟨List.mem_map.mpr ⟨':', colon, rfl⟩, by decide⟩
  have lowered := List.mem_map_of_mem (f := Char.toLower) dash
  rw [reads] at lowered
  exact absurd lowered (by decide)

/-- A label reads as root in `%gra` only if it is one. -/
theorem lower_graLabel_iff
    (marks : ∀ mark ∈ ['<', '>'], mark ∈ deprel.toList → ':' ∈ deprel.toList) :
    lower (graLabel deprel) = "root" ↔ IsRootLabel deprel := by
  rw [LawfulPythonText.lower_eq_root]
  constructor
  · intro reads
    have colon := colon_notMem_upper reads
    have noSubtype : ':' ∉ deprel.toList := by
      rwa [← LawfulPythonText.mem_upper deprel ':' (by simp [labelSeparators])]
    have plain : ∀ mark ∈ [':', '<', '>'], mark ∉ (upper deprel).toList := by
      intro mark isMark inside
      rcases List.mem_cons.mp isMark with rfl | angle
      · exact colon inside
      · have separator : mark ∈ labelSeparators :=
          List.mem_cons_of_mem _ (List.mem_append_left ['-'] angle)
        rw [LawfulPythonText.mem_upper deprel mark separator] at inside
        exact noSubtype (marks mark angle inside)
    rw [graLabel_eq_upper plain, ← LawfulPythonText.upper_eq_root,
      LawfulPythonText.upper_upper] at reads
    exact (LawfulPythonText.upper_eq_root deprel).mp reads
  · intro root
    rw [graLabel_of_upper_root ((LawfulPythonText.upper_eq_root deprel).mpr root), isRootLabel_iff]
    rfl

end Labels

section Resolved

variable {state : LoopState} {relations : List (ℕ × ℕ × String)}

/-- One relation, resolved. -/
def resolveRelation (state : LoopState) (relation : ℕ × ℕ × String) :
    Except PythonError (ℕ × ℕ × String) := do
  let (index, rawHead, deprel) := relation
  let deprel := if index ∈ state.specialFormIds ∧ rawHead ≠ 0 then "FLAT" else deprel
  let head ← if rawHead = 0 then pure 0 else pyGet state.actualIndicies ((rawHead : ℤ) - 1)
  return (index, head, deprel)

theorem resolveRelation_ok {index rawHead : ℕ} {deprel : String}
    {resolved : ℕ × ℕ × String}
    (ok : resolveRelation state (index, rawHead, deprel) = .ok resolved) :
    resolved.1 = index ∧ (rawHead = 0 → resolved.2 = (0, deprel)) ∧
      (rawHead ≠ 0 → pyGet state.actualIndicies ((rawHead : ℤ) - 1) = .ok resolved.2.1 ∧
        (resolved.2.2 = deprel ∨ resolved.2.2 = "FLAT")) := by
  unfold resolveRelation at ok
  dsimp only at ok
  split at ok
  · rename_i zero
    cases ok
    refine ⟨rfl, fun _ => ?_, fun hangs => absurd zero hangs⟩
    simp [zero]
  · rename_i hangs
    rcases bind_eq_ok_iff.mp ok with ⟨head, isHead, ok⟩
    cases ok
    refine ⟨rfl, fun zero => absurd zero hangs, fun _ => ⟨isHead, ?_⟩⟩
    dsimp only
    split
    · exact Or.inr rfl
    · exact Or.inl rfl

/-- The relation that is resolved for a word. -/
theorem chunkGra_lookup (resolved : chunkGra state = .ok relations)
    (nodup : (state.graTmp.map Prod.fst).Nodup) {index rawHead : ℕ} {deprel : String}
    (member : (index, rawHead, deprel) ∈ state.graTmp) :
    ∃ head label, relations.lookup index = some (head, label) ∧
      (rawHead = 0 → head = 0 ∧ label = deprel) ∧
      (rawHead ≠ 0 → pyGet state.actualIndicies ((rawHead : ℤ) - 1) = .ok head ∧
        (label = deprel ∨ label = "FLAT")) := by
  change (state.graTmp.mapM (resolveRelation state) >>= fun list => .ok
    (list.foldl (fun relations relation => dictSet relation.1 relation.2 relations) [])) = _
    at resolved
  rcases bind_eq_ok_iff.mp resolved with ⟨list, mapped, same⟩
  cases same
  have indices : list.map Prod.fst = state.graTmp.map Prod.fst :=
    map_of_mapM_ok (fun _ _ ok => (resolveRelation_ok ok).1) mapped
  rcases exists_of_mapM_ok mapped member with ⟨⟨index', head, label⟩, listed, ok⟩
  rcases resolveRelation_ok ok with ⟨rfl, root, hangs⟩
  refine ⟨head, label, lookup_foldl_dictSet (indices ▸ nodup) listed, fun zero => ?_, hangs⟩
  exact Prod.ext_iff.mp (root zero)

end Resolved

section Joins

variable {lang : String} {tokens : List Token} {words : List NormalizedWord} {ids : List ℕ}
  {position : ℤ}

/-- A token has a word joined at this position. -/
def JoinedAt (lang : String) (tokens : List Token) (position : ℤ) : Prop :=
  ∃ item ∈ withPrevious tokens, ∃ site ∈ joinSites lang item.1.text item.2,
    sitePosition item.1.id site = .ok position

theorem mem_auxiliariesOf {auxiliaries : List ℤ}
    (ok : auxiliariesOf lang tokens = .ok auxiliaries) :
    position ∈ auxiliaries ↔ JoinedAt lang tokens position := by
  rcases bind_eq_ok_iff.mp ok with ⟨joins, mapped, same⟩
  cases same
  have sites : ∀ {token : Token} {previous : Option String} {found : List ℤ},
      tokenAuxiliaries lang token previous = .ok found →
        (joinSites lang token.text previous).mapM (sitePosition token.id) = .ok found := by
    intro token previous found isFound
    unfold tokenAuxiliaries at isFound
    split at isFound
    · cases isFound
    · exact isFound
  rw [List.mem_flatten]
  constructor
  · rintro ⟨found, isFound, inside⟩
    rcases mem_of_mapM_ok mapped isFound with ⟨item, isItem, here⟩
    rcases mem_of_mapM_ok (sites here) inside with ⟨site, isSite, atSite⟩
    exact ⟨item, isItem, site, isSite, atSite⟩
  · rintro ⟨item, isItem, site, isSite, atSite⟩
    rcases exists_of_mapM_ok mapped isItem with ⟨found, isFound, here⟩
    rcases exists_of_mapM_ok (sites here) isSite with ⟨other, inside, same⟩
    rw [atSite] at same
    cases same
    exact ⟨found, isFound, inside⟩

theorem joinSites_offset {text : String} {previous : Option String} {offset : ℤ}
    (member : JoinSite.first offset ∈ joinSites lang text previous) : -1 ≤ offset := by
  unfold joinSites at member
  rcases List.mem_append.mp member with hyphen | other
  · split_ifs at hyphen
    · simp only [List.mem_singleton, JoinSite.first.injEq] at hyphen
      omega
    · cases hyphen
  · dsimp only at other
    split_ifs at other
    all_goals
      simp only [List.mem_cons, List.mem_append, List.not_mem_nil, JoinSite.first.injEq, or_false,
        reduceCtorEq] at other
    all_goals omega

theorem JoinedAt.nonneg (counted : ∀ token ∈ tokens, ∀ id ∈ token.id, 0 < id)
    (joined : JoinedAt lang tokens position) : 0 ≤ position := by
  rcases joined with ⟨⟨token, previous⟩, isItem, site, isSite, atSite⟩
  have isToken : token ∈ tokens := (List.of_mem_zip isItem).1
  cases site with
  | first offset =>
      have bound := joinSites_offset isSite
      cases first : token.id.head? with
      | none => simp [sitePosition, first] at atSite
      | some id =>
          have positive := counted token isToken id (List.mem_of_mem_head? first)
          simp only [sitePosition, first, Option.elim_some, Except.ok.injEq] at atSite
          omega
  | behind =>
      cases last : token.id.getLast? with
      | none => simp [sitePosition, last] at atSite
      | some id =>
          simp only [sitePosition, last, Option.elim_some, Except.ok.injEq] at atSite
          omega

theorem Numbered.token_pos (numbered : Numbered words tokens) :
    ∀ token ∈ tokens, ∀ id ∈ token.id, 0 < id := by
  intro token isToken id inside
  have listed : id ∈ tokens.flatMap (·.id) := List.mem_flatMap.mpr ⟨token, isToken, inside⟩
  rw [numbered.spans, numbered.counted, List.mem_range'_1] at listed
  omega

/-- The joins of a numbered sentence are for places counted from 0. -/
theorem Numbered.sources (numbered : Numbered words tokens) {auxiliaries : List ℤ}
    (ok : auxiliariesOf lang tokens = .ok auxiliaries) :
    ∃ sources : List ℕ, auxiliaries = sources.map Nat.cast ∧
      ∀ place : ℕ, place ∈ sources ↔ JoinedAt lang tokens place := by
  have nonneg : ∀ position ∈ auxiliaries, 0 ≤ position := fun position member =>
    ((mem_auxiliariesOf ok).mp member).nonneg numbered.token_pos
  refine ⟨auxiliaries.map Int.toNat, ?_, ?_⟩
  · rw [List.map_map]
    refine ((List.map_congr_left fun position member => ?_).trans (List.map_id _)).symm
    exact Int.toNat_of_nonneg (nonneg position member)
  · intro place
    rw [← mem_auxiliariesOf ok, List.mem_map]
    constructor
    · rintro ⟨position, member, rfl⟩
      rwa [Int.toNat_of_nonneg (nonneg position member)]
    · intro member
      exact ⟨place, member, Int.toNat_natCast place⟩

/-- The tokens of a numbered sentence span words that count up. -/
theorem Numbered.spanOk (numbered : Numbered words tokens) :
    ∀ mwt ∈ mwtsOf tokens, SpanOk mwt := by
  intro mwt member
  rcases List.mem_filter.mp member with ⟨isIds, several⟩
  have ordered : mwt.Pairwise (· < ·) := by
    have all : (tokens.flatMap (·.id)).Pairwise (· < ·) := by
      rw [numbered.spans, numbered.counted]
      exact List.pairwise_lt_range'
    exact all.sublist (List.sublist_flatten_of_mem isIds)
  rcases List.mem_map.mp isIds with ⟨token, isToken, rfl⟩
  have positive := numbered.token_pos token isToken
  cases ids : token.id with
  | nil => simp [ids] at several
  | cons first rest =>
      rw [ids] at ordered positive
      refine ⟨positive first List.mem_cons_self, ?_⟩
      have last : (first :: rest).getLastD 0 ∈ first :: rest := by
        rw [List.getLastD_eq_getLast?, List.getLast?_eq_some_getLast (List.cons_ne_nil _ _)]
        exact List.getLast_mem _
      rcases List.mem_cons.mp last with same | later
      · exact same.ge
      · exact (List.rel_of_pairwise_cons ordered later).le

end Joins

section Output

variable {state : LoopState} {relations : List (ℕ × ℕ × String)} {groups : Groups}

/-- The units of the groups, in their order. -/
theorem materializeGroup_units :
    (groups.filterMap (materializeGroup state relations)).flatMap (·.units) =
      (contents groups).filterMap fun place =>
        (materializeUnit state relations place).map Prod.fst := by
  induction groups with
  | nil => rfl
  | cons group groups ih =>
      have units : ((group.getD []).filterMap (materializeUnit state relations)).map Prod.fst =
          (group.getD []).filterMap fun place =>
            (materializeUnit state relations place).map Prod.fst :=
        List.map_filterMap
      rw [contents_cons, List.filterMap_append, ← ih, ← units, List.filterMap_cons]
      cases made : (group.getD []).filterMap (materializeUnit state relations) with
      | nil => simp [materializeGroup, made]
      | cons first rest => simp [materializeGroup, made]

theorem materializeGroup_nonempty {group : MorWordGroup}
    (member : group ∈ groups.filterMap (materializeGroup state relations)) : group.units ≠ [] := by
  rcases List.mem_filterMap.mp member with ⟨slot, _, made⟩
  unfold materializeGroup at made
  dsimp only at made
  split at made
  · cases made
  · rename_i nonempty
    cases made
    intro empty
    exact nonempty (List.isEmpty_iff.mpr (List.map_eq_nil_iff.mp empty))

end Output

section Emitted

variable [PythonText] [MorHandlers] {lang : String} {root place : ℕ}
  {words : List NormalizedWord} {word : NormalizedWord} {state : LoopState}
  {relations : List (ℕ × ℕ × String)}

/-- What is emitted for a word with a unit. -/
structure Emits (lang : String) (words : List NormalizedWord) (root place : ℕ)
    (word : NormalizedWord) (unit : MorphosyntaxUnit) : Prop where
  index : unit.index = number (hasUnit lang) words place
  isRoot : word.head = 0 → unit.head = 0 ∧ unit.deprel = "ROOT"
  hangs : word.head ≠ 0 → word.head ≤ words.length ∧
    unit.head = resolvedNumber lang words root (word.head - 1) ∧ unit.deprel ≠ "ROOT"

omit [MorHandlers] in
theorem lower_ne_root_of_hangs [LawfulPythonText] (labelled : Labelled word)
    (hangs : word.head ≠ 0) {label : String}
    (written : label = graLabel word.deprel ∨ label = "FLAT") : lower label ≠ "root" := by
  rcases written with rfl | rfl
  · rw [Ne, lower_graLabel_iff labelled.marks, labelled.root]
    exact hangs
  · rw [Ne, LawfulPythonText.lower_eq_root, isRootLabel_iff]
    decide

theorem materializeUnit_emits [LawfulPythonText] (rounds : Rounds lang root words state)
    (resolved : chunkGra state = .ok relations) (labelled : Labelled word)
    (here : words[place]? = some word) (kept : hasUnit lang word = true) :
    ∃ unit, (materializeUnit state relations place).map Prod.fst = some unit ∧
      Emits lang words root place word (outputUnit unit) := by
  have inside : place < words.length := (List.getElem?_eq_some_iff.mp here).1
  have nodup : (state.graTmp.map Prod.fst).Nodup := by
    rw [rounds.indices]
    exact List.nodup_range'
  rcases chunkGra_lookup resolved nodup (rounds.relations place word here kept) with
    ⟨head, label, found, ofRoot, ofHung⟩
  have analysed : ∃ analysis, (state.analyses[place]?).join = some analysis := by
    have entry := congrArg (·[place]?) rounds.analyses
    simp only [List.getElem?_map, here, Option.map_some, kept] at entry
    rcases Option.map_eq_some_iff.mp entry with ⟨unit, isUnit, some_⟩
    rcases Option.isSome_iff_exists.mp some_ with ⟨analysis, rfl⟩
    exact ⟨analysis, by rw [isUnit]; rfl⟩
  have indexed : state.actualIndicies[place]? = some (number (hasUnit lang) words place) := by
    rw [rounds.actual, List.getElem?_map, List.getElem?_range inside, Option.map_some]
    simp [resolvedNumber, here, kept]
  have surface : ∃ surface, state.surfaces[place]? = some surface :=
    ⟨_, List.getElem?_eq_getElem (rounds.surfaces ▸ inside)⟩
  rcases analysed with ⟨analysis, isAnalysis⟩
  rcases surface with ⟨surface, isSurface⟩
  refine ⟨⟨analysis.pos, analysis.lemmaText, analysis.features,
    number (hasUnit lang) words place, head, label⟩, ?_, ?_⟩
  · simp [materializeUnit, isAnalysis, indexed, isSurface, found]
  · refine ⟨rfl, fun isRoot => ?_, fun hangs => ?_⟩
    · rcases ofRoot isRoot with ⟨rfl, rfl⟩
      have upperRoot : upper word.deprel = "ROOT" :=
        (LawfulPythonText.upper_eq_root _).mpr (labelled.root.mpr isRoot)
      exact ⟨ite_self 0, graLabel_of_upper_root upperRoot⟩
    · rcases ofHung hangs with ⟨got, written⟩
      have notRoot := lower_ne_root_of_hangs labelled hangs written
      have cast : (word.head : ℤ) - 1 = ((word.head - 1 : ℕ) : ℤ) := by omega
      rw [cast, pyGet_natCast, rounds.actual, List.getElem?_map] at got
      rcases Option.map_eq_some_iff.mp got with ⟨position, ranged, same⟩
      rcases List.getElem?_eq_some_iff.mp ranged with ⟨before, rfl⟩
      rw [List.length_range] at before
      rw [List.getElem_range] at same
      refine ⟨by omega, ?_, ?_⟩
      · rw [same]
        exact if_neg notRoot
      · rintro rfl
        apply notRoot
        rw [LawfulPythonText.lower_eq_root, isRootLabel_iff]
        decide

end Emitted

section Emission

theorem map_filterMap_of_some {α β γ : Type} {f : α → Option β} {g : β → γ} {h : α → γ}
    {xs : List α} (each : ∀ x ∈ xs, ∃ y, f x = some y ∧ g y = h x) :
    (xs.filterMap f).map g = xs.map h := by
  induction xs with
  | nil => rfl
  | cons x xs ih =>
      rcases each x List.mem_cons_self with ⟨y, found, same⟩
      rw [List.filterMap_cons_some found, List.map_cons, List.map_cons, same,
        ih fun other later => each other (List.mem_cons_of_mem _ later)]

variable [PythonText] [MorHandlers] {lang : String} {root : ℕ} {words : List NormalizedWord}
  {tokens : List Token} {order : List ℕ} {units : List MorphosyntaxUnit}

/-- The units that are emitted, with the positions of their words. -/
structure Emission (lang : String) (words : List NormalizedWord) (tokens : List Token) (root : ℕ)
    (order : List ℕ) (units : List MorphosyntaxUnit) : Prop where
  kept : ∀ place ∈ order, place ∈ positions (hasUnit lang) words
  inOrder : ∀ first : ℕ, (positions (hasUnit lang) words).head? = some first →
    (order = positions (hasUnit lang) words ↔ ¬ JoinedAt lang tokens first)
  indices : units.map (·.index) = order.map (number (hasUnit lang) words)
  ofUnit : ∀ unit ∈ units, ∃ place ∈ order, ∃ word, words[place]? = some word ∧
    Emits lang words root place word unit
  ofPlace : ∀ place ∈ order, ∃ unit ∈ units, ∃ word, words[place]? = some word ∧
    Emits lang words root place word unit

theorem Rounds.positions {state : LoopState} (rounds : Rounds lang root words state) :
    positions Option.isSome state.analyses = positions (hasUnit lang) words := by
  rw [← positions_map, rounds.analyses, positions_map]

/-- What `parse_sentence` makes of the words and tokens. -/
theorem renderWords_emission [LawfulPythonText] {specialForms : List (String × String)}
    (labelled : ∀ word ∈ words, Labelled word) (numbered : Numbered words tokens)
    (rootAt : RootAt words root) {groups : List MorWordGroup} {terminator : ℕ × ℕ × String}
    (rendered : renderWords lang specialForms words tokens = .ok (groups, terminator)) :
    (∃ order, Emission lang words tokens root order
        ((groups.flatMap (·.units)).map outputUnit)) ∧
      terminator = (words.countP (hasUnit lang) + 1,
        rootNumber lang words root words.length, "PUNCT") := by
  rcases bind_eq_ok_iff.mp rendered with ⟨auxiliaries, isAuxiliaries, rendered⟩
  rcases bind_eq_ok_iff.mp rendered with ⟨state, ran, rendered⟩
  rcases bind_eq_ok_iff.mp rendered with ⟨relations, resolved, rendered⟩
  rcases bind_eq_ok_iff.mp rendered with ⟨slots, grouped, rendered⟩
  cases rendered
  have rounds := rounds_of_foldlM rootAt ran
  have counted := rounds.skipped
  constructor
  · rcases numbered.sources isAuxiliaries with ⟨sources, rfl, isSource⟩
    have grouping := fun first => groupWords_contents (m := first) numbered.spanOk grouped
    rw [rounds.positions] at grouping
    have each : ∀ place ∈ contents slots, ∃ unit,
        ((materializeUnit state relations place).map Prod.fst).map outputUnit = some unit ∧
          ∃ word, words[place]? = some word ∧ Emits lang words root place word unit := by
      intro place member
      rcases mem_positions.mp ((grouping 0).1 place member) with ⟨word, here, kept⟩
      rcases materializeUnit_emits rounds resolved (labelled word (List.mem_of_getElem? here)) here
        kept with ⟨unit, made, emits⟩
      exact ⟨outputUnit unit, by rw [made]; rfl, word, here, emits⟩
    rw [materializeGroup_units, List.map_filterMap]
    refine ⟨contents slots, (grouping 0).1, fun first head => ?_, ?_, ?_, ?_⟩
    · rw [(grouping first).2 head, isSource]
    · apply map_filterMap_of_some
      intro place member
      rcases each place member with ⟨unit, made, word, here, emits⟩
      exact ⟨unit, made, emits.index⟩
    · intro unit member
      rcases List.mem_filterMap.mp member with ⟨place, isPlace, made⟩
      rcases each place isPlace with ⟨other, made', word, here, emits⟩
      obtain rfl : unit = other := Option.some.inj (made.symm.trans made')
      exact ⟨place, isPlace, word, here, emits⟩
    · intro place member
      rcases each place member with ⟨unit, made, emitted⟩
      exact ⟨unit, List.mem_filterMap.mpr ⟨place, member, made⟩, emitted⟩
  · rw [rounds.lastRoot]
    have index : words.length + 1 - state.numSkipped = words.countP (hasUnit lang) + 1 := by omega
    rw [index]

end Emission

end Batchalign.Morphosyntax
