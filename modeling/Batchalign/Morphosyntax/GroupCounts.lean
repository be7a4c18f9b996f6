import Batchalign.Morphosyntax.Relations

/-!
# How many groups there are

Where every word has a unit, the joins empty the slots of the words they are for, and a
multi-word token gathers what its own slots still hold. The groups that are left are those of the
tokens with a word that no join is for.
-/

namespace Batchalign.Morphosyntax

open Fallible Gathering Numbering Runners

section Joins

variable {groups groups' : Groups} {gone : ℕ → Prop} {sources : List ℕ} {source count : ℕ}

/-- The slots that hold nothing are those of the words that are gone. -/
structure Emptied (count : ℕ) (gone : ℕ → Prop) (groups : Groups) : Prop where
  length : groups.length = count
  anchored : Anchored groups
  empty : ∀ place < count, groups[place]? = some none ↔ gone place

theorem joinAuxiliary_inside (joined : joinAuxiliary groups source = .ok groups') :
    source < groups.length := by
  rcases joinAuxiliary_cases joined with ⟨here, _⟩ | ⟨_, _, _, _, here, _⟩
  · exact (List.getElem?_eq_some_iff.mp here).1
  · exact (List.getElem?_eq_some_iff.mp here).1

theorem Emptied.after_join (emptied : Emptied count gone groups)
    (joined : joinAuxiliary groups source = .ok groups') :
    Emptied count (fun place => gone place ∨ place = source) groups' := by
  have inside := joinAuxiliary_inside joined
  rcases joinAuxiliary_cases joined with ⟨here, rfl⟩ |
    ⟨_, target, front, moved, atSource, _, atTarget, _, _, rfl⟩
  · refine ⟨emptied.length, emptied.anchored, ?_⟩
    intro place isPlace
    rw [emptied.empty place isPlace]
    refine ⟨Or.inl, ?_⟩
    rintro (already | rfl)
    · exact already
    · exact (emptied.empty place isPlace).mp here
  · refine ⟨join_length.trans emptied.length, emptied.anchored.join atTarget, ?_⟩
    intro place isPlace
    have within : place < groups.length := emptied.length.symm ▸ isPlace
    rw [← emptied.empty place isPlace, join, List.getElem?_set, List.getElem?_set]
    by_cases atOne : source = place
    · simp [atOne, within]
    · by_cases atOther : target = place
      · subst atOther
        simp only [atOne, Ne.symm atOne, within, if_true, if_false, List.length_set, or_false,
          Option.some.injEq, reduceCtorEq, false_iff]
        rw [atTarget]
        simp
      · simp [atOne, atOther, Ne.symm atOne]

theorem Emptied.after_joins (emptied : Emptied count gone groups)
    (joined : (sources.map Nat.cast).foldlM joinAuxiliary groups = .ok groups') :
    (∀ source ∈ sources, source < count) ∧
      Emptied count (fun place => gone place ∨ place ∈ sources) groups' := by
  induction sources generalizing gone groups with
  | nil =>
      obtain rfl : groups = groups' := Except.ok.inj joined
      simpa using emptied
  | cons source sources ih =>
      rw [List.map_cons, List.foldlM_cons] at joined
      rcases bind_eq_ok_iff.mp joined with ⟨middle, first, later⟩
      rcases ih (emptied.after_join first) later with ⟨inside, rest⟩
      constructor
      · rw [List.forall_mem_cons]
        exact ⟨emptied.length ▸ joinAuxiliary_inside first, inside⟩
      · simpa only [or_assoc, ← List.mem_cons] using rest

/-- The search goes down and finds the first slot at the latest. -/
theorem nearestGroup_exists {front : List ℕ} (first : groups[0]? = some (some front)) {fuel : ℕ}
    {aux : ℕ} (positive : 0 < aux) (inside : aux ≤ groups.length) (enough : aux ≤ fuel) :
    ∃ target, nearestGroup groups fuel (aux : ℤ) = .ok target := by
  induction fuel generalizing aux with
  | zero => omega
  | succ fuel ih =>
      obtain ⟨below, rfl⟩ : ∃ below, aux = below + 1 := ⟨aux - 1, by omega⟩
      have cast : ((below + 1 : ℕ) : ℤ) - 1 = (below : ℤ) := by
        push_cast
        ring
      have here : pyGet groups (((below + 1 : ℕ) : ℤ) - 1) = .ok groups[below] := by
        rw [cast, pyGet_natCast]
        exact List.getElem?_eq_getElem (by omega)
      cases held : groups[below] with
      | some front =>
          refine ⟨((below + 1 : ℕ) : ℤ) - 1, ?_⟩
          rw [nearestGroup, here, held]
          rfl
      | none =>
          have lower : 0 < below := by
            rcases Nat.eq_zero_or_pos below with rfl | lower
            · rw [List.getElem?_eq_getElem (by omega), held] at first
              cases first
            · exact lower
          rcases ih lower (by omega) (by omega) with ⟨target, found⟩
          refine ⟨target, ?_⟩
          rw [nearestGroup, here, held]
          exact cast ▸ found

/-- A word behind the first one can be joined. -/
theorem joinAuxiliary_exists {front : List ℕ} (first : groups[0]? = some (some front))
    (behind : 0 < source) (inside : source < groups.length) :
    ∃ groups', joinAuxiliary groups source = .ok groups' := by
  rcases nearestGroup_exists first behind inside.le
    (by omega : source ≤ ((source : ℤ) + groups.length).toNat) with ⟨target, found⟩
  rcases nearestGroup_ok found with ⟨_, ⟨held, atTarget⟩, _⟩
  have atSource : pyGet groups (source : ℤ) = .ok groups[source] := by
    rw [pyGet_natCast]
    exact List.getElem?_eq_getElem inside
  rcases pyGet_eq_ok.mp atTarget with ⟨place, located, _⟩
  cases joined : groups[source] with
  | none =>
      refine ⟨groups, ?_⟩
      rw [joinAuxiliary, found]
      change (pyGet groups (source : ℤ) >>= _) = _
      rw [atSource, joined]
      change (pyGet groups target >>= _) = _
      rw [atTarget]
      rfl
  | some moved =>
      refine ⟨(groups.set place (some (held ++ moved))).set source none, ?_⟩
      have first : pySet groups target (some (held ++ moved)) =
          .ok (groups.set place (some (held ++ moved))) := pySet_eq_ok.mpr ⟨place, located, rfl⟩
      have second : pySet (groups.set place (some (held ++ moved))) (source : ℤ) none =
          .ok ((groups.set place (some (held ++ moved))).set source none) := by
        apply pySet_eq_ok.mpr
        exact ⟨source, pyIndex_eq_some.mpr ⟨by simpa using inside, Or.inl rfl⟩, rfl⟩
      rw [joinAuxiliary, found]
      change (pyGet groups (source : ℤ) >>= _) = _
      rw [atSource, joined]
      change (pyGet groups target >>= _) = _
      rw [atTarget]
      change (pySet groups target _ >>= _) = _
      rw [first]
      exact second

theorem joinAuxiliaries_exist (emptied : Emptied count gone groups) (held : ¬ gone 0)
    (inside : ∀ source ∈ sources, 0 < source ∧ source < count) :
    ∃ groups', (sources.map Nat.cast).foldlM joinAuxiliary groups = .ok groups' := by
  induction sources generalizing gone groups with
  | nil => exact ⟨groups, rfl⟩
  | cons source sources ih =>
      rcases List.forall_mem_cons.mp inside with ⟨⟨behind, within⟩, inside⟩
      have some_ : 0 < groups.length := emptied.length ▸ (Nat.zero_le _).trans_lt within
      have first : ∃ front, groups[0]? = some (some front) := by
        rw [List.getElem?_eq_getElem some_]
        cases atFirst : groups[0] with
        | some front => exact ⟨front, rfl⟩
        | none =>
            have zero := emptied.empty 0 (by omega)
            rw [List.getElem?_eq_getElem some_, atFirst] at zero
            exact absurd (zero.mp rfl) held
      rcases first with ⟨front, isFront⟩
      rcases joinAuxiliary_exists isFront behind (emptied.length ▸ within) with
        ⟨middle, joined⟩
      have kept : ¬ (gone 0 ∨ 0 = source) := not_or.mpr ⟨held, behind.ne⟩
      rcases ih (emptied.after_join joined) kept inside with ⟨groups', rest⟩
      refine ⟨groups', ?_⟩
      rw [List.map_cons, List.foldlM_cons, joined]
      exact rest

end Joins

section Merges

variable {front chunk back mid groups : Groups} {tokens : List Token} {held : ℕ → Bool}

theorem mapM_pyGet_exists {start count : ℕ} (inside : start + count ≤ groups.length) :
    ∃ got, (placesFrom start count).mapM (pyGet groups) = .ok got := by
  rw [exists_mapM_ok_iff]
  intro place member
  rcases List.mem_map.mp member with ⟨offset, isOffset, rfl⟩
  rw [List.mem_range] at isOffset
  refine ⟨groups[start + offset], ?_⟩
  rw [← Nat.cast_add, pyGet_natCast]
  exact List.getElem?_eq_getElem (by omega)

theorem foldlM_pySet_exists {start count : ℕ} (inside : start + count ≤ groups.length) :
    ∃ cleared, (placesFrom start count).foldlM (fun groups place => pySet groups place none)
      groups = .ok cleared ∧ cleared.length = groups.length := by
  induction count with
  | zero => exact ⟨groups, rfl, rfl⟩
  | succ count ih =>
      rcases ih (by omega) with ⟨middle, before, length⟩
      refine ⟨middle.set (start + count) none, ?_, by rw [List.length_set, length]⟩
      rw [placesFrom_succ, List.foldlM_append, before]
      change (pySet middle _ none >>= fun cleared => .ok cleared) = _
      have located : pyIndex middle.length ((start + count : ℕ) : ℤ) = some (start + count) :=
        pyIndex_eq_some.mpr ⟨by omega, Or.inl rfl⟩
      rw [pySet_eq_ok.mpr ⟨_, located, rfl⟩]
      rfl

/-- The token of a chunk gathers it. -/
theorem mergeMwt_chunk (nonempty : chunk ≠ []) :
    mergeMwt (front ++ (chunk ++ back)) (List.range' (front.length + 1) chunk.length) =
      .ok (front ++ (gathered chunk ++ back)) := by
  obtain ⟨rest, isLength⟩ : ∃ rest, chunk.length = rest + 1 :=
    ⟨chunk.length - 1, by have := List.length_pos_iff.mpr nonempty; omega⟩
  have first : (List.range' (front.length + 1) chunk.length).headD 0 = front.length + 1 := by
    rw [isLength, List.range'_succ]
    rfl
  have last : (List.range' (front.length + 1) chunk.length).getLastD 0 =
      front.length + (rest + 1) := by
    rw [isLength, List.range'_concat, List.getLastD_eq_getLast?, List.getLast?_concat]
    simp
    omega
  have inside : front.length + (rest + 1) ≤ (front ++ (chunk ++ back)).length := by
    simp only [List.length_append]
    omega
  have span : SpanOk (List.range' (front.length + 1) chunk.length) := by
    rw [SpanOk, first, last]
    omega
  rcases span.places with ⟨start, count, startDef, lastDef, places⟩
  obtain rfl : start = front.length := by omega
  obtain rfl : count = rest := by omega
  rcases mapM_pyGet_exists inside with ⟨got, isGot⟩
  rcases foldlM_pySet_exists inside with ⟨cleared, isCleared, length⟩
  have located : pyIndex cleared.length
      (((List.range' (front.length + 1) chunk.length).headD 0 : ℤ) - 1) = some front.length := by
    rw [pyIndex_eq_some, length, first]
    constructor
    · omega
    · left
      push_cast
      ring
  have merges : ∃ merged, mergeMwt (front ++ (chunk ++ back))
      (List.range' (front.length + 1) chunk.length) = .ok merged := by
    refine ⟨cleared.set front.length (some (got.filterMap id).flatten), ?_⟩
    unfold mergeMwt
    simp only [places]
    apply bind_eq_ok_iff.mpr
    refine ⟨got, isGot, bind_eq_ok_iff.mpr ⟨cleared, isCleared, ?_⟩⟩
    exact pySet_eq_ok.mpr ⟨_, located, rfl⟩
  rcases merges with ⟨merged, isMerged⟩
  rw [isMerged, (mergeMwt_eq_collect startDef places isMerged).2, ← isLength,
    collect_append nonempty]

/-- A slot with something in it. -/
def isFilled (slot : Option (List ℕ)) : Bool := ! (slot.getD []).isEmpty

theorem contents_eq_nil_iff : contents chunk = [] ↔ ∀ slot ∈ chunk, isFilled slot = false := by
  simp [contents, List.flatMap_eq_nil_iff, isFilled]

/-- The slots of `slots` from a place on hold something where `held` says so. -/
def Holds (held : ℕ → Bool) (start : ℕ) (slots : Groups) : Prop :=
  ∀ (offset : ℕ) (slot : Option (List ℕ)), slots[offset]? = some slot →
    isFilled slot = held (start + offset)

theorem Holds.append {start : ℕ} (holds : Holds held start (chunk ++ back)) :
    Holds held start chunk ∧ Holds held (start + chunk.length) back := by
  constructor
  · intro offset slot here
    apply holds
    rw [List.getElem?_append_left (List.getElem?_eq_some_iff.mp here).1, here]
  · intro offset slot here
    rw [Nat.add_assoc]
    apply holds
    rw [List.getElem?_append_right (Nat.le_add_right _ _), Nat.add_sub_cancel_left, here]

/-- One of the words from a place on has something in its slot. -/
theorem Holds.any_iff {start : ℕ} (holds : Holds held start chunk) :
    ((List.range' (start + 1) chunk.length).any fun id => held (id - 1)) = true ↔
      contents chunk ≠ [] := by
  rw [Ne, contents_eq_nil_iff, List.any_eq_true]
  constructor
  · rintro ⟨id, isId, isHeld⟩ nothing
    rw [List.mem_range'_1] at isId
    have here := List.getElem?_eq_getElem (by omega : id - (start + 1) < chunk.length)
    have same := holds _ _ here
    rw [nothing _ (List.mem_of_getElem? here)] at same
    rw [show start + (id - (start + 1)) = id - 1 by omega, isHeld] at same
    cases same
  · intro some_
    by_contra none
    apply some_
    intro slot member
    rcases List.getElem?_of_mem member with ⟨offset, here⟩
    have inside := (List.getElem?_eq_some_iff.mp here).1
    rw [holds offset slot here, ← Bool.not_eq_true]
    intro isHeld
    apply none
    refine ⟨start + offset + 1, List.mem_range'_1.mpr ⟨by omega, by omega⟩, ?_⟩
    rw [Nat.add_sub_cancel, isHeld]

theorem range'_split {xs ys : List ℕ} {start count : ℕ}
    (whole : xs ++ ys = List.range' start count) :
    xs = List.range' start xs.length ∧ ys = List.range' (start + xs.length) ys.length := by
  have length := congrArg List.length whole
  rw [List.length_append, List.length_range'] at length
  rw [← length, ← List.range'_append_1] at whole
  exact List.append_inj whole (List.length_range').symm

/-- What the slots of a token become. -/
def mergedChunk (chunk : Groups) : Groups := if 1 < chunk.length then gathered chunk else chunk

theorem mergedChunk_length : (mergedChunk chunk).length = chunk.length := by
  unfold mergedChunk
  split
  · rename_i several
    exact gathered_length (List.ne_nil_of_length_pos (Nat.zero_lt_of_lt several))
  · rfl

theorem filled_mergedChunk : filled (mergedChunk chunk) = if contents chunk = [] then 0 else 1 := by
  unfold mergedChunk
  split
  · exact filled_gathered
  · rename_i few
    rcases chunk with _ | ⟨slot, _ | ⟨next, rest⟩⟩
    · rfl
    · cases slot with
      | none => rfl
      | some xs =>
          cases xs with
          | nil => rfl
          | cons x xs => rfl
    · simp at few

/-- After the merges the tokens with something in one of their slots have one group each. -/
theorem foldlM_mergeMwt_filled (holds : Holds held front.length mid)
    (tiles : tokens.flatMap (·.id) = List.range' (front.length + 1) mid.length) :
    ∃ merged, (mwtsOf tokens).foldlM mergeMwt (front ++ mid) = .ok (front ++ merged) ∧
      filled merged = tokens.countP fun token => token.id.any fun id => held (id - 1) := by
  induction tokens generalizing front mid with
  | nil =>
      have nothing : mid = [] := by
        apply List.length_eq_zero_iff.mp
        have length := congrArg List.length tiles
        simpa using length.symm
      exact ⟨[], by rw [nothing]; rfl, rfl⟩
  | cons token tokens ih =>
      rw [List.flatMap_cons] at tiles
      rcases range'_split tiles with ⟨own, others⟩
      have length := congrArg List.length tiles
      rw [List.length_append, List.length_range'] at length
      obtain ⟨chunk, rest, rfl, isChunk⟩ : ∃ chunk rest, mid = chunk ++ rest ∧
          chunk.length = token.id.length := by
        refine ⟨mid.take token.id.length, mid.drop token.id.length,
          (List.take_append_drop _ _).symm, ?_⟩
        rw [List.length_take]
        omega
      rcases holds.append with ⟨holdsChunk, holdsRest⟩
      have behind : (front ++ mergedChunk chunk).length = front.length + chunk.length := by
        rw [List.length_append, mergedChunk_length]
      have isRest : (tokens.flatMap (·.id)).length = rest.length := by
        rw [List.length_append] at length
        omega
      rw [isRest, ← isChunk, Nat.add_right_comm, ← behind] at others
      rw [← behind] at holdsRest
      rcases ih holdsRest others with ⟨merged, ran, count⟩
      refine ⟨mergedChunk chunk ++ merged, ?_, ?_⟩
      · rw [List.append_assoc, List.append_assoc] at ran
        rw [mwtsOf, List.map_cons]
        by_cases several : 1 < token.id.length
        · have nonempty : chunk ≠ [] := List.ne_nil_of_length_pos (by omega)
          rw [List.filter_cons_of_pos (by simpa using several), List.foldlM_cons, own, ← isChunk,
            mergeMwt_chunk nonempty]
          rw [mergedChunk, if_pos (isChunk ▸ several)] at ran ⊢
          exact ran
        · rw [List.filter_cons_of_neg (by simpa using several)]
          rw [mergedChunk, if_neg (isChunk ▸ several)] at ran ⊢
          exact ran
      · rw [filled_append, count, filled_mergedChunk, List.countP_cons, Nat.add_comm]
        have any := holdsChunk.any_iff
        rw [isChunk, ← own] at any
        by_cases nothing : contents chunk = []
        · rw [if_pos nothing, if_neg fun isHeld => any.mp isHeld nothing]
        · rw [if_neg nothing, if_pos (any.mpr nothing)]

end Merges

section Groups

variable {analyses : List (Option MorAnalysis)} {sources : List ℕ} {tokens : List Token}
  {groups : Groups}

theorem emptied_initialGroups (all : ∀ analysis ∈ analyses, analysis.isSome = true) :
    Emptied analyses.length (fun _ => False) (initialGroups analyses) := by
  refine ⟨by simp [initialGroups], initialGroups_anchored, ?_⟩
  intro place inside
  rw [iff_false, initialGroups, List.getElem?_map, List.getElem?_zipIdx,
    List.getElem?_eq_getElem inside]
  rcases Option.isSome_iff_exists.mp (all _ (List.getElem_mem inside)) with ⟨unit, isUnit⟩
  simp [isUnit]

theorem Emptied.holds {count : ℕ} {gone : ℕ → Prop} [DecidablePred gone]
    (emptied : Emptied count gone groups) :
    Holds (fun place => ! decide (gone place)) 0 groups := by
  intro place slot here
  have inside := (List.getElem?_eq_some_iff.mp here).1
  have empty := emptied.empty place (emptied.length ▸ inside)
  rw [here] at empty
  rw [Nat.zero_add]
  cases slot with
  | none => simp [isFilled, empty.mp rfl]
  | some xs =>
      have nonempty : xs ≠ [] := by
        rintro rfl
        cases emptied.anchored place [] here
      have kept : ¬ gone place := fun isGone => by cases empty.mpr isGone
      simp [isFilled, nonempty, kept]

/-- Where every word has a unit, the tokens with a word that no join is for have one group
each. -/
theorem groupWords_filled (all : ∀ analysis ∈ analyses, analysis.isSome = true)
    (tiles : tokens.flatMap (·.id) = List.range' 1 analyses.length)
    (grouped : groupWords analyses (sources.map Nat.cast) (mwtsOf tokens) = .ok groups) :
    (∀ source ∈ sources, source < analyses.length) ∧
      filled groups = tokens.countP fun token => token.id.any fun id => id - 1 ∉ sources := by
  rcases bind_eq_ok_iff.mp grouped with ⟨joined, joins, merges⟩
  rcases (emptied_initialGroups all).after_joins joins with ⟨inside, emptied⟩
  refine ⟨inside, ?_⟩
  have covered : tokens.flatMap (·.id) = List.range' (([] : Groups).length + 1) joined.length := by
    rw [tiles, emptied.length]
    rfl
  have holds : Holds _ ([] : Groups).length joined := emptied.holds
  rcases foldlM_mergeMwt_filled holds covered with ⟨merged, ran, count⟩
  obtain rfl : merged = groups := Except.ok.inj (ran.symm.trans merges)
  rw [count]
  simp

/-- Joins of words behind the first one are made. -/
theorem groupWords_exists (all : ∀ analysis ∈ analyses, analysis.isSome = true)
    (tiles : tokens.flatMap (·.id) = List.range' 1 analyses.length)
    (inside : ∀ source ∈ sources, 0 < source ∧ source < analyses.length) :
    ∃ groups, groupWords analyses (sources.map Nat.cast) (mwtsOf tokens) = .ok groups := by
  rcases joinAuxiliaries_exist (emptied_initialGroups all) id inside with ⟨joined, joins⟩
  have emptied := ((emptied_initialGroups all).after_joins joins).2
  have covered : tokens.flatMap (·.id) = List.range' (([] : Groups).length + 1) joined.length := by
    rw [tiles, emptied.length]
    rfl
  classical
  have holds : Holds _ ([] : Groups).length joined := emptied.holds
  rcases foldlM_mergeMwt_filled holds covered with ⟨merged, ran, _⟩
  exact ⟨merged, bind_eq_ok_iff.mpr ⟨joined, joins, ran⟩⟩

theorem length_materializeGroups {state : LoopState} {relations : List (ℕ × ℕ × String)}
    (units : ∀ place ∈ contents groups, (materializeUnit state relations place).isSome = true) :
    (groups.filterMap (materializeGroup state relations)).length = filled groups := by
  induction groups with
  | nil => rfl
  | cons slot groups ih =>
      rw [contents_cons, List.forall_mem_append] at units
      rw [← List.singleton_append, filled_append, List.filterMap_append, List.length_append,
        ih units.2]
      congr 1
      cases places : slot.getD [] with
      | nil =>
          have nothing : materializeGroup state relations slot = none := by
            rw [materializeGroup, places]
            rfl
          rw [List.filterMap_cons_none nothing]
          simp [filled, places]
      | cons place rest =>
          have isPlace : place ∈ slot.getD [] := places ▸ List.mem_cons_self
          rcases Option.isSome_iff_exists.mp (units.1 place isPlace) with ⟨chunk, made⟩
          have something : ∃ group, materializeGroup state relations slot = some group := by
            simp [materializeGroup, places, made]
          rcases something with ⟨group, isGroup⟩
          rw [List.filterMap_cons_some isGroup]
          simp [filled, places]

end Groups

section Rendered

variable [PythonText] [MorHandlers] {lang : String} {specialForms : List (String × String)}
  {words : List NormalizedWord} {tokens : List Token} {root : ℕ} {state : LoopState}
  {relations : List (ℕ × ℕ × String)}

instance (lang : String) (tokens : List Token) (position : ℤ) :
    Decidable (JoinedAt lang tokens position) :=
  inferInstanceAs (Decidable (∃ _ ∈ _, ∃ _ ∈ _, _ = _))

/-- The token has a word that is not joined to the one in front. -/
def keepsWord (lang : String) (tokens : List Token) (token : Token) : Bool :=
  token.id.any fun id => ! decide (JoinedAt lang tokens ((id : ℤ) - 1))

/-- Every token has a text and words, and all joins are for words behind the first one. -/
structure Joinable (lang : String) (count : ℕ) (tokens : List Token) : Prop where
  spoken : ∀ token ∈ tokens, strip token.text ≠ ""
  inside : ∀ position, JoinedAt lang tokens position → 0 < position ∧ position < count

omit [PythonText] [MorHandlers] in
theorem sitePosition_exists {ids : List ℕ} (nonempty : ids ≠ []) (site : JoinSite) :
    ∃ position, sitePosition ids site = .ok position := by
  cases site with
  | first offset =>
      rcases Option.isSome_iff_exists.mp (List.isSome_head?.mpr nonempty) with ⟨id, isFirst⟩
      refine ⟨id + offset, ?_⟩
      rw [sitePosition, isFirst]
      rfl
  | behind =>
      refine ⟨ids.getLast nonempty, ?_⟩
      rw [sitePosition, List.getLast?_eq_some_getLast nonempty]
      rfl

omit [PythonText] [MorHandlers] in
theorem tokenAuxiliaries_exists_iff {token : Token} (nonempty : token.id ≠ [])
    (previous : Option String) :
    (∃ positions, tokenAuxiliaries lang token previous = .ok positions) ↔
      strip token.text ≠ "" := by
  unfold tokenAuxiliaries
  by_cases blank : strip token.text = ""
  · simp [blank]
  · rw [if_neg blank, exists_mapM_ok_iff]
    exact iff_of_true (fun site _ => sitePosition_exists nonempty site) blank

omit [PythonText] [MorHandlers] in
theorem map_fst_withPrevious (tokens : List Token) : (withPrevious tokens).map Prod.fst = tokens :=
  List.map_fst_zip (by simp)

omit [PythonText] [MorHandlers] in
theorem auxiliariesOf_exists_iff (nonempty : ∀ token ∈ tokens, token.id ≠ []) :
    (∃ auxiliaries, auxiliariesOf lang tokens = .ok auxiliaries) ↔
      ∀ token ∈ tokens, strip token.text ≠ "" := by
  have joins : (∃ auxiliaries, auxiliariesOf lang tokens = .ok auxiliaries) ↔
      ∃ joins, ((withPrevious tokens).mapM fun item => tokenAuxiliaries lang item.1 item.2) =
        .ok joins := by
    constructor
    · rintro ⟨auxiliaries, ok⟩
      rcases bind_eq_ok_iff.mp ok with ⟨joins, mapped, _⟩
      exact ⟨joins, mapped⟩
    · rintro ⟨joins, mapped⟩
      exact ⟨joins.flatten, bind_eq_ok_iff.mpr ⟨joins, mapped, rfl⟩⟩
  have listed : ∀ item ∈ withPrevious tokens, item.1 ∈ tokens := by
    intro item member
    rw [← map_fst_withPrevious tokens]
    exact List.mem_map_of_mem member
  rw [joins, exists_mapM_ok_iff]
  constructor
  · intro each token isToken
    rw [← map_fst_withPrevious tokens] at isToken
    rcases List.mem_map.mp isToken with ⟨item, isItem, rfl⟩
    exact (tokenAuxiliaries_exists_iff (nonempty _ (listed item isItem)) item.2).mp
      (each item isItem)
  · intro each item isItem
    have isToken := listed item isItem
    exact (tokenAuxiliaries_exists_iff (nonempty _ isToken) item.2).mpr (each _ isToken)

theorem Rounds.all_analysed (rounds : Rounds lang root words state)
    (units : ∀ word ∈ words, hasUnit lang word = true) :
    state.analyses.length = words.length ∧
      ∀ analysis ∈ state.analyses, analysis.isSome = true := by
  have length := congrArg List.length rounds.analyses
  rw [List.length_map, List.length_map] at length
  refine ⟨length, ?_⟩
  intro analysis member
  have listed := List.mem_map_of_mem (f := Option.isSome) member
  rw [rounds.analyses] at listed
  rcases List.mem_map.mp listed with ⟨word, isWord, same⟩
  rw [← same, units word isWord]

theorem positions_of_units (units : ∀ word ∈ words, hasUnit lang word = true) :
    words.countP (hasUnit lang) = words.length ∧
      (words ≠ [] → (positions (hasUnit lang) words).head? = some 0) := by
  refine ⟨List.countP_eq_length.mpr units, ?_⟩
  intro some_
  rcases List.exists_cons_of_ne_nil some_ with ⟨word, rest, rfl⟩
  rw [head?_positions, List.findIdx?_cons, units word List.mem_cons_self, if_pos rfl]

omit [PythonText] [MorHandlers] in
theorem Numbered.countP_keepsWord (numbered : Numbered words tokens) {sources : List ℕ}
    (isSource : ∀ place : ℕ, place ∈ sources ↔ JoinedAt lang tokens place) :
    (tokens.countP fun token => token.id.any fun id => id - 1 ∉ sources) =
      tokens.countP (keepsWord lang tokens) := by
  apply List.countP_congr
  intro token isToken
  unfold keepsWord
  simp only [List.any_eq_true, decide_eq_true_eq, Bool.not_eq_true', decide_eq_false_iff_not]
  apply exists_congr
  intro id
  apply and_congr_right
  intro isId
  have positive := numbered.token_pos token isToken id isId
  rw [isSource, Nat.cast_sub positive, Nat.cast_one]

/-- Where every word has a unit, the units are in order exactly if the first word is not joined. -/
theorem renderWords_inOrder_iff [LawfulPythonText] (labelled : ∀ word ∈ words, Labelled word)
    (numbered : Numbered words tokens) (rootAt : RootAt words root)
    (units : ∀ word ∈ words, hasUnit lang word = true) {groups : List MorWordGroup}
    {terminator : ℕ × ℕ × String}
    (rendered : renderWords lang specialForms words tokens = .ok (groups, terminator)) :
    (groups.flatMap (·.units)).map (·.index) = List.range' 1 words.length ↔
      (words ≠ [] → ¬ JoinedAt lang tokens 0) := by
  rcases positions_of_units units with ⟨countUnits, firstUnit⟩
  rcases (renderWords_emission labelled numbered rootAt rendered).1 with ⟨order, emission⟩
  have indices : (groups.flatMap (·.units)).map (·.index) =
      order.map (number (hasUnit lang) words) := by
    rw [← emission.indices, List.map_map]
    rfl
  rw [indices]
  constructor
  · intro counts some_
    rw [← countUnits] at counts
    have same := eq_positions_of_map_number emission.kept counts
    exact (emission.inOrder 0 (firstUnit some_)).mp same
  · intro apart
    have same : order = positions (hasUnit lang) words := by
      rcases List.eq_nil_or_concat' words with rfl | ⟨front, last, rfl⟩
      · apply List.eq_nil_iff_forall_not_mem.mpr
        intro place member
        simpa [positions] using emission.kept place member
      · exact (emission.inOrder 0 (firstUnit (by simp))).mpr (apart (by simp))
    rw [same, map_number_positions, countUnits]

/-- Where every word has a unit, the tokens that keep a word have one group each. -/
theorem length_groups [LawfulPythonText] (labelled : ∀ word ∈ words, Labelled word)
    (numbered : Numbered words tokens) (rounds : Rounds lang root words state)
    (units : ∀ word ∈ words, hasUnit lang word = true)
    (resolved : chunkGra state = .ok relations) {sources : List ℕ} {slots : Groups}
    (isSource : ∀ place : ℕ, place ∈ sources ↔ JoinedAt lang tokens place)
    (grouped : groupWords state.analyses (sources.map Nat.cast) (mwtsOf tokens) = .ok slots) :
    (slots.filterMap (materializeGroup state relations)).length =
      tokens.countP (keepsWord lang tokens) := by
  rcases rounds.all_analysed units with ⟨length, all⟩
  have tiles : tokens.flatMap (·.id) = List.range' 1 state.analyses.length := by
    rw [numbered.spans, numbered.counted, List.length_map, length]
  rw [← numbered.countP_keepsWord isSource, ← (groupWords_filled all tiles grouped).2]
  apply length_materializeGroups
  intro place isPlace
  have listed := (groupWords_contents (m := 0) numbered.spanOk grouped).1 place isPlace
  rcases mem_positions.mp listed with ⟨analysis, analysed, _⟩
  have inside : place < words.length := length ▸ (List.getElem?_eq_some_iff.mp analysed).1
  have isWord := List.getElem_mem inside
  rcases materializeUnit_emits rounds resolved (labelled _ isWord)
    (List.getElem?_eq_getElem inside) (units _ isWord) with ⟨unit, isUnit, _⟩
  rcases Option.map_eq_some_iff.mp isUnit with ⟨chunk, isChunk, _⟩
  rw [isChunk]
  rfl

/-- The sentence is rendered with its units in order and this many groups exactly if its joins
can be made and this many tokens keep a word. -/
theorem renderWords_groups_iff [LawfulPythonText] (labelled : ∀ word ∈ words, Labelled word)
    (numbered : Numbered words tokens) (rootAt : RootAt words root)
    (nonempty : ∀ token ∈ tokens, token.id ≠ [])
    (units : ∀ word ∈ words, hasUnit lang word = true)
    (ran : words.zipIdx.foldlM (wordStep lang) (LoopState.initial specialForms) = .ok state)
    (resolved : chunkGra state = .ok relations) (count : ℕ) :
    (∃ groups terminator, renderWords lang specialForms words tokens = .ok (groups, terminator) ∧
        (groups.flatMap (·.units)).map (·.index) = List.range' 1 words.length ∧
          groups.length = count) ↔
      Joinable lang words.length tokens ∧ tokens.countP (keepsWord lang tokens) = count := by
  have rounds := rounds_of_foldlM rootAt ran
  rcases rounds.all_analysed units with ⟨length, all⟩
  have tiles : tokens.flatMap (·.id) = List.range' 1 state.analyses.length := by
    rw [numbered.spans, numbered.counted, List.length_map, length]
  constructor
  · rintro ⟨groups, terminator, rendered, indices, number⟩
    have apart := (renderWords_inOrder_iff labelled numbered rootAt units rendered).mp indices
    rcases bind_eq_ok_iff.mp rendered with ⟨auxiliaries, isAuxiliaries, rendered⟩
    rcases bind_eq_ok_iff.mp rendered with ⟨state', ran', rendered⟩
    obtain rfl : state = state' := Except.ok.inj (ran.symm.trans ran')
    rcases bind_eq_ok_iff.mp rendered with ⟨relations', resolved', rendered⟩
    obtain rfl : relations = relations' := Except.ok.inj (resolved.symm.trans resolved')
    rcases bind_eq_ok_iff.mp rendered with ⟨slots, grouped, rendered⟩
    have isGroups := congrArg Prod.fst (Except.ok.inj rendered)
    have spoken := (auxiliariesOf_exists_iff nonempty).mp ⟨_, isAuxiliaries⟩
    rcases numbered.sources isAuxiliaries with ⟨sources, rfl, isSource⟩
    refine ⟨⟨spoken, ?_⟩, ?_⟩
    · intro position joined
      obtain ⟨place, rfl⟩ := Int.eq_ofNat_of_zero_le (joined.nonneg numbered.token_pos)
      have inside := (groupWords_filled all tiles grouped).1 place ((isSource place).mpr joined)
      rw [length] at inside
      refine ⟨?_, Int.ofNat_lt.mpr inside⟩
      rcases Nat.eq_zero_or_pos place with rfl | behind
      · exact absurd joined (apart (List.ne_nil_of_length_pos inside))
      · exact Int.natCast_pos.mpr behind
    · rw [← length_groups labelled numbered rounds units resolved isSource grouped, ← number]
      exact congrArg List.length isGroups
  · rintro ⟨⟨spoken, inside⟩, number⟩
    rcases (auxiliariesOf_exists_iff nonempty).mpr spoken with ⟨auxiliaries, isAuxiliaries⟩
    rcases numbered.sources isAuxiliaries with ⟨sources, rfl, isSource⟩
    have within : ∀ source ∈ sources, 0 < source ∧ source < state.analyses.length := by
      intro source isJoin
      have bounds := inside source ((isSource source).mp isJoin)
      rw [length]
      omega
    rcases groupWords_exists all tiles within with ⟨slots, grouped⟩
    have rendered : renderWords lang specialForms words tokens =
        .ok (slots.filterMap (materializeGroup state relations),
          (words.length + 1 - state.numSkipped, state.root, "PUNCT")) := by
      apply bind_eq_ok_iff.mpr
      refine ⟨_, isAuxiliaries, bind_eq_ok_iff.mpr ⟨state, ran, bind_eq_ok_iff.mpr ?_⟩⟩
      exact ⟨relations, resolved, bind_eq_ok_iff.mpr ⟨slots, grouped, rfl⟩⟩
    refine ⟨_, _, rendered, ?_, ?_⟩
    · rw [renderWords_inOrder_iff labelled numbered rootAt units rendered]
      exact fun _ joined => absurd (inside 0 joined).1 (lt_irrefl 0)
    · rw [length_groups labelled numbered rounds units resolved isSource grouped, number]

end Rendered

end Batchalign.Morphosyntax
