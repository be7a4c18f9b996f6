import Batchalign.Library.Gathering
import Batchalign.Library.Numbering
import Batchalign.Morphosyntax.Render

/-!
# The order of the grouped units

The groups start as one list for each word with a unit. A join moves a list to the nearest one
in front, a multi-word token gathers consecutive lists, so the units stay in the order of the
words. The exception is the first unit: a join of its word finds nothing in front, goes on at the
end of the list of groups, and the unit is no longer the first one.
-/

namespace Batchalign.Morphosyntax

open Fallible Gathering Numbering Runners

section Initial

variable {analyses : List (Option MorAnalysis)}

theorem initialGroups_concat (analysis : Option MorAnalysis) :
    initialGroups (analyses ++ [analysis]) =
      initialGroups analyses ++ [analysis.map fun _ => [analyses.length]] := by
  unfold initialGroups
  rw [List.zipIdx_append, List.map_append]
  simp

theorem contents_initialGroups :
    contents (initialGroups analyses) = positions Option.isSome analyses := by
  induction analyses using List.reverseRecOn with
  | nil => rfl
  | append_singleton analyses analysis ih =>
      rw [initialGroups_concat, contents_append, ih, positions_concat]
      cases analysis with
      | none => simp
      | some unit => simp

theorem initialGroups_anchored : Anchored (initialGroups analyses) := by
  intro i xs here
  unfold initialGroups at here
  rw [List.getElem?_map, List.getElem?_zipIdx] at here
  cases found : analyses[i]? with
  | none => simp [found] at here
  | some analysis =>
      cases analysis with
      | none => simp [found] at here
      | some unit =>
          simp only [found, Option.map_some, Nat.zero_add, Option.some.injEq] at here
          rw [← here]
          rfl

end Initial

section Auxiliary

variable {groups groups' : Groups} {aux target : ℤ} {fuel m : ℕ}

theorem pyGet_natCast {α : Type} {xs : List α} {i : ℕ} {x : α} :
    pyGet xs (i : ℤ) = .ok x ↔ xs[i]? = some x := by
  rw [pyGet_eq_ok]
  constructor
  · rintro ⟨place, located, here⟩
    rcases pyIndex_eq_some.mp located with ⟨inside, same | same⟩
    · rwa [Nat.cast_inj.mp same]
    · omega
  · intro here
    exact ⟨i, pyIndex_eq_some.mpr ⟨(List.getElem?_eq_some_iff.mp here).1, Or.inl rfl⟩, here⟩

/-- The search stops at the first list, going down from `aux - 1`. -/
theorem nearestGroup_ok (found : nearestGroup groups fuel aux = .ok target) :
    target < aux ∧ (∃ front, pyGet groups target = .ok (some front)) ∧
      ∀ i, target < i → i < aux → pyGet groups i = .ok none := by
  induction fuel generalizing aux with
  | zero => cases found
  | succ fuel ih =>
      rcases bind_eq_ok_iff.mp found with ⟨slot, here, found⟩
      cases slot with
      | some front =>
          obtain rfl : aux - 1 = target := Except.ok.inj found
          exact ⟨by omega, ⟨front, here⟩, fun i above below => by omega⟩
      | none =>
          rcases ih found with ⟨below, atTarget, between⟩
          refine ⟨by omega, atTarget, fun i above beneath => ?_⟩
          rcases (by omega : i < aux - 1 ∨ i = aux - 1) with lower | rfl
          · exact between i above lower
          · exact here

/-- What the join of a word does: nothing if its list is gone, else the list moves to the nearest
one, going down. -/
theorem joinAuxiliary_cases {source : ℕ} (joined : joinAuxiliary groups source = .ok groups') :
    (groups[source]? = some none ∧ groups' = groups) ∨
      ∃ place target front moved, groups[source]? = some (some moved) ∧
        pyIndex groups.length place = some target ∧ groups[target]? = some (some front) ∧
        place < source ∧ (∀ i, place < i → i < source → pyGet groups i = .ok none) ∧
        groups' = join groups target source front moved := by
  rcases bind_eq_ok_iff.mp joined with ⟨place, nearest, joined⟩
  rcases nearestGroup_ok nearest with ⟨below, ⟨front, atPlace⟩, between⟩
  rcases bind_eq_ok_iff.mp joined with ⟨slot, atSource, joined⟩
  rw [pyGet_natCast] at atSource
  rcases bind_eq_ok_iff.mp joined with ⟨slot', atPlace', joined⟩
  obtain rfl : slot' = some front := Except.ok.inj (atPlace'.symm.trans atPlace)
  cases slot with
  | none => exact Or.inl ⟨atSource, (Except.ok.inj joined).symm⟩
  | some moved =>
      right
      rcases bind_eq_ok_iff.mp joined with ⟨appended, first, second⟩
      rcases pyGet_eq_ok.mp atPlace with ⟨target, located, atTarget⟩
      rcases pySet_eq_ok.mp first with ⟨target', located', rfl⟩
      obtain rfl : target = target' := Option.some.inj (located.symm.trans located')
      rcases pySet_eq_ok.mp second with ⟨source', locatedSource, rfl⟩
      obtain rfl : source = source' := by
        rcases pyIndex_eq_some.mp locatedSource with ⟨inside, same | same⟩
        · omega
        · simp only [List.length_set] at inside same
          omega
      exact ⟨place, target, front, moved, atSource, located, atTarget, below, between, rfl⟩

/-- What one join keeps, whatever word it is for. -/
theorem joinAuxiliary_keeps {source : ℕ} (anchored : Anchored groups)
    (joined : joinAuxiliary groups source = .ok groups') :
    Anchored groups' ∧ contents groups' ⊆ contents groups ∧
      (groups[m]? = some none → groups'[m]? = some none) := by
  rcases joinAuxiliary_cases joined with ⟨_, rfl⟩ |
    ⟨place, target, front, moved, atSource, _, atTarget, _, _, rfl⟩
  · exact ⟨anchored, List.Subset.refl _, id⟩
  · refine ⟨anchored.join atTarget, contents_join_subset atTarget atSource, fun gone => ?_⟩
    have inside : m < (join groups target source front moved).length := by
      simpa using (List.getElem?_eq_some_iff.mp gone).1
    cases here : (join groups target source front moved)[m] with
    | none => rw [List.getElem?_eq_getElem inside, here]
    | some xs =>
        have listed := List.getElem?_eq_getElem inside
        rw [here] at listed
        rcases (getElem?_join listed).2 with ⟨rfl, -⟩ | ⟨-, same⟩
        · rw [gone] at atTarget
          cases atTarget
        · rw [gone] at same
          cases same

/-- The join of a word behind the first one keeps the order. -/
theorem joinAuxiliary_inOrder {source : ℕ} (anchored : Anchored groups)
    (head : (contents groups).head? = some m) (behind : source ≠ m)
    (joined : joinAuxiliary groups source = .ok groups') : contents groups' = contents groups := by
  rcases joinAuxiliary_cases joined with ⟨_, rfl⟩ |
    ⟨place, target, front, moved, atSource, located, atTarget, below, between, rfl⟩
  · rfl
  · rcases anchored.at_head head with ⟨xs, atHead⟩
    have after : m < source := by
      by_contra before
      rw [anchored.before_head head (by omega)] at atSource
      cases atSource
    -- The search cannot pass the first group.
    have stops : (m : ℤ) ≤ place := by
      by_contra beyond
      have none_ := between m (by omega) (by omega)
      rw [pyGet_natCast, atHead] at none_
      cases none_
    have same : place = target := by
      rcases pyIndex_eq_some.mp located with ⟨inside, same | same⟩
      · exact same
      · omega
    subst same
    refine contents_join (by omega) atTarget atSource fun i above beneath => ?_
    exact pyGet_natCast.mp (between i (by omega) (by omega))

/-- The join of the first word takes it from the front. -/
theorem joinAuxiliary_first (anchored : Anchored groups)
    (head : (contents groups).head? = some m) (joined : joinAuxiliary groups m = .ok groups') :
    groups'[m]? = some none := by
  rcases anchored.at_head head with ⟨xs, atHead⟩
  rcases joinAuxiliary_cases joined with ⟨gone, rfl⟩ |
    ⟨_, target, front, moved, _, _, _, _, _, rfl⟩
  · exact gone
  · have inside := (List.getElem?_eq_some_iff.mp atHead).1
    simp [join, inside]

end Auxiliary

section Auxiliaries

variable {groups groups' : Groups} {sources : List ℕ} {m : ℕ}

theorem foldlM_joinAuxiliary_keeps (anchored : Anchored groups)
    (joined : (sources.map Nat.cast).foldlM joinAuxiliary groups = .ok groups') :
    Anchored groups' ∧ contents groups' ⊆ contents groups ∧
      (groups[m]? = some none → groups'[m]? = some none) := by
  induction sources generalizing groups with
  | nil =>
      obtain rfl : groups = groups' := Except.ok.inj joined
      exact ⟨anchored, List.Subset.refl _, id⟩
  | cons source sources ih =>
      rw [List.map_cons, List.foldlM_cons] at joined
      rcases bind_eq_ok_iff.mp joined with ⟨middle, first, later⟩
      rcases joinAuxiliary_keeps (m := m) anchored first with ⟨anchored', subset, gone⟩
      rcases ih anchored' later with ⟨anchored'', subset', gone'⟩
      exact ⟨anchored'', List.Subset.trans subset' subset, fun none_ => gone' (gone none_)⟩

/-- Without a join of the first word the order is kept, with one its unit is not in front any
more. -/
theorem foldlM_joinAuxiliary (anchored : Anchored groups)
    (head : (contents groups).head? = some m)
    (joined : (sources.map Nat.cast).foldlM joinAuxiliary groups = .ok groups') :
    (m ∉ sources → contents groups' = contents groups) ∧
      (m ∈ sources → (contents groups').head? ≠ some m) := by
  induction sources generalizing groups with
  | nil =>
      obtain rfl : groups = groups' := Except.ok.inj joined
      exact ⟨fun _ => rfl, fun mem => by cases mem⟩
  | cons source sources ih =>
      rw [List.map_cons, List.foldlM_cons] at joined
      rcases bind_eq_ok_iff.mp joined with ⟨middle, first, later⟩
      have anchored' : Anchored middle := (joinAuxiliary_keeps (m := m) anchored first).1
      by_cases same : source = m
      · subst source
        have gone := joinAuxiliary_first anchored head first
        rcases foldlM_joinAuxiliary_keeps (m := m) anchored' later with ⟨final, -, kept⟩
        refine ⟨fun absent => absurd List.mem_cons_self absent, fun _ stays => ?_⟩
        rcases final.at_head stays with ⟨xs, here⟩
        rw [kept gone] at here
        cases here
      · have ordered := joinAuxiliary_inOrder anchored head same first
        rcases ih anchored' (ordered ▸ head) later with ⟨absent, present⟩
        refine ⟨fun notMem => ?_, fun mem => present ?_⟩
        · rw [absent fun mem => notMem (List.mem_cons_of_mem _ mem), ordered]
        · exact (List.mem_cons.mp mem).resolve_left fun same' => same same'.symm

end Auxiliaries

section MultiWordTokens

variable {α : Type} {slots : List α} {groups groups' : Groups} {start count : ℕ} {fill : α}

/-- Consecutive places, as the indices of the loops. -/
def placesFrom (start count : ℕ) : List ℤ :=
  (List.range count).map fun (offset : ℕ) => (start : ℤ) + offset

theorem placesFrom_succ :
    placesFrom start (count + 1) = placesFrom start count ++ [((start + count : ℕ) : ℤ)] := by
  unfold placesFrom
  rw [List.range_succ, List.map_append]
  simp

theorem mapM_pyGet_placesFrom {got : List α}
    (ok : (placesFrom start count).mapM (pyGet slots) = .ok got) :
    got = (slots.drop start).take count ∧ (0 < count → start + count ≤ slots.length) := by
  induction count generalizing got with
  | zero =>
      obtain rfl : [] = got := Except.ok.inj ok
      simp
  | succ count ih =>
      rw [placesFrom_succ, List.mapM_append] at ok
      rcases bind_eq_ok_iff.mp ok with ⟨front, isFront, ok⟩
      rcases bind_eq_ok_iff.mp ok with ⟨back, isBack, ok⟩
      obtain rfl : front ++ back = got := Except.ok.inj ok
      rw [List.mapM_cons] at isBack
      rcases bind_eq_ok_iff.mp isBack with ⟨x, here, isBack⟩
      obtain rfl : [x] = back := Except.ok.inj isBack
      rw [pyGet_natCast] at here
      have inside := (List.getElem?_eq_some_iff.mp here).1
      refine ⟨?_, fun _ => by omega⟩
      rw [(ih isFront).1, List.take_add_one, List.getElem?_drop, here]
      rfl

theorem foldlM_pySet_placesFrom {cleared : List α} (inside : start + count ≤ slots.length)
    (ok : (placesFrom start count).foldlM (fun slots place => pySet slots place fill) slots =
      .ok cleared) :
    cleared = slots.take start ++ List.replicate count fill ++ slots.drop (start + count) := by
  induction count generalizing cleared with
  | zero =>
      obtain rfl : slots = cleared := Except.ok.inj ok
      simp
  | succ count ih =>
      rw [placesFrom_succ, List.foldlM_append] at ok
      rcases bind_eq_ok_iff.mp ok with ⟨middle, front, ok⟩
      rw [List.foldlM_cons] at ok
      rcases bind_eq_ok_iff.mp ok with ⟨last, set, ok⟩
      obtain rfl : last = cleared := Except.ok.inj ok
      obtain rfl := ih (by omega) front
      rcases pySet_eq_ok.mp set with ⟨place, located, rfl⟩
      obtain rfl : place = start + count := by
        rcases pyIndex_eq_some.mp located with ⟨inside, same | same⟩
        · exact (Nat.cast_inj.mp same).symm
        · omega
      have length : (slots.take start ++ List.replicate count fill).length = start + count := by
        rw [List.length_append, List.length_take, List.length_replicate, Nat.min_eq_left (by omega)]
      rw [List.set_append_right _ _ length.le, length, Nat.sub_self,
        List.drop_eq_getElem_cons (by omega : start + count < slots.length), List.set_cons_zero,
        List.replicate_succ', Nat.add_assoc]
      simp

/-- The ids of a token count from 1, and the last is not before the first. -/
def SpanOk (ids : List ℕ) : Prop := 0 < ids.headD 0 ∧ ids.headD 0 ≤ ids.getLastD 0

theorem SpanOk.places {mwt : List ℕ} (span : SpanOk mwt) :
    ∃ start count, mwt.headD 0 = start + 1 ∧ mwt.getLastD 0 = start + (count + 1) ∧
      ((List.range (mwt.getLastD 0 + 1 - mwt.headD 0)).map fun (offset : ℕ) =>
        (mwt.headD 0 : ℤ) - 1 + offset) = placesFrom start (count + 1) := by
  rcases span with ⟨positive, ordered⟩
  obtain ⟨start, startDef⟩ : ∃ start, mwt.headD 0 = start + 1 := ⟨mwt.headD 0 - 1, by omega⟩
  obtain ⟨count, countDef⟩ : ∃ count, mwt.getLastD 0 = start + (count + 1) :=
    ⟨mwt.getLastD 0 - (start + 1), by omega⟩
  refine ⟨start, count, startDef, countDef, ?_⟩
  unfold placesFrom
  rw [startDef, countDef, show start + (count + 1) + 1 - (start + 1) = count + 1 by omega]
  refine List.map_congr_left fun offset _ => ?_
  push_cast
  ring

/-- What a multi-word token does is to gather its slots. -/
theorem mergeMwt_eq_collect {mwt : List ℕ} (startDef : mwt.headD 0 = start + 1)
    (places : ((List.range (mwt.getLastD 0 + 1 - mwt.headD 0)).map fun (offset : ℕ) =>
      (mwt.headD 0 : ℤ) - 1 + offset) = placesFrom start (count + 1))
    (merged : mergeMwt groups mwt = .ok groups') :
    start + (count + 1) ≤ groups.length ∧ groups' = collect groups start (count + 1) := by
  unfold mergeMwt at merged
  simp only [places] at merged
  rcases bind_eq_ok_iff.mp merged with ⟨lists, got, merged⟩
  rcases mapM_pyGet_placesFrom got with ⟨rfl, inside⟩
  rcases bind_eq_ok_iff.mp merged with ⟨cleared, clear, merged⟩
  obtain rfl := foldlM_pySet_placesFrom (inside (Nat.succ_pos _)) clear
  refine ⟨inside (Nat.succ_pos _), ?_⟩
  rcases pySet_eq_ok.mp merged with ⟨place, located, rfl⟩
  obtain rfl : start = place := by
    rcases pyIndex_eq_some.mp located with ⟨inside, same | same⟩
    · omega
    · omega
  unfold collect
  rw [flatten_lists]

/-- A multi-word token keeps the order. -/
theorem mergeMwt_contents {mwt : List ℕ} (span : SpanOk mwt)
    (merged : mergeMwt groups mwt = .ok groups') : contents groups' = contents groups := by
  rcases span.places with ⟨start, count, startDef, _, places⟩
  rcases mergeMwt_eq_collect startDef places merged with ⟨inside, collected⟩
  rw [collected, contents_collect (Nat.succ_pos _) inside]

theorem foldlM_mergeMwt {mwts : List (List ℕ)} (spans : ∀ mwt ∈ mwts, SpanOk mwt)
    (merged : mwts.foldlM mergeMwt groups = .ok groups') : contents groups' = contents groups := by
  induction mwts generalizing groups with
  | nil =>
      obtain rfl : groups = groups' := Except.ok.inj merged
      rfl
  | cons mwt mwts ih =>
      rw [List.foldlM_cons] at merged
      rcases bind_eq_ok_iff.mp merged with ⟨middle, first, later⟩
      rw [ih (fun other mem => spans other (List.mem_cons_of_mem _ mem)) later,
        mergeMwt_contents (spans mwt List.mem_cons_self) first]

end MultiWordTokens

section Grouping

variable {analyses : List (Option MorAnalysis)} {sources : List ℕ} {mwts : List (List ℕ)}
  {groups : Groups} {m : ℕ}

/-- The units of the groups are units of the words, in the order of the words exactly if no join
is for the first word with a unit. -/
theorem groupWords_contents (spans : ∀ mwt ∈ mwts, SpanOk mwt)
    (grouped : groupWords analyses (sources.map Nat.cast) mwts = .ok groups) :
    (∀ i ∈ contents groups, i ∈ positions Option.isSome analyses) ∧
      ((positions Option.isSome analyses).head? = some m →
        (contents groups = positions Option.isSome analyses ↔ m ∉ sources)) := by
  rcases bind_eq_ok_iff.mp grouped with ⟨joined, auxiliaries, merged⟩
  have anchored : Anchored (initialGroups analyses) := initialGroups_anchored
  rw [foldlM_mergeMwt spans merged, ← contents_initialGroups]
  refine ⟨(foldlM_joinAuxiliary_keeps (m := 0) anchored auxiliaries).2.1, fun head => ?_⟩
  rcases foldlM_joinAuxiliary anchored head auxiliaries with ⟨absent, present⟩
  constructor
  · intro same mem
    exact present mem (same ▸ head)
  · exact absent

end Grouping

end Batchalign.Morphosyntax
