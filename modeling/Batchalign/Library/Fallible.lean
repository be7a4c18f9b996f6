import Mathlib

/-!
# Steps and loops that may fail

What a sequence of fallible steps returns is what its steps return one by one (`bind_eq_ok_iff`,
`mapM_eq_ok_iff`). A loop over batches that prepares the elements of a batch first and applies
them afterwards succeeds as the loop over all elements does (`foldlM_batches_iff`).
-/

namespace Fallible

variable {α β γ ε ε' : Type}

section Steps

/-- A step and what follows it succeed together. -/
theorem bind_eq_ok_iff {result : Except ε α} {next : α → Except ε β} {b : β} :
    result >>= next = .ok b ↔ ∃ a, result = .ok a ∧ next a = .ok b := by
  cases result with
  | error error =>
      constructor
      · intro ok
        cases ok
      · rintro ⟨a, ok, _⟩
        cases ok
  | ok a => simp [bind, Except.bind]

theorem bind_eq_error_iff {result : Except ε α} {next : α → Except ε β} {error : ε} :
    result >>= next = .error error ↔
      result = .error error ∨ ∃ a, result = .ok a ∧ next a = .error error := by
  cases result with
  | error error' => simp [bind, Except.bind]
  | ok a => simp [bind, Except.bind]

/-- A check that ends the steps with an error if it fails. -/
def require (holds : Prop) [Decidable holds] (error : ε) : Except ε Unit :=
  if holds then .ok () else .error error

theorem require_eq_ok_iff {holds : Prop} [Decidable holds] {error : ε} :
    require holds error = .ok () ↔ holds := by
  unfold require
  split_ifs with holds
  · exact iff_of_true rfl holds
  · exact iff_of_false nofun holds

/-- What follows a check is done if it succeeds. -/
theorem require_bind_eq_ok_iff {holds : Prop} [Decidable holds] {error : ε}
    {next : Unit → Except ε β} {b : β} :
    require holds error >>= next = .ok b ↔ holds ∧ next () = .ok b := by
  rw [bind_eq_ok_iff]
  constructor
  · rintro ⟨⟨⟩, checked, ok⟩
    exact ⟨require_eq_ok_iff.mp checked, ok⟩
  · rintro ⟨holds, ok⟩
    exact ⟨(), require_eq_ok_iff.mpr holds, ok⟩

theorem mapError_eq_ok_iff {result : Except ε α} {f : ε → ε'} {a : α} :
    result.mapError f = .ok a ↔ result = .ok a := by
  cases result <;> simp [Except.mapError]

end Steps

section Maps

variable {f : α → Except ε β} {xs : List α} {ys : List β}

/-- A map over a list returns what it returns of each element. -/
theorem mapM_eq_ok_iff : xs.mapM f = .ok ys ↔ List.Forall₂ (fun x y => f x = .ok y) xs ys := by
  constructor
  · intro ok
    induction xs generalizing ys with
    | nil =>
        cases ok
        exact List.Forall₂.nil
    | cons x xs ih =>
        rw [List.mapM_cons] at ok
        rcases bind_eq_ok_iff.mp ok with ⟨y, first, ok⟩
        rcases bind_eq_ok_iff.mp ok with ⟨rest, later, ok⟩
        cases ok
        exact List.Forall₂.cons first (ih later)
  · intro each
    induction each with
    | nil => rfl
    | cons first _ ih =>
        rw [List.mapM_cons, first, ih]
        rfl

theorem mapM_eq_some_iff {f : α → Option β} :
    xs.mapM f = some ys ↔ List.Forall₂ (fun x y => f x = some y) xs ys := by
  constructor
  · intro found
    induction xs generalizing ys with
    | nil =>
        cases found
        exact List.Forall₂.nil
    | cons x xs ih =>
        rw [List.mapM_cons] at found
        rcases Option.bind_eq_some_iff.mp found with ⟨y, first, found⟩
        rcases Option.bind_eq_some_iff.mp found with ⟨rest, later, found⟩
        cases found
        exact List.Forall₂.cons first (ih later)
  · intro each
    induction each with
    | nil => rfl
    | cons first _ ih =>
        rw [List.mapM_cons, first, ih]
        rfl

theorem length_of_mapM_ok (ok : xs.mapM f = .ok ys) : ys.length = xs.length :=
  (mapM_eq_ok_iff.mp ok).length_eq.symm

theorem map_of_mapM_ok {left : β → γ} {right : α → γ}
    (step : ∀ x y, f x = .ok y → left y = right x) (ok : xs.mapM f = .ok ys) :
    ys.map left = xs.map right := by
  have each := mapM_eq_ok_iff.mp ok
  clear ok
  induction each with
  | nil => rfl
  | cons first _ ih => rw [List.map_cons, List.map_cons, step _ _ first, ih]

theorem exists_of_forall₂_right {related : α → β → Prop} (each : List.Forall₂ related xs ys)
    {y : β} (member : y ∈ ys) : ∃ x ∈ xs, related x y := by
  induction each with
  | nil => cases member
  | cons first _ ih =>
      rcases List.mem_cons.mp member with rfl | later
      · exact ⟨_, List.mem_cons_self, first⟩
      · rcases ih later with ⟨x, inside, isRelated⟩
        exact ⟨x, List.mem_cons_of_mem _ inside, isRelated⟩

theorem mem_of_mapM_ok (ok : xs.mapM f = .ok ys) {y : β} (member : y ∈ ys) :
    ∃ x ∈ xs, f x = .ok y :=
  exists_of_forall₂_right (mapM_eq_ok_iff.mp ok) member

theorem exists_of_mapM_ok (ok : xs.mapM f = .ok ys) {x : α} (member : x ∈ xs) :
    ∃ y ∈ ys, f x = .ok y :=
  exists_of_forall₂_right (mapM_eq_ok_iff.mp ok).flip member

theorem mem_of_mapM_error {error : ε} (failed : xs.mapM f = .error error) :
    ∃ x ∈ xs, f x = .error error := by
  induction xs with
  | nil => cases failed
  | cons x xs ih =>
      rw [List.mapM_cons] at failed
      rcases bind_eq_error_iff.mp failed with here | ⟨y, _, failed⟩
      · exact ⟨x, List.mem_cons_self, here⟩
      · rcases bind_eq_error_iff.mp failed with later | ⟨rest, _, failed⟩
        · rcases ih later with ⟨x', inside, isError⟩
          exact ⟨x', List.mem_cons_of_mem _ inside, isError⟩
        · cases failed

/-- What holds of all results, by what holds of all arguments. -/
theorem forall_mapM_ok_iff {P : β → Prop} {Q : α → Prop}
    (step : ∀ x ∈ xs, ∀ y, f x = .ok y → (P y ↔ Q x)) (ok : xs.mapM f = .ok ys) :
    (∀ y ∈ ys, P y) ↔ ∀ x ∈ xs, Q x := by
  constructor
  · intro all x member
    rcases exists_of_mapM_ok ok member with ⟨y, inside, isY⟩
    exact (step x member y isY).mp (all y inside)
  · intro all y member
    rcases mem_of_mapM_ok ok member with ⟨x, inside, isY⟩
    exact (step x inside y isY).mpr (all x inside)

theorem exists_forall₂_iff {related : α → β → Prop} :
    (∃ ys, List.Forall₂ related xs ys) ↔ ∀ x ∈ xs, ∃ y, related x y := by
  constructor
  · rintro ⟨ys, each⟩ x member
    rcases exists_of_forall₂_right each.flip member with ⟨y, _, isRelated⟩
    exact ⟨y, isRelated⟩
  · intro each
    induction xs with
    | nil => exact ⟨[], List.Forall₂.nil⟩
    | cons x xs ih =>
        rcases List.forall_mem_cons.mp each with ⟨⟨y, first⟩, later⟩
        rcases ih later with ⟨ys, rest⟩
        exact ⟨y :: ys, List.Forall₂.cons first rest⟩

theorem exists_mapM_ok_iff : (∃ ys, xs.mapM f = .ok ys) ↔ ∀ x ∈ xs, ∃ y, f x = .ok y := by
  simp only [mapM_eq_ok_iff]
  exact exists_forall₂_iff

theorem forM_eq_ok_iff {check : α → Except ε Unit} :
    xs.forM check = .ok () ↔ ∀ x ∈ xs, check x = .ok () := by
  induction xs with
  | nil => simp [pure, Except.pure]
  | cons x xs ih =>
      rw [List.forall_mem_cons, ← ih]
      change (check x >>= fun _ => xs.forM check) = .ok () ↔ _
      rw [bind_eq_ok_iff]
      constructor
      · rintro ⟨⟨⟩, first, later⟩
        exact ⟨first, later⟩
      · rintro ⟨first, later⟩
        exact ⟨(), first, later⟩

end Maps

section Batches

variable {σ : Type} {run : σ → List α → Except ε σ} {prepared : α → β → Prop}
  {apply : σ → β → Except ε σ}

/-- Batches whose elements are all prepared before any is applied. -/
theorem foldlM_batches_iff
    (spec : ∀ start batch final, run start batch = .ok final ↔
      ∃ works, List.Forall₂ prepared batch works ∧ works.foldlM apply start = .ok final)
    {batches : List (List α)} {start final : σ} :
    batches.foldlM run start = .ok final ↔
      ∃ works, List.Forall₂ prepared batches.flatten works ∧
        works.foldlM apply start = .ok final := by
  induction batches generalizing start with
  | nil =>
      constructor
      · intro ok
        exact ⟨[], List.Forall₂.nil, ok⟩
      · rintro ⟨works, empty, ok⟩
        cases empty
        exact ok
  | cons batch batches ih =>
      rw [List.foldlM_cons, bind_eq_ok_iff, List.flatten_cons]
      constructor
      · rintro ⟨middle, first, later⟩
        rcases (spec start batch middle).mp first with ⟨works, isBatch, applied⟩
        rcases ih.mp later with ⟨more, isRest, appliedRest⟩
        refine ⟨works ++ more, List.rel_append isBatch isRest, ?_⟩
        rw [List.foldlM_append]
        exact bind_eq_ok_iff.mpr ⟨middle, applied, appliedRest⟩
      · rintro ⟨works, each, applied⟩
        have isBatch := (List.forall₂_take_append works batch _ each.flip).flip
        have isRest := (List.forall₂_drop_append works batch _ each.flip).flip
        rw [← List.take_append_drop batch.length works, List.foldlM_append] at applied
        rcases bind_eq_ok_iff.mp applied with ⟨middle, first, later⟩
        exact ⟨middle, (spec start batch middle).mpr ⟨_, isBatch, first⟩,
          ih.mpr ⟨_, isRest, later⟩⟩

theorem foldlM_flatten {rows : List (List β)} {start : σ} :
    rows.flatten.foldlM apply start = rows.foldlM (fun state row => row.foldlM apply state) start := by
  induction rows generalizing start with
  | nil => rfl
  | cons row rows ih =>
      rw [List.flatten_cons, List.foldlM_append, List.foldlM_cons]
      exact congrArg _ (funext fun _ => ih)

end Batches

end Fallible
