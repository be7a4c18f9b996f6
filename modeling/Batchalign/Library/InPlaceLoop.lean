import Mathlib

/-!
# Loops that rewrite a list in place

A loop goes over a list with a state, replaces every element, and stops at the first
failure. What it replaced before the failure stays replaced. A numbered loop counts the
elements of one kind and passes over the others.
-/

namespace InPlaceLoop

section Definitions

variable {σ α β ε : Type}

/-- The last state or the error, and the list that is left. -/
def run (step : σ → α → Except ε (σ × α)) : σ → List α → Except ε σ × List α
  | state, [] => (.ok state, [])
  | state, a :: as =>
      match step state a with
      | .error error => (.error error, a :: as)
      | .ok (next, changed) =>
          let rest := run step next as
          (rest.1, changed :: rest.2)

/-- The elements of one kind within a type. -/
structure Kind (α β : Type) where
  pick : α → Option β
  put : β → α
  pick_put : ∀ b, pick (put b) = some b
  put_of_pick : ∀ {a b}, pick a = some b → put b = a

/-- The body sees every element with its number. -/
def counted (body : ℕ → β → Except ε β) (idx : ℕ) (b : β) : Except ε (ℕ × β) :=
  (body idx b).map fun changed => (idx + 1, changed)

/-- The body sees the elements of the kind with their numbers. -/
def Kind.numbered (kind : Kind α β) (body : ℕ → β → Except ε β) (idx : ℕ) (a : α) :
    Except ε (ℕ × α) :=
  match kind.pick a with
  | none => .ok (idx, a)
  | some b => (counted body idx b).map fun result => (result.1, kind.put result.2)

/-- The numbered elements before the first one the body fails on. -/
def passed (body : ℕ → β → Except ε β) (rows : List (β × ℕ)) : List (β × ℕ) :=
  rows.takeWhile fun row => (body row.2 row.1).isOk

end Definitions

section Run

variable {σ α ε : Type} {step : σ → α → Except ε (σ × α)} {state : σ} {as : List α}

theorem run_cons_error {a : α} {error : ε} (fails : step state a = .error error) :
    run step state (a :: as) = (.error error, a :: as) := by
  simp only [run, fails]

theorem run_cons_ok {a changed : α} {next : σ} (goes : step state a = .ok (next, changed)) :
    run step state (a :: as) =
      ((run step next as).1, changed :: (run step next as).2) := by
  simp only [run, goes]

/-- What every replacement keeps holds of the whole list. -/
theorem run_forall {holds : α → Prop}
    (kept : ∀ {state a next changed}, step state a = .ok (next, changed) → holds a → holds changed)
    (before : ∀ a ∈ as, holds a) : ∀ a ∈ (run step state as).2, holds a := by
  induction as generalizing state with
  | nil => exact before
  | cons a as ih =>
      rw [List.forall_mem_cons] at before
      cases stepped : step state a with
      | error error =>
          rw [run_cons_error stepped, List.forall_mem_cons]
          exact before
      | ok result =>
          rw [run_cons_ok stepped, List.forall_mem_cons]
          exact ⟨kept stepped before.1, ih before.2⟩

end Run

section Counted

variable {β ε : Type} (body : ℕ → β → Except ε β) {idx : ℕ} {b : β} {bs : List β}

theorem counted_error {error : ε} (fails : body idx b = .error error) :
    counted body idx b = .error error := by
  simp only [counted, fails, Except.map]

theorem counted_ok {changed : β} (goes : body idx b = .ok changed) :
    counted body idx b = .ok (idx + 1, changed) := by
  simp only [counted, goes, Except.map]

/-- A loop that succeeds has counted every element. -/
theorem run_counted_ok {last : ℕ} (ran : (run (counted body) idx bs).1 = .ok last) :
    last = idx + bs.length := by
  induction bs generalizing idx with
  | nil =>
      cases ran
      rfl
  | cons b bs ih =>
      cases result : body idx b with
      | error error =>
          rw [run_cons_error (counted_error body result)] at ran
          cases ran
      | ok changed =>
          rw [run_cons_ok (counted_ok body result)] at ran
          rw [ih ran, List.length_cons]
          omega

theorem run_counted_isOk_iff :
    (run (counted body) idx bs).1.isOk = true ↔
      ∀ row ∈ bs.zipIdx idx, (body row.2 row.1).isOk = true := by
  induction bs generalizing idx with
  | nil => simp [run, Except.isOk, Except.toBool]
  | cons b bs ih =>
      rw [List.zipIdx_cons, List.forall_mem_cons]
      cases result : body idx b with
      | error error =>
          rw [run_cons_error (counted_error body result)]
          simp [Except.isOk, Except.toBool]
      | ok changed =>
          rw [run_cons_ok (counted_ok body result), ih]
          simp [Except.isOk, Except.toBool]

/-- The list is as it was exactly when the body replaced every element it did not fail on,
up to its first failure, by the element itself. -/
theorem run_counted_kept_iff :
    (run (counted body) idx bs).2 = bs ↔
      ∀ row ∈ passed body (bs.zipIdx idx), body row.2 row.1 = .ok row.1 := by
  induction bs generalizing idx with
  | nil => simp [run, passed]
  | cons b bs ih =>
      cases result : body idx b with
      | error error =>
          rw [run_cons_error (counted_error body result)]
          simp [passed, result, Except.isOk, Except.toBool]
      | ok changed =>
          have passes : passed body ((b :: bs).zipIdx idx) =
              (b, idx) :: passed body (bs.zipIdx (idx + 1)) := by
            simp [passed, result, Except.isOk, Except.toBool]
          rw [run_cons_ok (counted_ok body result), passes, List.forall_mem_cons, ← ih,
            List.cons.injEq, result, Except.ok.injEq]

/-- The element at a place is replaced when the loop gets past it. -/
theorem run_counted_getElem? {k : ℕ} (atK : bs[k]? = some b) :
    (run (counted body) idx bs).2[k]? =
      some (if k < (passed body (bs.zipIdx idx)).length then (body (idx + k) b).toOption.getD b
        else b) := by
  induction bs generalizing idx k with
  | nil => simp at atK
  | cons head bs ih =>
      cases result : body idx head with
      | error error =>
          have stops : passed body ((head :: bs).zipIdx idx) = [] := by
            simp [passed, result, Except.isOk, Except.toBool]
          rw [run_cons_error (counted_error body result), stops, atK]
          rfl
      | ok changed =>
          have passes : passed body ((head :: bs).zipIdx idx) =
              (head, idx) :: passed body (bs.zipIdx (idx + 1)) := by
            simp [passed, result, Except.isOk, Except.toBool]
          rw [run_cons_ok (counted_ok body result), passes]
          cases k with
          | zero =>
              rw [List.getElem?_cons_zero, Option.some_inj] at atK
              subst atK
              simp [result, Except.toOption]
          | succ k =>
              rw [List.getElem?_cons_succ] at atK ⊢
              have place : idx + 1 + k = idx + (k + 1) := by omega
              simp only [ih atK, List.length_cons, Nat.add_lt_add_iff_right, place]

theorem run_counted_length : (run (counted body) idx bs).2.length = bs.length := by
  induction bs generalizing idx with
  | nil => rfl
  | cons head bs ih =>
      cases result : body idx head with
      | error error => rw [run_cons_error (counted_error body result)]
      | ok changed =>
          rw [run_cons_ok (counted_ok body result), List.length_cons, ih, List.length_cons]

end Counted

section Numbered

variable {α β ε : Type} (kind : Kind α β) (body : ℕ → β → Except ε β)

theorem Kind.numbered_pass {idx : ℕ} {a : α} (passes : kind.pick a = none) :
    kind.numbered body idx a = .ok (idx, a) := by
  simp only [numbered, passes]

theorem Kind.numbered_error {idx : ℕ} {a : α} {b : β} {error : ε} (isKind : kind.pick a = some b)
    (fails : body idx b = .error error) : kind.numbered body idx a = .error error := by
  simp only [numbered, isKind, counted_error body fails, Except.map]

theorem Kind.numbered_ok {idx : ℕ} {a : α} {b changed : β} (isKind : kind.pick a = some b)
    (goes : body idx b = .ok changed) :
    kind.numbered body idx a = .ok (idx + 1, kind.put changed) := by
  simp only [numbered, isKind, counted_ok body goes, Except.map]

/-- A numbered loop is the counted loop over the elements of the kind. -/
theorem Kind.run_numbered (idx : ℕ) (as : List α) :
    (run (kind.numbered body) idx as).1 =
        (run (counted body) idx (as.filterMap kind.pick)).1 ∧
      (run (kind.numbered body) idx as).2.filterMap kind.pick =
        (run (counted body) idx (as.filterMap kind.pick)).2 ∧
      ((run (kind.numbered body) idx as).2 = as ↔
        (run (counted body) idx (as.filterMap kind.pick)).2 = as.filterMap kind.pick) := by
  induction as generalizing idx with
  | nil => simp [run]
  | cons a as ih =>
      cases isKind : kind.pick a with
      | none =>
          rw [run_cons_ok (kind.numbered_pass body isKind), List.filterMap_cons_none isKind,
            List.filterMap_cons_none isKind,
            List.cons.injEq, eq_self_iff_true, true_and]
          exact ih idx
      | some b =>
          rw [List.filterMap_cons_some isKind]
          cases result : body idx b with
          | error error =>
              rw [run_cons_error (kind.numbered_error body isKind result),
                run_cons_error (counted_error body result),
                List.filterMap_cons_some isKind]
              simp
          | ok changed =>
              rcases ih (idx + 1) with ⟨sameResult, samePicked, sameKept⟩
              have samePut : kind.put changed = a ↔ changed = b := by
                refine ⟨fun same => ?_, fun same => ?_⟩
                · have picked := kind.pick_put changed
                  rw [same, isKind, Option.some.injEq] at picked
                  exact picked.symm
                · rw [same]
                  exact kind.put_of_pick isKind
              rw [run_cons_ok (kind.numbered_ok body isKind result),
                run_cons_ok (counted_ok body result)]
              simp only [List.filterMap_cons_some (kind.pick_put changed), List.cons.injEq,
                samePicked, samePut, sameKept, and_true]
              exact sameResult

/-- A numbered loop succeeds when its body does on every element. -/
theorem Kind.run_isOk_iff (as : List α) :
    (run (kind.numbered body) 0 as).1.isOk = true ↔
      ∀ row ∈ (as.filterMap kind.pick).zipIdx, (body row.2 row.1).isOk = true := by
  rw [(kind.run_numbered body 0 as).1]
  exact run_counted_isOk_iff body

/-- It leaves the list as it was when it replaced the elements before the first failure by
themselves. -/
theorem Kind.run_kept_iff (as : List α) :
    (run (kind.numbered body) 0 as).2 = as ↔
      ∀ row ∈ passed body (as.filterMap kind.pick).zipIdx, body row.2 row.1 = .ok row.1 := by
  rw [(kind.run_numbered body 0 as).2.2]
  exact run_counted_kept_iff body

/-- An element of the kind is replaced when the loop gets past it. -/
theorem Kind.run_getElem? {as : List α} {k : ℕ} {b : β}
    (atK : (as.filterMap kind.pick)[k]? = some b) :
    ((run (kind.numbered body) 0 as).2.filterMap kind.pick)[k]? =
      some (if k < (passed body (as.filterMap kind.pick).zipIdx).length
        then (body k b).toOption.getD b else b) := by
  rw [(kind.run_numbered body 0 as).2.1, run_counted_getElem? body atK, Nat.zero_add]

theorem Kind.run_length (as : List α) :
    ((run (kind.numbered body) 0 as).2.filterMap kind.pick).length =
      (as.filterMap kind.pick).length := by
  rw [(kind.run_numbered body 0 as).2.1, run_counted_length]

/-- A numbered loop that succeeds has counted the elements of the kind. -/
theorem Kind.run_ok {as : List α} {last : ℕ}
    (ran : (run (kind.numbered body) 0 as).1 = .ok last) :
    last = (as.filterMap kind.pick).length := by
  rw [(kind.run_numbered body 0 as).1] at ran
  rw [run_counted_ok body ran, Nat.zero_add]

/-- What the body keeps holds of the elements of the kind that are left. -/
theorem Kind.run_forall {holds : β → Prop}
    (kept : ∀ {idx b changed}, body idx b = .ok changed → holds b → holds changed)
    {idx : ℕ} {as : List α} (before : ∀ b ∈ as.filterMap kind.pick, holds b) :
    ∀ b ∈ (run (kind.numbered body) idx as).2.filterMap kind.pick, holds b := by
  rw [(kind.run_numbered body idx as).2.1]
  refine InPlaceLoop.run_forall ?_ before
  intro idx b next changed stepped
  cases result : body idx b with
  | error error =>
      rw [counted_error body result] at stepped
      cases stepped
  | ok _ =>
      rw [counted_ok body result] at stepped
      cases stepped
      exact kept result

end Numbered

end InPlaceLoop
