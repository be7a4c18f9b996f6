import Mathlib

/-!
# Relations without cycles

A relation has no cycle if no chain of it returns to where it began. Chains go through maps
(`Acyclic.comap`), also to an image under which points with the same steps fall together
(`Acyclic.image`), and nothing is gained by steps to a point without a way on
(`Acyclic.of_sink`) or from points that no step leads to (`Acyclic.of_sources`). A function that
falls along every step rules out cycles (`acyclic_of_rank`).
-/

namespace AcyclicRelation

open Relation

universe u v

section Cycles

variable {α : Type u} {β : Type v} {r s : α → α → Prop} {a b : α}

/-- No chain leads back. -/
def Acyclic (r : α → α → Prop) : Prop := ∀ a, ¬ TransGen r a a

/-- A map that takes steps to chains takes cycles to cycles. -/
theorem Acyclic.comap {t : β → β → Prop} {f : α → β} (acyclic : Acyclic t)
    (steps : ∀ a b, r a b → TransGen t (f a) (f b)) : Acyclic r := by
  intro a cycle
  exact acyclic (f a) (TransGen.lift' f steps a a cycle)

/-- A map may take points together that go on to the same points. -/
theorem Acyclic.image {f : α → β} (acyclic : Acyclic r)
    (fibres : ∀ a b c d, r d a → f a = f b → r b c → r a c) : Acyclic (Relation.Map r f f) := by
  have chains : ∀ {x y}, TransGen (Relation.Map r f f) x y →
      ∃ a b, TransGen r a b ∧ f a = x ∧ f b = y := by
    intro x y chain
    induction chain with
    | single step =>
        rcases step with ⟨a, b, step, rfl, rfl⟩
        exact ⟨a, b, TransGen.single step, rfl, rfl⟩
    | tail _ step ih =>
        rcases ih with ⟨a, b, before, rfl, rfl⟩
        rcases step with ⟨b', c, step, same, rfl⟩
        rcases TransGen.tail'_iff.mp before with ⟨d, _, last⟩
        exact ⟨a, c, before.tail (fibres b b' c d last same.symm step), rfl, rfl⟩
  intro x cycle
  rcases chains cycle with ⟨a, b, chain, rfl, same⟩
  rcases TransGen.head'_iff.mp chain with ⟨c, first, rest⟩
  rcases TransGen.tail'_iff.mp chain with ⟨d, _, last⟩
  exact acyclic b (TransGen.head' (fibres b a c d last same first) rest)

theorem Acyclic.mono (acyclic : Acyclic s) (steps : ∀ a b, r a b → s a b) : Acyclic r :=
  acyclic.comap (f := id) fun a b step => TransGen.single (steps a b step)

theorem Acyclic.swap (acyclic : Acyclic r) : Acyclic fun a b => r b a := by
  intro a cycle
  exact acyclic a (TransGen.swap a a cycle)

/-- A point without a way on is on no cycle. -/
theorem Acyclic.of_sink (acyclic : Acyclic s) (sink : α)
    (steps : ∀ a b, r a b → s a b ∨ b = sink) (final : ∀ b, ¬ r sink b) : Acyclic r := by
  have chains : ∀ {a b}, TransGen r a b → TransGen s a b ∨ b = sink := by
    intro a b chain
    induction chain with
    | single step => exact (steps _ _ step).imp_left TransGen.single
    | tail _ step ih =>
        rcases ih with before | rfl
        · exact (steps _ _ step).imp_left before.tail
        · exact absurd step (final _)
  intro a cycle
  rcases chains cycle with old | rfl
  · exact acyclic a old
  · rcases TransGen.head'_iff.mp cycle with ⟨_, step, _⟩
    exact final _ step

/-- Points that no step leads to are on no cycle. -/
theorem Acyclic.of_sources (acyclic : Acyclic s) (sources : α → Prop)
    (steps : ∀ a b, r a b → s a b ∨ sources a) (initial : ∀ a b, sources b → ¬ r a b) :
    Acyclic r := by
  have chains : ∀ {a b}, TransGen r a b → TransGen s a b ∨ sources a := by
    intro a b chain
    induction chain using TransGen.head_induction_on with
    | single step => exact (steps _ _ step).imp_left TransGen.single
    | head step _ ih =>
        rcases ih with later | source
        · exact (steps _ _ step).imp_left (TransGen.head · later)
        · exact absurd step (initial _ _ source)
  intro a cycle
  rcases chains cycle with old | source
  · exact acyclic a old
  · rcases TransGen.tail'_iff.mp cycle with ⟨_, _, step⟩
    exact initial _ _ source step

/-- What falls along every step never comes back. -/
theorem acyclic_of_rank (rank : α → ℕ) (falls : ∀ a b, r a b → rank b < rank a) : Acyclic r := by
  have below : ∀ {a b}, TransGen r a b → rank b < rank a := by
    intro a b chain
    induction chain with
    | single step => exact falls _ _ step
    | tail _ step ih => exact (falls _ _ step).trans ih
  intro a cycle
  exact (below cycle).false

end Cycles

end AcyclicRelation
