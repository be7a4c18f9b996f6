import Mathlib

/-!
# Greedy topological orders

Nodes are taken one after the other, always a node of least rank among those whose
requirements have been taken. When no two nodes share a rank there is only one such
order. Without cycles it takes every node, each after everything it requires.
-/

namespace GreedyOrder

variable {Node : Type*}

/-- A node is ready when all its requirements among the nodes are finished. -/
structure Ready (requires : Node → List Node) (nodes finished : Finset Node) (node : Node) :
    Prop where
  listed : node ∈ nodes
  unfinished : node ∉ finished
  met : ∀ requirement ∈ requires node, requirement ∈ nodes → requirement ∈ finished

theorem Ready.mono {requires : Node → List Node} {nodes finished more : Finset Node} {node : Node}
    (ready : Ready requires nodes finished node) (subset : finished ⊆ more)
    (unfinished : node ∉ more) : Ready requires nodes more node :=
  ⟨ready.listed, unfinished, fun requirement member isNode =>
    subset (ready.met requirement member isNode)⟩

variable [DecidableEq Node]

/-- The orders that always take a ready node of least rank, until none is ready. -/
inductive Greedy (requires : Node → List Node) (rank : Node → ℕ) (nodes : Finset Node) :
    Finset Node → List Node → Prop where
  | done {finished : Finset Node} (noneReady : ∀ node, ¬ Ready requires nodes finished node) :
      Greedy requires rank nodes finished []
  | pick {finished : Finset Node} {node : Node} {order : List Node}
      (ready : Ready requires nodes finished node)
      (least : ∀ other, Ready requires nodes finished other → rank node ≤ rank other)
      (next : Greedy requires rank nodes (insert node finished) order) :
      Greedy requires rank nodes finished (node :: order)

/-- The first comes before the second. -/
def Before (order : List Node) (earlier later : Node) : Prop :=
  order.idxOf earlier < order.idxOf later

instance (order : List Node) (earlier later : Node) : Decidable (Before order earlier later) :=
  inferInstanceAs (Decidable (_ < _))

theorem before_of_split {order before after : List Node} {earlier later : Node}
    (nodup : order.Nodup) (split : order = before ++ later :: after) (member : earlier ∈ before) :
    Before order earlier later := by
  rw [split] at nodup
  have notBefore : later ∉ before := by
    intro also
    exact (List.nodup_append.mp nodup).2.2 later also later List.mem_cons_self rfl
  rw [Before, split, List.idxOf_append_of_mem member, List.idxOf_append_of_notMem notBefore,
    List.idxOf_cons_self, Nat.add_zero]
  exact List.idxOf_lt_length_iff.mpr member

section Orders

variable {requires : Node → List Node} {rank : Node → ℕ} {nodes finished : Finset Node}
  {order order' : List Node}

theorem Greedy.unique (injective : Set.InjOn rank nodes)
    (first : Greedy requires rank nodes finished order)
    (second : Greedy requires rank nodes finished order') : order = order' := by
  induction first generalizing order' with
  | done noneReady =>
      cases second with
      | done _ => rfl
      | pick ready _ _ => exact absurd ready (noneReady _)
  | @pick finished node order ready least _ ih =>
      cases second with
      | done noneReady => exact absurd ready (noneReady _)
      | @pick _ node' order' ready' least' next' =>
          have same : node = node' := by
            apply injective ready.listed ready'.listed
            exact le_antisymm (least node' ready') (least' node ready)
          subst same
          rw [ih next']

theorem Greedy.listed (greedy : Greedy requires rank nodes finished order) :
    ∀ node ∈ order, node ∈ nodes ∧ node ∉ finished := by
  induction greedy with
  | done _ => simp
  | pick ready _ _ ih =>
      refine List.forall_mem_cons.mpr ⟨⟨ready.listed, ready.unfinished⟩, ?_⟩
      intro node member
      rcases ih node member with ⟨isNode, unfinished⟩
      exact ⟨isNode, fun also => unfinished (Finset.mem_insert_of_mem also)⟩

theorem Greedy.nodup (greedy : Greedy requires rank nodes finished order) : order.Nodup := by
  induction greedy with
  | done _ => exact List.nodup_nil
  | pick _ _ next ih =>
      refine List.nodup_cons.mpr ⟨?_, ih⟩
      intro again
      exact (next.listed _ again).2 (Finset.mem_insert_self _ _)

/-- Without cycles no node is left over: one of least depth would be ready. -/
theorem Greedy.complete {depth : Node → ℕ}
    (acyclic : ∀ node, ∀ requirement ∈ requires node, depth requirement < depth node)
    (greedy : Greedy requires rank nodes finished order) :
    ∀ node ∈ nodes, node ∈ finished ∨ node ∈ order := by
  induction greedy with
  | @done finished noneReady =>
      intro node isNode
      left
      induction within : depth node using Nat.strong_induction_on generalizing node with
      | _ bound ih =>
          by_contra unfinished
          apply noneReady node
          refine ⟨isNode, unfinished, ?_⟩
          intro requirement member isNode'
          apply ih (depth requirement) _ requirement isNode' rfl
          rw [← within]
          exact acyclic node requirement member
  | pick _ _ _ ih =>
      intro node isNode
      rcases ih node isNode with isFinished | later
      · rcases Finset.mem_insert.mp isFinished with rfl | isFinished
        · exact Or.inr List.mem_cons_self
        · exact Or.inl isFinished
      · exact Or.inr (List.mem_cons_of_mem _ later)

theorem Greedy.requirement_first (greedy : Greedy requires rank nodes finished order)
    {before after : List Node} {node requirement : Node} (split : order = before ++ node :: after)
    (required : requirement ∈ requires node) (isNode : requirement ∈ nodes) :
    requirement ∈ finished ∨ requirement ∈ before := by
  induction greedy generalizing before with
  | done _ => simp at split
  | pick ready _ _ ih =>
      cases before with
      | nil =>
          cases split
          exact Or.inl (ready.met requirement required isNode)
      | cons first before =>
          cases split
          rcases ih rfl with isFinished | earlier
          · rcases Finset.mem_insert.mp isFinished with rfl | isFinished
            · exact Or.inr List.mem_cons_self
            · exact Or.inl isFinished
          · exact Or.inr (List.mem_cons_of_mem _ earlier)

variable {depth : Node → ℕ}
  (acyclic : ∀ node, ∀ requirement ∈ requires node, depth requirement < depth node)
  (greedy : Greedy requires rank nodes ∅ order)

include acyclic greedy

theorem Greedy.perm : order.Perm nodes.toList := by
  rw [List.perm_ext_iff_of_nodup greedy.nodup nodes.nodup_toList]
  intro node
  rw [Finset.mem_toList]
  constructor
  · intro member
    exact (greedy.listed node member).1
  · intro isNode
    rcases greedy.complete acyclic node isNode with impossible | member
    · simp at impossible
    · exact member

/-- A chain of requirements among the nodes runs backwards in the order. -/
theorem Greedy.before {node requirement : Node}
    (chain : Relation.TransGen
      (fun node requirement => node ∈ nodes ∧ requirement ∈ nodes ∧ requirement ∈ requires node)
      node requirement) : Before order requirement node := by
  have step : ∀ node requirement, node ∈ nodes → requirement ∈ nodes →
      requirement ∈ requires node → Before order requirement node := by
    intro node requirement isNode isNode' required
    have member : node ∈ order := by
      rw [(greedy.perm acyclic).mem_iff, Finset.mem_toList]
      exact isNode
    rcases List.append_of_mem member with ⟨before, after, split⟩
    rcases greedy.requirement_first split required isNode' with impossible | earlier
    · simp at impossible
    · exact before_of_split greedy.nodup split earlier
  induction chain with
  | single link => exact step _ _ link.1 link.2.1 link.2.2
  | tail _ link ih => exact (step _ _ link.1 link.2.1 link.2.2).trans ih

end Orders

end GreedyOrder
