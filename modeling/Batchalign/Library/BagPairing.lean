import Mathlib

/-!
# Pairings of two bags

A pairing takes pairs of related elements out of two bags. It is exhausted when no two elements
that are left over are related. A relation may allow exhausted pairings of different sizes; it
does so exactly when a pairing can strand an element on each side, that is, leave it over because
the elements it is related to are used up, two of them by each other
(`exhausted_card_eq_iff`).
-/

universe u v

/-- Pairs of related elements of two bags, and what is left of the bags. -/
structure BagPairing {α : Type u} {β : Type v} (rel : α → β → Prop) (xs : Multiset α)
    (ys : Multiset β) where
  pairs : Multiset (α × β)
  restX : Multiset α
  restY : Multiset β
  left : pairs.map Prod.fst + restX = xs
  right : pairs.map Prod.snd + restY = ys
  related : ∀ pair ∈ pairs, rel pair.1 pair.2

namespace BagPairing

section Counts

variable {γ : Type u} {δ : Type v} [DecidableEq γ] [DecidableEq δ] {f : γ → δ} {c : δ}
  {s t : Multiset γ}

/-- Elements with the image `c` that are no fewer make the image no less frequent. -/
theorem count_map_le (fewer : ∀ e, f e = c → t.count e ≤ s.count e) :
    (t.map f).count c ≤ (s.map f).count c := by
  rw [Multiset.count_map, Multiset.count_map]
  apply Multiset.card_le_card
  apply Multiset.le_iff_count.mpr
  intro e
  rw [Multiset.count_filter, Multiset.count_filter]
  split
  · next image => exact fewer e image.symm
  · exact le_rfl

theorem count_map_lt {e₀ : γ} (image : f e₀ = c) (strict : t.count e₀ < s.count e₀)
    (fewer : ∀ e, f e = c → t.count e ≤ s.count e) :
    (t.map f).count c < (s.map f).count c := by
  have atMost : ((e₀ ::ₘ t).map f).count c ≤ (s.map f).count c := by
    apply count_map_le
    intro e isImage
    rw [Multiset.count_cons]
    split
    · next same =>
      subst same
      exact strict
    · exact fewer e isImage
  rw [Multiset.map_cons, image, Multiset.count_cons_self] at atMost
  exact atMost

end Counts

variable {α : Type u} {β : Type v} {rel : α → β → Prop} {xs : Multiset α} {ys : Multiset β}

/-- No two elements that are left over are related. -/
def Exhausted (p : BagPairing rel xs ys) : Prop :=
  ∀ x ∈ p.restX, ∀ y ∈ p.restY, ¬ rel x y

/-- The pairing leaves over `x` and `y`, though `x` is related to an element whose partner is
related to `y`, and nothing that is left is related to either. -/
def Strands (p : BagPairing rel xs ys) (x : α) (y : β) : Prop :=
  x ∈ p.restX ∧ y ∈ p.restY ∧ (∃ pair ∈ p.pairs, rel x pair.2 ∧ rel pair.1 y) ∧
    (∀ b ∈ p.restY, ¬ rel x b) ∧ ∀ a ∈ p.restX, ¬ rel a y

theorem card_left (p : BagPairing rel xs ys) : p.pairs.card + p.restX.card = xs.card := by
  rw [← congrArg Multiset.card p.left, Multiset.card_add, Multiset.card_map]

theorem card_right (p : BagPairing rel xs ys) : p.pairs.card + p.restY.card = ys.card := by
  rw [← congrArg Multiset.card p.right, Multiset.card_add, Multiset.card_map]

/-- Two pairings leave over equally much exactly when they have equally many pairs. -/
theorem rest_card_eq_iff (p q : BagPairing rel xs ys) :
    p.restX.card + p.restY.card = q.restX.card + q.restY.card ↔ p.pairs.card = q.pairs.card := by
  have leftP := p.card_left
  have leftQ := q.card_left
  have rightP := p.card_right
  have rightQ := q.card_right
  omega

/-- A relation that closes its chains strands nothing. -/
theorem not_strands_of_closed
    (closed : ∀ x ∈ xs, ∀ u ∈ xs, ∀ v ∈ ys, ∀ y ∈ ys, rel x v → rel u v → rel u y → rel x y)
    (p : BagPairing rel xs ys) (x : α) (y : β) : ¬ p.Strands x y := by
  rintro ⟨isX, isY, ⟨pair, isPair, toV, toY⟩, aloneX, -⟩
  have inX : ∀ a ∈ p.restX, a ∈ xs := by
    intro a member
    rw [← p.left]
    exact Multiset.mem_add.mpr (.inr member)
  have inY : ∀ b ∈ p.restY, b ∈ ys := by
    intro b member
    rw [← p.right]
    exact Multiset.mem_add.mpr (.inr member)
  have pairX : pair.1 ∈ xs := by
    rw [← p.left]
    exact Multiset.mem_add.mpr (.inl (Multiset.mem_map_of_mem _ isPair))
  have pairY : pair.2 ∈ ys := by
    rw [← p.right]
    exact Multiset.mem_add.mpr (.inl (Multiset.mem_map_of_mem _ isPair))
  exact aloneX y isY (closed x (inX x isX) pair.1 pairX pair.2 pairY y (inY y isY) toV
    (p.related pair isPair) toY)

/-- One more element, which is left over. -/
def consLeft (p : BagPairing rel xs ys) (x : α) : BagPairing rel (x ::ₘ xs) ys where
  pairs := p.pairs
  restX := x ::ₘ p.restX
  restY := p.restY
  left := by rw [Multiset.add_cons, p.left]
  right := p.right
  related := p.related

/-- A pairing of what another one leaves over goes on with it. -/
def andThen {xs' : Multiset α} {ys' : Multiset β} (p : BagPairing rel xs ys)
    (q : BagPairing rel xs' ys') (restX : p.restX = xs') (restY : p.restY = ys') :
    BagPairing rel xs ys where
  pairs := p.pairs + q.pairs
  restX := q.restX
  restY := q.restY
  left := by rw [Multiset.map_add, add_assoc, q.left, ← restX, p.left]
  right := by rw [Multiset.map_add, add_assoc, q.right, ← restY, p.right]
  related := by
    intro pair member
    rcases Multiset.mem_add.mp member with first | second
    · exact p.related pair first
    · exact q.related pair second

variable [DecidableEq α] [DecidableEq β]

section Steps

/-- Pairs two related elements that are left over. -/
def extend (p : BagPairing rel xs ys) {x : α} {y : β} (isX : x ∈ p.restX) (isY : y ∈ p.restY)
    (pair : rel x y) : BagPairing rel xs ys where
  pairs := (x, y) ::ₘ p.pairs
  restX := p.restX.erase x
  restY := p.restY.erase y
  left := by
    apply Eq.trans _ p.left
    rw [Multiset.map_cons, Multiset.cons_add, ← Multiset.add_cons, Multiset.cons_erase isX]
  right := by
    apply Eq.trans _ p.right
    rw [Multiset.map_cons, Multiset.cons_add, ← Multiset.add_cons, Multiset.cons_erase isY]
  related := Multiset.forall_mem_cons.mpr ⟨pair, p.related⟩

/-- Puts an element that is left over in the place of one that is paired. -/
def swap (p : BagPairing rel xs ys) {x u : α} {v : β} (isX : x ∈ p.restX)
    (isPair : (u, v) ∈ p.pairs) (pair : rel x v) : BagPairing rel xs ys where
  pairs := (x, v) ::ₘ p.pairs.erase (u, v)
  restX := u ::ₘ p.restX.erase x
  restY := p.restY
  left := by
    apply Eq.trans _ p.left
    conv_rhs => rw [← Multiset.cons_erase isPair, ← Multiset.cons_erase isX]
    simp only [Multiset.map_cons, Multiset.cons_add, Multiset.add_cons]
    exact Multiset.cons_swap _ _ _
  right := by
    apply Eq.trans _ p.right
    conv_rhs => rw [← Multiset.cons_erase isPair]
    simp only [Multiset.map_cons]
  related := by
    intro other member
    rcases Multiset.mem_cons.mp member with rfl | old
    · exact pair
    · exact p.related other (Multiset.mem_of_mem_erase old)

@[simp]
theorem swap_card (p : BagPairing rel xs ys) {x u : α} {v : β} (isX : x ∈ p.restX)
    (isPair : (u, v) ∈ p.pairs) (pair : rel x v) :
    (p.swap isX isPair pair).pairs.card = p.pairs.card := by
  simp only [swap, Multiset.card_cons]
  rw [← Multiset.card_cons (u, v), Multiset.cons_erase isPair]

end Steps

section Stranding

/-- Every pairing extends to an exhausted one, which leaves over what is related to nothing that
was left over before. -/
theorem exists_exhausted (p : BagPairing rel xs ys) :
    ∃ q : BagPairing rel xs ys, q.Exhausted ∧ p.pairs ≤ q.pairs ∧
      (∀ x ∈ p.restX, (∀ y ∈ p.restY, ¬ rel x y) → x ∈ q.restX) ∧
      ∀ y ∈ p.restY, (∀ x ∈ p.restX, ¬ rel x y) → y ∈ q.restY := by
  induction left : p.restX.card generalizing p with
  | zero =>
      refine ⟨p, ?_, le_rfl, fun _ member _ => member, fun _ member _ => member⟩
      intro x isX
      rw [Multiset.card_eq_zero.mp left] at isX
      exact absurd isX (Multiset.notMem_zero x)
  | succ n ih =>
      by_cases done : p.Exhausted
      · exact ⟨p, done, le_rfl, fun _ member _ => member, fun _ member _ => member⟩
      · simp only [Exhausted, not_forall, not_not] at done
        rcases done with ⟨x, isX, y, isY, pair⟩
        have shorter : (p.extend isX isY pair).restX.card = n := by
          have cut := Multiset.card_erase_of_mem isX
          rw [left] at cut
          exact cut
        rcases ih (p.extend isX isY pair) shorter with ⟨q, exhausted, more, keepsX, keepsY⟩
        refine ⟨q, exhausted, (Multiset.le_cons_self _ _).trans more, ?_, ?_⟩
        · intro x' isX' alone
          have other : x' ≠ x := fun same => alone y isY (same ▸ pair)
          apply keepsX x' ((Multiset.mem_erase_of_ne other).mpr isX')
          exact fun y' isY' => alone y' (Multiset.mem_of_mem_erase isY')
        · intro y' isY' alone
          have other : y' ≠ y := fun same => alone x isX (same ▸ pair)
          apply keepsY y' ((Multiset.mem_erase_of_ne other).mpr isY')
          exact fun x' isX' => alone x' (Multiset.mem_of_mem_erase isX')

/-- A stranding pairing shows that an exhausted pairing can be too small. -/
theorem exists_larger {p : BagPairing rel xs ys} {x : α} {y : β} (strands : p.Strands x y) :
    ∃ q r : BagPairing rel xs ys, q.Exhausted ∧ r.Exhausted ∧
      q.pairs.card < r.pairs.card := by
  rcases strands with ⟨isX, isY, ⟨⟨u, v⟩, isPair, toV, toY⟩, aloneX, aloneY⟩
  rcases p.exists_exhausted with ⟨q, exhausted, more, keepsX, keepsY⟩
  have leftX := keepsX x isX aloneX
  have leftY := keepsY y isY aloneY
  have stillPair := Multiset.mem_of_le more isPair
  -- `x` takes the place of `u`, which then goes with `y`
  set swapped := q.swap leftX stillPair toV with swappedEq
  have freed : u ∈ swapped.restX := Multiset.mem_cons_self _ _
  refine ⟨q, swapped.extend freed leftY toY, exhausted, ?_, ?_⟩
  · intro a isA b isB
    have inRest : a ∈ q.restX.erase x := by
      simpa [extend, swap, swappedEq] using isA
    exact exhausted a (Multiset.mem_of_mem_erase inRest) b (Multiset.mem_of_mem_erase isB)
  · have same : swapped.pairs.card = q.pairs.card := q.swap_card leftX stillPair toV
    simp only [extend, Multiset.card_cons]
    omega

/-- A pair of a larger pairing that the exhausted pairing `p` has less often can take the place of
a pair that it has more often. -/
theorem exists_swap {p q : BagPairing rel xs ys} (exhausted : p.Exhausted)
    (larger : p.pairs.card < q.pairs.card) :
    ∃ x u v, x ∈ p.restX ∧ rel x v ∧
      p.pairs.count (x, v) < q.pairs.count (x, v) ∧
      q.pairs.count (u, v) < p.pairs.count (u, v) := by
  have fewerLeft : q.restX.card < p.restX.card := by
    have cardP := p.card_left
    have cardQ := q.card_left
    omega
  have exists_x : ∃ x, q.restX.count x < p.restX.count x := by
    by_contra none
    simp only [not_exists, not_lt] at none
    exact absurd (Multiset.card_le_card (Multiset.le_iff_count.mpr none)) (not_le.mpr fewerLeft)
  rcases exists_x with ⟨x, moreLeft⟩
  have isX : x ∈ p.restX := Multiset.count_pos.mp (by omega)
  have lessPaired : (p.pairs.map Prod.fst).count x < (q.pairs.map Prod.fst).count x := by
    have countP := congrArg (Multiset.count x) p.left
    have countQ := congrArg (Multiset.count x) q.left
    rw [Multiset.count_add] at countP countQ
    omega
  have exists_v : ∃ v, p.pairs.count (x, v) < q.pairs.count (x, v) := by
    by_contra none
    simp only [not_exists, not_lt] at none
    refine absurd (count_map_le ?_) (not_le.mpr lessPaired)
    rintro ⟨x', v⟩ rfl
    exact none v
  rcases exists_v with ⟨v, less⟩
  have toV : rel x v := q.related (x, v) (Multiset.count_pos.mp (by omega))
  -- all elements `v` are used up by `p`, so it has some of their pairs more often
  have usedUp : p.restY.count v = 0 :=
    Multiset.count_eq_zero.mpr fun isV => exhausted x isX v isV toV
  have notMore : (q.pairs.map Prod.snd).count v ≤ (p.pairs.map Prod.snd).count v := by
    have countP := congrArg (Multiset.count v) p.right
    have countQ := congrArg (Multiset.count v) q.right
    rw [Multiset.count_add] at countP countQ
    omega
  have exists_u : ∃ u, q.pairs.count (u, v) < p.pairs.count (u, v) := by
    by_contra none
    simp only [not_exists, not_lt] at none
    refine absurd (count_map_lt rfl less ?_) (not_lt.mpr notMore)
    rintro ⟨u, v'⟩ rfl
    exact none u
  rcases exists_u with ⟨u, more⟩
  exact ⟨x, u, v, isX, toV, less, more⟩

/-- If nothing can be stranded, an exhausted pairing is as large as any. -/
theorem Exhausted.card_le {p : BagPairing rel xs ys} (exhausted : p.Exhausted)
    (safe : ∀ r : BagPairing rel xs ys, ∀ x y, ¬ r.Strands x y) (q : BagPairing rel xs ys) :
    q.pairs.card ≤ p.pairs.card := by
  induction missing : (q.pairs - p.pairs).card generalizing p with
  | zero =>
      apply Multiset.card_le_card
      exact tsub_eq_zero_iff_le.mp (Multiset.card_eq_zero.mp missing)
  | succ n ih =>
      by_contra notLe
      rcases exists_swap exhausted (not_le.mp notLe) with ⟨x, u, v, isX, toV, less, more⟩
      have isPair : (u, v) ∈ p.pairs := Multiset.count_pos.mp (by omega)
      have other : (x, v) ≠ (u, v) := by
        intro same
        rw [same] at less
        omega
      have stillExhausted : (p.swap isX isPair toV).Exhausted := by
        intro a isA b isB related
        rcases Multiset.mem_cons.mp isA with rfl | inRest
        · exact safe p x b ⟨isX, isB, ⟨(a, v), isPair, toV, related⟩, exhausted x isX,
            fun a' isA' => exhausted a' isA' b isB⟩
        · exact exhausted a (Multiset.mem_of_mem_erase inRest) b isB related
      have oneLess : q.pairs - p.pairs = (x, v) ::ₘ (q.pairs - (p.swap isX isPair toV).pairs) := by
        ext pair
        simp only [swap, Multiset.count_sub, Multiset.count_cons]
        by_cases isNew : pair = (x, v)
        · subst isNew
          rw [Multiset.count_erase_of_ne other]
          simp only [if_true]
          omega
        · by_cases isOld : pair = (u, v)
          · subst isOld
            rw [Multiset.count_erase_self]
            simp only [isNew, if_false]
            omega
          · rw [Multiset.count_erase_of_ne isOld]
            simp only [isNew, if_false, add_zero]
      rw [oneLess, Multiset.card_cons] at missing
      have bound := ih stillExhausted (by omega)
      rw [swap_card] at bound
      exact notLe bound

/-- The exhausted pairings are of one size exactly when no pairing strands anything. -/
theorem exhausted_card_eq_iff :
    (∀ p q : BagPairing rel xs ys, p.Exhausted → q.Exhausted → p.pairs.card = q.pairs.card) ↔
      ∀ p : BagPairing rel xs ys, ∀ x y, ¬ p.Strands x y := by
  constructor
  · intro oneSize p x y strands
    rcases exists_larger strands with ⟨q, r, exhaustedQ, exhaustedR, larger⟩
    exact absurd (oneSize q r exhaustedQ exhaustedR) larger.ne
  · intro safe p q exhaustedP exhaustedQ
    exact le_antisymm (exhaustedQ.card_le safe p) (exhaustedP.card_le safe q)

end Stranding

end BagPairing
