import Mathlib

/-!
# Positional notation, most significant digit first

`horner` reads a list of digits from the left. What Mathlib has about `Nat.digits`, which
starts at the other end, is carried over by a reversal. Reading the digits block by block is
reading the number in the power of the base (`map_horner_blocks`).
-/

namespace Positional

variable {base : ℕ}

/-- The number of a list of digits, the most significant one in front. -/
def horner (base : ℕ) (digits : List ℕ) : ℕ :=
  digits.foldl (fun value digit => value * base + digit) 0

@[simp]
theorem horner_nil : horner base [] = 0 := rfl

theorem horner_eq_ofDigits (digits : List ℕ) :
    horner base digits = Nat.ofDigits base digits.reverse := by
  rw [Nat.ofDigits_eq_foldr, List.foldr_reverse, horner]
  congr 1
  funext value digit
  simp [Nat.mul_comm, Nat.add_comm]

theorem horner_append (left right : List ℕ) :
    horner base (left ++ right) = horner base left * base ^ right.length + horner base right := by
  rw [horner_eq_ofDigits, horner_eq_ofDigits, horner_eq_ofDigits, List.reverse_append,
    Nat.ofDigits_append, List.length_reverse, Nat.add_comm, Nat.mul_comm]

theorem horner_cons (digit : ℕ) (digits : List ℕ) :
    horner base (digit :: digits) = digit * base ^ digits.length + horner base digits := by
  have single : horner base [digit] = digit := by simp [horner]
  rw [← List.singleton_append, horner_append, single]

theorem horner_lt {digits : List ℕ} (large : 1 < base) (bounded : ∀ digit ∈ digits, digit < base) :
    horner base digits < base ^ digits.length := by
  have reversed := Nat.ofDigits_lt_base_pow_length large
    (fun digit member => bounded digit (List.mem_reverse.mp member))
  rwa [← horner_eq_ofDigits, List.length_reverse] at reversed

theorem horner_eq_zero_iff {digits : List ℕ} (positive : 0 < base) :
    horner base digits = 0 ↔ ∀ digit ∈ digits, digit = 0 := by
  induction digits with
  | nil => simp
  | cons digit digits ih =>
      have power : 0 < base ^ digits.length := Nat.pow_pos positive
      rw [horner_cons, List.forall_mem_cons, Nat.add_eq_zero_iff, ih, Nat.mul_eq_zero]
      constructor
      · rintro ⟨zero | empty, rest⟩
        · exact ⟨zero, rest⟩
        · omega
      · rintro ⟨zero, rest⟩
        exact ⟨Or.inl zero, rest⟩

/-- The digits of a number, the most significant one in front. -/
def digitsOf (base number : ℕ) : List ℕ := (Nat.digits base number).reverse

theorem horner_digitsOf (number : ℕ) : horner base (digitsOf base number) = number := by
  rw [horner_eq_ofDigits, digitsOf, List.reverse_reverse, Nat.ofDigits_digits]

theorem digitsOf_lt {number digit : ℕ} (large : 1 < base) (member : digit ∈ digitsOf base number) :
    digit < base :=
  Nat.digits_lt_base large (List.mem_reverse.mp member)

theorem length_digitsOf_le {number places : ℕ} (large : 1 < base)
    (bounded : number < base ^ places) : (digitsOf base number).length ≤ places := by
  rw [digitsOf, List.length_reverse]
  exact (Nat.digits_length_le_iff large number).mpr bounded

theorem head?_digitsOf_ne_zero {number digit : ℕ}
    (first : (digitsOf base number).head? = some digit) :
    digit ≠ 0 := by
  rw [digitsOf, List.head?_reverse] at first
  rcases List.getLast?_eq_some_iff.mp first with ⟨front, digits⟩
  have nonempty : Nat.digits base number ≠ [] := by simp [digits]
  have positive : number ≠ 0 := by
    rintro rfl
    simp at nonempty
  have last := Nat.getLast_digit_ne_zero base positive
  simpa [digits] using last

/-- Digits that do not start with a zero are the digits of their number. -/
theorem digitsOf_horner {digits : List ℕ} (large : 1 < base)
    (bounded : ∀ digit ∈ digits, digit < base) (starts : ∀ digit ∈ digits.head?, digit ≠ 0) :
    digitsOf base (horner base digits) = digits := by
  rw [digitsOf, horner_eq_ofDigits, Nat.digits_ofDigits base large, List.reverse_reverse]
  · intro digit member
    exact bounded digit (List.mem_reverse.mp member)
  · intro nonempty
    apply starts
    rw [← List.getLast?_reverse, List.getLast?_eq_some_getLast nonempty]
    rfl

section Blocks

variable {size : ℕ} {blocks : List (List ℕ)}

theorem length_flatten_blocks (sizes : ∀ block ∈ blocks, block.length = size) :
    blocks.flatten.length = size * blocks.length := by
  induction blocks with
  | nil => rfl
  | cons block blocks ih =>
      rcases List.forall_mem_cons.mp sizes with ⟨first, rest⟩
      rw [List.flatten_cons, List.length_append, first, ih rest, List.length_cons, Nat.mul_succ,
        Nat.add_comm]

theorem horner_map_horner (block : List ℕ) (sizes : ∀ later ∈ blocks, later.length = size) :
    horner (base ^ size) ((block :: blocks).map (horner base)) =
      horner base (block :: blocks).flatten := by
  induction blocks generalizing block with
  | nil => simp [horner]
  | cons next blocks ih =>
      rcases List.forall_mem_cons.mp sizes with ⟨_, rest⟩
      calc horner (base ^ size) ((block :: next :: blocks).map (horner base))
          = horner base block * (base ^ size) ^ (next :: blocks).length +
              horner base (next :: blocks).flatten := by
            rw [List.map_cons, horner_cons, ih next rest, List.length_map]
        _ = horner base (block :: next :: blocks).flatten := by
            change _ = horner base (block ++ (next :: blocks).flatten)
            rw [horner_append, length_flatten_blocks sizes, Nat.pow_mul]

/-- The digits in blocks of one size, the first one smaller perhaps, are the digits in the power
of the base. -/
theorem map_horner_blocks {block : List ℕ} {number : ℕ} (large : 1 < base) (positive : 0 < size)
    (nonempty : block ≠ []) (short : block.length ≤ size)
    (sizes : ∀ later ∈ blocks, later.length = size)
    (digits : (block :: blocks).flatten = digitsOf base number) :
    (block :: blocks).map (horner base) = digitsOf (base ^ size) number := by
  have bounded : ∀ digit ∈ (block :: blocks).flatten, digit < base := by
    intro digit member
    rw [digits] at member
    exact digitsOf_lt large member
  have lengths : ∀ later ∈ block :: blocks, later.length ≤ size :=
    List.forall_mem_cons.mpr ⟨short, fun later member => (sizes later member).le⟩
  have value : horner (base ^ size) ((block :: blocks).map (horner base)) = number := by
    rw [horner_map_horner block sizes, digits, horner_digitsOf]
  rw [← value, digitsOf_horner]
  · exact Nat.one_lt_pow positive.ne' large
  · intro digit member
    rcases List.mem_map.mp member with ⟨later, isBlock, rfl⟩
    have below := horner_lt large fun digit inside =>
      bounded digit (List.mem_flatten.mpr ⟨later, isBlock, inside⟩)
    exact below.trans_le (Nat.pow_le_pow_right (by omega) (lengths later isBlock))
  · rintro digit ⟨⟩
    rw [Ne, horner_eq_zero_iff (by omega)]
    intro zeros
    rcases List.exists_cons_of_ne_nil nonempty with ⟨first, rest, rfl⟩
    have notZero : first ≠ 0 := by
      apply head?_digitsOf_ne_zero
      rw [← digits]
      rfl
    exact notZero (zeros first List.mem_cons_self)

end Blocks

end Positional
