import Batchalign.Library.Intervals

/-!
# Bounds for the sentences of an utterance

`_distributed_bounds` of `backends/utseg/chatutterance.py`. The time of an utterance is shared out
by the number of characters. Each share is rounded on its own, and only the last bound is that of
the utterance, so that what the rounding adds in front is missing from the last sentence.
-/

namespace Batchalign.Segmentation

open Intervals

section Definitions

/-- `round` of Python: to the nearest integer, and to the even one of two. -/
def pyRound (value : ℚ) : ℤ :=
  let rest := value - ⌊value⌋
  if rest < 1 / 2 then ⌊value⌋
  else if 1 / 2 < rest then ⌊value⌋ + 1
  else if ⌊value⌋ % 2 = 0 then ⌊value⌋ else ⌊value⌋ + 1

/-- `sum(len(s) for s in sentences) or 1`. -/
def totalChars (sentences : List String) : ℕ :=
  let sum := (sentences.map String.length).sum
  if sum = 0 then 1 else sum

/-- `len(sent) / total_chars * parent_dur`. -/
def share (parentDur : ℤ) (totalChars : ℕ) (sentence : String) : ℚ :=
  (sentence.length : ℚ) / totalChars * parentDur

/-- The loop over the sentences, with `width` for the rounded share. -/
def boundsFrom (width : String → ℤ) (endMs : ℤ) : ℤ → List String → List (ℤ × ℤ)
  | _, [] => []
  | cur, [_] => [(cur, endMs)]
  | cur, sentence :: next :: rest =>
      (cur, cur + width sentence) :: boundsFrom width endMs (cur + width sentence) (next :: rest)

def distributedBounds (startMs endMs : ℤ) (sentences : List String) : List (ℤ × ℤ) :=
  if endMs ≤ startMs then sentences.map fun _ => (0, 0)
  else
    let total := totalChars sentences
    boundsFrom (fun sentence => pyRound (share (endMs - startMs) total sentence)) endMs startMs
      sentences

end Definitions

section Rounding

theorem abs_pyRound_sub_le (value : ℚ) : |(pyRound value : ℚ) - value| ≤ 1 / 2 := by
  have below := Int.floor_le value
  have above := Int.lt_floor_add_one value
  rw [abs_le]
  simp only [pyRound]
  split
  · constructor <;> linarith
  · split
    · push_cast
      constructor <;> linarith
    · split
      · constructor <;> linarith
      · push_cast
        constructor <;> linarith

theorem pyRound_nonneg {value : ℚ} (nonneg : 0 ≤ value) : 0 ≤ pyRound value := by
  have floor := Int.floor_nonneg.mpr nonneg
  simp only [pyRound]
  split
  · exact floor
  · split
    · omega
    · split <;> omega

theorem pyRound_zero : pyRound 0 = 0 := by simp [pyRound]

end Rounding

section Tiling

variable {startMs endMs : ℤ} {sentences : List String}

theorem length_boundsFrom (width : String → ℤ) (cur : ℤ) :
    (boundsFrom width endMs cur sentences).length = sentences.length := by
  fun_induction boundsFrom width endMs cur sentences with
  | case1 => rfl
  | case2 => rfl
  | case3 cur sentence next rest ih =>
      rw [List.length_cons, ih]
      rfl

/-- The bounds tile the utterance unless the last one starts behind its end. -/
theorem tiles_boundsFrom_iff {width : String → ℤ} (nonneg : ∀ sentence, 0 ≤ width sentence)
    (cur : ℤ) (some_ : sentences ≠ []) :
    Tiles cur endMs (boundsFrom width endMs cur sentences) ↔
      cur + (sentences.dropLast.map width).sum ≤ endMs := by
  fun_induction boundsFrom width endMs cur sentences with
  | case1 => exact absurd rfl some_
  | case2 cur sentence => simp [Tiles]
  | case3 cur sentence next rest ih =>
      have forward := nonneg sentence
      rw [Tiles, ih (List.cons_ne_nil _ _), List.dropLast_cons_cons, List.map_cons, List.sum_cons,
        ← add_assoc]
      constructor
      · rintro ⟨_, _, fits⟩
        exact fits
      · intro fits
        exact ⟨rfl, le_add_of_nonneg_right forward, fits⟩

/-- An interval for each sentence, one after the other from start to end. -/
structure Distributed (startMs endMs : ℤ) (sentences : List String) (bounds : List (ℤ × ℤ)) :
    Prop where
  length : bounds.length = sentences.length
  tiles : Tiles startMs endMs bounds

/-- By how much the rounding lengthens the sentences in front of the last. -/
def surplus (parentDur : ℤ) (sentences : List String) : ℚ :=
  (sentences.dropLast.map fun sentence =>
    (pyRound (share parentDur (totalChars sentences) sentence) : ℚ) -
      share parentDur (totalChars sentences) sentence).sum

/-- The exact share of the last sentence. -/
def lastShare (parentDur : ℤ) (sentences : List String) : ℚ :=
  (sentences.getLast?.map (share parentDur (totalChars sentences))).getD 0

theorem share_nonneg {parentDur : ℤ} (forward : 0 < parentDur) (total : ℕ) (sentence : String) :
    0 ≤ share parentDur total sentence := by
  have duration : (0 : ℚ) < parentDur := by exact_mod_cast forward
  rw [share]
  positivity

/-- The exact shares are at most the whole, and all of it if there is a character. -/
theorem sum_shares (parentDur : ℤ) (sentences : List String) :
    (sentences.map (share parentDur (totalChars sentences))).sum =
      if (sentences.map String.length).sum = 0 then 0 else (parentDur : ℚ) := by
  have scaled (total : ℕ) (texts : List String) :
      (texts.map (share parentDur total)).sum =
        ((texts.map String.length).sum : ℚ) / total * parentDur := by
    induction texts with
    | nil => simp
    | cons text texts ih =>
        rw [List.map_cons, List.sum_cons, ih, List.map_cons, List.sum_cons, share]
        push_cast
        ring
  rw [scaled]
  simp only [totalChars]
  split
  · next empty => simp [empty]
  · next filled =>
    have nonzero : ((sentences.map String.length).sum : ℚ) ≠ 0 := by exact_mod_cast filled
    rw [div_self nonzero, one_mul]

/-- What the rounded shares leave for the last sentence, by the errors of the rounding. -/
theorem fits_iff (duration : 0 < endMs - startMs) (some_ : sentences ≠ []) :
    startMs + (sentences.dropLast.map fun sentence =>
        pyRound (share (endMs - startMs) (totalChars sentences) sentence)).sum ≤ endMs ↔
      surplus (endMs - startMs) sentences ≤ lastShare (endMs - startMs) sentences := by
  have whole := sum_shares (endMs - startMs) sentences
  rcases List.eq_nil_or_concat' sentences with rfl | ⟨front, last, rfl⟩
  · exact absurd rfl some_
  · rw [surplus, lastShare, List.dropLast_concat, List.getLast?_concat, Option.map_some,
      Option.getD_some]
    rw [List.map_append, List.sum_append, List.map_singleton, List.sum_singleton] at whole
    generalize isTotal : totalChars (front ++ [last]) = total at whole ⊢
    have errors : (front.map fun sentence => (pyRound (share (endMs - startMs) total sentence) : ℚ) -
        share (endMs - startMs) total sentence).sum =
          (((front.map fun sentence => pyRound (share (endMs - startMs) total sentence)).sum : ℤ) :
            ℚ) - (front.map (share (endMs - startMs) total)).sum := by
      rw [Int.cast_list_sum, List.map_map]
      clear whole some_ isTotal
      induction front with
      | nil => simp
      | cons sentence front ih =>
          simp only [List.map_cons, List.sum_cons, ih, Function.comp_apply]
          ring
    rw [errors]
    split at whole
    · next empty =>
      have none (sentence : String) (member : sentence ∈ front ++ [last]) :
          share (endMs - startMs) total sentence = 0 := by
        have length := List.sum_eq_zero_iff.mp empty _ (List.mem_map_of_mem member)
        rw [share, length]
        simp
      have rounded : (front.map fun sentence =>
          pyRound (share (endMs - startMs) total sentence)).sum = 0 := by
        apply List.sum_eq_zero
        rw [List.forall_mem_map]
        intro sentence member
        rw [none sentence (List.mem_append_left _ member)]
        exact pyRound_zero
      rw [none last (List.mem_append_right _ List.mem_cons_self), add_zero] at whole
      rw [rounded, whole, none last (List.mem_append_right _ List.mem_cons_self)]
      constructor
      · intro _
        simp
      · intro _
        omega
    · rw [← @Int.cast_le ℚ]
      push_cast at whole ⊢
      constructor
      · intro fits
        linarith
      · intro fits
        linarith

/-- The bounds tile the utterance exactly when the rounding does not lengthen the sentences in
front of the last by more than its share. -/
theorem distributedBounds_iff (forward : startMs < endMs) (some_ : sentences ≠ []) :
    Distributed startMs endMs sentences (distributedBounds startMs endMs sentences) ↔
      surplus (endMs - startMs) sentences ≤ lastShare (endMs - startMs) sentences := by
  have duration : 0 < endMs - startMs := sub_pos.mpr forward
  have tiles := @tiles_boundsFrom_iff endMs sentences
    (fun sentence => pyRound (share (endMs - startMs) (totalChars sentences) sentence))
    (fun sentence => pyRound_nonneg (share_nonneg duration _ sentence)) startMs some_
  have bounds : distributedBounds startMs endMs sentences =
      boundsFrom (fun sentence => pyRound (share (endMs - startMs) (totalChars sentences) sentence))
        endMs startMs sentences :=
    if_neg (not_le.mpr forward)
  have distributed : Distributed startMs endMs sentences
      (distributedBounds startMs endMs sentences) ↔
        startMs + (sentences.dropLast.map fun sentence =>
          pyRound (share (endMs - startMs) (totalChars sentences) sentence)).sum ≤ endMs := by
    rw [bounds, ← tiles]
    exact ⟨Distributed.tiles, fun tiled => ⟨length_boundsFrom _ _, tiled⟩⟩
  rw [distributed]
  exact fits_iff duration some_

/-- Two characters share three milliseconds. -/
theorem twoLetters_distributed :
    Distributed 0 3 ["a", "b"] (distributedBounds 0 3 ["a", "b"]) :=
  (distributedBounds_iff (by decide) (by decide)).mpr (by decide +kernel)

/-- Five characters do not: the first four take a millisecond each. -/
theorem fiveLetters_reversed :
    distributedBounds 0 3 ["a", "b", "c", "d", "e"] = [(0, 1), (1, 2), (2, 3), (3, 4), (4, 3)] ∧
      ¬ Distributed 0 3 ["a", "b", "c", "d", "e"]
        (distributedBounds 0 3 ["a", "b", "c", "d", "e"]) := by
  have bounds : distributedBounds 0 3 ["a", "b", "c", "d", "e"] =
      [(0, 1), (1, 2), (2, 3), (3, 4), (4, 3)] := by
    decide +kernel
  refine ⟨bounds, ?_⟩
  intro distributed
  have tiles := distributed.tiles
  rw [bounds] at tiles
  simp [Tiles] at tiles

/-- A last sentence with half a millisecond for each sentence in front of it is long enough. -/
theorem distributed_of_longLast (forward : startMs < endMs) (some_ : sentences ≠ [])
    (long : ((sentences.length : ℚ) - 1) / 2 ≤ lastShare (endMs - startMs) sentences) :
    Distributed startMs endMs sentences (distributedBounds startMs endMs sentences) := by
  apply (distributedBounds_iff forward some_).mpr
  refine le_trans ?_ long
  have errors (texts : List String) (total : ℕ) :
      (texts.map fun sentence => (pyRound (share (endMs - startMs) total sentence) : ℚ) -
        share (endMs - startMs) total sentence).sum ≤ texts.length / 2 := by
    induction texts with
    | nil => simp
    | cons text texts ih =>
        have here := (abs_le.mp (abs_pyRound_sub_le (share (endMs - startMs) total text))).2
        rw [List.map_cons, List.sum_cons, List.length_cons]
        push_cast
        linarith
  have last := errors sentences.dropLast (totalChars sentences)
  rwa [List.length_dropLast, Nat.cast_sub (List.length_pos_iff.mpr some_), Nat.cast_one] at last

end Tiling

end Batchalign.Segmentation
