import Batchalign.Morphosyntax.Basic

/-!
# The keys of a dictionary

What `dictSet` does to the keys: a new one is put behind the others, so that they stay distinct
and in the order in which they came.
-/

namespace Batchalign

open Batchalign.Morphosyntax

variable {κ ν : Type*} [DecidableEq κ] {key other : κ} {value : ν} {entries : List (κ × ν)}

/-- The keys of a dictionary, in the order of their insertion. -/
def keys (entries : List (κ × ν)) : List κ := entries.map Prod.fst

omit [DecidableEq κ] in
@[simp] theorem keys_nil : keys ([] : List (κ × ν)) = [] := rfl

omit [DecidableEq κ] in
@[simp] theorem keys_cons (entry : κ × ν) (entries : List (κ × ν)) :
    keys (entry :: entries) = entry.1 :: keys entries := rfl

omit [DecidableEq κ] in
@[simp] theorem keys_append (before after : List (κ × ν)) :
    keys (before ++ after) = keys before ++ keys after := List.map_append

theorem dictSet_of_notMem (absent : key ∉ keys entries) :
    dictSet key value entries = entries ++ [(key, value)] := by
  induction entries with
  | nil => rfl
  | cons entry entries ih =>
      rw [keys_cons, List.mem_cons, not_or] at absent
      rw [dictSet, if_neg (Ne.symm absent.1), ih absent.2, List.cons_append]

theorem keys_dictSet_of_mem (present : key ∈ keys entries) :
    keys (dictSet key value entries) = keys entries := by
  induction entries with
  | nil => cases present
  | cons entry entries ih =>
      rw [dictSet]
      split_ifs with same
      · rw [keys_cons, keys_cons, ← same]
      · rcases List.mem_cons.mp present with here | later
        · exact absurd here.symm same
        · rw [keys_cons, keys_cons, ih later]

@[simp] theorem mem_keys_dictSet :
    other ∈ keys (dictSet key value entries) ↔ other = key ∨ other ∈ keys entries := by
  by_cases present : key ∈ keys entries
  · rw [keys_dictSet_of_mem present]
    exact (or_iff_right_of_imp fun same => same ▸ present).symm
  · rw [dictSet_of_notMem present, keys_append, List.mem_append, or_comm]
    simp

theorem dictSet_self (found : entries.lookup key = some value) :
    dictSet key value entries = entries := by
  induction entries with
  | nil => cases found
  | cons entry entries ih =>
      rcases entry with ⟨first, stored⟩
      by_cases same : first = key
      · subst same
        rw [List.lookup_cons_self] at found
        simp_all [dictSet]
      · have differ : (key == first) = false := beq_eq_false_iff_ne.mpr (Ne.symm same)
        rw [List.lookup_cons, differ] at found
        rw [dictSet, if_neg same, ih found]

theorem nodup_keys_dictSet (nodup : (keys entries).Nodup) :
    (keys (dictSet key value entries)).Nodup := by
  by_cases present : key ∈ keys entries
  · rwa [keys_dictSet_of_mem present]
  · rw [dictSet_of_notMem present, keys_append]
    exact nodup.append (List.nodup_singleton key) (List.disjoint_singleton.mpr present)

theorem lookup_eq_none_iff_notMem : entries.lookup key = none ↔ key ∉ keys entries := by
  rw [List.lookup_eq_none_iff, keys, List.mem_map]
  constructor
  · rintro differ ⟨entry, member, rfl⟩
    simpa using differ entry member
  · intro absent entry member
    rw [bne_iff_ne]
    exact fun same => absent ⟨entry, member, same.symm⟩

theorem exists_lookup_of_mem (present : key ∈ keys entries) :
    ∃ value, entries.lookup key = some value := by
  cases found : entries.lookup key with
  | some value => exact ⟨value, rfl⟩
  | none => exact absurd present (lookup_eq_none_iff_notMem.mp found)

theorem mem_of_lookup (found : entries.lookup key = some value) : (key, value) ∈ entries := by
  induction entries with
  | nil => cases found
  | cons entry entries ih =>
      rcases entry with ⟨first, stored⟩
      rw [List.lookup_cons] at found
      by_cases same : key = first
      · subst same
        rw [beq_self_eq_true] at found
        cases found
        exact List.mem_cons_self
      · rw [beq_eq_false_iff_ne.mpr same] at found
        exact List.mem_cons_of_mem _ (ih found)

/-- Of distinct keys each has the value it is listed with. -/
theorem lookup_of_mem (nodup : (keys entries).Nodup) (member : (key, value) ∈ entries) :
    entries.lookup key = some value := by
  induction entries with
  | nil => cases member
  | cons entry entries ih =>
      rw [keys_cons, List.nodup_cons] at nodup
      rcases List.mem_cons.mp member with rfl | later
      · exact List.lookup_cons_self
      · have differ : key ≠ entry.1 := fun same =>
          nodup.1 (same ▸ List.mem_map_of_mem (f := Prod.fst) later)
        rw [List.lookup_cons, beq_eq_false_iff_ne.mpr differ]
        exact ih nodup.2 later

section Values

variable {μ : Type*} {change : ν → μ}

omit [DecidableEq κ] in
@[simp] theorem keys_map_values :
    keys (entries.map fun entry => (entry.1, change entry.2)) = keys entries := by
  simp [keys, Function.comp_def]

@[simp] theorem lookup_map_values :
    (entries.map fun entry => (entry.1, change entry.2)).lookup key =
      (entries.lookup key).map change := by
  induction entries with
  | nil => rfl
  | cons entry entries ih =>
      rcases entry with ⟨first, stored⟩
      by_cases same : key = first
      · simp [same]
      · simpa [List.lookup_cons, beq_eq_false_iff_ne.mpr same] using ih

@[simp] theorem lookup_filter_ne :
    (entries.filter fun entry => entry.1 ≠ other).lookup key =
      if key = other then none else entries.lookup key := by
  induction entries with
  | nil => simp
  | cons entry entries ih =>
      rcases entry with ⟨first, stored⟩
      by_cases same : key = first
      · subst same
        by_cases gone : key = other
        · simpa [gone] using ih
        · simp [gone]
      · have differ : (key == first) = false := beq_eq_false_iff_ne.mpr same
        by_cases gone : first = other
        · subst gone
          simpa [List.lookup_cons, differ] using ih
        · simpa [List.lookup_cons, differ, gone] using ih

theorem mem_keys_of_lookup (found : entries.lookup key = some value) : key ∈ keys entries :=
  List.mem_map_of_mem (f := Prod.fst) (mem_of_lookup found)

end Values

/-- An entry with a new key, put behind the others. -/
theorem lookup_concat (absent : key ∉ keys entries) :
    (entries ++ [(key, value)]).lookup other =
      if other = key then some value else entries.lookup other := by
  rw [← dictSet_of_notMem absent, lookup_dictSet]

end Batchalign
