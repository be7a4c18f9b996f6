import Mathlib

/-!
# The last entry of each key

Entries are put one after the other into a list with at most one entry for each key. An entry
takes the place of the earlier one of its key, or comes in anywhere if there is none. Whatever
the places are, the list ends up with the last entry of each key (`Puts.perm_latest`).
-/

namespace LatestEntries

variable {α κ : Type*} [DecidableEq κ] {key : α → κ}

/-- The last entry of each key, in the order in which they were put. -/
def latest (key : α → κ) : List α → List α
  | [] => []
  | entry :: later =>
      if key entry ∈ later.map key then latest key later else entry :: latest key later

variable {entry other : α} {entries before after : List α}

section Latest

theorem mem_keys_latest {k : κ} : k ∈ (latest key entries).map key ↔ k ∈ entries.map key := by
  induction entries with
  | nil => rfl
  | cons entry later ih =>
      rw [latest]
      split
      · next again =>
          rw [ih, List.map_cons, List.mem_cons, iff_or_self]
          rintro rfl
          exact again
      · rw [List.map_cons, List.mem_cons, ih, List.map_cons, List.mem_cons]

theorem nodup_keys_latest (entries : List α) : ((latest key entries).map key).Nodup := by
  induction entries with
  | nil => exact List.nodup_nil
  | cons entry later ih =>
      rw [latest]
      split
      · exact ih
      · next fresh => exact List.nodup_cons.mpr ⟨mem_keys_latest.not.mpr fresh, ih⟩

/-- What is kept is what no later entry has the key of. -/
theorem mem_latest_iff :
    entry ∈ latest key entries ↔
      ∃ earlier later, entries = earlier ++ entry :: later ∧ key entry ∉ later.map key := by
  induction entries with
  | nil => simp [latest]
  | cons first rest ih =>
      have inRest (kept : entry ∈ latest key rest) : ∃ earlier later,
          first :: rest = earlier ++ entry :: later ∧ key entry ∉ later.map key := by
        obtain ⟨earlier, later, rfl, last⟩ := ih.mp kept
        exact ⟨first :: earlier, later, rfl, last⟩
      constructor
      · rw [latest]
        split
        · exact inRest
        · next fresh =>
            intro member
            rcases List.mem_cons.mp member with rfl | kept
            · exact ⟨[], rest, rfl, fresh⟩
            · exact inRest kept
      · rintro ⟨earlier, later, split, last⟩
        cases earlier with
        | nil =>
            obtain ⟨rfl, rfl⟩ := List.cons.inj split
            rw [latest, if_neg last]
            exact List.mem_cons_self
        | cons _ earlier =>
            obtain ⟨rfl, rfl⟩ := List.cons.inj split
            have kept := ih.mpr ⟨earlier, later, rfl, last⟩
            rw [latest]
            split
            · exact kept
            · exact List.mem_cons_of_mem _ kept

theorem latest_concat (entries : List α) (entry : α) :
    latest key (entries ++ [entry]) =
      (latest key entries).filter (fun other => key other ≠ key entry) ++ [entry] := by
  induction entries with
  | nil => simp [latest]
  | cons first rest ih =>
      by_cases again : key first ∈ rest.map key
      · have still : key first ∈ (rest ++ [entry]).map key := by simp_all
        rw [List.cons_append, latest, if_pos still, ih, latest, if_pos again]
      · by_cases same : key first = key entry
        · have replaced : key first ∈ (rest ++ [entry]).map key := by simp [same]
          rw [List.cons_append, latest, if_pos replaced, ih, latest, if_neg again]
          simp [same]
        · have kept : key first ∉ (rest ++ [entry]).map key := by simp_all
          rw [List.cons_append, latest, if_neg kept, ih, latest, if_neg again]
          simp [same]

/-- With one entry for each key, an entry is all there is for its key. -/
theorem filter_key_eq_singleton (nodup : (entries.map key).Nodup) (member : entry ∈ entries) :
    entries.filter (fun other => key other = key entry) = [entry] := by
  obtain ⟨front, back, rfl⟩ := List.append_of_mem member
  rw [List.map_append, List.map_cons] at nodup
  have absent := (List.nodup_middle.mp nodup).notMem
  rw [← List.map_append] at absent
  have others : (front ++ back).filter (fun other => key other = key entry) = [] := by
    apply List.filter_eq_nil_iff.mpr
    intro other within same
    exact absent (List.mem_map.mpr ⟨other, within, by simpa using same⟩)
  rw [List.filter_append, List.append_eq_nil_iff] at others
  rw [List.filter_append, List.filter_cons_of_pos (by simp), others.1, others.2, List.nil_append]

end Latest

section Puts

/-- How one entry gets into the list. -/
inductive Puts (key : α → κ) (entry : α) : List α → List α → Prop where
  | replaces {front back : List α} {old : α} (same : key old = key entry) :
      Puts key entry (front ++ old :: back) (front ++ entry :: back)
  | adds {front back : List α} (fresh : key entry ∉ (front ++ back).map key) :
      Puts key entry (front ++ back) (front ++ entry :: back)

theorem Puts.perm (puts : Puts key entry before after) (nodup : (before.map key).Nodup) :
    after.Perm (before.filter (fun other => key other ≠ key entry) ++ [entry]) := by
  have others {front back : List α} (absent : key entry ∉ (front ++ back).map key) :
      (front ++ back).filter (fun other => key other ≠ key entry) = front ++ back := by
    apply List.filter_eq_self.mpr
    intro other member
    have apart : key other ≠ key entry := fun same => absent (same ▸ List.mem_map_of_mem member)
    simpa using apart
  cases puts with
  | @replaces front back old same =>
      have absent : key entry ∉ (front ++ back).map key := by
        rw [List.map_append, List.map_cons, same] at nodup
        rw [List.map_append]
        exact (List.nodup_middle.mp nodup).notMem
      have kept : (front ++ old :: back).filter (fun other => key other ≠ key entry) =
          front ++ back := by
        rw [← others absent, List.filter_append, List.filter_append,
          List.filter_cons_of_neg (by simpa using same)]
      rw [kept]
      exact List.perm_middle.trans (List.perm_append_singleton _ _).symm
  | adds fresh =>
      rw [others fresh]
      exact List.perm_middle.trans (List.perm_append_singleton _ _).symm

/-- One more entry. -/
theorem Puts.perm_latest (puts : Puts key entry before after)
    (holds : before.Perm (latest key entries)) : after.Perm (latest key (entries ++ [entry])) := by
  have nodup : (before.map key).Nodup :=
    (holds.map key).nodup_iff.mpr (nodup_keys_latest entries)
  rw [latest_concat]
  exact (puts.perm nodup).trans ((holds.filter _).append_right _)

end Puts

end LatestEntries
