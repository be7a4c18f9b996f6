import Batchalign.Alignment.ShimCorrectness
import Batchalign.Library.Fragments
import Batchalign.Library.Partition
import Batchalign.Phonetic.Projection

/-!
# The projection keeps the phones

The symbols of the phones vote in order, and the units they vote for come in order as well,
whatever alignment the edit distance returns. The unit with most votes of a phone is one it
voted for, so the units of the phones are in order too.
-/

namespace Batchalign.Phonetic

open Dp Fragments Partition
open Batchalign.Alignment (Similarity)

section Votes

/-- Phones and the units they vote for. -/
def ballots (phones units : List ℕ) : List (Option ℕ × Option ℕ) :=
  (phones.zip units).map (Prod.map some some)

theorem ballots_append {phones units morePhones moreUnits : List ℕ}
    (same : units.length = phones.length) :
    ballots (phones ++ morePhones) (units ++ moreUnits) =
      ballots phones units ++ ballots morePhones moreUnits := by
  rw [ballots, List.zip_append same.symm, List.map_append]
  rfl

/-- The unit of an inserted phone. -/
def runOwner (previous : ℕ) (deleted : List ℕ) (index : ℕ) : ℕ :=
  deleted.getD (min index (deleted.length - 1)) previous

theorem runVotes_eq (previous : ℕ) (inserted deleted : List ℕ) :
    runVotes (some previous) (inserted.map some) (deleted.map some) =
      ballots inserted ((List.range inserted.length).map (runOwner previous deleted)) := by
  have owner (index : ℕ) : (if (deleted.map some).isEmpty then some previous
      else (deleted.map some).getD (min index ((deleted.map some).length - 1)) none) =
        some (runOwner previous deleted index) := by
    cases deleted with
    | nil => rfl
    | cons unit deleted =>
        have inside : min index ((unit :: deleted).length - 1) < (unit :: deleted).length := by
          simp only [List.length_cons]
          omega
        rw [if_neg (by simp), runOwner, List.length_map, List.getD_eq_getElem _ _ inside,
          List.getD_eq_getElem _ _ (by simp), List.getElem_map]
  rw [runVotes, ballots, List.zip_map_right, List.map_map, List.zipIdx_map, List.map_map,
    List.zipIdx_eq_zip_range', ← List.range_eq_range']
  apply List.map_congr_left
  rintro ⟨phone, index⟩ _
  exact congrArg (Prod.mk (some phone)) (owner index)

theorem runOwner_mem (previous : ℕ) (deleted : List ℕ) (index : ℕ) :
    runOwner previous deleted index ∈ previous :: deleted := by
  cases deleted with
  | nil => simp [runOwner]
  | cons unit deleted =>
      have inside : min index ((unit :: deleted).length - 1) < (unit :: deleted).length := by
        simp only [List.length_cons]
        omega
      rw [runOwner, List.getD_eq_getElem _ _ inside]
      exact List.mem_cons_of_mem _ (List.getElem_mem inside)

theorem runOwner_mono {previous : ℕ} {deleted : List ℕ} (sorted : deleted.Pairwise (· ≤ ·))
    {i j : ℕ} (before : i ≤ j) : runOwner previous deleted i ≤ runOwner previous deleted j := by
  cases deleted with
  | nil => exact le_rfl
  | cons unit deleted =>
      have inside (index : ℕ) :
          min index ((unit :: deleted).length - 1) < (unit :: deleted).length := by
        simp only [List.length_cons]
        omega
      rw [runOwner, runOwner, List.getD_eq_getElem _ _ (inside i),
        List.getD_eq_getElem _ _ (inside j)]
      exact sorted.sortedLE.getElem_le_getElem_of_le (min_le_min_right _ before)

/-- What the edits vote, with the phones in order and the units in order. -/
structure InOrder (phones units allowed : List ℕ) : Prop where
  length : units.length = phones.length
  sorted : units.Pairwise (· ≤ ·)
  allowed : units ⊆ allowed

theorem runVotes_inOrder {previous : ℕ} {inserted deleted : List ℕ}
    (sorted : (previous :: deleted).Pairwise (· ≤ ·)) :
    InOrder inserted ((List.range inserted.length).map (runOwner previous deleted))
      (previous :: deleted) where
  length := by simp
  sorted := by
    rw [List.pairwise_map]
    exact List.pairwise_lt_range.imp fun before =>
      runOwner_mono (List.pairwise_cons.mp sorted).2 before.le
  allowed := by
    intro unit member
    rcases List.mem_map.mp member with ⟨index, _, rfl⟩
    exact runOwner_mem previous deleted index

variable {str : String → String} {matchFn : String → String → Bool}
  {payload : List (PayloadTarget String ℕ)} {reference : List (ReferenceTarget String ℕ)}
  {records : List (Record String ℕ)}

/-- A match and what comes after it, behind a run. -/
theorem InOrder.cons_match {previous p r : ℕ} {inserted deleted ps rs runUnits units : List ℕ}
    (sorted : (previous :: (deleted ++ r :: rs)).Pairwise (· ≤ ·))
    (run : InOrder inserted runUnits (previous :: deleted)) (rest : InOrder ps units (r :: rs)) :
    InOrder (inserted ++ p :: ps) (runUnits ++ r :: units)
      (previous :: (deleted ++ r :: rs)) where
  length := by simp [run.length, rest.length]
  sorted := by
    rw [← List.cons_append, List.pairwise_append] at sorted
    rcases sorted with ⟨_, sortedRest, across⟩
    rw [List.pairwise_append, List.pairwise_cons]
    refine ⟨run.sorted, ⟨?_, rest.sorted⟩, ?_⟩
    · intro unit member
      rcases List.mem_cons.mp (rest.allowed member) with rfl | later
      · exact le_rfl
      · exact (List.pairwise_cons.mp sortedRest).1 unit later
    · intro unit isRun other isLater
      have before := across unit (run.allowed isRun)
      rcases List.mem_cons.mp isLater with rfl | isRest
      · exact before other List.mem_cons_self
      · exact before other (rest.allowed isRest)
  allowed := by
    rw [← List.cons_append]
    apply List.append_subset.mpr
    constructor
    · exact fun _ member => List.mem_append_left _ (run.allowed member)
    · apply List.cons_subset.mpr
      exact ⟨List.mem_append_right _ List.mem_cons_self,
        fun _ member => List.mem_append_right _ (rest.allowed member)⟩

/-- The votes of an alignment, in the order of the phones and of the units. -/
theorem editVotes_inOrder (aligned : RecordsAlign str matchFn payload reference records)
    {ps rs : List ℕ} (isPayload : payload.map PayloadTarget.payload = ps.map some)
    (isReference : reference.map ReferenceTarget.payload = rs.map some)
    {previous : ℕ} {inserted deleted : List ℕ}
    (sorted : (previous :: (deleted ++ rs)).Pairwise (· ≤ ·)) :
    ∃ units, editVotes (some previous) (inserted.map some) (deleted.map some) records =
        ballots (inserted ++ ps) units ∧
      InOrder (inserted ++ ps) units (previous :: (deleted ++ rs)) := by
  induction aligned generalizing ps rs previous inserted deleted with
  | nil =>
      cases List.map_eq_nil_iff.mp isPayload.symm
      cases List.map_eq_nil_iff.mp isReference.symm
      rw [List.append_nil] at sorted ⊢
      rw [List.append_nil]
      exact ⟨_, runVotes_eq previous inserted deleted, runVotes_inOrder sorted⟩
  | @isMatch payItem refItem payload reference records key _ _ _ ih =>
      cases ps with
      | nil => cases isPayload
      | cons p ps =>
          cases rs with
          | nil => cases isReference
          | cons r rs =>
              rw [List.map_cons, List.map_cons, List.cons.injEq] at isPayload isReference
              have sortedRun : (previous :: deleted).Pairwise (· ≤ ·) := by
                rw [← List.cons_append] at sorted
                exact (List.pairwise_append.mp sorted).1
              have sortedRest : (r :: ([] ++ rs)).Pairwise (· ≤ ·) := by
                rw [← List.cons_append] at sorted
                exact (List.pairwise_append.mp sorted).2.1
              have run := @runVotes_inOrder previous inserted deleted sortedRun
              rcases @ih ps rs isPayload.2 isReference.2 r [] [] sortedRest
                with ⟨units, votes, rest⟩
              rw [List.nil_append] at votes rest
              refine ⟨_ ++ r :: units, ?_, InOrder.cons_match sorted run rest⟩
              rw [editVotes, isPayload.1, isReference.1, runVotes_eq,
                ballots_append run.length]
              exact congrArg (fun later => _ ++ (some p, some r) :: later) votes
  | @extraPayload payItem payload reference records key _ _ ih =>
      cases ps with
      | nil => cases isPayload
      | cons p ps =>
          rw [List.map_cons, List.map_cons, List.cons.injEq] at isPayload
          have later := @ih ps rs isPayload.2 isReference previous (inserted ++ [p]) deleted sorted
          rw [List.append_assoc, List.singleton_append, List.map_append] at later
          rw [editVotes, isPayload.1]
          exact later
  | @extraReference refItem payload reference records key _ _ ih =>
      cases rs with
      | nil => cases isReference
      | cons r rs =>
          rw [List.map_cons, List.map_cons, List.cons.injEq] at isReference
          have later := @ih ps rs isPayload isReference.2 previous inserted (deleted ++ [r])
            (by rwa [List.append_assoc])
          rw [List.append_assoc deleted, List.singleton_append, List.map_append] at later
          rw [editVotes, isReference.1]
          exact later

/-- Without edits the votes are the pairs. -/
theorem editVotes_free (aligned : RecordsAlign str matchFn payload reference records)
    (free : totalCost records = 0) {ps rs : List ℕ}
    (isPayload : payload.map PayloadTarget.payload = ps.map some)
    (isReference : reference.map ReferenceTarget.payload = rs.map some)
    (previous : Option ℕ) : editVotes previous [] [] records = ballots ps rs := by
  induction aligned generalizing ps rs previous with
  | nil =>
      cases List.map_eq_nil_iff.mp isPayload.symm
      cases List.map_eq_nil_iff.mp isReference.symm
      rfl
  | @isMatch payItem refItem payload reference records key _ _ _ ih =>
      cases ps with
      | nil => cases isPayload
      | cons p ps =>
          cases rs with
          | nil => cases isReference
          | cons r rs =>
              rw [totalCost_cons_isMatch] at free
              rw [List.map_cons, List.map_cons, List.cons.injEq] at isPayload isReference
              rw [editVotes, ih free isPayload.2 isReference.2, isPayload.1, isReference.1]
              rfl
  | extraPayload _ _ _ =>
      rw [totalCost_cons_extra] at free
      omega
  | extraReference _ _ _ =>
      rw [totalCost_cons_extra] at free
      omega

/-- Without phones there are no votes. -/
theorem editVotes_noPayload
    (aligned : RecordsAlign str matchFn [] reference records) (previous : Option ℕ)
    (deleted : List (Option ℕ)) : editVotes previous [] deleted records = [] := by
  generalize empty : ([] : List (PayloadTarget String ℕ)) = payload at aligned
  induction aligned generalizing deleted with
  | nil => rfl
  | isMatch _ _ _ => cases empty
  | extraPayload _ _ _ => cases empty
  | extraReference _ _ ih => exact ih _ empty

end Votes

section Ownership

/-- The units a phone votes for. -/
def votesFor (pairs : List (ℕ × ℕ)) (phone : ℕ) : List ℕ :=
  (pairs.filter fun pair => pair.1 = phone).map Prod.snd

theorem mem_votesFor {pairs : List (ℕ × ℕ)} {phone unit : ℕ} :
    unit ∈ votesFor pairs phone ↔ (phone, unit) ∈ pairs := by
  simp [votesFor]

theorem castVotes_eq {pairs : List (ℕ × ℕ)} {votes : List (List ℕ)}
    (inside : ∀ pair ∈ pairs, pair.1 < votes.length) :
    (pairs.map (Prod.map some some)).foldlM castVote votes =
      .ok (votes.mapIdx fun phone owners => owners ++ votesFor pairs phone) := by
  induction pairs generalizing votes with
  | nil =>
      have same : (votes.mapIdx fun phone owners => owners ++ votesFor [] phone) = votes := by
        apply List.ext_getElem?
        intro phone
        simp [votesFor]
      rw [same]
      rfl
  | cons pair pairs ih =>
      rcases pair with ⟨phone, unit⟩
      rcases List.forall_mem_cons.mp inside with ⟨first, later⟩
      have cast : castVote votes (some phone, some unit) =
          .ok (votes.modify phone (· ++ [unit])) :=
        if_pos first
      have rest := @ih (votes.modify phone (· ++ [unit])) (by simpa using later)
      rw [List.map_cons, List.foldlM_cons, Prod.map_apply, cast]
      change (pairs.map (Prod.map some some)).foldlM castVote
        (votes.modify phone (· ++ [unit])) = _
      rw [rest]
      congr 1
      apply List.ext_getElem?
      intro index
      rw [List.getElem?_mapIdx, List.getElem?_mapIdx, List.getElem?_modify]
      by_cases here : phone = index
      · cases found : votes[index]? <;> simp [votesFor, here]
      · cases found : votes[index]? <;> simp [votesFor, here]

/-- The majority is among the votes. -/
theorem exists_majority {owners : List ℕ} (some_ : owners ≠ []) :
    ∃ unit ∈ owners, majority owners = some unit := by
  have fold (units : List ℕ) (inside : units ⊆ owners) (best : Option ℕ)
      (isBest : ∀ unit ∈ best, unit ∈ owners) (found : best.isSome ∨ units ≠ []) :
      ∃ unit ∈ owners, units.foldl (fun best unit =>
        if best.all (leads owners unit) then some unit else best) best = some unit := by
    induction units generalizing best with
    | nil =>
        rcases Option.isSome_iff_exists.mp (found.resolve_right (by simp)) with ⟨unit, rfl⟩
        exact ⟨unit, isBest unit rfl, rfl⟩
    | cons unit units ih =>
        rcases List.cons_subset.mp inside with ⟨isUnit, inside⟩
        rw [List.foldl_cons]
        by_cases takes : best.all (leads owners unit) = true
        · rw [if_pos takes]
          exact ih inside _ (by rintro _ ⟨⟩; exact isUnit) (Or.inl rfl)
        · rw [if_neg takes]
          cases best with
          | none => simp at takes
          | some first => exact ih inside _ isBest (Or.inl rfl)
  apply fold _ (fun _ member => List.mem_dedup.mp member) none
  · rintro _ ⟨⟩
  · right
    rwa [Ne, List.dedup_eq_nil]

/-- Phones go to their owners in order, and every unit gets its phones. -/
theorem placePhones_eq {phones : List String} {votes : List (List ℕ)} {owners : List ℕ}
    (length : votes.length = phones.length) (chosen : votes.map majority = owners.map some)
    {result : List String} {previous : ℕ} (sorted : (previous :: owners).Pairwise (· ≤ ·))
    (inside : ∀ owner ∈ owners, owner < result.length) :
    placePhones result previous (phones.zip votes) = .ok (result.mapIdx fun unit text =>
      text ++ String.join (((phones.zip owners).filter fun pair => pair.2 = unit).map
        Prod.fst)) := by
  induction phones generalizing votes owners result previous with
  | nil =>
      have same : result.mapIdx (fun unit text => text ++ String.join
          ((((([] : List String).zip owners)).filter fun pair => pair.2 = unit).map Prod.fst)) =
            result := by
        apply List.ext_getElem?
        intro index
        simp
      rw [same]
      rfl
  | cons phone phones ih =>
      cases votes with
      | nil => cases length
      | cons ballot votes =>
          cases owners with
          | nil => cases chosen
          | cons owner owners =>
              rw [List.map_cons, List.map_cons, List.cons.injEq] at chosen
              rcases List.pairwise_cons.mp sorted with ⟨above, sortedRest⟩
              rcases List.forall_mem_cons.mp inside with ⟨first, later⟩
              have notBefore := above owner List.mem_cons_self
              have rest := @ih votes owners (by simpa using length) chosen.2
                (result.modify owner (· ++ phone)) owner sortedRest (by simpa using later)
              rw [List.zip_cons_cons, placePhones, chosen.1]
              dsimp only
              rw [if_neg (Nat.not_lt.mpr notBefore), if_pos first, rest]
              congr 1
              apply List.ext_getElem?
              intro index
              rw [List.getElem?_mapIdx, List.getElem?_mapIdx, List.getElem?_modify]
              by_cases here : owner = index
              · cases found : result[index]? <;> simp [here, String.append_assoc]
              · cases found : result[index]? <;> simp [here]

/-- Of two lists in order, read side by side, a later entry on the left has none before on the
right. -/
theorem le_of_mem_zip {xs ys : List ℕ} (sortedLeft : xs.Pairwise (· ≤ ·))
    (sortedRight : ys.Pairwise (· ≤ ·)) {x y x' y' : ℕ} (first : (x, y) ∈ xs.zip ys)
    (second : (x', y') ∈ xs.zip ys) (before : x < x') : y ≤ y' := by
  rcases List.mem_iff_getElem.mp first with ⟨i, inFirst, atFirst⟩
  rcases List.mem_iff_getElem.mp second with ⟨j, inSecond, atSecond⟩
  rw [List.getElem_zip, Prod.mk.injEq] at atFirst atSecond
  have order : i ≤ j := by
    by_contra after
    have back : x' ≤ x := by
      rw [← atFirst.1, ← atSecond.1]
      exact sortedLeft.sortedLE.getElem_le_getElem_of_le (Nat.le_of_not_le after)
    omega
  rw [← atFirst.2, ← atSecond.2]
  exact sortedRight.sortedLE.getElem_le_getElem_of_le order

/-- The unit each phone goes to. -/
def ownersOf (pairs : List (ℕ × ℕ)) (count : ℕ) : List ℕ :=
  (List.range count).map fun phone => (majority (votesFor pairs phone)).getD 0

variable {pairs : List (ℕ × ℕ)} {count : ℕ}

theorem ownersOf_spec {phone : ℕ} (voted : votesFor pairs phone ≠ []) :
    majority (votesFor pairs phone) = some ((majority (votesFor pairs phone)).getD 0) ∧
      (phone, (majority (votesFor pairs phone)).getD 0) ∈ pairs := by
  rcases exists_majority voted with ⟨unit, isVote, wins⟩
  rw [wins]
  exact ⟨rfl, mem_votesFor.mp isVote⟩

/-- Phones that vote for one unit only go there. -/
theorem ownersOf_eq (voted : ∀ phone < count, votesFor pairs phone ≠ []) {units : List ℕ}
    (length : units.length = count)
    (only : ∀ phone unit, (phone, unit) ∈ pairs → units[phone]? = some unit) :
    ownersOf pairs count = units := by
  apply List.ext_getElem
  · rw [ownersOf, List.length_map, List.length_range, length]
  · intro phone _ inside
    have found := only _ _ (ownersOf_spec (voted phone (by rwa [← length]))).2
    rw [List.getElem?_eq_getElem inside, Option.some_inj] at found
    rw [found]
    simp [ownersOf]

theorem votesFor_ne_nil {counts units : List ℕ} (positive : ∀ count ∈ counts, 0 < count)
    (length : units.length = (labels 0 counts).length) :
    ∀ phone < counts.length, votesFor ((labels 0 counts).zip units) phone ≠ [] := by
  intro phone inside
  have counted := @count_labels 0 counts phone
  rw [List.getD_eq_getElem _ _ inside, Nat.zero_add] at counted
  have occurs : phone ∈ labels 0 counts := by
    rw [← List.count_pos_iff, counted]
    exact positive _ (List.getElem_mem inside)
  rw [← @List.map_fst_zip _ _ (labels 0 counts) units length.ge] at occurs
  rcases List.mem_map.mp occurs with ⟨⟨left, unit⟩, isPair, rfl⟩
  exact List.ne_nil_of_mem (mem_votesFor.mpr isPair)

theorem ownersOf_pairwise {xs ys : List ℕ} (sortedLeft : xs.Pairwise (· ≤ ·))
    (sortedRight : ys.Pairwise (· ≤ ·))
    (voted : ∀ phone < count, votesFor (xs.zip ys) phone ≠ []) :
    (ownersOf (xs.zip ys) count).Pairwise (· ≤ ·) := by
  rw [ownersOf, List.pairwise_map]
  apply List.pairwise_lt_range.imp_of_mem
  intro phone later isPhone isLater before
  exact le_of_mem_zip sortedLeft sortedRight
    (ownersOf_spec (voted phone (List.mem_range.mp isPhone))).2
    (ownersOf_spec (voted later (List.mem_range.mp isLater))).2 before

/-- The phones of each unit. -/
def runsOf (phones : List String) (owners : List ℕ) (count : ℕ) : List (List String) :=
  (List.range count).map fun unit =>
    ((phones.zip owners).filter fun pair => pair.2 = unit).map Prod.fst

variable {phones : List String} {owners : List ℕ}

theorem runsOf_flatten (length : owners.length = phones.length)
    (sorted : owners.Pairwise (· ≤ ·)) (inside : ∀ owner ∈ owners, owner < count) :
    (runsOf phones owners count).flatten = phones := by
  have right : (phones.zip owners).map Prod.snd = owners := List.map_snd_zip length.le
  have buckets := @flatMap_filter_key _ Prod.snd count (phones.zip owners)
    (by rwa [right]) (by
      intro pair member
      exact inside _ (List.of_mem_zip member).2)
  rw [runsOf, ← List.flatMap_def, ← List.map_flatMap, buckets]
  exact List.map_fst_zip length.ge

theorem length_run (length : owners.length = phones.length) (unit : ℕ) :
    (((phones.zip owners).filter fun pair => pair.2 = unit).map Prod.fst).length =
      owners.count unit := by
  have right : (phones.zip owners).map Prod.snd = owners := List.map_snd_zip length.le
  rw [List.length_map, ← List.countP_eq_length_filter]
  conv_rhs => rw [← right, List.count, List.countP_map]
  apply List.countP_congr
  intro pair _
  simp

theorem runsOf_eq {groups : List (List String)} (isPhones : groups.flatten = phones)
    (isOwners : owners = labels 0 (groups.map List.length)) :
    runsOf phones owners groups.length = groups := by
  have length : owners.length = phones.length := by
    rw [isOwners, ← isPhones, length_labels, List.length_flatten]
  have sorted : owners.Pairwise (· ≤ ·) := by
    rw [isOwners]
    exact labels_pairwise
  have inside (owner : ℕ) (member : owner ∈ owners) : owner < groups.length := by
    rw [isOwners] at member
    simpa using (bounds_of_mem_labels member).2
  rw [List.eq_iff_flatten_eq]
  refine ⟨(runsOf_flatten length sorted inside).trans isPhones.symm, ?_⟩
  apply List.ext_getElem
  · simp [runsOf]
  · intro unit _ inGroups
    have counted := @count_labels 0 (groups.map List.length) unit
    rw [List.getD_eq_getElem _ _ inGroups, Nat.zero_add, ← isOwners] at counted
    rw [← counted, ← length_run length]
    simp [runsOf]

/-- The votes of all phones. -/
theorem castVotes_ballots {counts units : List ℕ} (phones : List String)
    (length : counts.length = phones.length) :
    (ballots (labels 0 counts) units).foldlM castVote (phones.map fun _ => []) =
      .ok ((List.range phones.length).map (votesFor ((labels 0 counts).zip units))) := by
  rw [ballots, castVotes_eq]
  · congr 1
    apply List.ext_getElem
    · simp
    · intro phone _ _
      simp
  · intro pair isPair
    have bound := (bounds_of_mem_labels (List.of_mem_zip isPair).1).2
    rw [List.length_map, ← length]
    rwa [Nat.zero_add] at bound

/-- The units of all phones. -/
theorem placePhones_owners (voted : ∀ phone < phones.length, votesFor pairs phone ≠ [])
    (sorted : (ownersOf pairs phones.length).Pairwise (· ≤ ·))
    (inside : ∀ owner ∈ ownersOf pairs phones.length, owner < count) {result : List String}
    (empty : result = List.replicate count "") :
    placePhones result 0 (phones.zip ((List.range phones.length).map (votesFor pairs))) =
      .ok ((runsOf phones (ownersOf pairs phones.length) count).map String.join) := by
  have chosen : ((List.range phones.length).map (votesFor pairs)).map majority =
      (ownersOf pairs phones.length).map some := by
    rw [ownersOf, List.map_map, List.map_map]
    apply List.map_congr_left
    intro phone isPhone
    exact (ownersOf_spec (voted phone (List.mem_range.mp isPhone))).1
  have fromStart : (0 :: ownersOf pairs phones.length).Pairwise (· ≤ ·) :=
    List.Pairwise.cons (fun owner _ => Nat.zero_le owner) sorted
  subst empty
  rw [placePhones_eq (by simp) chosen fromStart (by simpa using inside)]
  congr 1
  apply List.ext_getElem
  · simp [runsOf]
  · intro unit _ _
    simp [runsOf]

end Ownership

section Texts

/-- What a unit shows of its phones. -/
def unitText (run : List String) : String :=
  if run.isEmpty then unresolved else String.join run

theorem join_eq_empty {run : List String} (filled : ∀ phone ∈ run, phone ≠ "") :
    String.join run = "" ↔ run = [] := by
  constructor
  · intro empty
    cases run with
    | nil => rfl
    | cons phone run =>
        have first := filled phone List.mem_cons_self
        rw [← String.toList_inj] at empty
        simp [first] at empty
  · rintro rfl
    rfl

theorem shown_join {run : List String} (filled : ∀ phone ∈ run, phone ≠ "") :
    (if (String.join run).isEmpty then unresolved else String.join run) = unitText run := by
  have same : (String.join run).isEmpty = run.isEmpty := by
    rw [Bool.eq_iff_iff, String.isEmpty_iff, List.isEmpty_iff]
    exact join_eq_empty filled
  rw [unitText, same]

/-- Only the placeholder itself reads as the placeholder. -/
theorem join_ne_unresolved {run : List String}
    (plain : ∀ phone ∈ run, phone ≠ "" ∧ phone ≠ unresolved) : String.join run ≠ unresolved := by
  intro same
  cases run with
  | nil => exact absurd same (by decide)
  | cons phone run =>
      rcases plain phone List.mem_cons_self with ⟨filled, other⟩
      rw [← String.toList_inj, String.join_cons, String.toList_append] at same
      rcases List.append_eq_singleton_iff.mp same with ⟨empty, _⟩ | ⟨isMark, _⟩
      · exact filled (String.toList_eq_nil_iff.mp empty)
      · exact other (String.toList_inj.mp isMark)

theorem join_units {runs : List (List String)}
    (plain : ∀ run ∈ runs, ∀ phone ∈ run, phone ≠ "" ∧ phone ≠ unresolved) :
    String.join ((runs.map unitText).filter (· ≠ unresolved)) = String.join runs.flatten := by
  induction runs with
  | nil => rfl
  | cons run runs ih =>
      rcases List.forall_mem_cons.mp plain with ⟨first, later⟩
      rw [List.map_cons, List.flatten_cons, join_append, ← ih later, unitText]
      cases run with
      | nil => simp
      | cons phone run =>
          rw [if_neg (by simp), List.filter_cons_of_pos]
          · simp
          · simpa using join_ne_unresolved first

end Texts

section Evidence

variable [UnicodeData]

def symbolCount (ipa : String) : ℕ := (comparisonSymbols ipa).length

theorem payloadOf_key (phones : List String) :
    (payloadOf phones).map PayloadTarget.key = phones.flatMap comparisonSymbols := by
  rw [payloadOf, List.map_flatMap]
  refine Eq.trans (List.flatMap_congr ?_) (flatMap_zipIdx_fst comparisonSymbols phones 0)
  rintro ⟨phone, index⟩ _
  rw [List.map_map]
  exact List.map_id _

theorem referenceOf_key (pronunciations : List String) :
    (referenceOf pronunciations).map ReferenceTarget.key =
      pronunciations.flatMap comparisonSymbols := by
  rw [referenceOf, List.map_flatMap]
  refine Eq.trans (List.flatMap_congr ?_) (flatMap_zipIdx_fst comparisonSymbols pronunciations 0)
  rintro ⟨ipa, index⟩ _
  rw [List.map_map]
  exact List.map_id _

theorem payloadOf_payload (phones : List String) :
    (payloadOf phones).map PayloadTarget.payload =
      (labels 0 (phones.map symbolCount)).map some := by
  rw [payloadOf, List.map_flatMap]
  refine Eq.trans (List.flatMap_congr ?_) (flatMap_zipIdx_snd comparisonSymbols phones 0)
  rintro ⟨phone, index⟩ _
  exact List.map_map

theorem referenceOf_payload (pronunciations : List String) :
    (referenceOf pronunciations).map ReferenceTarget.payload =
      (labels 0 (pronunciations.map symbolCount)).map some := by
  rw [referenceOf, List.map_flatMap]
  refine Eq.trans (List.flatMap_congr ?_) (flatMap_zipIdx_snd comparisonSymbols pronunciations 0)
  rintro ⟨ipa, index⟩ _
  exact List.map_map

variable (Threshold : Type) [Similarity Threshold]

/-- What the aligner returns, whether or not there are phones. -/
theorem exists_align (coreBuilt : Bool) (phones pronunciations : List String) :
    ∃ edits,
      Dp.align Threshold ⟨id, coreBuilt⟩
          (alignInput (payloadOf phones) (referenceOf pronunciations)) (some MatchFn.default) =
        .ok edits ∧
      (payloadOf phones = [] → ∀ previous, editVotes previous [] [] edits = []) ∧
      (payloadOf phones ≠ [] → MinimumCost id (MatchFn.default : MatchFn String).call
        (payloadOf phones) (referenceOf pronunciations) edits) := by
  have honours : Honours Threshold ⟨id, coreBuilt⟩
      (alignInput (payloadOf phones) (referenceOf pronunciations)) MatchFn.default :=
    honours_of_honouredAt Threshold fun _ _ _ _ => ⟨_, rfl, fun _ _ => rfl⟩
  rcases honours with ⟨edits, returned, minimum⟩
  refine ⟨edits, returned, ?_, ?_⟩
  · intro none previous
    rw [none] at minimum
    exact editVotes_noPayload minimum.1 previous []
  · intro found
    rcases List.exists_cons_of_ne_nil found with ⟨first, rest, isPayload⟩
    rw [isPayload] at minimum ⊢
    exact minimum

/-- The votes of an alignment, and what they are where the symbols are the same. -/
theorem exists_editVotes (coreBuilt : Bool) (phones : List String) {pronunciations : List String}
    (someSymbols : labels 0 (pronunciations.map symbolCount) ≠ []) :
    ∃ edits units,
      Dp.align Threshold ⟨id, coreBuilt⟩
          (alignInput (payloadOf phones) (referenceOf pronunciations)) (some MatchFn.default) =
        .ok edits ∧
      editVotes ((referenceOf pronunciations).head?.bind ReferenceTarget.payload) [] [] edits =
        ballots (labels 0 (phones.map symbolCount)) units ∧
      InOrder (labels 0 (phones.map symbolCount)) units
        (labels 0 (pronunciations.map symbolCount)) ∧
      (phones.flatMap comparisonSymbols = pronunciations.flatMap comparisonSymbols →
        units = labels 0 (pronunciations.map symbolCount)) := by
  rcases exists_align Threshold coreBuilt phones pronunciations with
    ⟨edits, returned, silent, minimum⟩
  have isPayload := payloadOf_payload phones
  have isReference := referenceOf_payload pronunciations
  have sorted := @labels_pairwise 0 (pronunciations.map symbolCount)
  by_cases noPhones : payloadOf phones = []
  · rw [noPhones] at isPayload
    have noLabels : labels 0 (phones.map symbolCount) = [] := List.map_eq_nil_iff.mp isPayload.symm
    refine ⟨edits, [], returned, ?_, ?_, ?_⟩
    · rw [noLabels]
      exact silent noPhones _
    · rw [noLabels]
      exact ⟨rfl, List.Pairwise.nil, List.nil_subset _⟩
    · intro same
      rw [← payloadOf_key, ← referenceOf_key, noPhones] at same
      rw [List.map_eq_nil_iff.mp same.symm] at isReference
      exact (List.map_eq_nil_iff.mp isReference.symm).symm
  · rcases minimum noPhones with ⟨aligned, least⟩
    by_cases same : phones.flatMap comparisonSymbols = pronunciations.flatMap comparisonSymbols
    · rw [← payloadOf_key, ← referenceOf_key] at same
      rcases exists_free_of_keys_eq (fun _ => beq_self_eq_true _) same with ⟨other, isOther, free⟩
      have cheap : totalCost edits = 0 := by
        have bound := least other isOther
        omega
      refine ⟨edits, _, returned, editVotes_free aligned cheap isPayload isReference _, ?_,
        fun _ => rfl⟩
      refine ⟨?_, sorted, List.Subset.refl _⟩
      have sizes := congrArg List.length same
      have payloadSize := congrArg List.length isPayload
      have referenceSize := congrArg List.length isReference
      simp only [List.length_map] at sizes payloadSize referenceSize
      omega
    · rcases List.exists_cons_of_ne_nil someSymbols with ⟨previous, later, shape⟩
      have heads := congrArg List.head? isReference
      rw [List.head?_map, shape] at heads
      rcases Option.map_eq_some_iff.mp heads with ⟨item, isHead, itsUnit⟩
      have fromHead : (previous :: ([] ++ labels 0 (pronunciations.map symbolCount))).Pairwise
          (· ≤ ·) := by
        rw [shape] at sorted ⊢
        exact List.Pairwise.cons
          (List.forall_mem_cons.mpr ⟨le_rfl, (List.pairwise_cons.mp sorted).1⟩) sorted
      rcases @editVotes_inOrder _ _ _ _ _ aligned _ _ isPayload isReference previous [] [] fromHead
        with ⟨units, votes, inOrder⟩
      refine ⟨edits, units, returned, ?_, ?_, fun equal => absurd equal same⟩
      · rw [isHead, Option.bind_some, itsUnit]
        exact votes
      · refine ⟨inOrder.length, inOrder.sorted, fun unit member => ?_⟩
        rcases List.mem_cons.mp (inOrder.allowed member) with rfl | inside
        · rw [shape]
          exact List.mem_cons_self
        · exact inside

/-- The units show consecutive runs of the phones, one run each. Without the placeholders they are
the phones, and phones with the symbols of the units, group by group, are split between the
groups. -/
structure Conserves (phones pronunciations units : List String) : Prop where
  runs : ∃ runs : List (List String), runs.length = pronunciations.length ∧
    runs.flatten = phones ∧ units = runs.map unitText
  joined : String.join (units.filter (· ≠ unresolved)) = String.join phones
  exact : ∀ groups : List (List String), groups.flatten = phones →
    groups.map (fun group => group.flatMap comparisonSymbols) =
      pronunciations.map comparisonSymbols → units = groups.map String.join

theorem ne_empty_of_symbols {phone : String} (has : comparisonSymbols phone ≠ []) :
    phone ≠ "" := by
  rintro rfl
  exact has rfl

/-- Where every group of phones has the symbols of its unit, the phones go to their group. -/
theorem ownersOf_groups {groups : List (List String)} {counts units : List ℕ}
    (isCounts : counts = groups.flatten.map symbolCount)
    (isUnits : units = labels 0 (groups.map fun group => (group.map symbolCount).sum))
    (voted : ∀ phone < counts.length, votesFor ((labels 0 counts).zip units) phone ≠ []) :
    ownersOf ((labels 0 counts).zip units) counts.length = labels 0 (groups.map List.length) := by
  have chunked := @zip_labels 0 0 (groups.map (List.map symbolCount))
  rw [List.map_map, ← List.map_flatten, ← isCounts] at chunked
  have lengths : (groups.map (List.map symbolCount)).map List.length = groups.map List.length := by
    rw [List.map_map]
    exact List.map_congr_left fun group _ => List.length_map _
  apply ownersOf_eq voted
  · rw [length_labels, isCounts, List.length_map, List.length_flatten]
  · intro phone unit isPair
    rw [← List.zip_swap, List.mem_map] at isPair
    rcases isPair with ⟨⟨unit', phone'⟩, inChunks, same⟩
    cases same
    rw [isUnits] at inChunks
    have found := (getElem?_of_mem_chunks (chunked ▸ inChunks)).2
    rwa [lengths, Nat.sub_zero] at found

/-- The votes are cast and counted, and the phones are placed. -/
theorem projectPhones_eq {coreBuilt : Bool} {phones pronunciations : List String}
    (somePronunciations : pronunciations ≠ [])
    (haveSymbols : ∀ ipa ∈ pronunciations, comparisonSymbols ipa ≠ [])
    (phonesHave : ∀ phone ∈ phones, comparisonSymbols phone ≠ []) :
    ∃ owners : List ℕ,
      projectPhones Threshold coreBuilt phones pronunciations =
        .ok ((runsOf phones owners pronunciations.length).map unitText) ∧
      owners.length = phones.length ∧ owners.Pairwise (· ≤ ·) ∧
      (∀ owner ∈ owners, owner < pronunciations.length) ∧
      ∀ groups : List (List String), groups.flatten = phones →
        groups.map (fun group => group.flatMap comparisonSymbols) =
          pronunciations.map comparisonSymbols → owners = labels 0 (groups.map List.length) := by
  rcases List.exists_mem_of_ne_nil _ somePronunciations with ⟨ipa, isIpa⟩
  have someSymbols : labels 0 (pronunciations.map symbolCount) ≠ [] := by
    intro none
    have size := congrArg List.length none
    rw [length_labels, List.length_nil, List.sum_eq_zero_iff] at size
    exact haveSymbols ipa isIpa (List.eq_nil_of_length_eq_zero (size _ (List.mem_map_of_mem isIpa)))
  rcases exists_editVotes Threshold coreBuilt phones someSymbols with
    ⟨edits, units, returned, votes, inOrder, equal⟩
  have voted : ∀ phone < phones.length,
      votesFor ((labels 0 (phones.map symbolCount)).zip units) phone ≠ [] := by
    have positive : ∀ count ∈ phones.map symbolCount, 0 < count := by
      rw [List.forall_mem_map]
      exact fun phone member => List.length_pos_iff.mpr (phonesHave phone member)
    simpa using votesFor_ne_nil positive inOrder.length
  have sorted := ownersOf_pairwise labels_pairwise inOrder.sorted voted
  have inside : ∀ owner ∈ ownersOf ((labels 0 (phones.map symbolCount)).zip units) phones.length,
      owner < pronunciations.length := by
    intro owner isOwner
    rcases List.mem_map.mp isOwner with ⟨phone, isPhone, rfl⟩
    have isPair := (ownersOf_spec (voted phone (List.mem_range.mp isPhone))).2
    simpa using (bounds_of_mem_labels (inOrder.allowed (List.of_mem_zip isPair).2)).2
  refine ⟨ownersOf ((labels 0 (phones.map symbolCount)).zip units) phones.length, ?_,
    by simp [ownersOf], sorted, inside, ?_⟩
  · have given : (pronunciations.map comparisonSymbols).isEmpty = false ∧
        (pronunciations.map comparisonSymbols).any List.isEmpty = false := by
      constructor
      · simpa using somePronunciations
      · simpa using haveSymbols
    have cast := @castVotes_ballots (phones.map symbolCount) units phones (List.length_map _)
    rw [← votes] at cast
    have placed := placePhones_owners voted sorted inside
      (List.map_const' : (pronunciations.map fun _ => "") = _)
    have length : (ownersOf ((labels 0 (phones.map symbolCount)).zip units) phones.length).length =
        phones.length := by
      simp [ownersOf]
    simp only [projectPhones, given, returned, cast, placed, bind, Except.bind, pure, Except.pure,
      Bool.or_self, Bool.false_eq_true, if_false, List.map_map]
    congr 1
    apply List.map_congr_left
    intro run isRun
    apply shown_join
    intro phone isPhone
    apply ne_empty_of_symbols
    apply phonesHave
    rw [← runsOf_flatten length sorted inside]
    exact List.mem_flatten_of_mem isRun isPhone
  · intro groups isPhones sameSymbols
    have flat : phones.flatMap comparisonSymbols = pronunciations.flatMap comparisonSymbols := by
      rw [@List.flatMap_def _ _ pronunciations, ← sameSymbols, ← isPhones, List.flatMap_def,
        List.map_flatten, List.flatten_flatten, List.map_map]
      rfl
    have isUnits : units = labels 0 (groups.map fun group => (group.map symbolCount).sum) := by
      have counts := congrArg (List.map List.length) sameSymbols
      rw [List.map_map, List.map_map] at counts
      rw [equal flat]
      refine congrArg (labels 0) (counts.symm.trans (List.map_congr_left ?_))
      exact fun group _ => List.length_flatMap
    rw [← isPhones] at voted ⊢
    have grouped := @ownersOf_groups _ groups _ units rfl isUnits
      (by rwa [List.length_map])
    rwa [List.length_map] at grouped

/-- Phones and units that all have a symbol are projected, and no phone is lost. -/
theorem projectPhones_conserves (coreBuilt : Bool) {phones pronunciations : List String}
    (somePronunciations : pronunciations ≠ [])
    (haveSymbols : ∀ ipa ∈ pronunciations, comparisonSymbols ipa ≠ [])
    (phonesHave : ∀ phone ∈ phones, comparisonSymbols phone ≠ [] ∧ phone ≠ unresolved) :
    ∃ units, projectPhones Threshold coreBuilt phones pronunciations = .ok units ∧
      Conserves phones pronunciations units := by
  rcases projectPhones_eq Threshold somePronunciations haveSymbols
    (fun phone member => (phonesHave phone member).1) with
    ⟨owners, projected, length, sorted, inside, groupwise⟩
  refine ⟨_, projected, ?_, ?_, ?_⟩
  · exact ⟨runsOf phones owners pronunciations.length, by simp [runsOf],
      runsOf_flatten length sorted inside, rfl⟩
  · rw [join_units, runsOf_flatten length sorted inside]
    intro run isRun phone isPhone
    have member : phone ∈ phones := by
      rw [← runsOf_flatten length sorted inside]
      exact List.mem_flatten_of_mem isRun isPhone
    exact ⟨ne_empty_of_symbols (phonesHave phone member).1, (phonesHave phone member).2⟩
  · intro groups isPhones sameSymbols
    have count : groups.length = pronunciations.length := by
      simpa using congrArg List.length sameSymbols
    rw [← count, runsOf_eq isPhones (groupwise groups isPhones sameSymbols)]
    apply List.map_congr_left
    intro group isGroup
    have has : group.flatMap comparisonSymbols ∈ pronunciations.map comparisonSymbols := by
      rw [← sameSymbols]
      exact List.mem_map_of_mem isGroup
    rcases List.mem_map.mp has with ⟨ipa, isIpa, symbols⟩
    rw [unitText, if_neg]
    intro empty
    rw [List.isEmpty_iff.mp empty] at symbols
    exact haveSymbols ipa isIpa symbols

end Evidence

theorem projectPhones_conserves_that :
    ∃ units, @projectPhones sampleUnicode ℚ _ true ["ð", "ə", "t", "æ", "t"] ["ðə", "kæt"] =
        .ok units ∧
      @Conserves sampleUnicode ["ð", "ə", "t", "æ", "t"] ["ðə", "kæt"] units :=
  @projectPhones_conserves sampleUnicode ℚ _ true _ _ (by decide) (by decide) (by decide)

end Batchalign.Phonetic
