import Batchalign.PyChat.Collection

/-!
# The collection refines a Python list

The abstract machine is a Python list that refuses an element whose speaker conflicts with
another one. Every call on the collection does to the utterances what it does to that list, and
leaves the headers and, where it raises, all entries as they were.
-/

namespace Batchalign.PyChat

section PythonList

variable {Utterance Participant : Type} [SpeakerData Participant]

/-- What a call on a Python list raises. -/
inductive Raised where
  | indexError
  | valueError
deriving DecidableEq, Repr

/-- The number of an index, which counts from the end if it is negative. -/
def listIndex (index : ℤ) (len : ℕ) : Option ℕ :=
  if 0 ≤ index ∧ index < len then some index.toNat
  else if -len ≤ index ∧ index < 0 then some (index + len).toNat
  else none

/-- Where an element is inserted: an index out of range is clamped. -/
def insertionIndex (index : ℤ) (len : ℕ) : ℕ :=
  (max 0 (min (if index < 0 then index + len else index) len)).toNat

/-- What an operation does to a Python list and returns; none if it raises an index error. -/
def listOp (items : List Utterance) : Op Utterance → Option (List Utterance × Option Utterance)
  | .append item => some (items ++ [item], none)
  | .insert index item => some (items.insertIdx (insertionIndex index items.length) item, none)
  | .setItem index item => (listIndex index items.length).map fun k => (items.set k item, none)
  | .delItem index => (listIndex index items.length).map fun k => (items.eraseIdx k, none)
  | .pop index => (listIndex index items.length).map fun k => (items.eraseIdx k, items[k]?)
  | .clear => some ([], none)

def Op.adds : Op Utterance → Bool
  | .append _ | .insert _ _ | .setItem _ _ => true
  | .delItem _ | .pop _ | .clear => false

/-- No two utterances have different metadata for one speaker code. -/
def Consistent (speaker : Utterance → Participant) (items : List Utterance) : Prop :=
  ∀ one ∈ items, ∀ other ∈ items,
    SpeakerData.code (speaker one) = SpeakerData.code (speaker other) →
    speaker one = speaker other

open Classical in
/-- One call on a Python list that refuses conflicting speakers. -/
noncomputable def listCall (items : List Utterance) (call : Call Utterance Participant) :
    List Utterance × Except Raised (Option Utterance) :=
  match listOp items call.op with
  | none => (items, .error .indexError)
  | some (edited, result) =>
      if call.op.adds ∧ ¬ Consistent call.speaker edited then (items, .error .valueError)
      else (edited, .ok result)

variable {speaker : Utterance → Participant} {items edited : List Utterance} {op : Op Utterance}

theorem listCall_of_none (raises : listOp items op = none) :
    listCall items ⟨op, speaker⟩ = (items, .error .indexError) := by
  simp only [listCall, raises]

open Classical in
theorem listCall_of_adds (adds : op.adds = true) (does : listOp items op = some (edited, none)) :
    listCall items ⟨op, speaker⟩ =
      if ¬ Consistent speaker edited then (items, .error .valueError) else (edited, .ok none) := by
  simp only [listCall, does, adds, true_and]

theorem listCall_of_keeps {result : Option Utterance} (keeps : op.adds = false)
    (does : listOp items op = some (edited, result)) :
    listCall items ⟨op, speaker⟩ = (edited, .ok result) := by
  simp only [listCall, does, keeps, Bool.false_eq_true, false_and, if_false]

noncomputable def listRun (items : List Utterance) :
    List (Call Utterance Participant) → List Utterance × List (Except Raised (Option Utterance))
  | [] => (items, [])
  | next :: calls =>
      let outcome := listCall items next
      let rest := listRun outcome.1 calls
      (rest.1, outcome.2 :: rest.2)

end PythonList

section Agreement

variable {Utterance Participant : Type} [SpeakerData Participant]
variable {speaker : Utterance → Participant} {known : List Participant}

/-- The metadata of an utterance agrees with what is known. -/
def Agrees (known : List Participant) (participant : Participant) : Prop :=
  ∀ other ∈ known, SpeakerData.code other = SpeakerData.code participant → other = participant

/-- The utterances conflict neither with what is known nor with one another. -/
structure Joint (speaker : Utterance → Participant) (known : List Participant)
    (items : List Utterance) : Prop where
  agree : ∀ item ∈ items, Agrees known (speaker item)
  consistent : Consistent speaker items

theorem consistent_cons {item : Utterance} {items : List Utterance} :
    Consistent speaker (item :: items) ↔
      (∀ other ∈ items, Agrees [speaker item] (speaker other)) ∧ Consistent speaker items := by
  unfold Consistent Agrees
  simp only [List.mem_cons, forall_eq_or_imp, List.not_mem_nil, false_implies, implies_true,
    and_true, true_and]
  constructor
  · rintro ⟨first, rest⟩
    exact ⟨first, fun one member => (rest one member).2⟩
  · rintro ⟨first, rest⟩
    exact ⟨first, fun one member =>
      ⟨fun same => (first one member same.symm).symm, rest one member⟩⟩

theorem agrees_append {other : List Participant} {participant : Participant} :
    Agrees (known ++ other) participant ↔ Agrees known participant ∧ Agrees other participant :=
  List.forall_mem_append

/-- An utterance whose speaker is known adds nothing. -/
theorem joint_cons_known {item : Utterance} {items : List Utterance}
    (isKnown : speaker item ∈ known) (agrees : Agrees known (speaker item)) :
    Joint speaker known (item :: items) ↔ Joint speaker known items := by
  constructor
  · intro joint
    exact ⟨(List.forall_mem_cons.mp joint.agree).2, (consistent_cons.mp joint.consistent).2⟩
  · intro joint
    refine ⟨List.forall_mem_cons.mpr ⟨agrees, joint.agree⟩,
      consistent_cons.mpr ⟨fun other member => ?_, joint.consistent⟩⟩
    intro participant isItem same
    rw [List.mem_singleton.mp isItem] at same ⊢
    exact joint.agree other member _ isKnown same

/-- An utterance with a new speaker makes it known. -/
theorem joint_cons_new {item : Utterance} {items : List Utterance}
    (isNew : SpeakerData.code (speaker item) ∉ known.map SpeakerData.code) :
    Joint speaker known (item :: items) ↔ Joint speaker (known ++ [speaker item]) items := by
  have agrees : Agrees known (speaker item) := fun other isKnown same =>
    absurd (List.mem_map.mpr ⟨other, isKnown, same⟩) isNew
  constructor
  · intro joint
    have split := consistent_cons.mp joint.consistent
    refine ⟨fun other member => agrees_append.mpr ⟨?_, split.1 other member⟩, split.2⟩
    exact joint.agree other (List.mem_cons_of_mem _ member)
  · intro joint
    have split := fun other member => agrees_append.mp (joint.agree other member)
    exact ⟨List.forall_mem_cons.mpr ⟨agrees, fun other member => (split other member).1⟩,
      consistent_cons.mpr ⟨fun other member => (split other member).2, joint.consistent⟩⟩

end Agreement

section Speakers

variable {Header Utterance Participant : Type} [SpeakerData Participant] [DecidableEq Participant]
variable {speaker : Utterance → Participant} {known : List Participant}

def utterances (entries : List (Entry Header Utterance)) : List Utterance :=
  entries.filterMap Entry.utterance?

def headers (entries : List (Entry Header Utterance)) : List (Entry Header Utterance) :=
  Selected.others Entry.utterance? entries

/-- The speakers of the fold, after those that are known. -/
def speakersFrom (speaker : Utterance → Participant) (known : List Participant)
    (items : List Utterance) : Except PyErr (List Participant) :=
  items.foldlM (fun speakers item => addSpeaker speakers (speaker item)) known

theorem speakers_eq (entries : List (Entry Header Utterance)) :
    speakers speaker entries = speakersFrom speaker [] (utterances entries) := by
  rw [speakers]
  generalize ([] : List Participant) = known
  induction entries generalizing known with
  | nil => rfl
  | cons entry entries ih =>
      cases entry with
      | header line => exact ih known
      | utterance utterance =>
          change (addSpeaker known (speaker utterance) >>= _) =
            (addSpeaker known (speaker utterance) >>= _)
          congr 1
          funext next
          exact ih next

theorem addSpeaker_cases (distinct : (known.map SpeakerData.code).Nodup)
    (participant : Participant) :
    (∃ message, addSpeaker known participant = .error (.valueError message)) ∧
        ¬ Agrees known participant ∨
      participant ∈ known ∧ addSpeaker known participant = .ok known ∧ Agrees known participant ∨
      SpeakerData.code participant ∉ known.map SpeakerData.code ∧
        addSpeaker known participant = .ok (known ++ [participant]) := by
  unfold addSpeaker
  cases found : known.find? fun other =>
      SpeakerData.code other == SpeakerData.code participant with
  | none =>
      right
      right
      refine ⟨fun inKnown => ?_, rfl⟩
      rcases List.mem_map.mp inKnown with ⟨other, isKnown, same⟩
      exact List.find?_eq_none.mp found other isKnown (beq_iff_eq.mpr same)
  | some existing =>
      have isKnown := List.mem_of_find?_eq_some found
      have same : SpeakerData.code existing = SpeakerData.code participant := by
        simpa using List.find?_some found
      by_cases equal : existing = participant
      · right
        left
        refine ⟨equal ▸ isKnown, if_neg (not_not.mpr equal), ?_⟩
        intro other otherKnown otherSame
        have only :=
          List.inj_on_of_nodup_map distinct otherKnown isKnown (otherSame.trans same.symm)
        exact only.trans equal
      · left
        exact ⟨⟨_, if_pos equal⟩, fun agrees => equal (agrees existing isKnown same)⟩

/-- The fold fails only on a conflict, and never without one. -/
theorem speakersFrom_cases (distinct : (known.map SpeakerData.code).Nodup)
    (items : List Utterance) :
    (∃ message, speakersFrom speaker known items = .error (.valueError message)) ∧
        ¬ Joint speaker known items ∨
      (∃ after, speakersFrom speaker known items = .ok after) ∧ Joint speaker known items := by
  induction items generalizing known with
  | nil => exact .inr ⟨⟨known, rfl⟩, by simp, by simp [Consistent]⟩
  | cons item items ih =>
      have step : speakersFrom speaker known (item :: items) =
          addSpeaker known (speaker item) >>= fun next => speakersFrom speaker next items := by
        rfl
      rw [step]
      rcases addSpeaker_cases distinct (speaker item) with
        ⟨⟨message, fails⟩, conflict⟩ | ⟨isKnown, added, agrees⟩ | ⟨isNew, added⟩
      · left
        refine ⟨⟨message, ?_⟩, fun joint => conflict (joint.agree item List.mem_cons_self)⟩
        rw [fails]
        rfl
      · rw [added, joint_cons_known isKnown agrees]
        exact ih distinct
      · rw [added, joint_cons_new isNew]
        apply ih
        rw [List.map_append, List.map_singleton, ← List.concat_eq_append]
        exact distinct.concat isNew

theorem speakers_cases (speaker : Utterance → Participant)
    (entries : List (Entry Header Utterance)) :
    (∃ message, speakers speaker entries = .error (.valueError message)) ∧
        ¬ Consistent speaker (utterances entries) ∨
      (∃ after, speakers speaker entries = .ok after) ∧
        Consistent speaker (utterances entries) := by
  rw [speakers_eq]
  have joint : Joint speaker [] (utterances entries) ↔
      Consistent speaker (utterances entries) :=
    ⟨Joint.consistent, fun consistent => ⟨fun _ _ _ => nofun, consistent⟩⟩
  rw [← joint]
  exact speakersFrom_cases (by simp) _

end Speakers

section Steps

variable {Header Utterance Participant : Type} [SpeakerData Participant] [DecidableEq Participant]
variable {speaker : Utterance → Participant} {entries edited : List (Entry Header Utterance)}

def PyErr.kind : PyErr → Option Raised
  | .indexError _ => some .indexError
  | .valueError _ => some .valueError
  | .panicked _ => none

/-- A call returns what the list call returns, or raises what it raises. -/
def SameResult : Except PyErr (Option Utterance) → Except Raised (Option Utterance) → Prop
  | .ok result, .ok expected => result = expected
  | .error error, .error raised => error.kind = some raised
  | .ok _, .error _ => False
  | .error _, .ok _ => False

/-- What a call does to the entries, next to what the list call does to the utterances. -/
structure Mirrors (entries : List (Entry Header Utterance)) (outcome : Outcome Header Utterance)
    (expected : List Utterance × Except Raised (Option Utterance)) : Prop where
  utterances_eq : utterances outcome.1 = expected.1
  result : SameResult outcome.2 expected.2
  headers_eq : headers outcome.1 = headers entries
  undone : ∀ error, outcome.2 = .error error → outcome.1 = entries

/-- A call that raises at once. -/
theorem Mirrors.raise {error : PyErr} {raised : Raised} (kind : error.kind = some raised) :
    Mirrors entries (entries, .error error) (utterances entries, .error raised) :=
  ⟨rfl, kind, rfl, fun _ _ => rfl⟩

theorem Mirrors.done {items : List Utterance} {result : Option Utterance}
    (sameUtterances : utterances edited = items) (sameHeaders : headers edited = headers entries) :
    Mirrors entries (edited, .ok result) (items, .ok result) :=
  ⟨sameUtterances, rfl, sameHeaders, nofun⟩

open Classical in
/-- An edit that is checked, and undone on a conflict. -/
theorem checked_mirrors {items : List Utterance}
    {undo : List (Entry Header Utterance) → List (Entry Header Utterance)}
    (sameUtterances : utterances edited = items) (sameHeaders : headers edited = headers entries)
    (restores : undo edited = entries) :
    Mirrors entries (checked speaker edited undo)
      (if ¬ Consistent speaker items then (utterances entries, .error .valueError)
      else (items, .ok none)) := by
  unfold checked
  rcases speakers_cases speaker edited with
    ⟨⟨message, fails⟩, conflict⟩ | ⟨⟨after, goes⟩, consistent⟩
  · rw [sameUtterances] at conflict
    rw [fails, if_pos conflict, restores]
    exact Mirrors.raise rfl
  · rw [sameUtterances] at consistent
    rw [goes, if_neg (not_not.mpr consistent)]
    exact Mirrors.done sameUtterances sameHeaders

theorem sequenceIndex_eq (index : ℤ) (len : ℕ) :
    sequenceIndex index len = match listIndex index len with
      | some k => .ok k
      | none => .error (.indexError "utterance index out of range") := by
  unfold sequenceIndex listIndex
  dsimp only
  by_cases negative : index < 0
  · rw [if_pos negative, if_neg (show ¬ (0 ≤ index ∧ index < len) by omega)]
    by_cases reached : -(len : ℤ) ≤ index
    · rw [if_neg (by omega), if_pos ⟨reached, negative⟩, add_comm]
    · rw [if_pos (by omega), if_neg (fun both => reached both.1)]
  · rw [if_neg negative]
    by_cases inside : index < len
    · rw [if_neg (by omega), if_pos ⟨not_lt.mp negative, inside⟩]
    · rw [if_pos (by omega), if_neg (fun both => inside both.2),
        if_neg (fun both => negative both.2)]

theorem listIndex_lt {index : ℤ} {len k : ℕ} (found : listIndex index len = some k) : k < len := by
  unfold listIndex at found
  split_ifs at found with inside counted
  · obtain rfl : index.toNat = k := by simpa using found
    omega
  · obtain rfl : (index + len).toNat = k := by simpa using found
    omega

theorem length_positions (entries : List (Entry Header Utterance)) :
    (positions entries).length = (utterances entries).length :=
  Selected.length_positions

/-- An index in range is the place of an utterance; any other raises. -/
theorem position_cases (entries : List (Entry Header Utterance)) (index : ℤ) :
    listIndex index (utterances entries).length = none ∧
        position entries index = .error (.indexError "utterance index out of range") ∨
      ∃ front utterance back, entries = front ++ .utterance utterance :: back ∧
        listIndex index (utterances entries).length = some (utterances front).length ∧
        position entries index = .ok front.length := by
  unfold position
  dsimp only
  rw [sequenceIndex_eq, length_positions]
  cases found : listIndex index (utterances entries).length with
  | none => exact .inl ⟨rfl, rfl⟩
  | some k =>
      right
      have inside : k < (positions entries).length := by
        rw [length_positions]
        exact listIndex_lt found
      have atPlace := List.getElem?_eq_getElem inside
      rcases Selected.split_of_position atPlace with
        ⟨front, a, utterance, back, whole, selected, place, number⟩
      cases a with
      | header line => cases selected
      | utterance spoken =>
          refine ⟨front, spoken, back, whole, congrArg some number.symm, ?_⟩
          dsimp only
          rw [atPlace, place]

theorem utterances_split (front back : List (Entry Header Utterance)) (utterance : Utterance) :
    utterances (front ++ .utterance utterance :: back) =
      utterances front ++ utterance :: utterances back :=
  Selected.filterMap_split rfl

theorem headers_split (front back : List (Entry Header Utterance)) (utterance : Utterance) :
    headers (front ++ .utterance utterance :: back) = headers (front ++ back) :=
  Selected.others_split rfl

theorem append_mirrors (entries : List (Entry Header Utterance)) (item : Utterance) :
    Mirrors entries (append speaker entries item) (listCall (utterances entries)
      ⟨.append item, speaker⟩) := by
  rw [listCall_of_adds rfl rfl]
  apply checked_mirrors
  · exact utterances_split entries [] item
  · rw [headers_split, List.append_nil]
  · exact List.dropLast_concat

theorem insert_mirrors (entries : List (Entry Header Utterance)) (index : ℤ) (item : Utterance) :
    Mirrors entries (insert speaker entries index item) (listCall (utterances entries)
      ⟨.insert index item, speaker⟩) := by
  have clamped : (if index < 0 then max ((positions entries).length + index) 0
      else min index (positions entries).length).toNat =
        insertionIndex index (utterances entries).length := by
    rw [length_positions, insertionIndex]
    split_ifs <;> omega
  rw [listCall_of_adds rfl rfl]
  unfold insert
  dsimp only
  rw [clamped]
  cases atPlace : (positions entries)[insertionIndex index (utterances entries).length]? with
  | none =>
      have behind := Selected.position_eq_none_iff.mp atPlace
      have last :
          insertionIndex index (utterances entries).length = (utterances entries).length := by
        refine le_antisymm ?_ behind
        unfold insertionIndex
        omega
      rw [Option.getD_none, List.insertIdx_length_self, last, List.insertIdx_length_self]
      apply checked_mirrors
      · exact utterances_split entries [] item
      · rw [headers_split, List.append_nil]
      · exact Selected.eraseIdx_split.trans (List.append_nil _)
  | some place =>
      rcases Selected.split_of_position atPlace with
        ⟨front, a, utterance, back, whole, selected, rfl, number⟩
      have split : utterances entries = utterances front ++ utterances (a :: back) := by
        rw [whole]
        exact List.filterMap_append ..
      rw [Option.getD_some, ← number, whole, Selected.insertIdx_split]
      apply checked_mirrors
      · rw [← whole, split, utterances_split]
        exact Selected.insertIdx_split.symm
      · exact headers_split front (a :: back) item
      · exact Selected.eraseIdx_split

theorem setItem_mirrors (entries : List (Entry Header Utterance)) (index : ℤ) (item : Utterance) :
    Mirrors entries (setItem speaker entries index item) (listCall (utterances entries)
      ⟨.setItem index item, speaker⟩) := by
  unfold setItem
  rcases position_cases entries index with
    ⟨outside, fails⟩ | ⟨front, utterance, back, whole, inside, place⟩
  · rw [fails, listCall_of_none (by simp only [listOp, outside, Option.map_none])]
    exact Mirrors.raise rfl
  · rw [place, listCall_of_adds rfl (by simp only [listOp, inside, Option.map_some]; rfl)]
    dsimp only
    rw [whole, Selected.getElem?_split]
    dsimp only
    rw [Selected.set_split]
    apply checked_mirrors
    · rw [utterances_split, utterances_split, Selected.set_split]
    · rw [headers_split, headers_split]
    · exact Selected.set_split

omit [DecidableEq Participant] in
theorem delItem_mirrors (entries : List (Entry Header Utterance)) (index : ℤ) :
    Mirrors entries (delItem entries index) (listCall (utterances entries)
      ⟨.delItem index, speaker⟩) := by
  unfold delItem
  rcases position_cases entries index with
    ⟨outside, fails⟩ | ⟨front, utterance, back, whole, inside, place⟩
  · rw [fails, listCall_of_none (by simp only [listOp, outside, Option.map_none])]
    exact Mirrors.raise rfl
  · have inBounds : front.length < entries.length := by
      rw [whole, List.length_append, List.length_cons]
      omega
    rw [place, listCall_of_keeps rfl (by simp only [listOp, inside, Option.map_some]; rfl)]
    dsimp only
    rw [if_pos inBounds, whole, Selected.eraseIdx_split]
    apply Mirrors.done
    · rw [utterances_split, Selected.eraseIdx_split]
      exact List.filterMap_append ..
    · exact (headers_split front back utterance).symm

omit [DecidableEq Participant] in
theorem pop_mirrors (entries : List (Entry Header Utterance)) (index : ℤ) :
    Mirrors entries (pop entries index) (listCall (utterances entries)
      ⟨.pop index, speaker⟩) := by
  unfold pop
  rcases position_cases entries index with
    ⟨outside, fails⟩ | ⟨front, utterance, back, whole, inside, place⟩
  · rw [fails, listCall_of_none (by simp only [listOp, outside, Option.map_none])]
    exact Mirrors.raise rfl
  · rw [place, listCall_of_keeps rfl (by simp only [listOp, inside, Option.map_some]; rfl)]
    dsimp only
    rw [whole, Selected.getElem?_split]
    dsimp only
    rw [Selected.eraseIdx_split, utterances_split, Selected.getElem?_split]
    apply Mirrors.done
    · rw [Selected.eraseIdx_split]
      exact List.filterMap_append ..
    · exact (headers_split front back utterance).symm

theorem clear_eq (entries : List (Entry Header Utterance)) :
    clear entries = (headers entries, .ok none) := by
  refine Prod.ext (List.filter_congr fun entry _ => ?_) rfl
  cases entry with
  | header line => rfl
  | utterance spoken => rfl

omit [DecidableEq Participant] in
theorem clear_mirrors (entries : List (Entry Header Utterance)) :
    Mirrors entries (clear entries) (listCall (utterances entries) ⟨.clear, speaker⟩) := by
  rw [clear_eq, listCall_of_keeps rfl rfl]
  exact Mirrors.done (Selected.filterMap_others entries) (Selected.others_others entries)

/-- Every call does to the utterances what it does to a Python list. -/
theorem call_mirrors (entries : List (Entry Header Utterance)) (next : Call Utterance Participant) :
    Mirrors entries (call entries next) (listCall (utterances entries) next) := by
  rcases next with ⟨op, speaker⟩
  cases op with
  | append item => exact append_mirrors entries item
  | insert index item => exact insert_mirrors entries index item
  | setItem index item => exact setItem_mirrors entries index item
  | delItem index => exact delItem_mirrors entries index
  | pop index => exact pop_mirrors entries index
  | clear => exact clear_mirrors entries

end Steps

section Runs

variable {Header Utterance Participant : Type} [SpeakerData Participant]
variable {speaker : Utterance → Participant} {items other : List Utterance}

theorem Consistent.subset (consistent : Consistent speaker items) (within : other ⊆ items) :
    Consistent speaker other := fun one isOne another isOther =>
  consistent one (within isOne) another (within isOther)

theorem listOp_subset {op : Op Utterance} {result : Option Utterance} (keeps : op.adds = false)
    (does : listOp items op = some (other, result)) : other ⊆ items := by
  cases op with
  | append item => cases keeps
  | insert index item => cases keeps
  | setItem index item => cases keeps
  | delItem index =>
      rcases Option.map_eq_some_iff.mp does with ⟨k, _, same⟩
      rw [← (Prod.mk.inj same).1]
      exact List.eraseIdx_subset
  | pop index =>
      rcases Option.map_eq_some_iff.mp does with ⟨k, _, same⟩
      rw [← (Prod.mk.inj same).1]
      exact List.eraseIdx_subset
  | clear =>
      rw [← (Prod.mk.inj (Option.some.inj does)).1]
      exact List.nil_subset _

/-- A list call never brings in a conflict. -/
theorem listCall_consistent (items : List Utterance) (next : Call Utterance Participant)
    (consistent : Consistent next.speaker items) :
    Consistent next.speaker (listCall items next).1 := by
  rcases next with ⟨op, speaker⟩
  cases does : listOp items op with
  | none =>
      rw [listCall_of_none does]
      exact consistent
  | some outcome =>
      rcases outcome with ⟨edited, result⟩
      cases adds : op.adds with
      | false =>
          rw [listCall_of_keeps adds does]
          exact consistent.subset (listOp_subset adds does)
      | true =>
          rw [listCall, does]
          dsimp only
          split_ifs with conflict
          · exact consistent
          · exact not_not.mp fun notConsistent => conflict ⟨adds, notConsistent⟩

variable [DecidableEq Participant]

theorem run_append (entries : List (Entry Header Utterance))
    (done calls : List (Call Utterance Participant)) :
    (run entries (done ++ calls)).1 = (run (run entries done).1 calls).1 := by
  induction done generalizing entries with
  | nil => rfl
  | cons next done ih => exact ih (call entries next).1

theorem run_mirrors (entries : List (Entry Header Utterance))
    (calls : List (Call Utterance Participant)) :
    utterances (run entries calls).1 = (listRun (utterances entries) calls).1 ∧
      List.Forall₂ SameResult (run entries calls).2 (listRun (utterances entries) calls).2 ∧
      headers (run entries calls).1 = headers entries := by
  induction calls generalizing entries with
  | nil => exact ⟨rfl, .nil, rfl⟩
  | cons next calls ih =>
      have mirrors := call_mirrors entries next
      rcases ih (call entries next).1 with ⟨sameUtterances, results, sameHeaders⟩
      rw [mirrors.utterances_eq] at sameUtterances results
      exact ⟨sameUtterances, .cons mirrors.result results, sameHeaders.trans mirrors.headers_eq⟩

/-- What holds of one call in a run: a call that raises changes nothing, and no call brings in a
conflict between speakers. -/
structure CallSafe (before : List (Entry Header Utterance)) (next : Call Utterance Participant) :
    Prop where
  undone : ∀ error, (call before next).2 = .error error → (call before next).1 = before
  consistent : Consistent next.speaker (utterances before) →
    Consistent next.speaker (utterances (call before next).1)

theorem call_safe (before : List (Entry Header Utterance)) (next : Call Utterance Participant) :
    CallSafe before next := by
  have mirrors := call_mirrors before next
  refine ⟨mirrors.undone, fun consistent => ?_⟩
  rw [mirrors.utterances_eq]
  exact listCall_consistent _ next consistent

/-- Every run on a collection is the run on the Python list of its utterances. -/
theorem collection_refines_list (entries : List (Entry Header Utterance))
    (calls : List (Call Utterance Participant)) :
    utterances (run entries calls).1 = (listRun (utterances entries) calls).1 ∧
      List.Forall₂ SameResult (run entries calls).2 (listRun (utterances entries) calls).2 ∧
      headers (run entries calls).1 = headers entries ∧
      ∀ (done : List (Call Utterance Participant)) (next : Call Utterance Participant),
        CallSafe (run entries done).1 next ∧
          (run entries (done ++ [next])).1 = (call (run entries done).1 next).1 := by
  rcases run_mirrors entries calls with ⟨sameUtterances, results, sameHeaders⟩
  refine ⟨sameUtterances, results, sameHeaders, fun done next => ⟨call_safe _ next, ?_⟩⟩
  rw [run_append]
  rfl

end Runs

end Batchalign.PyChat
