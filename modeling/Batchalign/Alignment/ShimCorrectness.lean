import Batchalign.Alignment.Correctness
import Batchalign.Alignment.Shim

/-!
# When the Python aligner honours its match function

The fallback fills the same table as the core's aligner and splits in the same way, with the
match function in the place of the match mode, so it is optimal for that function. The core
compares texts. Its result is optimal for the match function as long as that function says the
same about the keys as their texts do.
-/

namespace Batchalign.Dp

open Batchalign.Alignment
open EditDistance (Script distance unitGap)

variable {Key Data : Type}

section Spec

/-- The record's key is the item's, as it is or as its text. -/
def RecordKey.Names (str : Key → String) : RecordKey Key → Key → Prop
  | .own key, item => key = item
  | .text shown, item => shown = str item

/-- The records align the two sequences, and pair only items for which the match function is
true. -/
inductive RecordsAlign (str : Key → String) (matchFn : Key → Key → Bool) :
    List (PayloadTarget Key Data) → List (ReferenceTarget Key Data) → List (Record Key Data) →
      Prop where
  | nil : RecordsAlign str matchFn [] [] []
  | isMatch {payItem refItem payload reference records key} (named : key.Names str refItem.key)
      (pair : matchFn refItem.key payItem.key = true)
      (rest : RecordsAlign str matchFn payload reference records) :
      RecordsAlign str matchFn (payItem :: payload) (refItem :: reference)
        (.isMatch key payItem.payload refItem.payload :: records)
  | extraPayload {payItem payload reference records key} (named : key.Names str payItem.key)
      (rest : RecordsAlign str matchFn payload reference records) :
      RecordsAlign str matchFn (payItem :: payload) reference
        (.extra key .payload payItem.payload :: records)
  | extraReference {refItem payload reference records key} (named : key.Names str refItem.key)
      (rest : RecordsAlign str matchFn payload reference records) :
      RecordsAlign str matchFn payload (refItem :: reference)
        (.extra key .reference refItem.payload :: records)

def Record.isExtra : Record Key Data → Bool
  | .isMatch _ _ _ => false
  | .extra _ _ _ => true

/-- A match costs nothing, an extra one, and a substitution is a pair of extras. -/
def totalCost (records : List (Record Key Data)) : ℕ := records.countP Record.isExtra

/-- The records are an alignment under the match function, and none is cheaper. -/
structure MinimumCost (str : Key → String) (matchFn : Key → Key → Bool)
    (payload : List (PayloadTarget Key Data)) (reference : List (ReferenceTarget Key Data))
    (records : List (Record Key Data)) : Prop where
  aligned : RecordsAlign str matchFn payload reference records
  least : ∀ other, RecordsAlign str matchFn payload reference other →
    totalCost records ≤ totalCost other

variable {str : Key → String} {matchFn : Key → Key → Bool}
  {payload payload' : List (PayloadTarget Key Data)}
  {reference reference' : List (ReferenceTarget Key Data)}
  {records records' : List (Record Key Data)}

@[simp]
theorem totalCost_nil : totalCost ([] : List (Record Key Data)) = 0 := rfl

@[simp]
theorem totalCost_cons_isMatch (key : RecordKey Key) (p r : Option Data) :
    totalCost (.isMatch key p r :: records) = totalCost records := by
  simp [totalCost, Record.isExtra]

@[simp]
theorem totalCost_cons_extra (key : RecordKey Key) (extraType : ExtraType) (p : Option Data) :
    totalCost (.extra key extraType p :: records) = totalCost records + 1 := by
  simp [totalCost, List.countP_cons, Record.isExtra]

@[simp]
theorem totalCost_append :
    totalCost (records ++ records') = totalCost records + totalCost records' :=
  List.countP_append

theorem RecordsAlign.append (left : RecordsAlign str matchFn payload reference records)
    (right : RecordsAlign str matchFn payload' reference' records') :
    RecordsAlign str matchFn (payload ++ payload') (reference ++ reference')
      (records ++ records') := by
  induction left with
  | nil => exact right
  | isMatch named pair _ ih => exact .isMatch named pair ih
  | extraPayload named _ ih => exact .extraPayload named ih
  | extraReference named _ ih => exact .extraReference named ih

/-- An alignment is an edit script that costs as much, also between images of the keys that match
in the same way. -/
theorem RecordsAlign.script {T : Type} {matched : T → T → Bool} (toKey : Key → T)
    (agree : ∀ r p, matchFn r p = matched (toKey r) (toKey p))
    (aligned : RecordsAlign str matchFn payload reference records) :
    Script unitGap matched (reference.map fun r => toKey r.key) (payload.map fun p => toKey p.key)
      (totalCost records) := by
  induction aligned with
  | nil => exact .nil
  | isMatch _ pair _ ih =>
      rw [totalCost_cons_isMatch]
      exact ih.keep ((agree _ _).symm.trans pair)
  | extraPayload _ _ ih =>
      rw [totalCost_cons_extra]
      exact ih.insert
  | extraReference _ _ ih =>
      rw [totalCost_cons_extra]
      exact ih.drop

/-- Match functions that agree on the keys allow the same alignments. -/
theorem RecordsAlign.congr {other : Key → Key → Bool}
    (agree : ∀ r ∈ reference, ∀ p ∈ payload, matchFn r.key p.key = other r.key p.key)
    (aligned : RecordsAlign str matchFn payload reference records) :
    RecordsAlign str other payload reference records := by
  induction aligned with
  | nil => exact .nil
  | isMatch named pair _ ih =>
      refine .isMatch named ?_ (ih ?_)
      · rw [← agree _ List.mem_cons_self _ List.mem_cons_self]
        exact pair
      · exact fun r isRef p isPay =>
          agree r (List.mem_cons_of_mem _ isRef) p (List.mem_cons_of_mem _ isPay)
  | extraPayload named _ ih =>
      refine .extraPayload named (ih ?_)
      exact fun r isRef p isPay => agree r isRef p (List.mem_cons_of_mem _ isPay)
  | extraReference named _ ih =>
      refine .extraReference named (ih ?_)
      exact fun r isRef p isPay => agree r (List.mem_cons_of_mem _ isRef) p isPay

theorem MinimumCost.congr {other : Key → Key → Bool}
    (agree : ∀ r ∈ reference, ∀ p ∈ payload, matchFn r.key p.key = other r.key p.key)
    (minimum : MinimumCost str matchFn payload reference records) :
    MinimumCost str other payload reference records := by
  refine ⟨minimum.aligned.congr agree, ?_⟩
  intro records' aligned
  apply minimum.least
  exact aligned.congr fun r isRef p isPay => (agree r isRef p isPay).symm

/-- An alignment that costs as much as the distance of the keys. -/
def Optimal (str : Key → String) (matchFn : Key → Key → Bool)
    (payload : List (PayloadTarget Key Data)) (reference : List (ReferenceTarget Key Data))
    (records : List (Record Key Data)) : Prop :=
  RecordsAlign str matchFn payload reference records ∧
    totalCost records =
      distance unitGap matchFn (reference.map ReferenceTarget.key) (payload.map PayloadTarget.key)

theorem Optimal.minimumCost (optimal : Optimal str matchFn payload reference records) :
    MinimumCost str matchFn payload reference records := by
  refine ⟨optimal.1, ?_⟩
  intro other aligned
  rw [optimal.2]
  exact (aligned.script id fun _ _ => rfl).distance_le

theorem optimal_extraPayload_all (str : Key → String) (matchFn : Key → Key → Bool)
    (payload : List (PayloadTarget Key Data)) :
    Optimal str matchFn payload []
      (payload.map fun p => .extra (.own p.key) .payload p.payload) := by
  constructor
  · induction payload with
    | nil => exact .nil
    | cons p payload ih => exact .extraPayload rfl ih
  · simp [totalCost, List.countP_map, Function.comp_def, Record.isExtra, unitGap]

theorem optimal_extraReference_all (str : Key → String) (matchFn : Key → Key → Bool)
    (reference : List (ReferenceTarget Key Data)) :
    Optimal str matchFn [] reference
      (reference.map fun r => .extra (.own r.key) .reference r.payload) := by
  constructor
  · induction reference with
    | nil => exact .nil
    | cons r reference ih => exact .extraReference rfl ih
  · simp [totalCost, List.countP_map, Function.comp_def, Record.isExtra, unitGap]

/-- Optimal records for the two sides of a cut that loses nothing are so together. -/
theorem Optimal.append_of_cut {split mid : ℕ}
    (cut : distance unitGap matchFn (reference.map ReferenceTarget.key)
        (payload.map PayloadTarget.key) =
      distance unitGap matchFn ((reference.map ReferenceTarget.key).take mid)
          ((payload.map PayloadTarget.key).take split) +
        distance unitGap matchFn ((reference.map ReferenceTarget.key).drop mid)
          ((payload.map PayloadTarget.key).drop split))
    (left : Optimal str matchFn (payload.take split) (reference.take mid) records)
    (right : Optimal str matchFn (payload.drop split) (reference.drop mid) records') :
    Optimal str matchFn payload reference (records ++ records') := by
  constructor
  · have whole := left.1.append right.1
    rwa [List.take_append_drop, List.take_append_drop] at whole
  · rw [totalCost_append, left.2, right.2, cut]
    simp only [List.map_take, List.map_drop]

end Spec

section Entries

variable {Threshold T : Type} [Alignable Threshold T] {mode : MatchMode Threshold}

/-- The record of an entry of the core's aligner, with the key named in some way. -/
def namedRecord (named : String → Key → RecordKey Key) (payload : List (PayloadTarget Key Data))
    (reference : List (ReferenceTarget Key Data)) : AlignResult → Option (Record Key Data)
  | .matchPair key payloadIdx referenceIdx => do
      let p ← payload[payloadIdx]?
      let r ← reference[referenceIdx]?
      return .isMatch (named key r.key) p.payload r.payload
  | .extraPayload key payloadIdx => do
      let p ← payload[payloadIdx]?
      return .extra (named key p.key) .payload p.payload
  | .extraReference key referenceIdx => do
      let r ← reference[referenceIdx]?
      return .extra (named key r.key) .reference r.payload

theorem exists_of_cons_eq_map_drop {α : Type} {items : List α} {f : α → T} {n : ℕ} {x : T}
    {xs : List T} (isCons : x :: xs = (items.drop n).map f) :
    ∃ item, items[n]? = some item ∧ items.drop n = item :: items.drop (n + 1) ∧ x = f item ∧
      xs = (items.drop (n + 1)).map f := by
  rcases List.map_eq_cons_iff.mp isCons.symm with ⟨item, rest, cut, isX, isRest⟩
  have atN : items[n]? = some item := by
    rw [← List.head?_drop, cut, List.head?_cons]
  have isTail : items.drop (n + 1) = rest := by
    rw [← List.tail_drop, cut, List.tail_cons]
  exact ⟨item, atN, by rw [cut, isTail], isX.symm, by rw [isTail, isRest]⟩

/-- The entries of an alignment of the keys have records, and these align the items. -/
theorem exists_records_of_aligned {str : Key → String} {matchFn : Key → Key → Bool}
    {named : String → Key → RecordKey Key} {payItems : List (PayloadTarget Key Data)}
    {refItems : List (ReferenceTarget Key Data)} (toKey : Key → T)
    (agree : ∀ r p, matchFn r p = Alignable.isMatch (toKey r) (toKey p) mode)
    (names : ∀ key : Key, (named (Alignable.toKey Threshold (toKey key)) key).Names str key)
    {payKeys refKeys : List T} {payOffset refOffset : ℕ} {results : List AlignResult}
    (aligned : Aligned mode payKeys refKeys payOffset refOffset results)
    (isPay : payKeys = (payItems.drop payOffset).map fun p => toKey p.key)
    (isRef : refKeys = (refItems.drop refOffset).map fun r => toKey r.key) :
    ∃ records, results.mapM (namedRecord named payItems refItems) = some records ∧
      RecordsAlign str matchFn (payItems.drop payOffset) (refItems.drop refOffset) records ∧
      totalCost records = unmatched results := by
  induction aligned with
  | nil =>
      rw [eq_comm, List.map_eq_nil_iff] at isPay isRef
      rw [isPay, isRef]
      exact ⟨[], rfl, .nil, rfl⟩
  | matchPair pair _ ih =>
      rcases exists_of_cons_eq_map_drop isPay with ⟨p, atPay, cutPay, rfl, restPay⟩
      rcases exists_of_cons_eq_map_drop isRef with ⟨r, atRef, cutRef, rfl, restRef⟩
      rcases ih restPay restRef with ⟨records, mapped, alignedRest, counted⟩
      refine ⟨.isMatch (named (Alignable.toKey Threshold (toKey r.key)) r.key) p.payload
        r.payload :: records, ?_, ?_, ?_⟩
      · simp [namedRecord, atPay, atRef, mapped]
      · rw [cutPay, cutRef]
        exact .isMatch (names r.key) ((agree r.key p.key).trans pair) alignedRest
      · rw [totalCost_cons_isMatch, unmatched_cons_matchPair, counted]
  | extraPayload _ ih =>
      rcases exists_of_cons_eq_map_drop isPay with ⟨p, atPay, cutPay, rfl, restPay⟩
      rcases ih restPay isRef with ⟨records, mapped, alignedRest, counted⟩
      refine ⟨.extra (named (Alignable.toKey Threshold (toKey p.key)) p.key) .payload p.payload ::
        records, ?_, ?_, ?_⟩
      · simp [namedRecord, atPay, mapped]
      · rw [cutPay]
        exact .extraPayload (names p.key) alignedRest
      · rw [totalCost_cons_extra, unmatched_cons_extraPayload, counted]
  | extraReference _ ih =>
      rcases exists_of_cons_eq_map_drop isRef with ⟨r, atRef, cutRef, rfl, restRef⟩
      rcases ih isPay restRef with ⟨records, mapped, alignedRest, counted⟩
      refine ⟨.extra (named (Alignable.toKey Threshold (toKey r.key)) r.key) .reference r.payload ::
        records, ?_, ?_, ?_⟩
      · simp [namedRecord, atRef, mapped]
      · rw [cutRef]
        exact .extraReference (names r.key) alignedRest
      · rw [totalCost_cons_extra, unmatched_cons_extraReference, counted]

end Entries

section Table

theorem pushFold_comp {α β γ : Type} (entry : List γ → β → ℕ → γ) (start : List γ) (f : α → β)
    (xs : List α) :
    pushFold (fun built x i => entry built (f x) i) start xs =
      pushFold entry start (xs.map f) := by
  simp [pushFold, List.zipIdx_map, List.foldl_map]

/-- Pushing converted entries is converting what is pushed. -/
theorem pushFold_map {α β γ : Type} {entry : List β → α → ℕ → β} {converted : List γ → α → ℕ → γ}
    {convert : β → γ} (step : ∀ built x i,
      converted (built.map convert) x i = convert (entry built x i))
    (start : List β) (xs : List α) :
    pushFold converted (start.map convert) xs = (pushFold entry start xs).map convert := by
  induction xs using List.reverseRecOn with
  | nil => rfl
  | append_singleton xs x ih =>
      rw [pushFold_concat, pushFold_concat, ih, step, List.map_append, List.map_singleton]

theorem getD_map_convert {β γ : Type} (convert : β → γ) (values : List β) (k : ℕ)
    (fallback : β) :
    (values.map convert).getD k (convert fallback) = convert (values.getD k fallback) := by
  simp [List.getD]

variable [Alignable Unit Key]

/-- The match function as the core's aligner has it. -/
abbrev refMatch : Key → Key → Bool := refMatches (MatchMode.exact : MatchMode Unit)

/-- An entry of the core's table as one of the fallback's. -/
def entryOf (cell : Cell) : Entry where
  dist := cell.cost
  action := match cell.action with
    | .start => none
    | .matched => some .isMatch
    | .substitution => some .extraBoth
    | .extraPayload => some .extraPayload
    | .extraReference => some .extraReference
  prev := match cell.action with
    | .start => none
    | _ => some (cell.row, cell.col)

theorem nextEntry_eq (refKey payKey : Key) (i j diagonal up left : ℕ) :
    nextEntry (refMatch refKey payKey) i j diagonal up left =
      entryOf (nextCell (MatchMode.exact : MatchMode Unit) refKey payKey i j diagonal up left) := by
  have same : cost (refMatch refKey payKey) =
      subCost (MatchMode.exact : MatchMode Unit) refKey payKey := rfl
  simp only [nextEntry, nextCell, same]
  generalize subCost (MatchMode.exact : MatchMode Unit) refKey payKey = sub
  by_cases onDiagonal : diagonal + sub ≤ up + costGap ∧ diagonal + sub ≤ left + costGap
  · rw [if_pos onDiagonal]
    apply (if_pos onDiagonal).trans
    by_cases pair : Alignable.isMatch refKey payKey (MatchMode.exact : MatchMode Unit) = true
    · simp [refMatches, pair, entryOf]
    · simp [refMatches, pair, entryOf]
  · rw [if_neg onDiagonal]
    apply (if_neg onDiagonal).trans
    by_cases fromAbove : up + costGap ≤ diagonal + sub ∧ up + costGap ≤ left + costGap
    · rw [if_pos fromAbove]
      exact if_pos fromAbove
    · rw [if_neg fromAbove]
      exact if_neg fromAbove

theorem firstRow_eq (cols : ℕ) :
    firstRow cols = (Alignment.firstRow cols).map entryOf := by
  rw [firstRow, Alignment.firstRow, List.map_map]
  apply List.map_congr_left
  intro j _
  by_cases origin : j = 0
  · simp [origin, entryOf, Cell.initial, Entry.blank]
  · simp [origin, entryOf, costGap]

theorem fillRow_eq (payload : List (PayloadTarget Key Data)) (above : List Cell)
    (refItem : ReferenceTarget Key Data) (i : ℕ) :
    fillRow refMatch payload (above.map entryOf) refItem i =
      (Alignment.fillRow (MatchMode.exact : MatchMode Unit) (payload.map PayloadTarget.key) above
        refItem.key i).map entryOf := by
  rw [fillRow, Alignment.fillRow, ← pushFold_comp]
  have first : [(⟨i, some .extraReference, some (i - 1, 0)⟩ : Entry)] =
      [(⟨i * costGap, .extraReference, i - 1, 0⟩ : Cell)].map entryOf := by
    simp [entryOf, costGap]
  rw [first]
  apply pushFold_map
  intro row payItem k
  have blank : Entry.blank = entryOf Cell.initial := rfl
  simp only [blank, getD_map_convert]
  exact nextEntry_eq _ _ _ _ _ _ _

theorem fillTable_eq (reference : List (ReferenceTarget Key Data))
    (payload : List (PayloadTarget Key Data)) :
    fillTable refMatch reference payload =
      (Alignment.fillTable (MatchMode.exact : MatchMode Unit) (payload.map PayloadTarget.key)
        (reference.map ReferenceTarget.key)).map (List.map entryOf) := by
  rw [fillTable, Alignment.fillTable, ← pushFold_comp, List.length_map, firstRow_eq]
  refine pushFold_map ?_ [Alignment.firstRow (payload.length + 1)] reference
  intro table refItem k
  have row : (table.map (List.map entryOf)).getD k [] = (table.getD k []).map entryOf :=
    getD_map_convert (List.map entryOf) table k []
  rw [row]
  exact fillRow_eq payload _ refItem _

end Table

section WayBack

variable [Alignable Unit Key]

theorem mapM_reverse {α β : Type} (f : α → Option β) (xs : List α) :
    xs.reverse.mapM f = (xs.mapM f).map List.reverse := by
  induction xs with
  | nil => rfl
  | cons x xs ih =>
      rw [List.reverse_cons, List.mapM_append, ih]
      cases rest : xs.mapM f <;> cases first : f x <;> simp [rest, first]

/-- The records appended at an entry are those of what the core emits there. -/
theorem appended_eq (reference : List (ReferenceTarget Key Data))
    (payload : List (PayloadTarget Key Data)) (cell : Cell) :
    appended reference payload cell.row cell.col (entryOf cell).action =
      ((emit Unit (payload.map PayloadTarget.key) (reference.map ReferenceTarget.key) 0 0
        cell).getD []).mapM (namedRecord (fun _ key => .own key) payload reference) := by
  rcases cell with ⟨dist, action, row, col⟩
  cases action with
  | start => rfl
  | matched =>
      cases atPay : payload[col]? <;> cases atRef : reference[row]? <;>
        simp [appended, entryOf, emit, namedRecord, atPay, atRef]
  | substitution =>
      cases atPay : payload[col]? <;> cases atRef : reference[row]? <;>
        simp [appended, entryOf, emit, namedRecord, atPay, atRef]
  | extraPayload =>
      cases atPay : payload[col]? <;> simp [appended, entryOf, emit, namedRecord, atPay]
  | extraReference =>
      cases atRef : reference[row]? <;> simp [appended, entryOf, emit, namedRecord, atRef]

theorem emit_eq_none_iff (payKeys refKeys : List Key) (cell : Cell) :
    emit Unit payKeys refKeys 0 0 cell = none ↔ (entryOf cell).prev = none := by
  rcases cell with ⟨dist, action, row, col⟩
  cases action <;> simp [emit, entryOf]

theorem entryOf_prev {payKeys refKeys : List Key} {cell : Cell} {pushed : List AlignResult}
    (emitted : emit Unit payKeys refKeys 0 0 cell = some pushed) :
    (entryOf cell).prev = some (cell.row, cell.col) := by
  rcases cell with ⟨dist, action, row, col⟩
  cases action with
  | start => cases emitted
  | matched | substitution | extraPayload | extraReference => rfl

omit [Alignable Unit Key] in
theorem getD_entries (table : List (List Cell)) (i j : ℕ) :
    ((table.map (List.map entryOf)).getD i []).getD j Entry.blank =
      entryOf ((table.getD i []).getD j Cell.initial) := by
  have row : (table.map (List.map entryOf)).getD i [] = (table.getD i []).map entryOf :=
    getD_map_convert (List.map entryOf) table i []
  rw [row]
  exact getD_map_convert entryOf (table.getD i []) j Cell.initial

/-- The way back through the converted table gives the records of the core's traceback. -/
theorem wayBack_eq {table : List (List Cell)}
    (origin : ((table.getD 0 []).getD 0 Cell.initial).action = .start)
    (reference : List (ReferenceTarget Key Data)) (payload : List (PayloadTarget Key Data))
    (fuel i j : ℕ) :
    wayBack (table.map (List.map entryOf)) reference payload fuel
        (entryOf ((table.getD i []).getD j Cell.initial)) =
      (traceback Unit table (payload.map PayloadTarget.key) (reference.map ReferenceTarget.key) 0 0
        fuel i j).mapM (namedRecord (fun _ key => .own key) payload reference) := by
  induction fuel generalizing i j with
  | zero => rfl
  | succ fuel ih =>
      by_cases moving : i > 0 ∨ j > 0
      · rw [traceback, if_pos moving, wayBack]
        generalize (table.getD i []).getD j Cell.initial = cell
        have step := appended_eq reference payload cell
        cases emitted : emit Unit (payload.map PayloadTarget.key)
            (reference.map ReferenceTarget.key) 0 0 cell with
        | none => simp [emitted, (emit_eq_none_iff _ _ cell).mp emitted]
        | some pushed =>
            rw [emitted, Option.getD_some] at step
            simp only [emitted, entryOf_prev emitted, step, getD_entries, ih, List.mapM_append]
      · have atOrigin : i = 0 ∧ j = 0 := by omega
        rcases atOrigin with ⟨rfl, rfl⟩
        have stops : (entryOf ((table.getD 0 []).getD 0 Cell.initial)).prev = none := by
          simp only [entryOf, origin]
        rw [traceback, if_neg moving, wayBack, stops]
        rfl

/-- The small alignment of the fallback is that of the core, record by record. -/
theorem alignSmall_eq (reference : List (ReferenceTarget Key Data))
    (payload : List (PayloadTarget Key Data)) :
    alignSmall refMatch reference payload =
      (Alignment.alignSmall (MatchMode.exact : MatchMode Unit) (payload.map PayloadTarget.key)
        (reference.map ReferenceTarget.key) 0 0).mapM
          (namedRecord (fun _ key => .own key) payload reference) := by
  have origin : (((Alignment.fillTable (MatchMode.exact : MatchMode Unit)
      (payload.map PayloadTarget.key) (reference.map ReferenceTarget.key)).getD 0 []).getD 0
        Cell.initial).action = .start := by
    rw [fillTable_getD _ _ _ (Nat.zero_le _) (Nat.zero_le _)]
    rfl
  have traced := wayBack_eq origin reference payload (reference.length + payload.length)
    reference.length payload.length
  simp only [Alignment.alignSmall, mapM_reverse, List.length_map, ← traced, alignSmall,
    fillTable_eq, getD_entries]

end WayBack

section Optimal

variable [Alignable Unit Key]

theorem alignSmall_optimal {str : Key → String} (reference : List (ReferenceTarget Key Data))
    (payload : List (PayloadTarget Key Data)) :
    ∃ records, alignSmall refMatch reference payload = some records ∧
      Optimal str refMatch payload reference records := by
  rcases Alignment.alignSmall_optimal (MatchMode.exact : MatchMode Unit)
    (payload.map PayloadTarget.key) (reference.map ReferenceTarget.key) 0 0 with ⟨aligned, counted⟩
  have agree : ∀ r p : Key, refMatch r p =
      Alignable.isMatch (id r) (id p) (MatchMode.exact : MatchMode Unit) := fun _ _ => rfl
  rcases @exists_records_of_aligned _ _ _ _ _ _ str _ (fun _ key => .own key) payload reference
    id agree (fun _ => rfl) _ _ _ _ _ aligned rfl rfl with ⟨records, mapped, recordsAlign, cost⟩
  refine ⟨records, (alignSmall_eq reference payload).trans mapped, recordsAlign, ?_⟩
  rw [cost, counted]

theorem rowCosts_eq (reference : List (ReferenceTarget Key Data))
    (payload : List (PayloadTarget Key Data)) :
    rowCosts refMatch reference payload =
      Alignment.rowCosts (MatchMode.exact : MatchMode Unit) (reference.map ReferenceTarget.key)
        (payload.map PayloadTarget.key) := by
  induction reference using List.reverseRecOn with
  | nil => simp [rowCosts, Alignment.rowCosts]
  | append_singleton reference refItem ih =>
      have first : (Alignment.rowCosts (MatchMode.exact : MatchMode Unit)
          (reference.map ReferenceTarget.key) (payload.map PayloadTarget.key)).getD 0 0 =
            reference.length := by
        rw [rowCosts_getD _ _ _ (Nat.zero_le _)]
        simp [unitGap]
      rw [List.map_append, List.map_singleton]
      simp only [rowCosts, List.zipIdx_append, List.foldl_append] at ih ⊢
      rw [ih]
      simp only [Alignment.rowCosts, List.foldl_append] at first ⊢
      simp only [List.zipIdx_singleton, List.foldl_cons, List.foldl_nil, rowStep, first]
      rw [← pushFold_comp, Nat.zero_add]
      rfl

theorem splitPoint_eq (reference : List (ReferenceTarget Key Data))
    (payload : List (PayloadTarget Key Data)) (mid : ℕ) :
    (bestSplit (rowCosts refMatch (reference.take mid) payload)
        (rowCosts refMatch (reference.drop mid).reverse payload.reverse) payload.length).1 =
      (bestSplit
        (Alignment.rowCosts (MatchMode.exact : MatchMode Unit)
          ((reference.map ReferenceTarget.key).take mid) (payload.map PayloadTarget.key))
        (rowCostsRev (MatchMode.exact : MatchMode Unit)
          ((reference.map ReferenceTarget.key).drop mid) (payload.map PayloadTarget.key))
        (payload.map PayloadTarget.key).length).1 := by
  rw [rowCosts_eq, rowCosts_eq, List.map_take, List.map_reverse, List.map_reverse, List.map_drop,
    List.length_map]
  simp only [Alignment.rowCosts, rowCostsRev, List.length_reverse]

/-- The recursion is on the reference, as in the core. -/
theorem hirschberg_optimal {str : Key → String} (reference : List (ReferenceTarget Key Data))
    (payload : List (PayloadTarget Key Data)) (smallCutoff : ℕ) :
    ∃ records, hirschberg refMatch reference payload smallCutoff = some records ∧
      Optimal str refMatch payload reference records := by
  induction size : reference.length using Nat.strong_induction_on
    generalizing reference payload with
  | h size' ih =>
      subst size
      rw [hirschberg]
      split
      · next empty =>
        rw [List.isEmpty_iff] at empty
        subst empty
        exact ⟨_, rfl, optimal_extraPayload_all str refMatch payload⟩
      · split
        · next empty =>
          rw [List.isEmpty_iff] at empty
          subst empty
          exact ⟨_, rfl, optimal_extraReference_all str refMatch reference⟩
        · split
          · exact alignSmall_optimal reference payload
          · next large =>
            have long : 1 < reference.length := by
              by_contra short
              exact large (Or.inl (Nat.not_lt.mp short))
            rcases distance_bestSplit (MatchMode.exact : MatchMode Unit)
              (payload.map PayloadTarget.key) (reference.map ReferenceTarget.key)
              (reference.length / 2) with ⟨-, cut⟩
            rw [← splitPoint_eq] at cut
            dsimp only
            generalize (bestSplit _ _ payload.length).1 = split at cut ⊢
            rcases ih _ (by rw [List.length_take]; omega) (reference.take (reference.length / 2))
              (payload.take split) rfl with ⟨left, leftEq, leftOptimal⟩
            rcases ih _ (by rw [List.length_drop]; omega) (reference.drop (reference.length / 2))
              (payload.drop split) rfl with ⟨right, rightEq, rightOptimal⟩
            refine ⟨left ++ right, by simp [leftEq, rightEq], ?_⟩
            exact leftOptimal.append_of_cut cut rightOptimal

end Optimal

section Fallback

/-- The match function as a match mode of its own. -/
@[reducible] def keyMatch (matchFn : Key → Key → Bool) : Alignable Unit Key where
  isMatch refKey payKey _ := matchFn refKey payKey
  toKey _ := ""

/-- The fallback always returns, and at minimum cost under any match function. -/
theorem exists_hirschberg_optimal (str : Key → String) (matchFn : Key → Key → Bool)
    (reference : List (ReferenceTarget Key Data)) (payload : List (PayloadTarget Key Data))
    (smallCutoff : ℕ) :
    ∃ records, hirschberg matchFn reference payload smallCutoff = some records ∧
      Optimal str matchFn payload reference records :=
  @hirschberg_optimal _ _ (keyMatch matchFn) str reference payload smallCutoff

end Fallback

section FastPath

variable (Threshold : Type) [Similarity Threshold]

/-- The texts of two keys are equal. -/
def sameText (str : Key → String) (refKey payKey : Key) : Bool := str refKey == str payKey

theorem symmetricMatch_exact :
    SymmetricMatch (MatchMode.exact : MatchMode Threshold) String := by
  intro a b
  change (a == b) = (b == a)
  exact Bool.beq_comm

theorem recordOfEntry_eq (payload : List (PayloadTarget Key Data))
    (reference : List (ReferenceTarget Key Data)) :
    recordOfEntry payload reference = namedRecord (fun key _ => .text key) payload reference := by
  funext entry
  cases entry <;> rfl

/-- The core's records are at minimum cost for equality of the texts. -/
theorem exists_dpAlign_minimumCost (str : Key → String)
    (payload : List (PayloadTarget Key Data)) (reference : List (ReferenceTarget Key Data)) :
    ∃ records,
      (dpAlign Threshold (payload.map fun p => str p.key) (reference.map fun r => str r.key)
        false).mapM (recordOfEntry payload reference) = some records ∧
      MinimumCost str (sameText str) payload reference records := by
  have optimal := alignGeneric_optimal (symmetricMatch_exact Threshold)
    (payload.map fun p => str p.key) (reference.map fun r => str r.key)
  have agree : ∀ r p : Key, sameText str r p =
      Alignable.isMatch (str r) (str p) (MatchMode.exact : MatchMode Threshold) :=
    fun _ _ => rfl
  rcases @exists_records_of_aligned _ _ _ _ _ _ str _ (fun key _ => .text key) payload reference
    str agree (fun _ => rfl) _ _ _ _ _ optimal.1 rfl rfl with
    ⟨records, mapped, recordsAlign, cost⟩
  rw [recordOfEntry_eq]
  refine ⟨records, mapped, recordsAlign, ?_⟩
  intro other otherAligned
  rw [cost, optimal.2]
  exact (otherAligned.script str agree).distance_le

/-- `align` returns records at minimum cost under the match function it is given. -/
def Honours (interpreter : Interpreter Key) (sequences : Sequences Key Data)
    (matchFn : MatchFn Key) : Prop :=
  ∃ records, align Threshold interpreter sequences (some matchFn) = .ok records ∧
    MinimumCost interpreter.str matchFn.call sequences.payload sequences.reference records

/-- The match function has a qualified name. If that is the name of a lambda of a module and the
core is there, the function says of the two keys whether their texts are equal. -/
def HonouredAt (interpreter : Interpreter Key) (matchFn : MatchFn Key) (refKey payKey : Key) :
    Prop :=
  ∃ name, matchFn.qualname = some name ∧
    (name = "<lambda>" → interpreter.coreBuilt = true →
      matchFn.call refKey payKey = sameText interpreter.str refKey payKey)

section Dispatch

variable {interpreter : Interpreter Key} {payload : List (PayloadTarget Key Data)}
  {reference : List (ReferenceTarget Key Data)} {matchFn : MatchFn Key} {name : String}

/-- A custom function, and any if the core is missing, is left to the fallback. -/
theorem tryRustAlign_of_custom (named : matchFn.qualname = some name)
    (custom : name ≠ "<lambda>" ∨ interpreter.coreBuilt = false) :
    tryRustAlign Threshold interpreter payload reference (some matchFn) = .ok none := by
  by_cases lambda : name = "<lambda>"
  · have missing := custom.resolve_left (not_not.mpr lambda)
    simp [tryRustAlign, isCustom, named, lambda, missing, bind, Except.bind, pure, Except.pure]
  · simp [tryRustAlign, isCustom, named, lambda, bind, Except.bind, pure, Except.pure]

theorem tryRustAlign_of_lambda (named : matchFn.qualname = some "<lambda>")
    (built : interpreter.coreBuilt = true) :
    ∃ records, tryRustAlign Threshold interpreter payload reference (some matchFn) =
        .ok (some records) ∧
      MinimumCost interpreter.str (sameText interpreter.str) payload reference records := by
  rcases exists_dpAlign_minimumCost Threshold interpreter.str payload reference with
    ⟨records, mapped, minimum⟩
  refine ⟨records, ?_, minimum⟩
  simp [tryRustAlign, isCustom, named, built, mapped, indexed, bind, Except.bind, pure,
    Except.pure]

end Dispatch

/-- Where the function is honoured at all pairs of keys, it is honoured. -/
theorem honours_of_honouredAt {interpreter : Interpreter Key} {sequences : Sequences Key Data}
    {matchFn : MatchFn Key}
    (honoured : ∀ r ∈ sequences.reference, ∀ p ∈ sequences.payload,
      HonouredAt interpreter matchFn r.key p.key) :
    Honours Threshold interpreter sequences matchFn := by
  simp only [Honours, align]
  generalize sequences.payload = payload at honoured ⊢
  generalize sequences.reference = reference at honoured ⊢
  split
  · next empty =>
    rw [List.isEmpty_iff.mp empty]
    exact ⟨_, rfl, (optimal_extraReference_all _ _ reference).minimumCost⟩
  · split
    · next empty =>
      rw [List.isEmpty_iff.mp empty]
      exact ⟨_, rfl, (optimal_extraPayload_all _ _ payload).minimumCost⟩
    · next somePayload someReference =>
      rcases List.exists_mem_of_ne_nil payload (by simpa using somePayload) with ⟨p, isPay⟩
      rcases List.exists_mem_of_ne_nil reference (by simpa using someReference) with ⟨r, isRef⟩
      rcases honoured r isRef p isPay with ⟨name, named, -⟩
      by_cases fast : name = "<lambda>" ∧ interpreter.coreBuilt = true
      · rcases fast with ⟨rfl, built⟩
        rcases tryRustAlign_of_lambda Threshold named built with ⟨records, returned, minimum⟩
        rw [returned]
        refine ⟨records, rfl, minimum.congr ?_⟩
        intro r isRef p isPay
        rcases honoured r isRef p isPay with ⟨name, isName, sameAsText⟩
        cases named.symm.trans isName
        exact (sameAsText rfl built).symm
      · have custom : name ≠ "<lambda>" ∨ interpreter.coreBuilt = false := by
          by_cases lambda : name = "<lambda>"
          · exact .inr (by simpa using fun built => fast ⟨lambda, built⟩)
          · exact .inl lambda
        rw [tryRustAlign_of_custom Threshold named custom]
        rcases exists_hirschberg_optimal interpreter.str matchFn.call reference payload 2048 with
          ⟨records, returned, optimal⟩
        refine ⟨records, ?_, optimal.minimumCost⟩
        simp [returned, indexed, bind, Except.bind]

/-- Equal keys can all be paired. -/
theorem exists_free_of_keys_eq (reflexive : ∀ key, matchFn key key = true)
    (same : payload.map PayloadTarget.key = reference.map ReferenceTarget.key) :
    ∃ records, RecordsAlign str matchFn payload reference records ∧ totalCost records = 0 := by
  induction payload generalizing reference with
  | nil =>
      cases List.map_eq_nil_iff.mp same.symm
      exact ⟨[], .nil, rfl⟩
  | cons payItem payload ih =>
      cases reference with
      | nil => cases same
      | cons refItem reference =>
          rw [List.map_cons, List.map_cons, List.cons.injEq] at same
          rcases ih same.2 with ⟨records, aligned, free⟩
          refine ⟨.isMatch (.own refItem.key) payItem.payload refItem.payload :: records, ?_, ?_⟩
          · refine .isMatch rfl ?_ aligned
            rw [same.1]
            exact reflexive _
          · rw [totalCost_cons_isMatch, free]

/-- One item on each side is matched exactly when the match function is true of them. -/
theorem MinimumCost.single {str : Key → String} {call : Key → Key → Bool}
    {p : PayloadTarget Key Data} {r : ReferenceTarget Key Data}
    {records : List (Record Key Data)} (minimum : MinimumCost str call [p] [r] records) :
    call r.key p.key = true ↔ totalCost records = 0 := by
  constructor
  · intro pair
    have cheap : RecordsAlign str call [p] [r] [.isMatch (.own r.key) p.payload r.payload] :=
      .isMatch rfl pair .nil
    have bound := minimum.least _ cheap
    rw [totalCost_cons_isMatch, totalCost_nil] at bound
    omega
  · intro free
    cases minimum.aligned with
    | isMatch _ pair _ => exact pair
    | extraPayload _ _ =>
        rw [totalCost_cons_extra] at free
        omega
    | extraReference _ _ =>
        rw [totalCost_cons_extra] at free
        omega

/-- For one key on each side the condition is exact. -/
theorem honours_single_iff {interpreter : Interpreter Key} {matchFn : MatchFn Key}
    {refKey payKey : Key} :
    Honours Threshold interpreter (.plain [payKey] [refKey] : Sequences Key Data) matchFn ↔
      HonouredAt interpreter matchFn refKey payKey := by
  constructor
  · rintro ⟨records, returned, minimum⟩
    simp only [align, Sequences.payload, Sequences.reference, List.map_cons, List.map_nil,
      List.isEmpty_cons, Bool.false_eq_true, if_false] at returned minimum
    cases named : matchFn.qualname with
    | none =>
        simp [tryRustAlign, isCustom, named, bind, Except.bind] at returned
    | some name =>
        refine ⟨name, named, ?_⟩
        rintro rfl built
        rcases @tryRustAlign_of_lambda _ _ Threshold _ interpreter [⟨payKey, none⟩]
          [⟨refKey, none⟩] _ named built with ⟨others, returnedOthers, minimumText⟩
        rw [returnedOthers] at returned
        cases returned
        rw [Bool.eq_iff_iff]
        exact minimum.single.trans minimumText.single.symm
  · intro honoured
    apply honours_of_honouredAt
    intro r isRef p isPay
    simp only [Sequences.payload, Sequences.reference, List.map_cons, List.map_nil,
      List.mem_singleton] at isRef isPay
    rw [isRef, isPay]
    exact honoured

/-- `align` honours a match function on all sequences whose keys it is honoured at, and on all
sequences exactly when it is honoured at all keys. -/
theorem align_honours_iff (interpreter : Interpreter Key) (matchFn : MatchFn Key) :
    (∀ sequences : Sequences Key Data,
      (∀ r ∈ sequences.reference, ∀ p ∈ sequences.payload,
        HonouredAt interpreter matchFn r.key p.key) →
      Honours Threshold interpreter sequences matchFn) ∧
    ((∀ sequences : Sequences Key Data, Honours Threshold interpreter sequences matchFn) ↔
      ∀ refKey payKey : Key, HonouredAt interpreter matchFn refKey payKey) := by
  refine ⟨fun sequences => honours_of_honouredAt Threshold, ?_⟩
  constructor
  · intro always refKey payKey
    exact (honours_single_iff Threshold).mp (always (.plain [payKey] [refKey]))
  · intro honoured sequences
    apply honours_of_honouredAt
    exact fun r _ p _ => honoured r.key p.key

end FastPath

section Instances

/-- Keys of two types whose texts may be equal. -/
inductive Scalar where
  | int (value : ℕ)
  | str (value : String)
deriving DecidableEq, Repr

def Scalar.show : Scalar → String
  | .int value => toString value
  | .str value => value

/-- A lambda of a module that ignores case. -/
def ignoreCase : MatchFn Scalar where
  call x y := eqIgnoreAsciiCase x.show y.show
  qualname := some "<lambda>"

/-- With the core built, `Cat` is not matched with `cat` though the function given is true of
them, and `1` is matched with the text of it though the default function is not. -/
theorem align_ignores_matchFn :
    ¬ Honours ℚ ⟨Scalar.show, true⟩
      (.plain [.str "Cat"] [.str "cat"] : Sequences Scalar Unit) ignoreCase ∧
    ¬ Honours ℚ ⟨Scalar.show, true⟩
      (.plain [.int 1] [.str "1"] : Sequences Scalar Unit) MatchFn.default := by
  constructor
  · rw [honours_single_iff]
    rintro ⟨name, named, sameAsText⟩
    cases named
    have differs := sameAsText rfl rfl
    revert differs
    decide
  · rw [honours_single_iff]
    rintro ⟨name, named, sameAsText⟩
    cases named
    have differs := sameAsText rfl rfl
    revert differs
    decide

end Instances

end Batchalign.Dp
