import Batchalign.Library.Fallible
import Batchalign.Library.Scatter
import Batchalign.Phonetic.Windows

/-!
# Windows and batches do not show

Every unit gets the phones that its window gives it, however the windows are put into batches.
The places that the windows write to are different, so that their order makes no difference.
-/

namespace Batchalign.Phonetic

open Fallible
open Batchalign.Alignment (Similarity)

section Writes

variable {results : List PhoneticResult}

def tableOf (results : List PhoneticResult) : List (List String) := results.map PhoneticResult.ipa

def put (results : List PhoneticResult) (write : (ℕ × ℕ) × String) : List PhoneticResult :=
  results.modify write.1.1 fun result => { result with ipa := result.ipa.set write.1.2 write.2 }

theorem tableOf_put (write : (ℕ × ℕ) × String) :
    tableOf (put results write) = Scatter.write (tableOf results) write := by
  rw [tableOf, tableOf, put, Scatter.write]
  apply List.ext_getElem?
  intro row
  rw [List.getElem?_map, List.getElem?_modify, List.getElem?_modify, List.getElem?_map]
  by_cases here : write.1.1 = row
  · cases results[row]? <;> simp [here]
  · cases results[row]? <;> simp [here]

theorem index_put (write : (ℕ × ℕ) × String) :
    (put results write).map PhoneticResult.index = results.map PhoneticResult.index := by
  rw [put]
  apply List.ext_getElem?
  intro row
  rw [List.getElem?_map, List.getElem?_modify, List.getElem?_map]
  by_cases here : write.1.1 = row
  · cases results[row]? <;> simp [here]
  · cases results[row]? <;> simp [here]

theorem assignUnit_eq {write : (ℕ × ℕ) × String}
    (inside : (Scatter.entry (tableOf results) write.1).isSome) :
    assignUnit results write = .ok (put results write) := by
  rw [Scatter.entry, tableOf, List.getElem?_map] at inside
  rw [assignUnit, put]
  cases found : results[write.1.1]? with
  | none => simp [found] at inside
  | some result =>
      have short : write.1.2 < result.ipa.length := by simpa [found] using inside
      dsimp only
      rw [if_pos short, List.modify_eq_set_getElem?, found]
      rfl

/-- Writes inside the table all succeed. -/
theorem foldlM_assignUnit {writes : List ((ℕ × ℕ) × String)}
    (inside : ∀ write ∈ writes, (Scatter.entry (tableOf results) write.1).isSome) :
    ∃ final, writes.foldlM assignUnit results = .ok final ∧
      tableOf final = Scatter.writeAll (tableOf results) writes ∧
      final.map PhoneticResult.index = results.map PhoneticResult.index := by
  induction writes generalizing results with
  | nil => exact ⟨results, rfl, rfl, rfl⟩
  | cons write writes ih =>
      rcases List.forall_mem_cons.mp inside with ⟨first, later⟩
      have stillInside : ∀ write' ∈ writes,
          (Scatter.entry (tableOf (put results write)) write'.1).isSome := by
        intro write' member
        rw [tableOf_put, Scatter.isSome_entry_write]
        exact later write' member
      rcases ih stillInside with ⟨final, applied, table, index⟩
      refine ⟨final, ?_, ?_, index.trans (index_put write)⟩
      · rw [List.foldlM_cons, assignUnit_eq first]
        exact applied
      · rw [table, tableOf_put]
        rfl

end Writes

section Jobs

variable [UnicodeData] (Threshold : Type) [Similarity Threshold] (tools : Tools)
  (item : PhoneticInput) (waveform : List Sample)

/-- What the units of a window show. -/
def jobUnits (job : Job) : Except PhoneticError (List String) := do
  let reference ← jobReference tools item job
  match decodeFrames tools.model (tools.model.frameIds (jobAudio tools item waveform job)) with
  | none => throw .indexError
  | some phones => (projectPhones Threshold tools.coreBuilt phones reference).mapError .projection

/-- The phones of a window. -/
def jobPhones (job : Job) : Option (List String) :=
  decodeFrames tools.model (tools.model.frameIds (jobAudio tools item waveform job))

theorem jobUnits_eq_ok_iff {job : Job} {units : List String} :
    jobUnits Threshold tools item waveform job = .ok units ↔
      ∃ reference phones, jobReference tools item job = .ok reference ∧
        jobPhones tools item waveform job = some phones ∧
        projectPhones Threshold tools.coreBuilt phones reference = .ok units := by
  rw [jobUnits, bind_eq_ok_iff]
  apply exists_congr
  intro reference
  rw [← jobPhones]
  cases jobPhones tools item waveform job with
  | none => simp [throw, throwThe, MonadExceptOf.throw]
  | some phones => simp [mapError_eq_ok_iff]

omit [UnicodeData] in
theorem transcribeBatch_eq_some_iff {current : List Job} {phoneBatch : List (List String)} :
    transcribeBatch tools.model (current.map (jobAudio tools item waveform)) = some phoneBatch ↔
      List.Forall₂ (fun job phones => jobPhones tools item waveform job = some phones)
        current phoneBatch := by
  have whole (waveforms : List (List Sample)) : transcribeBatch tools.model waveforms =
      waveforms.mapM fun waveform => decodeFrames tools.model (tools.model.frameIds waveform) := by
    cases waveforms with
    | nil => rfl
    | cons waveform waveforms => rfl
  rw [whole, List.mapM_map]
  exact mapM_eq_some_iff

/-- The writes of a window. -/
def Writes (job : Job) (writes : List ((ℕ × ℕ) × String)) : Prop :=
  ∃ units, jobUnits Threshold tools item waveform job = .ok units ∧ writes = job.owners.zip units

def applyWrites (results : List PhoneticResult) (writes : List ((ℕ × ℕ) × String)) :
    Except PhoneticError (List PhoneticResult) :=
  writes.foldlM assignUnit results

/-- The windows of a batch, once they are transcribed. -/
theorem foldlM_assignJob_iff {current : List Job} {references phoneBatch : List (List String)}
    (isReference : List.Forall₂ (fun job reference => jobReference tools item job = .ok reference)
      current references)
    (isPhones : List.Forall₂ (fun job phones => jobPhones tools item waveform job = some phones)
      current phoneBatch) {results final : List PhoneticResult} :
    (current.zip (phoneBatch.zip references)).foldlM (assignJob Threshold tools) results =
        .ok final ↔
      ∃ works, List.Forall₂ (Writes Threshold tools item waveform) current works ∧
        works.foldlM applyWrites results = .ok final := by
  induction isReference generalizing phoneBatch results with
  | nil =>
      cases isPhones
      constructor
      · intro ok
        exact ⟨[], List.Forall₂.nil, ok⟩
      · rintro ⟨works, empty, ok⟩
        cases empty
        exact ok
  | @cons job reference current references found _ ih =>
      cases isPhones with
      | @cons _ phones _ phoneBatch heard later =>
          rw [List.zip_cons_cons, List.zip_cons_cons, List.foldlM_cons, bind_eq_ok_iff]
          constructor
          · rintro ⟨middle, first, rest⟩
            rw [assignJob, bind_eq_ok_iff] at first
            rcases first with ⟨units, projected, assigned⟩
            rw [mapError_eq_ok_iff] at projected
            rcases (ih later).mp rest with ⟨works, each, applied⟩
            refine ⟨job.owners.zip units :: works, List.Forall₂.cons ?_ each, ?_⟩
            · exact ⟨units, (jobUnits_eq_ok_iff Threshold tools item waveform).mpr
                ⟨reference, phones, found, heard, projected⟩, rfl⟩
            · rw [List.foldlM_cons]
              exact bind_eq_ok_iff.mpr ⟨middle, assigned, applied⟩
          · rintro ⟨works, each, applied⟩
            cases each with
            | @cons _ writes _ works isWrites each =>
                rcases isWrites with ⟨units, isUnits, rfl⟩
                rw [List.foldlM_cons] at applied
                rcases bind_eq_ok_iff.mp applied with ⟨middle, first, rest⟩
                refine ⟨middle, ?_, (ih later).mpr ⟨works, each, rest⟩⟩
                rcases (jobUnits_eq_ok_iff Threshold tools item waveform).mp isUnits with
                  ⟨reference', phones', found', heard', projected⟩
                cases found.symm.trans found'
                cases heard.symm.trans heard'
                rw [assignJob]
                exact bind_eq_ok_iff.mpr ⟨units, mapError_eq_ok_iff.mpr projected, first⟩

/-- A batch succeeds as its windows do one by one. -/
theorem runBatch_iff (results : List PhoneticResult) (current : List Job)
    (final : List PhoneticResult) :
    runBatch Threshold tools item waveform results current = .ok final ↔
      ∃ works, List.Forall₂ (Writes Threshold tools item waveform) current works ∧
        works.foldlM applyWrites results = .ok final := by
  rw [runBatch, bind_eq_ok_iff]
  constructor
  · rintro ⟨references, isReference, rest⟩
    dsimp only at rest
    cases heard : transcribeBatch tools.model (current.map (jobAudio tools item waveform)) with
    | none =>
        rw [heard] at rest
        cases rest
    | some phoneBatch =>
        have isPhones := (transcribeBatch_eq_some_iff tools item waveform).mp heard
        rw [heard] at rest
        dsimp only at rest
        rw [if_neg (not_not.mpr isPhones.length_eq.symm)] at rest
        exact (foldlM_assignJob_iff Threshold tools item waveform (mapM_eq_ok_iff.mp isReference)
          isPhones).mp rest
  · rintro ⟨works, each, applied⟩
    have parts : ∀ job ∈ current, ∃ reference phones, jobReference tools item job = .ok reference ∧
        jobPhones tools item waveform job = some phones := by
      intro job member
      rcases exists_of_forall₂_right each.flip member with ⟨writes, _, units, isUnits, _⟩
      rcases (jobUnits_eq_ok_iff Threshold tools item waveform).mp isUnits with
        ⟨reference, phones, found, heard, _⟩
      exact ⟨reference, phones, found, heard⟩
    have someReferences : ∃ references, List.Forall₂
        (fun job reference => jobReference tools item job = .ok reference) current references := by
      apply exists_forall₂_iff.mpr
      intro job member
      rcases parts job member with ⟨reference, _, found, _⟩
      exact ⟨reference, found⟩
    have somePhones : ∃ phoneBatch, List.Forall₂
        (fun job phones => jobPhones tools item waveform job = some phones) current phoneBatch := by
      apply exists_forall₂_iff.mpr
      intro job member
      rcases parts job member with ⟨_, phones, _, heard⟩
      exact ⟨phones, heard⟩
    rcases someReferences with ⟨references, isReference⟩
    rcases somePhones with ⟨phoneBatch, isPhones⟩
    refine ⟨references, mapM_eq_ok_iff.mpr isReference, ?_⟩
    dsimp only
    rw [(transcribeBatch_eq_some_iff tools item waveform).mpr isPhones]
    dsimp only
    rw [if_neg (not_not.mpr isPhones.length_eq.symm)]
    exact (foldlM_assignJob_iff Threshold tools item waveform isReference isPhones).mpr
      ⟨works, each, applied⟩

/-- The batches of a recording. -/
theorem foldlM_runBatch_iff {size : ℕ} (positive : 0 < size) {jobs : List Job}
    {results final : List PhoneticResult} :
    (batchesOf size jobs).foldlM (runBatch Threshold tools item waveform) results = .ok final ↔
      ∃ works, List.Forall₂ (Writes Threshold tools item waveform) jobs works ∧
        works.flatten.foldlM assignUnit results = .ok final := by
  have flat (works : List (List ((ℕ × ℕ) × String))) :
      works.foldlM applyWrites results = works.flatten.foldlM assignUnit results :=
    foldlM_flatten.symm
  rw [foldlM_batches_iff (runBatch_iff Threshold tools item waveform), batchesOf,
    Partition.flatten_slices_all positive]
  simp only [flat]

end Jobs

section Items

variable [UnicodeData] (Threshold : Type) [Similarity Threshold] (tools : Tools)

omit [UnicodeData] in
theorem length_placePhones {result final : List String} {previous : ℕ}
    {voted : List (String × List ℕ)} (placed : placePhones result previous voted = .ok final) :
    final.length = result.length := by
  induction voted generalizing result previous with
  | nil =>
      cases placed
      rfl
  | cons ballot voted ih =>
      rcases ballot with ⟨phone, owners⟩
      rw [placePhones] at placed
      cases chosen : majority owners with
      | none =>
          rw [chosen] at placed
          cases placed
      | some owner =>
          rw [chosen] at placed
          dsimp only at placed
          split at placed
          · cases placed
          · split at placed
            · rw [ih placed, List.length_modify]
            · cases placed

theorem length_projectPhones {coreBuilt : Bool} {phones pronunciations units : List String}
    (projected : projectPhones Threshold coreBuilt phones pronunciations = .ok units) :
    units.length = pronunciations.length := by
  simp only [projectPhones] at projected
  split at projected
  · cases projected
  · split at projected
    · cases projected
    · rcases bind_eq_ok_iff.mp projected with ⟨votes, _, rest⟩
      rcases bind_eq_ok_iff.mp rest with ⟨result, placed, rest⟩
      cases rest
      rw [List.length_map, length_placePhones placed, List.length_map]

variable {item : PhoneticInput} {waveform : List Sample}

theorem length_jobUnits {job : Job} {units : List String}
    (isUnits : jobUnits Threshold tools item waveform job = .ok units) :
    units.length = job.owners.length := by
  rcases (jobUnits_eq_ok_iff Threshold tools item waveform).mp isUnits with
    ⟨reference, phones, found, _, projected⟩
  rw [length_projectPhones Threshold projected]
  exact length_of_mapM_ok found

/-- What a unit shows in the output. -/
def shownAt (output : PhoneticOutput) (place : ℕ × ℕ) : Option String :=
  Scatter.entry (tableOf output.utterances) place

/-- The utterances come in order, pauses keep their text, and the units of every window show what
the projection gives at their place. The windows are in the audio and all transcribed. -/
structure Transcribed (item : PhoneticInput) (output : PhoneticOutput) : Prop where
  rate : item.sampleRate ≠ 0
  sourceId : output.sourceId = item.sourceId
  index : output.utterances.map PhoneticResult.index =
    item.utterances.map PhoneticUtterance.index
  units : (tableOf output.utterances).map List.length =
    item.utterances.map fun utterance => utterance.units.length
  pauses : ∀ place unit, unitAt item.utterances place = some unit → unit.pause = true →
    shownAt output place = some unit.text
  windows : ∃ waveform, frombuffer item.pcmF32le = .ok waveform ∧
    (∀ utterance ∈ item.utterances,
      checkWindow item.sampleRate waveform.length utterance = .ok ()) ∧
    ∀ job ∈ jobsOf item.utterances, ∃ units,
      jobUnits Threshold tools item waveform job = .ok units ∧
        job.owners.map (shownAt output) = units.map some

omit [UnicodeData] in
theorem entry_blank (utterances : List PhoneticUtterance) (place : ℕ × ℕ) :
    Scatter.entry (tableOf (utterances.map blankResult)) place =
      (unitAt utterances place).map fun unit => if unit.pause then unit.text else unresolved := by
  rw [Scatter.entry, unitAt, tableOf, List.map_map, List.getElem?_map]
  cases utterances[place.1]? with
  | none => rfl
  | some utterance => exact List.getElem?_map

omit [UnicodeData] in
theorem isSome_blank {utterances : List PhoneticUtterance} {place : ℕ × ℕ}
    (spoken : place ∈ allSpoken utterances) :
    (Scatter.entry (tableOf (utterances.map blankResult)) place).isSome := by
  rcases mem_allSpoken.mp spoken with ⟨unit, found, _⟩
  rw [entry_blank, found]
  rfl

omit [UnicodeData] in
theorem results_ext {first second : List PhoneticResult}
    (index : first.map PhoneticResult.index = second.map PhoneticResult.index)
    (table : tableOf first = tableOf second) : first = second := by
  have pairs : first.map (fun result => (result.index, result.ipa)) =
      second.map fun result => (result.index, result.ipa) := by
    rw [← List.zip_map', ← List.zip_map', index]
    exact congrArg (List.zip _) table
  apply List.map_injective_iff.mpr _ pairs
  rintro ⟨index, ipa⟩ ⟨index', ipa'⟩ same
  cases same
  rfl

theorem Transcribed.isSome_shownAt {output : PhoneticOutput}
    (transcribed : Transcribed Threshold tools item output) (place : ℕ × ℕ) :
    (shownAt output place).isSome ↔ (unitAt item.utterances place).isSome := by
  have units : unitAt item.utterances place =
      Scatter.entry (item.utterances.map PhoneticUtterance.units) place := by
    rw [unitAt, Scatter.entry, List.getElem?_map, Option.bind_map]
    rfl
  rw [shownAt, units, Scatter.isSome_entry, Scatter.isSome_entry, transcribed.units, List.map_map]
  rfl

/-- Two outputs that both show what the units of an item show are the same. -/
theorem Transcribed.unique {first second : PhoneticOutput}
    (isFirst : Transcribed Threshold tools item first)
    (isSecond : Transcribed Threshold tools item second) : first = second := by
  have sameTable : tableOf first.utterances = tableOf second.utterances := by
    apply Scatter.eq_of_entry (isFirst.units.trans isSecond.units.symm)
    intro place
    change shownAt first place = shownAt second place
    cases found : unitAt item.utterances place with
    | none =>
        have noFirst := (isFirst.isSome_shownAt Threshold tools place).not
        have noSecond := (isSecond.isSome_shownAt Threshold tools place).not
        rw [found] at noFirst noSecond
        rw [Option.not_isSome_iff_eq_none.mp (noFirst.mpr (by simp)),
          Option.not_isSome_iff_eq_none.mp (noSecond.mpr (by simp))]
    | some unit =>
        by_cases pause : unit.pause = true
        · exact (isFirst.pauses place unit found pause).trans
            (isSecond.pauses place unit found pause).symm
        · have spoken : place ∈ (jobsOf item.utterances).flatMap Job.owners := by
            rw [owners_jobsOf]
            exact mem_allSpoken.mpr ⟨unit, found, by simpa using pause⟩
          rcases List.mem_flatMap.mp spoken with ⟨job, isJob, isOwner⟩
          rcases isFirst.windows with ⟨waveform, buffer, _, firstUnits⟩
          rcases isSecond.windows with ⟨waveform', buffer', _, secondUnits⟩
          cases buffer.symm.trans buffer'
          rcases firstUnits job isJob with ⟨units, isUnits, shown⟩
          rcases secondUnits job isJob with ⟨units', isUnits', shown'⟩
          cases isUnits.symm.trans isUnits'
          exact List.map_inj_left.mp (shown.trans shown'.symm) place isOwner
  have sameResults := results_ext (isFirst.index.trans isSecond.index.symm) sameTable
  have sameSource := isFirst.sourceId.trans isSecond.sourceId.symm
  cases first
  cases second
  cases sameResults
  cases sameSource
  rfl

/-- The places that the windows write to. -/
theorem places_of_works {jobs : List Job} {works : List (List ((ℕ × ℕ) × String))}
    (each : List.Forall₂ (Writes Threshold tools item waveform) jobs works) :
    works.flatten.map Prod.fst = jobs.flatMap Job.owners := by
  induction each with
  | nil => rfl
  | @cons job writes jobs works first _ ih =>
      rcases first with ⟨units, isUnits, rfl⟩
      rw [List.flatten_cons, List.map_append, ih, List.flatMap_cons,
        List.map_fst_zip (length_jobUnits Threshold tools isUnits).ge]

omit [UnicodeData] in
theorem perm_owners (utterances : List PhoneticUtterance) :
    ((sortJobs (jobsOf utterances)).flatMap Job.owners).Perm (allSpoken utterances) := by
  rw [← owners_jobsOf]
  exact (List.perm_insertionSort _ _).flatMap_right _

/-- The windows all write inside the table, each place once. -/
theorem exists_results {works : List (List ((ℕ × ℕ) × String))}
    (each : List.Forall₂ (Writes Threshold tools item waveform)
      (sortJobs (jobsOf item.utterances)) works) :
    ∃ results, works.flatten.foldlM assignUnit (item.utterances.map blankResult) = .ok results ∧
      tableOf results = Scatter.writeAll (tableOf (item.utterances.map blankResult))
        works.flatten ∧
      results.map PhoneticResult.index = item.utterances.map PhoneticUtterance.index := by
  have places := places_of_works Threshold tools each
  have inside : ∀ write ∈ works.flatten,
      (Scatter.entry (tableOf (item.utterances.map blankResult)) write.1).isSome := by
    intro write member
    have isOwner : write.1 ∈ allSpoken item.utterances := by
      rw [← (perm_owners item.utterances).mem_iff, ← places]
      exact List.mem_map_of_mem member
    exact isSome_blank isOwner
  rcases foldlM_assignUnit inside with ⟨results, applied, table, index⟩
  refine ⟨results, applied, table, index.trans ?_⟩
  rw [List.map_map]
  rfl

theorem callItem_eq_ok_iff {size : ℕ} (positive : 0 < size) {output : PhoneticOutput} :
    callItem Threshold tools size item = .ok output ↔
      item.sampleRate ≠ 0 ∧ ∃ waveform, frombuffer item.pcmF32le = .ok waveform ∧
        (∀ utterance ∈ item.utterances,
          checkWindow item.sampleRate waveform.length utterance = .ok ()) ∧
        ∃ works, List.Forall₂ (Writes Threshold tools item waveform)
            (sortJobs (jobsOf item.utterances)) works ∧
          ∃ results, works.flatten.foldlM assignUnit (item.utterances.map blankResult) =
              .ok results ∧ output = ⟨item.sourceId, results⟩ := by
  rw [callItem]
  by_cases rate : item.sampleRate = 0
  · constructor
    · intro ok
      rw [if_pos rate] at ok
      cases ok
    · rintro ⟨notZero, _⟩
      exact absurd rate notZero
  · rw [if_neg rate]
    constructor
    · intro ok
      rcases bind_eq_ok_iff.mp ok with ⟨waveform, buffer, ok⟩
      rcases bind_eq_ok_iff.mp ok with ⟨⟨⟩, checks, ok⟩
      rcases bind_eq_ok_iff.mp ok with ⟨results, run, ok⟩
      cases ok
      rcases (foldlM_runBatch_iff Threshold tools item waveform positive).mp run with
        ⟨works, each, applied⟩
      exact ⟨rate, waveform, buffer, forM_eq_ok_iff.mp checks, works, each, results, applied, rfl⟩
    · rintro ⟨_, waveform, buffer, checks, works, each, results, applied, rfl⟩
      apply bind_eq_ok_iff.mpr
      refine ⟨waveform, buffer, ?_⟩
      apply bind_eq_ok_iff.mpr
      refine ⟨(), forM_eq_ok_iff.mpr checks, ?_⟩
      apply bind_eq_ok_iff.mpr
      exact ⟨results, (foldlM_runBatch_iff Threshold tools item waveform positive).mpr
        ⟨works, each, applied⟩, rfl⟩

/-- What the windows have written is what their units show. -/
theorem transcribed_of_works {results : List PhoneticResult}
    {works : List (List ((ℕ × ℕ) × String))} (rate : item.sampleRate ≠ 0)
    (buffer : frombuffer item.pcmF32le = .ok waveform)
    (checks : ∀ utterance ∈ item.utterances,
      checkWindow item.sampleRate waveform.length utterance = .ok ())
    (each : List.Forall₂ (Writes Threshold tools item waveform)
      (sortJobs (jobsOf item.utterances)) works)
    (table : tableOf results = Scatter.writeAll (tableOf (item.utterances.map blankResult))
      works.flatten)
    (index : results.map PhoneticResult.index = item.utterances.map PhoneticUtterance.index) :
    Transcribed Threshold tools item ⟨item.sourceId, results⟩ := by
  have places := places_of_works Threshold tools each
  have order := perm_owners item.utterances
  have once : (works.flatten.map Prod.fst).Nodup := by
    rw [places]
    exact order.nodup_iff.mpr allSpoken_nodup
  refine ⟨rate, rfl, index, ?_, ?_, waveform, buffer, checks, ?_⟩
  · change (tableOf results).map List.length = _
    rw [table, Scatter.map_length_writeAll, tableOf, List.map_map, List.map_map]
    exact List.map_congr_left fun utterance _ => List.length_map _
  · intro place unit found pause
    have untouched : place ∉ works.flatten.map Prod.fst := by
      rw [places, order.mem_iff, mem_allSpoken]
      rintro ⟨other, isOther, spoken⟩
      cases found.symm.trans isOther
      rw [pause] at spoken
      cases spoken
    change Scatter.entry (tableOf results) place = _
    rw [table, Scatter.entry_writeAll_of_not_mem untouched, entry_blank, found, Option.map_some,
      if_pos pause]
  · intro job isJob
    have sorted : job ∈ sortJobs (jobsOf item.utterances) := (List.mem_insertionSort _).mpr isJob
    rcases exists_of_forall₂_right each.flip sorted with ⟨writes, isWrites, units, isUnits, rfl⟩
    have length := length_jobUnits Threshold tools isUnits
    refine ⟨units, isUnits, ?_⟩
    apply List.ext_getElem
    · rw [List.length_map, List.length_map, length]
    · intro k inOwners inUnits
      rw [List.length_map] at inOwners inUnits
      rw [List.getElem_map, List.getElem_map]
      change Scatter.entry (tableOf results) job.owners[k] = _
      rw [table]
      apply Scatter.entry_writeAll_of_mem once
      · apply List.mem_flatten_of_mem isWrites
        have inZip : k < (job.owners.zip units).length := by
          rw [List.length_zip]
          exact lt_min inOwners inUnits
        rw [← List.getElem_zip (h := inZip)]
        exact List.getElem_mem inZip
      · apply isSome_blank
        rw [← owners_jobsOf]
        exact List.mem_flatMap.mpr ⟨job, isJob, List.getElem_mem inOwners⟩

/-- What the loop over the batches makes of an item. -/
theorem callItem_iff {size : ℕ} (positive : 0 < size) (item : PhoneticInput)
    (output : PhoneticOutput) :
    callItem Threshold tools size item = .ok output ↔ Transcribed Threshold tools item output := by
  have sound {output : PhoneticOutput} (ok : callItem Threshold tools size item = .ok output) :
      Transcribed Threshold tools item output := by
    rcases (callItem_eq_ok_iff Threshold tools positive).mp ok with
      ⟨rate, waveform, buffer, checks, works, each, results, applied, rfl⟩
    rcases exists_results Threshold tools each with ⟨results', applied', table, index⟩
    cases applied.symm.trans applied'
    exact transcribed_of_works Threshold tools rate buffer checks each table index
  constructor
  · exact sound
  · intro transcribed
    rcases transcribed.windows with ⟨waveform, buffer, checks, windows⟩
    have jobs : ∀ job ∈ sortJobs (jobsOf item.utterances), ∃ writes,
        Writes Threshold tools item waveform job writes := by
      intro job member
      rcases windows job ((List.mem_insertionSort _).mp member) with ⟨units, isUnits, _⟩
      exact ⟨_, units, isUnits, rfl⟩
    rcases exists_forall₂_iff.mpr jobs with ⟨works, each⟩
    rcases exists_results Threshold tools each with ⟨results, applied, _, _⟩
    have ok : callItem Threshold tools size item = .ok ⟨item.sourceId, results⟩ :=
      (callItem_eq_ok_iff Threshold tools positive).mpr
        ⟨transcribed.rate, waveform, buffer, checks, works, each, results, applied, rfl⟩
    rw [ok, (sound ok).unique Threshold tools transcribed]

end Items

section Call

/-- The windows take the utterances in order, each slice of the audio holds its utterances, and
each unit that is no pause belongs to one window. -/
structure Windowed (utterances : List PhoneticUtterance) : Prop where
  grouped : Grouped utterances utterances.length (groupUtterances utterances)
  slices : ∀ {group first last}, WindowSound utterances group first last →
    ∀ sampleRate, ∀ u ∈ group, ∀ utterance ∈ utterances[u]?,
      sampleAt sampleRate first.startMs ≤ sampleAt sampleRate utterance.startMs ∧
        sampleAt sampleRate utterance.endMs ≤ sampleAt sampleRate last.endMs
  owned : (jobsOf utterances).flatMap Job.owners = allSpoken utterances

theorem sampleAt_mono (sampleRate : ℕ) {early late : ℕ} (before : early ≤ late) :
    sampleAt sampleRate early ≤ sampleAt sampleRate late :=
  Nat.div_le_div_right (Nat.mul_le_mul_right sampleRate before)

theorem windowed (utterances : List PhoneticUtterance) : Windowed utterances where
  grouped := groupUtterances_grouped utterances
  slices sound sampleRate u member utterance found :=
    have bounds := sound.holds u member utterance found
    ⟨sampleAt_mono sampleRate bounds.1, sampleAt_mono sampleRate bounds.2⟩
  owned := owners_jobsOf

theorem XeusBackend.windowsAtOnce_pos (backend : XeusBackend) (cudaAvailable : Bool) :
    0 < backend.windowsAtOnce cudaAvailable := by
  rw [windowsAtOnce]
  cases size : backend.batchSize with
  | some size' => exact backend.positive size' size
  | none =>
      rw [Option.getD_none]
      split
      · exact Nat.two_pos
      · exact Nat.one_pos

variable [UnicodeData] (Threshold : Type) [Similarity Threshold] (tools : Tools)

/-- Neither the windows nor the batches show in what the backend returns. -/
theorem XeusBackend.call_transparent (backend : XeusBackend) (cudaAvailable : Bool) :
    (∀ utterances, Windowed utterances) ∧
      ∀ batch outputs, backend.call Threshold tools cudaAvailable batch = .ok outputs ↔
        List.Forall₂ (Transcribed Threshold tools) batch outputs := by
  refine ⟨windowed, ?_⟩
  intro batch outputs
  rw [call, mapM_eq_ok_iff]
  have each := callItem_iff Threshold tools (backend.windowsAtOnce_pos cudaAvailable)
  constructor
  · exact List.Forall₂.imp fun item output => (each item output).mp
  · exact List.Forall₂.imp fun item output => (each item output).mpr

end Call

end Batchalign.Phonetic
