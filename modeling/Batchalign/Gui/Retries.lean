import Batchalign.Gui.Session

/-!
# Submissions come to an end

A daemon that no longer answers does not hold a batch for ever: the polls of a job are retried a
bounded number of times, so a submission takes only so many steps of its own, and it can always
take the next one.
-/

namespace Batchalign.Gui

open Batchalign.Cli Batchalign.Compare Batchalign.Desktop Batchalign.Engine Batchalign.Morphosyntax
  Transition

section Definitions

variable {Choice : Type}

/-- The steps that are left to a submission while no poll is answered. -/
def SubmissionPhase.rank : SubmissionPhase → ℕ
  | .posted => 12
  | .accepted _ => 11
  | .refused _ => 1
  | .polling _ failures => 2 * (4 - failures) + 2
  | .fetching _ failures => 2 * (4 - failures) + 1

def App.rank (app : App Choice) (id : String) : ℕ :=
  ((app.submissions.lookup id).map fun submission => submission.phase.rank).getD 0

/-- The batch whose submission takes a step. -/
def AppEvent.submitter : AppEvent Choice → Option String
  | .accept batchId .. | .refuse batchId _ | .respond batchId | .lose batchId _ | .check batchId
  | .status batchId | .miss batchId _ => some batchId
  | _ => none

/-- No poll for the batch is answered, and the batch is not started again. -/
def AppEvent.isSilent (id : String) : AppEvent Choice → Bool
  | .status batchId | .start batchId => batchId ≠ id
  | _ => true

end Definitions

section Ranks

variable {Choice : Type} {app next : App Choice} {submission : Submission}
  {after : Option Submission} {id batchId : String}

theorem SubmissionPhase.rank_pos (phase : SubmissionPhase) : 0 < phase.rank := by
  cases phase <;> simp [SubmissionPhase.rank]

theorem SubmissionPhase.rank_le (phase : SubmissionPhase) : phase.rank ≤ 12 := by
  cases phase <;> simp only [SubmissionPhase.rank] <;> omega

theorem rank_le_twelve (app : App Choice) (id : String) : app.rank id ≤ 12 := by
  unfold App.rank
  cases app.submissions.lookup id with
  | none => exact Nat.zero_le 12
  | some submission => exact submission.phase.rank_le

theorem rank_of_same (same : next.submissions.lookup id = app.submissions.lookup id) :
    next.rank id + (if (none : Option String) = some id then 1 else 0) ≤ app.rank id := by
  simp [App.rank, same]

/-- A submission that takes a step loses rank, and no other does. -/
theorem rank_of_change (found : app.submissions.lookup batchId = some submission)
    (changes : next.submissions.lookup id =
      if id = batchId then after else app.submissions.lookup id)
    (less : (after.map fun submission => submission.phase.rank).getD 0 < submission.phase.rank) :
    next.rank id + (if some batchId = some id then 1 else 0) ≤ app.rank id := by
  by_cases own : id = batchId
  · subst own
    rw [if_pos rfl] at changes
    simpa [App.rank, changes, found] using less
  · have differ : ¬ some batchId = some id := fun same => own (Option.some.inj same).symm
    rw [if_neg own] at changes
    simp [App.rank, changes, differ]

end Ranks

section Steps

variable {Choice : Type} [Browser] [Panels] [PythonText] [ChatFormat] [ValidationGates]
  {app next : App Choice} {event : AppEvent Choice} {events : List (ℕ × AppEvent Choice)}
  {submission : Submission} {id batchId jobId : String} {now : ℕ} {error : Option String}

omit [Panels] [PythonText] [ChatFormat] [ValidationGates] in
theorem lookup_finish (now : ℕ) (app : App Choice) (batchId jobId : String) (error : Option String)
    (other : String) :
    (app.finish now batchId jobId error).submissions.lookup other =
      if other = batchId then none else app.submissions.lookup other :=
  lookup_leave _ batchId other

omit [Panels] [PythonText] [ChatFormat] [ValidationGates] in
theorem relayed_submissions {index : ℕ} {pump : String × String} {job : DaemonJob Choice}
    {arrives : Bool} {item : Option JsonText.Fields} :
    (app.relayed now index pump job arrives item).submissions = app.submissions := by
  unfold App.relayed
  dsimp only
  split
  · rfl
  · split <;> rfl

omit [Panels] [PythonText] [ChatFormat] [ValidationGates] in
theorem lookup_polled {job : DaemonJob Choice} (differ : id ≠ batchId) :
    (app.polled now batchId submission jobId job).submissions.lookup id =
      app.submissions.lookup id := by
  unfold App.polled
  split
  · rw [lookup_withPhase, if_neg differ]
  · rw [lookup_withPhase, if_neg differ]
  · rw [lookup_finish, if_neg differ]
  · rw [lookup_finish, if_neg differ]

/-- A submission whose polls are not answered has fewer steps left after each. -/
theorem step_rank (steps : app.step now event = some next) (silent : event.isSilent id = true) :
    next.rank id + (if event.submitter = some id then 1 else 0) ≤ app.rank id := by
  cases event with
  | act action =>
      rw [App.step] at steps
      split_ifs at steps
      cases steps
      exact rank_of_same rfl
  | openFolder batchId path found =>
      rw [App.step] at steps
      split_ifs at steps
      rcases Option.map_eq_some_iff.mp steps with ⟨store, _, rfl⟩
      exact rank_of_same rfl
  | rediscover batchId firstStep shownId found =>
      rw [App.step] at steps
      split_ifs at steps
      cases steps
      exact rank_of_same rfl
  | start batchId =>
      rcases Option.map_eq_some_iff.mp steps with ⟨posted, _, rfl⟩
      have differ : batchId ≠ id := of_decide_eq_true silent
      apply rank_of_same
      simp [List.lookup_append, List.lookup_cons, beq_eq_false_iff_ne.mpr differ.symm]
  | accept batchId jobId desk surroundings =>
      rcases Option.bind_eq_some_iff.mp steps with ⟨submission, found, steps⟩
      split_ifs at steps with blocked
      rw [not_or, not_not] at blocked
      rcases Option.map_eq_some_iff.mp steps with ⟨job, _, rfl⟩
      refine rank_of_change found (lookup_withPhase app batchId submission (.accepted jobId) id) ?_
      simp [blocked.1, SubmissionPhase.rank]
  | refuse batchId message =>
      rcases Option.bind_eq_some_iff.mp steps with ⟨submission, found, steps⟩
      split_ifs at steps with blocked
      rw [not_or, not_not] at blocked
      cases steps
      refine rank_of_change found (lookup_withPhase app batchId submission (.refused message) id) ?_
      simp [blocked.1, SubmissionPhase.rank]
  | respond batchId =>
      rcases Option.bind_eq_some_iff.mp steps with ⟨submission, found, steps⟩
      split at steps
      · next jobId isPhase =>
          cases steps
          refine rank_of_change found (lookup_withPhase (app.dispatch now
            (.batchStarted batchId jobId submission.files)) batchId submission
            (.polling jobId 0) id) ?_
          simp [isPhase, SubmissionPhase.rank]
      · cases steps
        exact rank_of_change found (lookup_finish ..) submission.phase.rank_pos
      · cases steps
  | lose batchId message =>
      rcases Option.bind_eq_some_iff.mp steps with ⟨submission, found, steps⟩
      split at steps
      · split_ifs at steps
        cases steps
        exact rank_of_change found (lookup_finish ..) submission.phase.rank_pos
      · split_ifs at steps
        cases steps
        exact rank_of_change found (lookup_finish ..) submission.phase.rank_pos
      · cases steps
  | stray jobId request desk surroundings =>
      rw [App.step] at steps
      split_ifs at steps
      rcases Option.map_eq_some_iff.mp steps with ⟨job, _, rfl⟩
      exact rank_of_same rfl
  | work jobId event =>
      rcases Option.bind_eq_some_iff.mp steps with ⟨job, _, steps⟩
      rcases Option.map_eq_some_iff.mp steps with ⟨after, _, rfl⟩
      exact rank_of_same rfl
  | relay index arrives =>
      rcases Option.bind_eq_some_iff.mp steps with ⟨pump, _, steps⟩
      rcases Option.bind_eq_some_iff.mp steps with ⟨job, _, steps⟩
      rcases Option.map_eq_some_iff.mp steps with ⟨item, _, rfl⟩
      exact rank_of_same (by rw [relayed_submissions])
  | check batchId =>
      rcases Option.bind_eq_some_iff.mp steps with ⟨submission, found, steps⟩
      split at steps
      · next jobId failures isPhase =>
          split_ifs at steps
          · cases steps
            refine rank_of_change found
              (lookup_withPhase app batchId submission (.fetching jobId failures) id) ?_
            simp [isPhase, SubmissionPhase.rank]
          · cases steps
            exact rank_of_change found (lookup_leave app batchId id) submission.phase.rank_pos
      · cases steps
  | status batchId =>
      rcases Option.bind_eq_some_iff.mp steps with ⟨submission, found, steps⟩
      split at steps
      · rcases Option.map_eq_some_iff.mp steps with ⟨job, _, rfl⟩
        have differ : batchId ≠ id := of_decide_eq_true silent
        have other : ¬ some batchId = some id := fun same => differ (Option.some.inj same)
        simp [App.rank, lookup_polled differ.symm, AppEvent.submitter, other]
      · cases steps
  | miss batchId message =>
      rcases Option.bind_eq_some_iff.mp steps with ⟨submission, found, steps⟩
      split at steps
      · next jobId failures isPhase =>
          split_ifs at steps with said late
          · cases steps
            exact rank_of_change found (lookup_finish ..) submission.phase.rank_pos
          · cases steps
            refine rank_of_change found
              (lookup_withPhase app batchId submission (.polling jobId (failures + 1)) id) ?_
            simp only [isPhase, SubmissionPhase.rank, Option.map_some, Option.getD_some]
            omega
      · cases steps

/-- Whatever phase a submission is in, it can take a step without an answer to a poll. -/
theorem exists_silent_step (found : app.submissions.lookup id = some submission) (now : ℕ) :
    ∃ event, event.submitter = some id ∧ event.isSilent id = true ∧
      (app.step now event).isSome := by
  cases isPhase : submission.phase with
  | posted => exact ⟨.lose id "lost", rfl, rfl, by simp [App.step, found, isPhase]⟩
  | accepted jobId => exact ⟨.lose id "lost", rfl, rfl, by simp [App.step, found, isPhase]⟩
  | refused message => exact ⟨.respond id, rfl, rfl, by simp [App.step, found, isPhase]⟩
  | polling jobId failures =>
      refine ⟨.check id, rfl, rfl, ?_⟩
      simp only [App.step, found, Option.bind_some, isPhase]
      split_ifs <;> rfl
  | fetching jobId failures =>
      refine ⟨.miss id "lost", rfl, rfl, ?_⟩
      simp only [App.step, found, Option.bind_some, isPhase]
      split_ifs with empty
      · simp at empty
      · rfl
      · rfl

end Steps

section Runs

variable {Choice : Type} [Browser] [Panels] [PythonText] [ChatFormat] [ValidationGates]
  {app next : App Choice} {events : List (ℕ × AppEvent Choice)} {id : String}

/-- While no poll of a batch is answered, its submission takes at most twelve steps, and as long as
the batch is shown running there is one that it can take. -/
theorem submission_ends (reachable : (appSystem Choice).Reachable app)
    (runs : (appSystem Choice).run app events = some next)
    (silent : ∀ event ∈ events, event.2.isSilent id = true) :
    (events.countP fun event => event.2.submitter = some id) ≤ 12 ∧
      ∀ batch, next.store.batches.lookup id = some batch → batch.state = .running →
        ∀ now, ∃ event, event.submitter = some id ∧ event.isSilent id = true ∧
          (next.step now event).isSome := by
  have counted : next.rank id + (events.countP fun event => event.2.submitter = some id) ≤
      app.rank id :=
    System.count_le_of_kind (fun event => event.2.isSilent id = true) (fun app => app.rank id)
      (fun event => event.2.submitter = some id) (fun _ _ _ quiet steps => step_rank steps quiet)
      silent runs
  refine ⟨(Nat.le_add_left _ _).trans (counted.trans (rank_le_twelve app id)), ?_⟩
  intro batch found running now
  have books := appBooks_of_reachable (reachable.run runs)
  have isSubmitted := (books.shown id batch found).running.mp running
  rcases Option.isSome_iff_exists.mp isSubmitted with ⟨submission, isSubmission⟩
  exact exists_silent_step isSubmission now

end Runs

section Samples

/-- The daemon is gone. -/
def unanswered : List (AppEvent Unit) := [.check "b", .miss "b" "gone"]

/-- The daemon accepts the job, and then it is gone. -/
def silence : List (ℕ × AppEvent Unit) :=
  (submitting.drop 6 ++ (List.replicate 4 unanswered).flatten ++ unanswered.take 1).map
    fun event => (0, event)

/-- After eleven steps the batch is still shown running, and there is a last one. -/
theorem silence_ends :
    ∃ app next, (appSystem Unit).run app silence = some next ∧
      (silence.countP fun event => event.2.submitter = some "b") = 11 ∧
      ∃ event, event.submitter = some "b" ∧ event.isSilent "b" = true ∧
        (next.step 0 event).isSome := by
  have ends : (((appSystem Unit).run ⟨initial, [], [], []⟩
      ((submitting.take 6).map fun event => (0, event))).bind fun app =>
        (appSystem Unit).run app silence).map
          (fun next => (next.store.batches.lookup "b").map Batch.state) =
      some (some .running) := by
    decide +kernel
  rcases Option.map_eq_some_iff.mp ends with ⟨next, both, shown⟩
  rcases Option.bind_eq_some_iff.mp both with ⟨app, starts, runs⟩
  rcases Option.map_eq_some_iff.mp shown with ⟨batch, found, running⟩
  have quiet : ∀ event ∈ silence, event.2.isSilent "b" = true :=
    List.all_eq_true.mp (by decide)
  have known := submission_ends ⟨_, _, rfl, starts⟩ runs quiet
  exact ⟨app, next, runs, by decide, known.2 batch found running 0⟩

end Samples

end Batchalign.Gui
