import Batchalign.Fa.Reuse

/-!
# Repair of utterance timing

`enforce_fa_monotonicity` takes the timing from utterances that start before an earlier
one and then cuts every end at the next start. Its result is ordered.
-/

namespace Batchalign.Fa

open Batchalign.Chat

section Repair

structure MonotonicityRepairs where
  stripped : ℕ
  clamped : ℕ
deriving DecidableEq, Repr

/-- Removes the bullet and the `%wor` tier. -/
def stripTiming (utt : Utterance) : Utterance where
  main := (utt.withBullet none).main
  dependentTiers := utt.dependentTiers.filter fun tier => !tier.isWor

/-- The first pass: an utterance that starts before the last kept start loses its timing. -/
def stripBackward : ℕ → List Line → ℕ × List Line
  | _, [] => (0, [])
  | lastStartMs, .utterance utt :: lines =>
      match bulletStart utt with
      | none =>
          let rest := stripBackward lastStartMs lines
          (rest.1, .utterance utt :: rest.2)
      | some startMs =>
          if startMs < lastStartMs then
            let rest := stripBackward lastStartMs lines
            (rest.1 + 1, .utterance (stripTiming utt) :: rest.2)
          else
            let rest := stripBackward startMs lines
            (rest.1, .utterance utt :: rest.2)
  | lastStartMs, line :: lines =>
      let rest := stripBackward lastStartMs lines
      (rest.1, line :: rest.2)

/-- One utterance of the second pass, against the start after it. -/
def repairEnd (utt : Utterance) (bullet : Bullet) (nextStartMs : ℕ) :
    MonotonicityRepairs × Utterance :=
  if bullet.timing.endMs ≤ nextStartMs then (⟨0, 0⟩, utt)
  else if nextStartMs ≤ bullet.timing.startMs then (⟨1, 0⟩, stripTiming utt)
  else
    (⟨0, 1⟩, utt.withBullet
      (some { bullet with timing := { bullet.timing with endMs := nextStartMs } }))

/-- The second pass. The source lists the starts before it changes a line, and of a pair only
the earlier one changes, so the next start is still the one in the remaining lines. -/
def repairEnds : List Line → MonotonicityRepairs × List Line
  | [] => (⟨0, 0⟩, [])
  | .utterance utt :: lines =>
      let rest := repairEnds lines
      match utt.bullet, lines.findSome? lineStart with
      | some bullet, some nextStartMs =>
          let repaired := repairEnd utt bullet nextStartMs
          (⟨repaired.1.stripped + rest.1.stripped, repaired.1.clamped + rest.1.clamped⟩,
            .utterance repaired.2 :: rest.2)
      | _, _ => (rest.1, .utterance utt :: rest.2)
  | line :: lines =>
      let rest := repairEnds lines
      (rest.1, line :: rest.2)

def enforceFaMonotonicity (chat : ChatFile) : MonotonicityRepairs × ChatFile :=
  let stripped := stripBackward 0 chat.lines
  let repaired := repairEnds stripped.2
  (⟨stripped.1 + repaired.1.stripped, repaired.1.clamped⟩, { chat with lines := repaired.2 })

end Repair

section Order

def lineTiming : Line → Option Timing
  | .utterance utt => utt.bullet.map Bullet.timing
  | _ => none

/-- The windows of the timed utterances. -/
def timings (lines : List Line) : List Timing := lines.filterMap lineTiming

/-- The later window does not start before the earlier one starts or ends. -/
def Before (earlier later : Timing) : Prop :=
  earlier.startMs ≤ later.startMs ∧ earlier.endMs ≤ later.startMs

instance : Trans Before Before Before where
  trans first second := ⟨first.1.trans second.1, first.2.trans second.1⟩

instance (earlier later : Timing) : Decidable (Before earlier later) :=
  inferInstanceAs (Decidable (_ ∧ _))

/-- Consecutive timed utterances neither overlap nor go backwards. -/
def OrderedTimings (windows : List Timing) : Prop := windows.IsChain Before

instance (windows : List Timing) : Decidable (OrderedTimings windows) :=
  inferInstanceAs (Decidable (windows.IsChain Before))

@[simp] theorem lineTiming_utterance (utt : Utterance) :
    lineTiming (.utterance utt) = utt.bullet.map Bullet.timing := rfl

@[simp] theorem stripTiming_bullet (utt : Utterance) : (stripTiming utt).bullet = none := rfl

theorem findSome?_lineStart_eq_head? (lines : List Line) :
    lines.findSome? lineStart = (timings lines).head?.map Timing.startMs := by
  induction lines with
  | nil => rfl
  | cons line lines ih =>
      cases line with
      | utterance utt =>
          cases timed : utt.bullet with
          | none => simpa [timings, lineStart, bulletStart, timed] using ih
          | some bullet => simp [timings, lineStart, bulletStart, timed]
      | header header => exact ih
      | other text => exact ih

def starts (lines : List Line) : List ℕ := (timings lines).map Timing.startMs

theorem starts_cons (line : Line) (lines : List Line) :
    starts (line :: lines) = ((lineTiming line).map Timing.startMs).toList ++ starts lines := by
  simp only [starts, timings, List.filterMap_cons]
  cases lineTiming line <;> rfl

/-- After the first pass the starts go forward from the last kept one. -/
theorem stripBackward_starts (lastStartMs : ℕ) (lines : List Line) :
    (lastStartMs :: starts (stripBackward lastStartMs lines).2).Pairwise (· ≤ ·) := by
  induction lines generalizing lastStartMs with
  | nil => simp [stripBackward, starts, timings]
  | cons line lines ih =>
      cases line with
      | utterance utt =>
          cases timed : utt.bullet with
          | none =>
              simpa [stripBackward, bulletStart, timed, starts_cons] using ih lastStartMs
          | some bullet =>
              simp only [stripBackward, bulletStart, timed, Option.map_some]
              by_cases backward : bullet.timing.startMs < lastStartMs
              · rw [if_pos backward]
                simpa [starts_cons] using ih lastStartMs
              · rw [if_neg backward]
                have rest := ih bullet.timing.startMs
                simp only [starts_cons, lineTiming_utterance, timed, Option.map_some,
                  Option.toList_some, List.singleton_append]
                refine List.pairwise_cons.mpr ⟨?_, rest⟩
                intro start member
                rcases List.mem_cons.mp member with rfl | later
                · omega
                · have forward := (List.pairwise_cons.mp rest).1 start later
                  omega
      | header header => exact ih lastStartMs
      | other text => exact ih lastStartMs

/-- What the second pass makes of an utterance: it ends by the next start, or has no timing. -/
theorem repairEnd_bullet {utt : Utterance} {bullet : Bullet} (timed : utt.bullet = some bullet)
    (nextStartMs : ℕ) :
    ∀ repaired ∈ (repairEnd utt bullet nextStartMs).2.bullet,
      repaired.timing.startMs = bullet.timing.startMs ∧
      repaired.timing.endMs ≤ nextStartMs := by
  simp only [repairEnd]
  intro repaired isRepaired
  split at isRepaired
  · rename_i before
    rw [timed] at isRepaired
    cases isRepaired
    exact ⟨rfl, before⟩
  · split at isRepaired
    · cases isRepaired
    · cases isRepaired
      exact ⟨rfl, le_rfl⟩

/-- An utterance that ends before the windows after it, or has lost its timing, joins them. -/
theorem timings_pairwise_cons {utt : Utterance} {lines : List Line}
    (before : ∀ bullet ∈ utt.bullet, ∀ start ∈ starts lines,
      bullet.timing.startMs ≤ start ∧ bullet.timing.endMs ≤ start)
    (ordered : (timings lines).Pairwise Before) :
    (timings (.utterance utt :: lines)).Pairwise Before := by
  simp only [timings, List.filterMap_cons, lineTiming_utterance]
  cases timed : utt.bullet with
  | none => exact ordered
  | some bullet =>
      refine List.pairwise_cons.mpr ⟨?_, ordered⟩
      intro window member
      exact before bullet timed window.startMs (List.mem_map_of_mem member)

theorem starts_eq_nil {lines : List Line} (next : lines.findSome? lineStart = none) :
    starts lines = [] := by
  rw [findSome?_lineStart_eq_head?, ← List.head?_map] at next
  exact List.head?_eq_none_iff.mp next

/-- Where the starts go forward the next one is the least. -/
theorem next_le_starts {lines : List Line} (forward : (starts lines).Pairwise (· ≤ ·))
    {nextStartMs : ℕ} (next : lines.findSome? lineStart = some nextStartMs) :
    ∀ start ∈ starts lines, nextStartMs ≤ start := by
  rw [findSome?_lineStart_eq_head?, ← List.head?_map] at next
  rcases List.head?_eq_some_iff.mp next with ⟨later, startsEq⟩
  simp only [starts] at forward ⊢
  rw [startsEq] at forward ⊢
  intro start member
  rcases List.mem_cons.mp member with rfl | member
  · exact le_rfl
  · exact (List.pairwise_cons.mp forward).1 start member

/-- The second pass orders windows whose starts go forward, and adds no start. -/
theorem repairEnds_timings {lines : List Line} (forward : (starts lines).Pairwise (· ≤ ·)) :
    (timings (repairEnds lines).2).Pairwise Before ∧
      (starts (repairEnds lines).2).Sublist (starts lines) := by
  induction lines with
  | nil => simp [repairEnds, timings]
  | cons line lines ih =>
      cases line with
      | utterance utt =>
          cases timed : utt.bullet with
          | none =>
              simp only [starts_cons, lineTiming_utterance, timed, Option.map_none,
                Option.toList_none, List.nil_append] at forward
              have rest := ih forward
              simpa [repairEnds, timed, starts_cons, timings] using rest
          | some bullet =>
              simp only [starts_cons, lineTiming_utterance, timed, Option.map_some,
                Option.toList_some, List.singleton_append] at forward
              have forward := List.pairwise_cons.mp forward
              rcases ih forward.2 with ⟨ordered, noNewStart⟩
              have after : ∀ start ∈ starts (repairEnds lines).2, bullet.timing.startMs ≤ start :=
                fun start member => forward.1 start (noNewStart.subset member)
              cases next : lines.findSome? lineStart with
              | none =>
                  have noneAfter := noNewStart
                  rw [starts_eq_nil next, List.sublist_nil] at noneAfter
                  simp only [repairEnds, timed, next]
                  refine ⟨timings_pairwise_cons ?_ ordered, ?_⟩
                  · simp [noneAfter]
                  · simp only [starts_cons, lineTiming_utterance]
                    exact noNewStart.append_left _
              | some nextStartMs =>
                  simp only [repairEnds, timed, next]
                  have bounded := repairEnd_bullet timed nextStartMs
                  have first := next_le_starts forward.2 next
                  refine ⟨timings_pairwise_cons ?_ ordered, ?_⟩
                  · intro repaired isRepaired start member
                    rcases bounded repaired isRepaired with ⟨sameStart, ends⟩
                    exact ⟨sameStart ▸ after start member,
                      ends.trans (first start (noNewStart.subset member))⟩
                  · simp only [starts_cons, lineTiming_utterance, timed, Option.map_some,
                      Option.toList_some, List.singleton_append]
                    cases isRepaired : (repairEnd utt bullet nextStartMs).2.bullet with
                    | none => exact noNewStart.cons _
                    | some repaired =>
                        have sameStart := (bounded repaired isRepaired).1
                        simp only [Option.map_some, Option.toList_some, List.singleton_append,
                          sameStart]
                        exact noNewStart.cons_cons _
      | header header => exact ih forward
      | other text => exact ih forward

/-- Whatever the timing was, afterwards it is ordered. -/
theorem enforceFaMonotonicity_ordered (chat : ChatFile) :
    OrderedTimings (timings (enforceFaMonotonicity chat).2.lines) := by
  have forward := (List.pairwise_cons.mp (stripBackward_starts 0 chat.lines)).2
  exact (repairEnds_timings forward).1.isChain

end Order

section Repairs

/-- What the repair may make of a line. -/
inductive LineRepair : Line → Line → Prop
  | kept (line : Line) : LineRepair line line
  | clamped {utt : Utterance} {bullet : Bullet} {endMs : ℕ} (timed : utt.bullet = some bullet)
      (lower : endMs < bullet.timing.endMs) :
      LineRepair (.utterance utt) (.utterance (utt.withBullet
        (some { bullet with timing := { bullet.timing with endMs := endMs } })))
  | stripped {utt : Utterance} (timed : utt.bullet.isSome) :
      LineRepair (.utterance utt) (.utterance (stripTiming utt))

/-- The line was timed before and is not any more. -/
def lost (before after : Line) : ℕ :=
  if (lineTiming before).isSome ∧ lineTiming after = none then 1 else 0

/-- The line has another window than before. -/
def shortened (before after : Line) : ℕ :=
  if (lineTiming after).isSome ∧ lineTiming before ≠ lineTiming after then 1 else 0

def lostCount (before after : List Line) : ℕ := (List.zipWith lost before after).sum

def shortenedCount (before after : List Line) : ℕ := (List.zipWith shortened before after).sum

/-- The lines after a repair, with the counts it reports. -/
structure Repairs (before after : List Line) (repairs : MonotonicityRepairs) : Prop where
  lines : List.Forall₂ LineRepair before after
  stripped : repairs.stripped = lostCount before after
  clamped : repairs.clamped = shortenedCount before after

theorem lost_self (line : Line) : lost line line = 0 := by
  unfold lost
  cases lineTiming line <;> simp

theorem shortened_self (line : Line) : shortened line line = 0 := by simp [shortened]

theorem Repairs.nil : Repairs [] [] ⟨0, 0⟩ := ⟨.nil, rfl, rfl⟩

theorem Repairs.cons {before after : Line} {lines lines' : List Line}
    {repairs : MonotonicityRepairs} (line : LineRepair before after)
    (rest : Repairs lines lines' repairs) :
    Repairs (before :: lines) (after :: lines')
      ⟨lost before after + repairs.stripped, shortened before after + repairs.clamped⟩ := by
  refine ⟨.cons line rest.lines, ?_, ?_⟩
  · rw [rest.stripped]
    rfl
  · rw [rest.clamped]
    rfl

theorem Repairs.keep {lines lines' : List Line} {repairs : MonotonicityRepairs} (line : Line)
    (rest : Repairs lines lines' repairs) : Repairs (line :: lines) (line :: lines') repairs := by
  have whole := rest.cons (.kept line)
  rwa [lost_self, shortened_self, Nat.zero_add, Nat.zero_add] at whole

theorem Repairs.strip {lines lines' : List Line} {repairs : MonotonicityRepairs} {utt : Utterance}
    {bullet : Bullet} (timed : utt.bullet = some bullet) (rest : Repairs lines lines' repairs) :
    Repairs (.utterance utt :: lines) (.utterance (stripTiming utt) :: lines')
      ⟨1 + repairs.stripped, 0 + repairs.clamped⟩ := by
  have whole := rest.cons (.stripped (by simp [timed] : utt.bullet.isSome))
  have isLost : lost (.utterance utt) (.utterance (stripTiming utt)) = 1 := by
    simp [lost, timed]
  have notShortened : shortened (.utterance utt) (.utterance (stripTiming utt)) = 0 := by
    simp [shortened]
  rwa [isLost, notShortened] at whole

/-- The first pass only takes timing away. -/
theorem stripBackward_repairs (lastStartMs : ℕ) (lines : List Line) :
    Repairs lines (stripBackward lastStartMs lines).2
      ⟨(stripBackward lastStartMs lines).1, 0⟩ := by
  induction lines generalizing lastStartMs with
  | nil => exact .nil
  | cons line lines ih =>
      cases line with
      | utterance utt =>
          cases timed : utt.bullet with
          | none =>
              simp only [stripBackward, bulletStart, timed, Option.map_none]
              exact (ih lastStartMs).keep _
          | some bullet =>
              simp only [stripBackward, bulletStart, timed, Option.map_some]
              by_cases backward : bullet.timing.startMs < lastStartMs
              · rw [if_pos backward, Nat.add_comm]
                exact (ih lastStartMs).strip timed
              · rw [if_neg backward]
                exact (ih bullet.timing.startMs).keep _
      | header header => exact (ih lastStartMs).keep _
      | other text => exact (ih lastStartMs).keep _

/-- The second pass, line by line. -/
theorem repairEnds_repairs (lines : List Line) :
    Repairs lines (repairEnds lines).2 (repairEnds lines).1 := by
  induction lines with
  | nil => exact .nil
  | cons line lines ih =>
      cases line with
      | utterance utt =>
          cases timed : utt.bullet with
          | none =>
              simp only [repairEnds, timed]
              exact ih.keep _
          | some bullet =>
              cases next : lines.findSome? lineStart with
              | none =>
                  simp only [repairEnds, timed, next]
                  exact ih.keep _
              | some nextStartMs =>
                  simp only [repairEnds, timed, next, repairEnd]
                  split_ifs with before behind
                  · rw [Nat.zero_add, Nat.zero_add]
                    exact ih.keep _
                  · exact ih.strip timed
                  · have lower : nextStartMs < bullet.timing.endMs := by omega
                    have whole := ih.cons (.clamped timed lower)
                    have isShortened : shortened (.utterance utt) (.utterance (utt.withBullet
                        (some { bullet with
                          timing := { bullet.timing with endMs := nextStartMs } }))) = 1 := by
                      have differs : bullet.timing ≠ { bullet.timing with endMs := nextStartMs } :=
                        fun same => lower.ne' (congrArg Timing.endMs same)
                      simp [shortened, timed, differs]
                    have notLost : lost (.utterance utt) (.utterance (utt.withBullet
                        (some { bullet with
                          timing := { bullet.timing with endMs := nextStartMs } }))) = 0 := by
                      simp [lost]
                    rwa [isShortened, notLost] at whole
      | header header => exact ih.keep _
      | other text => exact ih.keep _

/-- A pass that only takes timing away, and another pass after it. -/
theorem LineRepair.after_strip {before middle after : Line} (first : LineRepair before middle)
    (second : LineRepair middle after) (noClamp : shortened before middle = 0) :
    LineRepair before after ∧ lost before after = lost before middle + lost middle after ∧
      shortened before after = shortened middle after := by
  cases first with
  | kept => exact ⟨second, by rw [lost_self, Nat.zero_add], rfl⟩
  | @clamped utt bullet endMs timed lower =>
      have differs : bullet.timing ≠ { bullet.timing with endMs := endMs } :=
        fun same => lower.ne' (congrArg Timing.endMs same)
      simp [shortened, timed, differs] at noClamp
  | @stripped utt timed =>
      have same : after = .utterance (stripTiming utt) := by
        cases second with
        | kept => rfl
        | clamped timed _ => simp at timed
        | stripped timed => simp at timed
      subst same
      refine ⟨.stripped timed, by rw [lost_self, Nat.add_zero], ?_⟩
      simp [shortened]

theorem Repairs.after_strip {before middle after : List Line} {stripped : ℕ}
    {repairs : MonotonicityRepairs} (first : Repairs before middle ⟨stripped, 0⟩)
    (second : Repairs middle after repairs) :
    Repairs before after ⟨stripped + repairs.stripped, repairs.clamped⟩ := by
  have whole : List.Forall₂ LineRepair before after ∧
      lostCount before after = lostCount before middle + lostCount middle after ∧
      shortenedCount before after = shortenedCount middle after := by
    have noClamp : shortenedCount before middle = 0 := first.clamped.symm
    have firstLines := first.lines
    have secondLines := second.lines
    clear first second
    induction firstLines generalizing after with
    | nil =>
        cases secondLines
        exact ⟨.nil, rfl, rfl⟩
    | cons firstLine rest ih =>
        cases secondLines with
        | cons secondLine later =>
            simp only [shortenedCount, List.zipWith_cons_cons, List.sum_cons,
              Nat.add_eq_zero_iff] at noClamp
            rcases firstLine.after_strip secondLine noClamp.1 with ⟨line, isLost, isShortened⟩
            rcases ih noClamp.2 later with ⟨lines, areLost, areShortened⟩
            simp only [lostCount, shortenedCount] at areLost areShortened ⊢
            refine ⟨.cons line lines, ?_, ?_⟩
            · simp only [List.zipWith_cons_cons, List.sum_cons, isLost, areLost]
              omega
            · simp only [List.zipWith_cons_cons, List.sum_cons, isShortened, areShortened]
  refine ⟨whole.1, ?_, ?_⟩
  · rw [whole.2.1, ← first.stripped, ← second.stripped]
  · rw [whole.2.2, ← second.clamped]

end Repairs

section Idempotence

/-- Starts that go forward lose nothing in the first pass. -/
theorem stripBackward_eq_self {lastStartMs : ℕ} {lines : List Line}
    (forward : (lastStartMs :: starts lines).Pairwise (· ≤ ·)) :
    stripBackward lastStartMs lines = (0, lines) := by
  induction lines generalizing lastStartMs with
  | nil => rfl
  | cons line lines ih =>
      rw [starts_cons] at forward
      cases line with
      | utterance utt =>
          cases timed : utt.bullet with
          | none =>
              simp only [lineTiming_utterance, timed, Option.map_none, Option.toList_none,
                List.nil_append] at forward
              simp [stripBackward, bulletStart, timed, ih forward]
          | some bullet =>
              simp only [lineTiming_utterance, timed, Option.map_some, Option.toList_some,
                List.singleton_append] at forward
              have notBackward : ¬ bullet.timing.startMs < lastStartMs := by
                have ahead := List.rel_of_pairwise_cons forward List.mem_cons_self
                omega
              simp [stripBackward, bulletStart, timed, notBackward, ih forward.of_cons]
      | header header => simp [stripBackward, ih forward]
      | other text => simp [stripBackward, ih forward]

/-- Ordered windows lose nothing in the second pass. -/
theorem repairEnds_eq_self {lines : List Line} (ordered : OrderedTimings (timings lines)) :
    repairEnds lines = (⟨0, 0⟩, lines) := by
  induction lines with
  | nil => rfl
  | cons line lines ih =>
      unfold OrderedTimings at ordered ih
      cases line with
      | utterance utt =>
          cases timed : utt.bullet with
          | none =>
              have rest := ih (by simpa [timings, timed] using ordered)
              simp [repairEnds, timed, rest]
          | some bullet =>
              have chain : (bullet.timing :: timings lines).IsChain Before := by
                simpa [timings, timed] using ordered
              have rest := ih chain.tail
              cases next : lines.findSome? lineStart with
              | none => simp [repairEnds, timed, next, rest]
              | some nextStartMs =>
                  have nextWindow := next
                  rw [findSome?_lineStart_eq_head?] at nextWindow
                  rcases Option.map_eq_some_iff.mp nextWindow with ⟨window, isFirst, rfl⟩
                  have before : Before bullet.timing window := by
                    rcases List.head?_eq_some_iff.mp isFirst with ⟨later, windows⟩
                    rw [windows] at chain
                    exact List.IsChain.rel chain
                  simp [repairEnds, timed, next, rest, repairEnd, before.2]
      | header header => simp [repairEnds, ih ordered]
      | other text => simp [repairEnds, ih ordered]

/-- Afterwards the windows are ordered. An utterance has kept its bullet, has an earlier end, or
has lost the bullet and the `%wor` tier, as often as is reported, and a second repair finds nothing
to do. -/
theorem enforceFaMonotonicity_repairs (chat : ChatFile) :
    let repaired := enforceFaMonotonicity chat
    OrderedTimings (timings repaired.2.lines) ∧
      repaired.2.participants = chat.participants ∧
      Repairs chat.lines repaired.2.lines repaired.1 ∧
      enforceFaMonotonicity repaired.2 = (⟨0, 0⟩, repaired.2) := by
  intro repaired
  have ordered := enforceFaMonotonicity_ordered chat
  refine ⟨ordered, rfl, ?_, ?_⟩
  · exact (stripBackward_repairs 0 chat.lines).after_strip (repairEnds_repairs _)
  · have forward : (0 :: starts repaired.2.lines).Pairwise (· ≤ ·) := by
      refine List.pairwise_cons.mpr ⟨fun start _ => Nat.zero_le start, ?_⟩
      have pairs : (timings repaired.2.lines).Pairwise Before :=
        List.isChain_iff_pairwise.mp ordered
      exact List.pairwise_map.mpr (pairs.imp fun before => before.1)
    have first := stripBackward_eq_self forward
    have second := repairEnds_eq_self ordered
    unfold enforceFaMonotonicity
    rw [first]
    simp only
    rw [second]
    rfl

end Idempotence

end Batchalign.Fa
