import Batchalign.Library.LatestEntries
import Batchalign.Engine.Pipeline

/-!
# Provenance

`stamp_provenance` of `utils.rs` and `stamp_chats_in_value` of `pipeline.rs`. Each stage notes
the engine it used in a comment behind the last of the constant participant headers. A stage that
has a comment already is recognised by its name between `| ` and `: `, and its comment is
replaced in place.
-/

namespace Batchalign.Provenance

open Chat LatestEntries

section Timestamp

/-- The date of a number of days since 1970-01-01. The year is an `i32`. -/
def civilFromUnixDays (days : ℤ) : ℤ × ℤ × ℤ :=
  let z := days + 719468
  let era := z / 146097
  let doe := z % 146097
  let yoe := (doe - doe / 1460 + doe / 36524 - doe / 146096) / 365
  let y := yoe + era * 400
  let doy := doe - (365 * yoe + yoe / 4 - yoe / 100)
  let mp := (5 * doy + 2) / 153
  let d := doy - (153 * mp + 2) / 5 + 1
  let m := if mp < 10 then mp + 3 else mp - 9
  let y := if m ≤ 2 then y + 1 else y
  (y.bmod (2 ^ 32), m, d)

/-- `{n:0width}`: the sign counts as well. -/
def zeroPadded (width : ℕ) (n : ℤ) : String :=
  let sign := if n < 0 then ['-'] else []
  let digits := Nat.toDigits 10 n.natAbs
  String.ofList (sign ++ List.replicate (width - sign.length - digits.length) '0' ++ digits)

/-- The clock shows `secs` seconds since 1970. -/
def currentUtcTimestamp (secs : ℤ) : String :=
  let days := secs / 86400
  let tod := secs % 86400
  let (y, mo, d) := civilFromUnixDays days
  let h := tod / 3600
  let mi := tod % 3600 / 60
  let s := tod % 60
  zeroPadded 4 y ++ "-" ++ zeroPadded 2 mo ++ "-" ++ zeroPadded 2 d ++ "T" ++ zeroPadded 2 h ++
    ":" ++ zeroPadded 2 mi ++ ":" ++ zeroPadded 2 s ++ "Z"

example : civilFromUnixDays 20606 = (2026, 6, 2) := by decide

def isTimestampChar (c : Char) : Bool := c.isDigit || ['-', 'T', ':', 'Z'].contains c

theorem zeroPadded_chars {width : ℕ} {n : ℤ} {c : Char} (member : c ∈ (zeroPadded width n).toList) :
    isTimestampChar c = true := by
  rw [zeroPadded, String.toList_ofList, List.mem_append, List.mem_append] at member
  rcases member with (sign | zero) | digit
  · split at sign
    · obtain rfl : c = '-' := by simpa using sign
      rfl
    · simp at sign
  · obtain rfl : c = '0' := List.eq_of_mem_replicate zero
    rfl
  · have isDigit : c.isDigit = true := Nat.isDigit_of_mem_toDigits (by simp) le_rfl digit
    simp [isTimestampChar, isDigit]

theorem currentUtcTimestamp_chars (secs : ℤ) :
    ∀ c ∈ (currentUtcTimestamp secs).toList, isTimestampChar c = true := by
  simp only [currentUtcTimestamp, String.toList_append, List.forall_mem_append]
  have padded {width : ℕ} {n : ℤ} : ∀ c ∈ (zeroPadded width n).toList, isTimestampChar c = true :=
    fun _ => zeroPadded_chars
  have dash : ∀ c ∈ "-".toList, isTimestampChar c = true := by simp [isTimestampChar]
  have tee : ∀ c ∈ "T".toList, isTimestampChar c = true := by simp [isTimestampChar]
  have colon : ∀ c ∈ ":".toList, isTimestampChar c = true := by simp [isTimestampChar]
  have zed : ∀ c ∈ "Z".toList, isTimestampChar c = true := by simp [isTimestampChar]
  exact ⟨⟨⟨⟨⟨⟨⟨⟨⟨⟨⟨padded, dash⟩, padded⟩, dash⟩, padded⟩, tee⟩, padded⟩, colon⟩, padded⟩,
    colon⟩, padded⟩, zed⟩

theorem notMem_currentUtcTimestamp {c : Char} (foreign : isTimestampChar c = false) (secs : ℤ) :
    c ∉ (currentUtcTimestamp secs).toList := by
  intro member
  rw [currentUtcTimestamp_chars secs c member] at foreign
  cases foreign

end Timestamp

section Stamping

def provenancePrefix : String := "batchalign "

/-- The commit that is baked in when the program is built. -/
class GitSha where
  vergenGitSha : Option String
  batchalignGitSha : Option String
  plain : ∀ sha, sha ∈ vergenGitSha ∨ sha ∈ batchalignGitSha → '|' ∉ sha.toList

/-- The arguments of a call, and what the clock shows. -/
structure StampCall where
  stage : String
  engine : Option String
  secs : ℤ
deriving DecidableEq, Repr

def StampCall.engineLabel (call : StampCall) : String := call.engine.getD "<unknown>"

def stageMarker (stage : String) : String := s!"| {stage}: "

/-- A prior comment for the stage. -/
def isStampOf (stage : String) : Line → Bool
  | .header (.comment text) =>
      (provenancePrefix.toList.isPrefixOf text.toList ||
        "batchalign3 ".toList.isPrefixOf text.toList) &&
        decide ((stageMarker stage).toList <:+: text.toList)
  | _ => false

/-- `@ID`, `@Birth`, `@Birthplace` and `@L1`. -/
def isConstantParticipant : Line → Bool
  | .header (.id _) => true
  | .header (.other text) => ["@Birth of ", "@Birthplace of ", "@L1 of "].any fun name =>
      name.toList.isPrefixOf text.toList
  | _ => false

def isEnd : Line → Bool
  | .header (.other text) => text == "@End"
  | _ => false

/-- The index of the last element with a property. -/
def rposition {α : Type} (p : α → Bool) : List α → Option ℕ
  | [] => none
  | x :: xs =>
      match rposition p xs with
      | some index => some (index + 1)
      | none => if p x then some 0 else none

def insertAt (lines : List Line) : ℕ :=
  ((rposition isConstantParticipant lines).map (· + 1)).getD
    ((lines.findIdx? Line.isUtterance).getD ((rposition isEnd lines).getD lines.length))

variable [GitSha]

def gitSha : String := (GitSha.vergenGitSha.or GitSha.batchalignGitSha).getD "unknown"

def stampText (call : StampCall) : String :=
  let ts := currentUtcTimestamp call.secs
  s!"{provenancePrefix}{gitSha} | {call.stage}: {call.engineLabel} | {ts}"

def stampLine (call : StampCall) : Line := .header (.comment (stampText call))

def stampProvenance (lines : List Line) (call : StampCall) : List Line :=
  match lines.findIdx? (isStampOf call.stage) with
  | some index => lines.set index (stampLine call)
  | none => lines.insertIdx (insertAt lines) (stampLine call)

def stampAll (lines : List Line) (calls : List StampCall) : List Line :=
  calls.foldl stampProvenance lines

end Stamping

section Markers

/-- A pattern that starts with a letter occurs from that letter on. -/
theorem infix_append_cons_iff {α : Type} {c : α} {pattern front rest : List α}
    (plain : c ∉ front) :
    c :: pattern <:+: front ++ c :: rest ↔ pattern <+: rest ∨ c :: pattern <:+: rest := by
  induction front with
  | nil => rw [List.nil_append, List.infix_cons_iff, List.prefix_cons_inj]
  | cons a front ih =>
      obtain ⟨apart, plain⟩ : c ≠ a ∧ c ∉ front := by simpa using plain
      rw [List.cons_append, List.infix_cons_iff, ih plain, List.cons_prefix_cons]
      simp [apart]

/-- Two names with the same ending in front of one text. -/
theorem eq_or_prefix_of_prefix {α : Type} {a b : α} (apart : a ≠ b) {name other text : List α}
    (one : name ++ [a, b] <+: text) (two : other ++ [a, b] <+: text) :
    name = other ∨ name ++ [a, b] <+: other ∨ other ++ [a, b] <+: name := by
  have shorter {name other : List α} (within : name ++ [a, b] <+: other ++ [a, b]) :
      name = other ∨ name ++ [a, b] <+: other := by
    have split : other ++ [a, b] = (other ++ [a]) ++ [b] := by simp
    rw [split, List.prefix_concat_iff, List.prefix_concat_iff] at within
    rcases within with same | same | inside
    · left
      exact (List.append_inj' (same.trans split.symm) rfl).1
    · have last := congrArg List.getLast? same
      simp [Ne.symm apart] at last
    · exact Or.inr inside
  rcases List.prefix_or_prefix_of_prefix one two with within | within
  · exact (shorter within).imp_right Or.inl
  · exact (shorter within).imp Eq.symm Or.inr

/-- What tells the stages of a run apart. -/
structure Separable (calls : List StampCall) : Prop where
  stages : ∀ call ∈ calls, '|' ∉ call.stage.toList
  engines : ∀ call ∈ calls, '|' ∉ call.engineLabel.toList
  apart : ∀ call ∈ calls, ∀ other ∈ calls,
    ¬ call.stage.toList ++ [':', ' '] <+: other.stage.toList

theorem Separable.mono {calls more : List StampCall} (separable : Separable more)
    (within : calls ⊆ more) : Separable calls where
  stages call member := separable.stages call (within member)
  engines call member := separable.engines call (within member)
  apart call member other member' := separable.apart call (within member) other (within member')

variable [GitSha]

theorem gitSha_plain : '|' ∉ gitSha.toList := by
  rw [gitSha]
  cases found : GitSha.vergenGitSha.or GitSha.batchalignGitSha with
  | none => simp
  | some sha =>
      rcases Option.or_eq_some_iff.mp found with vergen | batchalign
      · exact GitSha.plain sha (Or.inl vergen)
      · exact GitSha.plain sha (Or.inr batchalign.2)

/-- The text between its two bars. -/
theorem stampText_toList (call : StampCall) :
    (stampText call).toList =
      ("batchalign ".toList ++ gitSha.toList ++ [' ']) ++ '|' ::
        ((' ' :: call.stage.toList ++ [':', ' '] ++ call.engineLabel.toList ++ [' ']) ++ '|' ::
          (' ' :: (currentUtcTimestamp call.secs).toList)) := by
  simp [stampText, provenancePrefix, toString]

/-- A stamp is for a stage if it goes on with the stage's name behind its first bar. -/
theorem isStampOf_stampLine {stage : String} {call : StampCall}
    (plainStage : '|' ∉ call.stage.toList) (plainEngine : '|' ∉ call.engineLabel.toList) :
    isStampOf stage (stampLine call) = true ↔
      stage.toList ++ [':', ' '] <+: call.stage.toList ++ [':', ' '] ++
        (call.engineLabel.toList ++ ' ' :: '|' :: ' ' ::
          (currentUtcTimestamp call.secs).toList) := by
  have noSpace := notMem_currentUtcTimestamp (c := ' ') rfl call.secs
  have noBar := notMem_currentUtcTimestamp (c := '|') rfl call.secs
  have marked : (stageMarker stage).toList = '|' :: ' ' :: (stage.toList ++ [':', ' ']) := by
    simp [stageMarker, toString]
  have starts : provenancePrefix.toList.isPrefixOf (stampText call).toList = true := by
    rw [List.isPrefixOf_iff_prefix, stampText_toList]
    simp only [provenancePrefix, List.append_assoc]
    exact List.prefix_append _ _
  have second : ¬ '|' :: ' ' :: (stage.toList ++ [':', ' ']) <:+:
      ' ' :: (currentUtcTimestamp call.secs).toList := by
    intro within
    have bar := within.subset List.mem_cons_self
    simp [noBar] at bar
  have third : ¬ ' ' :: (stage.toList ++ [':', ' ']) <+:
      ' ' :: (currentUtcTimestamp call.secs).toList := by
    rw [List.prefix_cons_inj]
    intro within
    exact noSpace (within.subset (by simp))
  rw [stampLine, isStampOf, starts, Bool.true_or, Bool.true_and, decide_eq_true_eq, marked,
    stampText_toList, infix_append_cons_iff, infix_append_cons_iff]
  · simp [second, third]
  · simp [plainStage, plainEngine]
  · simpa using gitSha_plain

theorem Separable.isStampOf_iff {calls : List StampCall} (separable : Separable calls)
    {call other : StampCall} (member : call ∈ calls) (member' : other ∈ calls) :
    isStampOf call.stage (stampLine other) = true ↔ other.stage = call.stage := by
  rw [isStampOf_stampLine (separable.stages other member') (separable.engines other member')]
  constructor
  · intro one
    have two := List.prefix_append (other.stage.toList ++ [':', ' '])
      (other.engineLabel.toList ++ ' ' :: '|' :: ' ' :: (currentUtcTimestamp other.secs).toList)
    rcases eq_or_prefix_of_prefix (by simp) one two with same | within | within
    · exact String.toList_inj.mp same.symm
    · exact absurd within (separable.apart call member other member')
    · exact absurd within (separable.apart other member' call member)
  · rintro same
    rw [same]
    exact List.prefix_append _ _

end Markers

section Places

variable {α : Type} {p : α → Bool} {xs : List α} {index : ℕ}

theorem rposition_eq_none_iff : rposition p xs = none ↔ ∀ x ∈ xs, p x = false := by
  induction xs with
  | nil => simp [rposition]
  | cons x xs ih =>
      rw [rposition, List.forall_mem_cons, ← ih]
      cases found : rposition p xs with
      | some index => simp
      | none => cases p x <;> simp

theorem rposition_split {front back : List α} {x : α} (here : p x = true)
    (behind : ∀ y ∈ back, p y = false) : rposition p (front ++ x :: back) = some front.length := by
  induction front with
  | nil => simp [rposition, rposition_eq_none_iff.mpr behind, here]
  | cons y front ih => simp [rposition, ih]

theorem insertIdx_append (front back : List α) (x : α) :
    (front ++ back).insertIdx front.length x = front ++ x :: back := by
  induction front with
  | nil => rfl
  | cons y front ih => simpa using ih

theorem exists_of_rposition (found : rposition p xs = some index) :
    ∃ front x back, xs = front ++ x :: back ∧ p x = true ∧ ∀ y ∈ back, p y = false := by
  induction xs generalizing index with
  | nil => cases found
  | cons x xs ih =>
      cases deeper : rposition p xs with
      | some next =>
          obtain ⟨front, y, back, rfl, here, behind⟩ := ih deeper
          exact ⟨x :: front, y, back, rfl, here, behind⟩
      | none =>
          refine ⟨[], x, xs, rfl, ?_, rposition_eq_none_iff.mp deeper⟩
          by_contra other
          simp [rposition, deeper, other] at found

theorem findIdx?_split {front back : List α} {x : α} (before : ∀ y ∈ front, p y = false)
    (here : p x = true) : (front ++ x :: back).findIdx? p = some front.length := by
  have absent := List.findIdx?_eq_none_iff.mpr before
  simp [List.findIdx?_append, absent, List.findIdx?_cons, here]

variable [GitSha]

/-- A place that stamps are put at, in front of those that are there or behind them. -/
structure IsPlace (front back : List Line) : Prop where
  participants : ∀ line ∈ back, isConstantParticipant line = false
  insertAt : ∀ stamps : List StampCall,
    insertAt (front ++ stamps.map stampLine ++ back) = front.length ∨
      insertAt (front ++ stamps.map stampLine ++ back) = (front ++ stamps.map stampLine).length

theorem forall_mem_stamped {p : Line → Bool} {front back : List Line}
    (unstamped : ∀ line ∈ front ++ back, p line = false) (stamps : List StampCall)
    (stamp : ∀ call ∈ stamps, p (stampLine call) = false) :
    ∀ line ∈ front ++ stamps.map stampLine ++ back, p line = false := by
  rw [List.forall_mem_append] at unstamped
  rw [List.forall_mem_append, List.forall_mem_append, List.forall_mem_map]
  exact ⟨⟨unstamped.1, stamp⟩, unstamped.2⟩

/-- Without participants the stamps come in front of the first utterance, or else of the last end,
or else last. -/
theorem exists_isPlace_of_absent {lines : List Line}
    (absent : ∀ line ∈ lines, isConstantParticipant line = false) :
    ∃ front back, lines = front ++ back ∧ IsPlace front back := by
  have place {front back : List Line} (split : lines = front ++ back)
      (here : ∀ stamps : List StampCall,
        ((front ++ stamps.map stampLine ++ back).findIdx? Line.isUtterance).getD
          ((rposition isEnd (front ++ stamps.map stampLine ++ back)).getD
            (front ++ stamps.map stampLine ++ back).length) =
          (front ++ stamps.map stampLine).length) : IsPlace front back := by
    subst split
    refine ⟨fun line inBack => absent line (List.mem_append_right front inBack), ?_⟩
    intro stamps
    right
    have nowhere := rposition_eq_none_iff.mpr
      (forall_mem_stamped absent stamps fun _ _ => rfl)
    rw [insertAt, nowhere]
    exact here stamps
  cases found : lines.find? Line.isUtterance with
  | some x =>
      obtain ⟨here, front, back, split, before⟩ := List.find?_eq_some_iff_append.mp found
      refine ⟨front, x :: back, split, place split fun stamps => ?_⟩
      rw [findIdx?_split _ here]
      · rfl
      · have before : ∀ line ∈ front ++ [], Line.isUtterance line = false := by simpa using before
        simpa using forall_mem_stamped before stamps fun _ _ => rfl
  | none =>
      have silent (stamps : List StampCall) {front back : List Line}
          (split : lines = front ++ back) :
          (front ++ stamps.map stampLine ++ back).findIdx? Line.isUtterance = none := by
        apply List.findIdx?_eq_none_iff.mpr
        apply forall_mem_stamped _ stamps fun _ _ => rfl
        rw [← split]
        simpa using found
      cases ended : rposition isEnd lines with
      | some index =>
          obtain ⟨front, x, back, split, here, behind⟩ := exists_of_rposition ended
          refine ⟨front, x :: back, split, place split fun stamps => ?_⟩
          rw [silent stamps split, rposition_split here behind]
          rfl
      | none =>
          refine ⟨lines, [], by simp, place (by simp) fun stamps => ?_⟩
          have endless : ∀ line ∈ lines ++ [], isEnd line = false := by
            simpa using rposition_eq_none_iff.mp ended
          rw [silent stamps (by simp),
            rposition_eq_none_iff.mpr (forall_mem_stamped endless stamps fun _ _ => rfl)]
          simp

theorem exists_isPlace (lines : List Line) :
    ∃ front back, lines = front ++ back ∧ IsPlace front back := by
  cases found : rposition isConstantParticipant lines with
  | none => exact exists_isPlace_of_absent (rposition_eq_none_iff.mp found)
  | some index =>
      obtain ⟨front, x, back, rfl, here, behind⟩ := exists_of_rposition found
      refine ⟨front ++ [x], back, by simp, behind, fun stamps => ?_⟩
      left
      have reads : rposition isConstantParticipant
          (front ++ [x] ++ stamps.map stampLine ++ back) = some front.length := by
        rw [List.append_assoc, List.append_assoc, List.singleton_append]
        apply rposition_split here
        have behind : ∀ line ∈ [] ++ back, isConstantParticipant line = false := behind
        exact forall_mem_stamped behind stamps fun _ _ => rfl
      rw [insertAt, reads]
      simp

end Places

section Runs

variable [GitSha] {front back lines : List Line} {block calls : List StampCall} {call : StampCall}

/-- A stage that has a stamp gets it replaced. -/
theorem stampProvenance_replaces {earlier later : List StampCall} {old : StampCall}
    (fresh : ∀ line ∈ front ++ back, isStampOf call.stage line = false)
    (first : ∀ other ∈ earlier, isStampOf call.stage (stampLine other) = false)
    (here : isStampOf call.stage (stampLine old) = true) :
    stampProvenance (front ++ (earlier ++ old :: later).map stampLine ++ back) call =
      front ++ (earlier ++ call :: later).map stampLine ++ back := by
  have split (middle : StampCall) :
      front ++ (earlier ++ middle :: later).map stampLine ++ back =
        (front ++ earlier.map stampLine) ++ stampLine middle :: (later.map stampLine ++ back) := by
    simp
  have before : ∀ line ∈ front ++ earlier.map stampLine, isStampOf call.stage line = false := by
    rw [List.forall_mem_append] at fresh
    rw [List.forall_mem_append, List.forall_mem_map]
    exact ⟨fresh.1, first⟩
  rw [split, split, stampProvenance, findIdx?_split before here]
  simp only [List.set_append_right _ _ le_rfl, Nat.sub_self, List.set_cons_zero]

/-- A stage that has none gets a stamp in front of the others or behind them. -/
theorem stampProvenance_adds (place : IsPlace front back)
    (fresh : ∀ line ∈ front ++ block.map stampLine ++ back, isStampOf call.stage line = false) :
    stampProvenance (front ++ block.map stampLine ++ back) call =
        front ++ (call :: block).map stampLine ++ back ∨
      stampProvenance (front ++ block.map stampLine ++ back) call =
        front ++ (block ++ [call]).map stampLine ++ back := by
  rw [stampProvenance, List.findIdx?_eq_none_iff.mpr fresh]
  rcases place.insertAt block with atFront | atBack
  · left
    simp only [atFront]
    rw [List.append_assoc, insertIdx_append]
    simp
  · right
    simp only [atBack]
    rw [insertIdx_append]
    simp

theorem stampProvenance_puts (place : IsPlace front back)
    (fresh : ∀ line ∈ front ++ back, isStampOf call.stage line = false)
    (separable : Separable (call :: block)) :
    ∃ stamps, Puts StampCall.stage call block stamps ∧
      stampProvenance (front ++ block.map stampLine ++ back) call =
        front ++ stamps.map stampLine ++ back := by
  have marked {other : StampCall} (member : other ∈ block) :
      isStampOf call.stage (stampLine other) = true ↔ other.stage = call.stage :=
    separable.isStampOf_iff List.mem_cons_self (List.mem_cons_of_mem call member)
  by_cases known : call.stage ∈ block.map StampCall.stage
  · obtain ⟨old, found⟩ : ∃ old, block.find? (·.stage = call.stage) = some old := by
      rw [← Option.isSome_iff_exists, List.find?_isSome]
      simpa using known
    obtain ⟨same, earlier, later, rfl, first⟩ := List.find?_eq_some_iff_append.mp found
    refine ⟨earlier ++ call :: later, Puts.replaces (by simpa using same), ?_⟩
    apply stampProvenance_replaces fresh
    · intro other member
      have apart : ¬ other.stage = call.stage := by simpa using first other member
      simpa using (marked (List.mem_append_left _ member)).not.mpr apart
    · exact (marked (by simp)).mpr (by simpa using same)
  · have unstamped : ∀ line ∈ front ++ block.map stampLine ++ back,
        isStampOf call.stage line = false := by
      apply forall_mem_stamped fresh
      intro other member
      have apart : ¬ other.stage = call.stage := fun same =>
        known (List.mem_map.mpr ⟨other, member, same⟩)
      simpa using (marked member).not.mpr apart
    rcases stampProvenance_adds place unstamped with added | added
    · have inFront : Puts StampCall.stage call ([] ++ block) ([] ++ call :: block) :=
        Puts.adds known
      exact ⟨call :: block, inFront, added⟩
    · have inBack : Puts StampCall.stage call (block ++ []) (block ++ [call]) :=
        Puts.adds (by simpa using known)
      exact ⟨block ++ [call], by simpa using inBack, added⟩

theorem stampAll_latest (place : IsPlace front back)
    (fresh : ∀ call ∈ calls, ∀ line ∈ front ++ back, isStampOf call.stage line = false)
    (separable : Separable calls) :
    ∃ stamps : List StampCall, stamps.Perm (latest StampCall.stage calls) ∧
      stampAll (front ++ back) calls = front ++ stamps.map stampLine ++ back := by
  induction calls using List.reverseRecOn with
  | nil => exact ⟨[], List.Perm.refl [], by simp [stampAll]⟩
  | append_singleton earlier call ih =>
      have before := List.subset_append_left earlier [call]
      obtain ⟨block, holds, reached⟩ := ih (fun call member => fresh call (before member))
        (separable.mono before)
      have known : call :: block ⊆ earlier ++ [call] := by
        intro other member
        rcases List.mem_cons.mp member with rfl | inBlock
        · simp
        · obtain ⟨before', after, rfl, -⟩ := mem_latest_iff.mp (holds.subset inBlock)
          simp
      obtain ⟨stamps, puts, stamped⟩ := stampProvenance_puts place (fresh call (by simp))
        (separable.mono known)
      refine ⟨stamps, puts.perm_latest holds, ?_⟩
      rw [stampAll, List.foldl_concat, ← stampAll, reached, stamped]

/-- Each stage ends up with one stamp, that of its last call. -/
theorem filter_isStampOf {stamps : List StampCall}
    (fresh : ∀ line ∈ front ++ back, isStampOf call.stage line = false)
    (separable : Separable calls) (holds : stamps.Perm (latest StampCall.stage calls))
    (last : call ∈ latest StampCall.stage calls) :
    (front ++ stamps.map stampLine ++ back).filter (isStampOf call.stage) = [stampLine call] := by
  have called {other : StampCall} (member : other ∈ stamps) : other ∈ calls := by
    obtain ⟨earlier, later, rfl, -⟩ := mem_latest_iff.mp (holds.subset member)
    simp
  have nodup : (stamps.map StampCall.stage).Nodup :=
    (holds.map _).nodup_iff.mpr (nodup_keys_latest calls)
  have inStamps := holds.symm.subset last
  have chosen : stamps.filter (isStampOf call.stage ∘ stampLine) =
      stamps.filter fun other => other.stage = call.stage := by
    apply List.filter_congr
    intro other member
    rw [Bool.eq_iff_iff, Function.comp_apply,
      separable.isStampOf_iff (called inStamps) (called member), decide_eq_true_eq]
  rw [List.forall_mem_append] at fresh
  have noFront : front.filter (isStampOf call.stage) = [] := by simpa using fresh.1
  have noBack : back.filter (isStampOf call.stage) = [] := by simpa using fresh.2
  rw [List.filter_append, List.filter_append, noFront, noBack, List.filter_map, chosen,
    filter_key_eq_singleton nodup inStamps]
  rfl

end Runs

section Pipeline

/-- The names that the pipeline and the translation runner stamp under. -/
def stageNames : List String :=
  ["ai", "asr", "fa", "speaker", "utseg", "utr", "morphosyntax", "translate", "phonetic", "coref",
    "compare", "convert", "translate-provider"]

theorem asStr_mem_stageNames (task : Task) : task.asStr ∈ stageNames := by
  cases task <;> simp [Task.asStr, stageNames]

theorem stageNames_apart :
    ∀ name ∈ stageNames, '|' ∉ name.toList ∧
      ∀ other ∈ stageNames, ¬ name.toList ++ [':', ' '] <+: other.toList := by
  decide

theorem separable_of_stageNames {calls : List StampCall}
    (named : ∀ call ∈ calls, call.stage ∈ stageNames)
    (engines : ∀ call ∈ calls, '|' ∉ call.engineLabel.toList) : Separable calls where
  stages call member := (stageNames_apart _ (named call member)).1
  engines := engines
  apart call member other member' :=
    (stageNames_apart _ (named call member)).2 _ (named other member')

variable [GitSha]

/-- The call for a stage of a pipeline. -/
def taskCall (engineName : Task → Option String) (clock : Task → ℤ) (task : Task) : StampCall :=
  ⟨task.asStr, engineName task, clock task⟩

def stampTask (engineName : Task → Option String) (clock : Task → ℤ) (task : Task) (chat : Chat) :
    Chat :=
  { chat with ast := { chat.ast with
    lines := stampProvenance chat.ast.lines (taskCall engineName clock task) } }

theorem lines_foldl_stampTask (engineName : Task → Option String) (clock : Task → ℤ)
    (order : List Task) (chat : Chat) :
    (order.foldl (fun chat task => stampTask engineName clock task chat) chat).ast.lines =
      stampAll chat.ast.lines (order.map (taskCall engineName clock)) := by
  induction order generalizing chat with
  | nil => rfl
  | cons task order ih => exact ih (stampTask engineName clock task chat)

/-- A run of a pipeline leaves one stamp for each of its stages. -/
theorem stampChatsInValue_chat {inner : Engine.PipelineInner} {engineName : Task → Option String}
    {clock : Task → ℤ} (stamps : inner.stampProvenance = stampTask engineName clock)
    (engines : ∀ task ∈ inner.order, '|' ∉ ((engineName task).getD "<unknown>").toList)
    {chat : Chat} (fresh : ∀ task ∈ inner.order, ∀ line ∈ chat.ast.lines,
      isStampOf task.asStr line = false) :
    ∃ (stamped : Chat) (front back : List Line) (calls : List StampCall),
      Engine.stampChatsInValue inner (.chat chat) = .chat stamped ∧
        chat.ast.lines = front ++ back ∧
        (∀ line ∈ back, isConstantParticipant line = false) ∧
        stamped.ast.lines = front ++ calls.map stampLine ++ back ∧
        calls.Perm
          (latest StampCall.stage (inner.order.map (taskCall engineName clock))) := by
  obtain ⟨front, back, split, place⟩ := exists_isPlace chat.ast.lines
  have separable : Separable (inner.order.map (taskCall engineName clock)) := by
    apply separable_of_stageNames
    · exact List.forall_mem_map.mpr fun task _ => asStr_mem_stageNames task
    · exact List.forall_mem_map.mpr engines
  have unstamped : ∀ call ∈ inner.order.map (taskCall engineName clock),
      ∀ line ∈ front ++ back, isStampOf call.stage line = false := by
    rw [← split]
    exact List.forall_mem_map.mpr fresh
  obtain ⟨calls, holds, reached⟩ := stampAll_latest place unstamped separable
  refine ⟨_, front, back, calls, rfl, split, place.participants, ?_, holds⟩
  rw [stamps, lines_foldl_stampTask, split, reached]

end Pipeline

section OneEach

/-- A transcript keeps its lines in their order and gets one stamp for each stage, with the engine
of the stage's last call, behind the constant participant headers. -/
theorem stampAll_one_each [GitSha] (lines : List Line) (calls : List StampCall)
    (fresh : ∀ call ∈ calls, ∀ line ∈ lines, isStampOf call.stage line = false)
    (stages : ∀ call ∈ calls, '|' ∉ call.stage.toList)
    (engines : ∀ call ∈ calls, '|' ∉ call.engineLabel.toList)
    (apart : ∀ call ∈ calls, ∀ other ∈ calls,
      ¬ call.stage.toList ++ [':', ' '] <+: other.stage.toList) :
    ∃ (front back : List Line) (stamps : List StampCall),
      lines = front ++ back ∧ (∀ line ∈ back, isConstantParticipant line = false) ∧
        stampAll lines calls = front ++ stamps.map stampLine ++ back ∧
        stamps.Perm (latest StampCall.stage calls) ∧
        ∀ call ∈ latest StampCall.stage calls,
          (stampAll lines calls).filter (isStampOf call.stage) = [stampLine call] := by
  obtain ⟨front, back, rfl, place⟩ := exists_isPlace lines
  have separable : Separable calls := ⟨stages, engines, apart⟩
  obtain ⟨stamps, holds, reached⟩ := stampAll_latest place fresh separable
  refine ⟨front, back, stamps, rfl, place.participants, reached, holds, ?_⟩
  intro call last
  rw [reached]
  obtain ⟨earlier, later, called, -⟩ := mem_latest_iff.mp last
  exact filter_isStampOf (fresh call (by simp [called])) separable holds last

@[reducible]
def unknownSha : GitSha where
  vergenGitSha := none
  batchalignGitSha := none
  plain _ found := found.elim nofun nofun

def sampleLines : List Line :=
  [.header (.other "@UTF8"), .header (.other "@Begin"),
    .header (.id ⟨"eng", some "test", "CHI", "Child"⟩),
    .header (.other "@L1 of CHI:\teng"), .header (.other "@Date:\t19-JUL-2026"),
    .header (.comment "batchalign was run on a laptop"), .header (.other "@End")]

def sampleCalls : List StampCall :=
  [⟨"utr", some "rev:en", 0⟩, ⟨"fa", some "wav2vec2:v3", 60⟩, ⟨"utr", some "whisper:large-v3", 120⟩]

theorem stampAll_one_each_sample :
    ∃ (front back : List Line) (stamps : List StampCall),
      sampleLines = front ++ back ∧ (∀ line ∈ back, isConstantParticipant line = false) ∧
        @stampAll unknownSha sampleLines sampleCalls =
          front ++ stamps.map (@stampLine unknownSha) ++ back ∧
        stamps.Perm (latest StampCall.stage sampleCalls) ∧
        ∀ call ∈ latest StampCall.stage sampleCalls,
          (@stampAll unknownSha sampleLines sampleCalls).filter (isStampOf call.stage) =
            [@stampLine unknownSha call] :=
  @stampAll_one_each unknownSha sampleLines sampleCalls (by decide) (by decide) (by decide)
    (by decide)

/-- The name of the second stage is that of the first with the start of its engine. -/
def overlappingCalls : List StampCall :=
  [⟨"fa", some "wav2vec: mms", 0⟩, ⟨"fa: wav2vec", some "mms", 60⟩]

/-- The second call takes the first one's comment for its own. -/
theorem overlapping_names_share_a_stamp :
    (∀ call ∈ overlappingCalls, '|' ∉ call.stage.toList ∧ '|' ∉ call.engineLabel.toList) ∧
      (latest StampCall.stage overlappingCalls).length = 2 ∧
      (@stampAll unknownSha [] overlappingCalls).length = 1 := by
  decide

end OneEach

end Batchalign.Provenance
