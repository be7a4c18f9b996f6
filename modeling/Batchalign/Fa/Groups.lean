import Batchalign.Fa.Wav2Vec2

/-!
# The audio of a group, and the spans of its words

A group is aligned against the audio from the start of its first utterance to the end of its last
one. The groups are stretches of the utterances with a window: a stretch goes on while the
utterances end within fifteen seconds of its start. Its audio holds the windows of all its
utterances exactly if none starts before the first or ends after the last of them.

Inside a group the spans of the acoustic model are cut up by the lengths of the words, although
its tokens come from the words in lower case.
-/

namespace Batchalign.Fa

section Stretches

/-- An utterance that can be placed in the audio. -/
structure Placed where
  uidx : ℕ
  window : ℕ × ℕ
  wordCount : ℕ
deriving DecidableEq, Repr

def Placed.members (utt : Placed) : List (ℕ × ℕ) :=
  (List.range utt.wordCount).map fun widx => (utt.uidx, widx)

/-- The utterances with a window, with their index from `uidx` on. -/
def placedFrom (uidx : ℕ) : List ((ℕ × ℕ) × ℕ) → List Placed
  | [] => []
  | (window, wordCount) :: utts =>
      if window.1 < window.2 then ⟨uidx, window, wordCount⟩ :: placedFrom (uidx + 1) utts
      else placedFrom (uidx + 1) utts

def placed (utts : List ((ℕ × ℕ) × ℕ)) : List Placed := placedFrom 0 utts

/-- The utterance ends within fifteen seconds. -/
def Placed.near (startMs : ℕ) (utt : Placed) : Bool := utt.window.2 ≤ startMs + groupMs

def Placed.wordless (utt : Placed) : Bool := utt.wordCount = 0

/-- The stretches, each without its wordless utterances. A stretch starts where its first
utterance does, and is not left before an utterance with words. -/
def stretches : List Placed → List (List Placed)
  | [] => []
  | first :: rest =>
      match _spoken : (first :: rest).dropWhile Placed.wordless with
      | [] => []
      | utt :: later =>
          (utt :: (later.takeWhile (Placed.near first.window.1)).filter (! ·.wordless)) ::
            stretches (later.dropWhile (Placed.near first.window.1))
termination_by utts => utts.length
decreasing_by
  have shorter := (List.dropWhile_sublist (p := Placed.wordless) (l := first :: rest)).length_le
  have shorterStill :=
    (List.dropWhile_sublist (p := Placed.near first.window.1) (l := later)).length_le
  rw [_spoken, List.length_cons] at shorter
  omega

end Stretches

section Loop

variable {utts : List ((ℕ × ℕ) × ℕ)} {us : List Placed} {grouping : Grouping}

def Grouping.addPlaced (grouping : Grouping) (utt : Placed) : Grouping :=
  grouping.add utt.uidx utt.window utt.wordCount

/-- The loop skips the utterances without a window. -/
theorem addAll_eq_foldl_placed (uidx : ℕ) :
    grouping.addAll uidx utts = (placedFrom uidx utts).foldl Grouping.addPlaced grouping := by
  induction utts generalizing grouping uidx with
  | nil => rfl
  | cons utt utts ih =>
      rcases utt with ⟨window, wordCount⟩
      unfold Grouping.addAll placedFrom
      by_cases active : window.1 < window.2
      · rw [if_pos active, List.foldl_cons, ih]
        rfl
      · have skipped : grouping.add uidx window wordCount = grouping := by
          rw [Grouping.add, if_pos (by omega)]
        rw [if_neg active, skipped, ih]

theorem placedFrom_active (uidx : ℕ) :
    ∀ utt ∈ placedFrom uidx utts, utt.window.1 < utt.window.2 := by
  induction utts generalizing uidx with
  | nil => simp [placedFrom]
  | cons utt utts ih =>
      rcases utt with ⟨window, wordCount⟩
      unfold placedFrom
      split_ifs with active
      · intro utt member
        rcases List.mem_cons.mp member with rfl | member
        · exact active
        · exact ih (uidx + 1) utt member
      · exact ih (uidx + 1)

theorem placedFrom_window (uidx : ℕ) : ∀ utt ∈ placedFrom uidx utts,
    uidx ≤ utt.uidx ∧ (utts.map Prod.fst)[utt.uidx - uidx]? = some utt.window := by
  induction utts generalizing uidx with
  | nil => simp [placedFrom]
  | cons first utts ih =>
      rcases first with ⟨window, wordCount⟩
      have later : ∀ utt ∈ placedFrom (uidx + 1) utts, uidx ≤ utt.uidx ∧
          (((window, wordCount) :: utts).map Prod.fst)[utt.uidx - uidx]? = some utt.window := by
        intro utt member
        rcases ih (uidx + 1) utt member with ⟨after, atIndex⟩
        refine ⟨by omega, ?_⟩
        rw [show utt.uidx - uidx = utt.uidx - (uidx + 1) + 1 by omega]
        exact atIndex
      unfold placedFrom
      split_ifs with active
      · intro utt member
        rcases List.mem_cons.mp member with rfl | member
        · simp
        · exact later utt member
      · exact later

theorem members_eq_nil_iff (utt : Placed) : utt.members = [] ↔ utt.wordless = true := by
  simp [Placed.members, Placed.wordless]

/-- A group is left only at an utterance that ends too late. -/
theorem addPlaced_eq (utt : Placed) (active : utt.window.1 < utt.window.2)
    (closed : List (List (ℕ × ℕ))) (group : List (ℕ × ℕ)) (segStart : Option ℕ) :
    (Grouping.mk closed group segStart).addPlaced utt =
      if utt.near (segStart.getD utt.window.1) ∨ group = [] then
        ⟨closed, group ++ utt.members, some (segStart.getD utt.window.1)⟩
      else ⟨closed ++ [group], utt.members, some utt.window.1⟩ := by
  unfold Grouping.addPlaced Grouping.add Placed.near Placed.members
  rw [if_neg (by omega : ¬ utt.window.2 ≤ utt.window.1)]
  by_cases empty : group = []
  · simp [empty]
  · by_cases late : utt.window.2 - segStart.getD utt.window.1 > groupMs
    · have notNear : ¬ utt.window.2 ≤ segStart.getD utt.window.1 + groupMs := by omega
      simp [empty, late, notNear]
    · have near : utt.window.2 ≤ segStart.getD utt.window.1 + groupMs := by omega
      simp [empty, late, near]

theorem stretches_silent {first : Placed} {rest : List Placed}
    (silent : (first :: rest).dropWhile Placed.wordless = []) : stretches (first :: rest) = [] := by
  rw [stretches]
  split
  · rfl
  · rename_i utt later spoken
    rw [silent] at spoken
    cases spoken

theorem stretches_spoken {first utt : Placed} {rest later : List Placed}
    (spoken : (first :: rest).dropWhile Placed.wordless = utt :: later) :
    stretches (first :: rest) =
      (utt :: (later.takeWhile (Placed.near first.window.1)).filter (! ·.wordless)) ::
        stretches (later.dropWhile (Placed.near first.window.1)) := by
  rw [stretches]
  split
  · rename_i silent
    rw [silent] at spoken
    cases spoken
  · rename_i utt' later' spoken'
    rw [spoken] at spoken'
    cases spoken'
    rfl

/-- The members of the stretches. -/
def stretchMembers (us : List Placed) : List (List (ℕ × ℕ)) :=
  (stretches us).map (·.flatMap Placed.members)

/-- The same for a stretch that started before, still without a word. -/
def openMembers (segStart : ℕ) (us : List Placed) : List (List (ℕ × ℕ)) :=
  match us.dropWhile Placed.wordless with
  | [] => []
  | utt :: later =>
      (utt.members ++ (later.takeWhile (Placed.near segStart)).flatMap Placed.members) ::
        stretchMembers (later.dropWhile (Placed.near segStart))

theorem flatMap_members_filter :
    (us.filter (! ·.wordless)).flatMap Placed.members = us.flatMap Placed.members := by
  induction us with
  | nil => rfl
  | cons utt us ih =>
      cases silent : utt.wordless with
      | true =>
          rw [List.filter_cons_of_neg (by simp [silent]), List.flatMap_cons, ih,
            (members_eq_nil_iff utt).mpr silent, List.nil_append]
      | false => rw [List.filter_cons_of_pos (by simp [silent]), List.flatMap_cons, ih,
          List.flatMap_cons]

theorem stretchMembers_cons (first : Placed) (rest : List Placed) :
    stretchMembers (first :: rest) = openMembers first.window.1 (first :: rest) := by
  unfold stretchMembers openMembers
  cases spoken : (first :: rest).dropWhile Placed.wordless with
  | nil => rw [stretches_silent spoken, List.map_nil]
  | cons utt later =>
      rw [stretches_spoken spoken, List.map_cons, List.flatMap_cons, flatMap_members_filter]
      rfl

theorem openMembers_wordless {utt : Placed} (segStart : ℕ) (silent : utt.wordless = true) :
    openMembers segStart (utt :: us) = openMembers segStart us := by
  unfold openMembers
  rw [List.dropWhile_cons_of_pos silent]

theorem openMembers_worded {utt : Placed} (segStart : ℕ) (worded : utt.wordless = false) :
    openMembers segStart (utt :: us) =
      (utt.members ++ (us.takeWhile (Placed.near segStart)).flatMap Placed.members) ::
        stretchMembers (us.dropWhile (Placed.near segStart)) := by
  unfold openMembers
  rw [List.dropWhile_cons_of_neg (by simp [worded])]

/-- The groups of what follows in an open group, and where no word has come since the stretch
started. -/
theorem close_foldl_addPlaced (active : ∀ utt ∈ us, utt.window.1 < utt.window.2)
    (closed : List (List (ℕ × ℕ))) (segStart : ℕ) :
    (∀ group ≠ [], (us.foldl Grouping.addPlaced ⟨closed, group, some segStart⟩).close =
      closed ++ (group ++ (us.takeWhile (Placed.near segStart)).flatMap Placed.members) ::
        stretchMembers (us.dropWhile (Placed.near segStart))) ∧
    (us.foldl Grouping.addPlaced ⟨closed, [], some segStart⟩).close =
      closed ++ openMembers segStart us := by
  induction us generalizing closed segStart with
  | nil =>
      constructor
      · intro group nonempty
        simp [Grouping.close, nonempty, stretchMembers, stretches]
      · simp [Grouping.close, openMembers]
  | cons utt us ih =>
      have later : ∀ other ∈ us, other.window.1 < other.window.2 := fun other member =>
        active other (List.mem_cons_of_mem _ member)
      have added := addPlaced_eq utt (active utt List.mem_cons_self)
      constructor
      · intro group nonempty
        rw [List.foldl_cons, added]
        simp only [Option.getD_some, nonempty, or_false]
        cases near : utt.near segStart with
        | true =>
            rw [if_pos rfl, (ih later closed segStart).1 _ (by simp [nonempty]),
              List.takeWhile_cons_of_pos near, List.dropWhile_cons_of_pos near,
              List.flatMap_cons, List.append_assoc]
        | false =>
            rw [if_neg (by simp), List.takeWhile_cons_of_neg (by simp [near]),
              List.dropWhile_cons_of_neg (by simp [near]), List.flatMap_nil, List.append_nil,
              stretchMembers_cons]
            cases silent : utt.wordless with
            | true =>
                rw [(members_eq_nil_iff utt).mpr silent, (ih later _ _).2,
                  openMembers_wordless _ silent, List.append_assoc, List.singleton_append]
            | false =>
                have worded : utt.members ≠ [] := by
                  rw [ne_eq, members_eq_nil_iff, silent]
                  simp
                rw [(ih later _ _).1 _ worded, openMembers_worded _ silent, List.append_assoc,
                  List.singleton_append]
      · rw [List.foldl_cons, added]
        simp only [Option.getD_some, or_true, if_true, List.nil_append]
        cases silent : utt.wordless with
        | true =>
            rw [(members_eq_nil_iff utt).mpr silent, (ih later _ _).2,
              openMembers_wordless _ silent]
        | false =>
            have worded : utt.members ≠ [] := by
              rw [ne_eq, members_eq_nil_iff, silent]
              simp
            rw [(ih later _ _).1 _ worded, openMembers_worded _ silent]

/-- The groups are the members of the stretches. -/
theorem groups_eq_stretchMembers : groups utts = stretchMembers (placed utts) := by
  unfold groups placed
  rw [addAll_eq_foldl_placed]
  have active : ∀ utt ∈ placedFrom 0 utts, utt.window.1 < utt.window.2 := placedFrom_active 0
  cases all : placedFrom 0 utts with
  | nil => simp [Grouping.start, Grouping.close, stretchMembers, stretches]
  | cons first rest =>
      rw [all] at active
      have added : Grouping.start.addPlaced first =
          ⟨[], first.members, some first.window.1⟩ := by
        unfold Grouping.start
        rw [addPlaced_eq first (active first List.mem_cons_self), if_pos (Or.inr rfl)]
        rfl
      -- The first utterance opens a stretch as it would in one that starts with it.
      have reopened : (Grouping.mk [] [] (some first.window.1)).addPlaced first =
          ⟨[], first.members, some first.window.1⟩ := by
        rw [addPlaced_eq first (active first List.mem_cons_self), if_pos (Or.inr rfl)]
        rfl
      have whole := (close_foldl_addPlaced active [] first.window.1).2
      rw [List.foldl_cons, reopened, List.nil_append, ← stretchMembers_cons] at whole
      rw [List.foldl_cons, added, whole]

end Loop

section Coverage

variable {us : List Placed}

/-- Every word of an utterance with a window is in one group, in order. -/
theorem flatten_stretchMembers : (stretchMembers us).flatten = us.flatMap Placed.members := by
  induction length : us.length using Nat.strong_induction_on generalizing us with
  | _ n ih =>
      cases us with
      | nil => simp [stretchMembers, stretches]
      | cons first rest =>
          have split := List.takeWhile_append_dropWhile (p := Placed.wordless) (l := first :: rest)
          have silentPart :
              ((first :: rest).takeWhile Placed.wordless).flatMap Placed.members = [] := by
            refine List.flatMap_eq_nil_iff.mpr fun utt member => ?_
            exact (members_eq_nil_iff utt).mpr (List.mem_takeWhile_imp member)
          rw [stretchMembers_cons]
          unfold openMembers
          cases spoken : (first :: rest).dropWhile Placed.wordless with
          | nil =>
              rw [spoken, List.append_nil] at split
              rw [← split, silentPart, List.flatten_nil]
          | cons utt later =>
              have shorter := (List.dropWhile_sublist (p := Placed.wordless)
                (l := first :: rest)).length_le
              have shorterStill := (List.dropWhile_sublist (p := Placed.near first.window.1)
                (l := later)).length_le
              rw [spoken] at split
              rw [spoken, List.length_cons] at shorter
              rw [List.flatten_cons, ih _ (by omega) rfl, List.append_assoc, ← List.flatMap_append,
                List.takeWhile_append_dropWhile, ← List.flatMap_cons, ← split, List.flatMap_append,
                silentPart, List.nil_append]

theorem mem_stretches {stretch : List Placed} (member : stretch ∈ stretches us) :
    stretch ≠ [] ∧ ∀ utt ∈ stretch, utt ∈ us ∧ utt.wordless = false := by
  induction length : us.length using Nat.strong_induction_on generalizing us with
  | _ n ih =>
      cases us with
      | nil => simp [stretches] at member
      | cons first rest =>
          cases spoken : (first :: rest).dropWhile Placed.wordless with
          | nil => simp [stretches_silent spoken] at member
          | cons utt later =>
              have inside : (utt :: later).Sublist (first :: rest) := by
                rw [← spoken]
                exact List.dropWhile_sublist _
              have worded : utt.wordless = false := by
                have stops := List.head?_dropWhile_not Placed.wordless (first :: rest)
                rw [spoken] at stops
                simpa using stops
              rw [stretches_spoken spoken] at member
              rcases List.mem_cons.mp member with rfl | member
              · refine ⟨List.cons_ne_nil _ _, fun other isOther => ?_⟩
                rcases List.mem_cons.mp isOther with rfl | isOther
                · exact ⟨inside.subset List.mem_cons_self, worded⟩
                · rcases List.mem_filter.mp isOther with ⟨isOther, notSilent⟩
                  have isLater := (List.takeWhile_sublist _).subset isOther
                  exact ⟨inside.subset (List.mem_cons_of_mem _ isLater), by simpa using notSilent⟩
              · have shorter := inside.length_le
                have rest := List.dropWhile_sublist (p := Placed.near first.window.1) (l := later)
                rw [List.length_cons] at shorter
                have found := ih _ (by have := rest.length_le; omega) member rfl
                refine ⟨found.1, fun other isOther => ?_⟩
                rcases found.2 other isOther with ⟨isLater, notSilent⟩
                exact ⟨inside.subset (List.mem_cons_of_mem _ (rest.subset isLater)), notSilent⟩

theorem head?_members {utt : Placed} (worded : utt.wordless = false) :
    utt.members.head? = some (utt.uidx, 0) := by
  obtain ⟨more, count⟩ : ∃ more, utt.wordCount = more + 1 :=
    Nat.exists_eq_succ_of_ne_zero (by simpa [Placed.wordless] using worded)
  simp [Placed.members, count, List.range_succ_eq_map]

theorem getLast?_members {utt : Placed} (worded : utt.wordless = false) :
    utt.members.getLast? = some (utt.uidx, utt.wordCount - 1) := by
  obtain ⟨more, count⟩ : ∃ more, utt.wordCount = more + 1 :=
    Nat.exists_eq_succ_of_ne_zero (by simpa [Placed.wordless] using worded)
  simp [Placed.members, count, List.range_succ]

/-- The slice for a stretch goes from the start of its first to the end of its last utterance. -/
theorem groupWindow_members {windows : List (ℕ × ℕ)} {stretch : List Placed} {first last : Placed}
    (atWindow : ∀ utt ∈ stretch, windows[utt.uidx]? = some utt.window)
    (worded : ∀ utt ∈ stretch, utt.wordless = false) (isFirst : stretch.head? = some first)
    (isLast : stretch.getLast? = some last) :
    groupWindow windows (stretch.flatMap Placed.members) = (first.window.1, last.window.2) := by
  have firstMem := List.mem_of_head? isFirst
  have lastMem := List.mem_of_getLast? isLast
  have head : (stretch.flatMap Placed.members).head? = some (first.uidx, 0) := by
    rcases List.head?_eq_some_iff.mp isFirst with ⟨rest, rfl⟩
    rw [List.flatMap_cons, List.head?_append, head?_members (worded _ firstMem), Option.some_or]
  have back : (stretch.flatMap Placed.members).getLast? =
      some (last.uidx, last.wordCount - 1) := by
    rcases List.getLast?_eq_some_iff.mp isLast with ⟨front, rfl⟩
    rw [List.flatMap_append, List.flatMap_singleton, List.getLast?_append,
      getLast?_members (worded _ lastMem), Option.some_or]
  unfold groupWindow
  rw [head, back]
  simp only [Option.bind_some, atWindow _ firstMem, atWindow _ lastMem, Option.getD_some]

variable {utts : List ((ℕ × ℕ) × ℕ)}

/-- Every word of an utterance with a window is in exactly one group, in order, and the slice for
the group contains the window of every utterance in it. -/
structure GroupsCover (utts : List ((ℕ × ℕ) × ℕ)) : Prop where
  words : (groups utts).flatten = (placed utts).flatMap Placed.members
  nodup : (groups utts).flatten.Nodup
  windows : ∀ grp ∈ groups utts, ∀ member ∈ grp, ∃ window,
    (utts.map Prod.fst)[member.1]? = some window ∧
      (groupWindow (utts.map Prod.fst) grp).1 ≤ window.1 ∧
      window.2 ≤ (groupWindow (utts.map Prod.fst) grp).2

/-- In every stretch the first utterance starts first and the last one ends last. -/
def StretchesBounded (utts : List ((ℕ × ℕ) × ℕ)) : Prop :=
  ∀ stretch ∈ stretches (placed utts), ∀ first ∈ stretch.head?, ∀ last ∈ stretch.getLast?,
    ∀ utt ∈ stretch, first.window.1 ≤ utt.window.1 ∧ utt.window.2 ≤ last.window.2

theorem placedFrom_uidx (uidx : ℕ) : ((placedFrom uidx utts).map Placed.uidx).Pairwise (· < ·) := by
  induction utts generalizing uidx with
  | nil => simp [placedFrom]
  | cons utt utts ih =>
      rcases utt with ⟨window, wordCount⟩
      unfold placedFrom
      split_ifs with active
      · refine List.pairwise_cons.mpr ⟨?_, ih (uidx + 1)⟩
        intro later member
        rcases List.mem_map.mp member with ⟨utt, isUtt, rfl⟩
        have after := (placedFrom_window (uidx + 1) utt isUtt).1
        exact after
      · exact ih (uidx + 1)

theorem flatMap_members_nodup (ordered : (us.map Placed.uidx).Pairwise (· < ·)) :
    (us.flatMap Placed.members).Nodup := by
  refine List.nodup_flatMap.mpr ⟨fun utt _ => ?_, ?_⟩
  · exact List.nodup_range.map fun i j same => (Prod.mk.inj same).2
  · refine (List.pairwise_map.mp ordered).imp fun {earlier later} before => ?_
    intro member first second
    rcases List.mem_map.mp first with ⟨i, -, rfl⟩
    rcases List.mem_map.mp second with ⟨j, -, same⟩
    exact before.ne' (Prod.mk.inj same).1

/-- The groups cover their utterances exactly where none starts before the first or ends after the
last one of its stretch. -/
theorem groupsCover_iff (utts : List ((ℕ × ℕ) × ℕ)) :
    GroupsCover utts ↔ StretchesBounded utts := by
  have atWindow : ∀ utt ∈ placed utts, (utts.map Prod.fst)[utt.uidx]? = some utt.window :=
    fun utt member => (placedFrom_window 0 utt member).2
  have window : ∀ stretch ∈ stretches (placed utts), ∀ first ∈ stretch.head?,
      ∀ last ∈ stretch.getLast?,
      groupWindow (utts.map Prod.fst) (stretch.flatMap Placed.members) =
        (first.window.1, last.window.2) := by
    intro stretch isStretch first isFirst last isLast
    have parts := (mem_stretches isStretch).2
    exact groupWindow_members (fun utt member => atWindow utt (parts utt member).1)
      (fun utt member => (parts utt member).2) isFirst isLast
  constructor
  · intro cover stretch isStretch first isFirst last isLast utt member
    have isGroup : stretch.flatMap Placed.members ∈ groups utts := by
      rw [groups_eq_stretchMembers]
      exact List.mem_map_of_mem isStretch
    rcases (mem_stretches isStretch).2 utt member with ⟨isPlaced, worded⟩
    have isMember : (utt.uidx, 0) ∈ stretch.flatMap Placed.members :=
      List.mem_flatMap.mpr ⟨utt, member, List.mem_of_head? (head?_members worded)⟩
    rcases cover.windows _ isGroup _ isMember with ⟨found, atIndex, bounds⟩
    rw [atWindow utt isPlaced, Option.some.injEq] at atIndex
    rw [window stretch isStretch first isFirst last isLast, ← atIndex] at bounds
    exact bounds
  · intro bounded
    have words : (groups utts).flatten = (placed utts).flatMap Placed.members := by
      rw [groups_eq_stretchMembers, flatten_stretchMembers]
    refine ⟨words, ?_, ?_⟩
    · rw [words]
      exact flatMap_members_nodup (placedFrom_uidx 0)
    · intro grp isGroup member isMember
      rw [groups_eq_stretchMembers] at isGroup
      rcases List.mem_map.mp isGroup with ⟨stretch, isStretch, rfl⟩
      rcases List.mem_flatMap.mp isMember with ⟨utt, inStretch, ofUtt⟩
      rcases List.mem_map.mp ofUtt with ⟨widx, -, rfl⟩
      rcases mem_stretches isStretch with ⟨nonempty, parts⟩
      have isFirst := List.head?_eq_some_head nonempty
      have isLast := List.getLast?_eq_some_getLast nonempty
      refine ⟨utt.window, atWindow utt (parts utt inStretch).1, ?_⟩
      rw [window stretch isStretch _ isFirst _ isLast]
      exact bounded stretch isStretch _ isFirst _ isLast utt inStretch

/-- A long turn with a short one inside it: the slice ends with the short one. -/
theorem overlap_not_covered : ¬ GroupsCover [((0, 10000), 1), ((2000, 5000), 1)] := by
  intro cover
  rcases cover.windows [(0, 0), (1, 0)] (by decide) (0, 0) (by decide) with
    ⟨window, found, -, inside⟩
  cases found
  exact absurd inside (by decide)

end Coverage

section Spans

variable {Sample Emission : Type} (backend : MmsBackend Sample Emission)

/-- The characters of the transcript tensor. -/
def transcriptChars (words : List String) : List Char :=
  words.flatMap fun word => (backend.lower word).toList

/-- `word_spans`: the spans of the tokens, cut up by the lengths of the words. -/
def wordSpans {α : Type} (words : List String) (tokenSpans : List α) : List (List α) :=
  unflatten tokenSpans (words.map String.length)

/-- The spans of the tokens that each word has put into the transcript. -/
def ownSpans {α : Type} (words : List String) (tokenSpans : List α) : List (List α) :=
  unflatten tokenSpans (words.map fun word => (backend.lower word).length)

/-- The times of the words come from `wordSpans`. -/
theorem mms_eq_wordSpans {chunk : List Sample} {words : List String} {emission : Emission}
    {tokenSpans : List (ℕ × ℕ)} (modelled : backend.model chunk = some emission)
    (nonempty : transcriptChars backend words ≠ [])
    (aligned : backend.forcedAlign emission ((transcriptChars backend words).map backend.dict) =
      some tokenSpans) (frames : backend.frames emission ≠ 0) :
    mms backend chunk words = some (words.zip ((wordSpans words tokenSpans).map
      (spanMs chunk.length (backend.frames emission)))) := by
  have transcript : (words.flatMap fun word => (backend.lower word).toList.map backend.dict) =
      (transcriptChars backend words).map backend.dict := by
    rw [transcriptChars, List.map_flatMap]
  unfold mms
  rw [modelled, Option.bind_some]
  simp only [transcript, List.isEmpty_iff, List.map_eq_nil_iff, nonempty, if_false, aligned,
    Option.bind_some, frames]
  rfl

/-- The words get the spans of their own tokens, whatever the spans are. -/
def SpansBelong (words : List String) : Prop :=
  ∀ tokenSpans : List (ℕ × ℕ), tokenSpans.length = (transcriptChars backend words).length →
    wordSpans words tokenSpans = ownSpans backend words tokenSpans

/-- Every word is as long in lower case as it is. Only the last word with tokens may be longer than
its lower-case form. -/
def LowerKeepsLength : List String → Prop
  | [] => True
  | word :: words =>
      (word.length = (backend.lower word).length ∧ LowerKeepsLength words) ∨
        ((backend.lower word).length < word.length ∧ transcriptChars backend words = [])

theorem transcriptChars_cons (word : String) (words : List String) :
    transcriptChars backend (word :: words) =
      (backend.lower word).toList ++ transcriptChars backend words := rfl

theorem unflatten_nil {α : Type} (lengths : List ℕ) :
    unflatten ([] : List α) lengths = List.replicate lengths.length [] := by
  induction lengths with
  | nil => rfl
  | cons length lengths ih =>
      rw [unflatten, List.take_nil, List.drop_nil, ih, List.length_cons, List.replicate_succ]

/-- The words belong with their spans exactly where lower case keeps their lengths. -/
theorem spansBelong_iff (words : List String) :
    SpansBelong backend words ↔ LowerKeepsLength backend words := by
  induction words with
  | nil => exact ⟨fun _ => trivial, fun _ _ _ => rfl⟩
  | cons word words ih =>
      have total : (transcriptChars backend (word :: words)).length =
          (backend.lower word).length + (transcriptChars backend words).length := by
        rw [transcriptChars_cons, List.length_append, String.length_toList]
      constructor
      · intro belong
        have first := belong
          (List.replicate (transcriptChars backend (word :: words)).length (0, 0)) (by simp)
        have lengths : min word.length (transcriptChars backend (word :: words)).length =
            (backend.lower word).length := by
          have heads := congrArg (fun spans => (spans.headD []).length) first
          simp only [wordSpans, ownSpans, List.map_cons, unflatten, List.headD_cons,
            List.length_take, List.length_replicate] at heads
          omega
        rcases Nat.lt_or_ge (backend.lower word).length word.length with longer | notLonger
        · refine Or.inr ⟨longer, ?_⟩
          rw [← List.length_eq_zero_iff]
          omega
        · have same : word.length = (backend.lower word).length := by omega
          refine Or.inl ⟨same, ih.mp fun tokenSpans length => ?_⟩
          -- Spans of the later words are those of the whole list behind the spans of this word.
          have whole := belong (List.replicate word.length (0, 0) ++ tokenSpans)
            (by rw [List.length_append, List.length_replicate, length, total, same])
          simp only [wordSpans, ownSpans, List.map_cons, unflatten, ← same] at whole
          have tails := congrArg List.tail whole
          simp only [List.tail_cons, List.drop_left' (List.length_replicate ..)] at tails
          exact tails
      · rintro (⟨same, rest⟩ | ⟨longer, silent⟩) tokenSpans length
        · have later := ih.mpr rest (tokenSpans.drop word.length)
            (by rw [List.length_drop, length, total, same, Nat.add_sub_cancel_left])
          simp only [wordSpans, ownSpans, List.map_cons, unflatten, ← same] at later ⊢
          rw [later]
        · rw [total, silent, List.length_nil, Nat.add_zero] at length
          simp only [wordSpans, ownSpans, List.map_cons, unflatten]
          rw [List.take_of_length_le (by omega), List.take_of_length_le length.le,
            List.drop_of_length_le (by omega), List.drop_of_length_le length.le, unflatten_nil,
            unflatten_nil, List.length_map, List.length_map]

/-- The lower case of a dotted capital i has two characters. -/
def dottedLower (text : String) : String :=
  String.ofList (text.toList.flatMap fun char =>
    if char = 'İ' then ['i', '\u0307'] else [char.toLower])

/-- A model that gives the token at every place one frame of its own. -/
def frameBackend : MmsBackend Unit Unit where
  wave _ := .ok []
  model _ := some ()
  frames _ := 1
  forcedAlign _ tokens := some ((List.range tokens.length).map fun place => (place, place + 1))
  dict char := char.toNat
  lower := dottedLower
  casefold := dottedLower
  isSpace char := char = ' '
  charactersToJyutping := none

/-- After such a capital the spans of the next word start one token early. -/
theorem dotted_capital_shifts_spans : ¬ SpansBelong frameBackend ["İt", "o"] := by
  intro belong
  have shifted := belong [(0, 1), (1, 2), (2, 3), (3, 4)] (by decide +kernel)
  exact absurd shifted (by decide +kernel)

end Spans

end Batchalign.Fa
