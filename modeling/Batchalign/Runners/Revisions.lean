import Batchalign.Chat.Documented
import Batchalign.Library.BackwardEdits
import Batchalign.Runners.Ai

/-!
# Revisions in place

The loop of `apply_revisions` reparses the whole document for every revision. Its document is
always the original one with the accepted revisions in place of their utterances, because the
revisions come from the last utterance to the first.
-/

namespace Batchalign.Runners

open Batchalign.Chat Batchalign.Compare Selected

section Texts

theorem trim_trimmed {text : String} (filled : (trim text).isEmpty = false) :
    trim (trim text ++ "\n") = trim text := by
  have chars : (trim text).toList = (text.toList.dropWhile isWhitespace).rdropWhile isWhitespace :=
    String.toList_ofList
  have nonempty : (trim text).toList ≠ [] := by simpa using filled
  rcases List.exists_cons_of_ne_nil nonempty with ⟨c, rest, isCons⟩
  have inside : isWhitespace c = false := by
    rcases List.rdropWhile_prefix isWhitespace (text.toList.dropWhile isWhitespace)
      with ⟨dropped, whole⟩
    rw [← chars, isCons, List.cons_append] at whole
    have first := List.head?_dropWhile_not isWhitespace text.toList
    rwa [← whole] at first
  have kept : ((trim text).toList ++ ['\n']).dropWhile isWhitespace =
      (trim text).toList ++ ['\n'] := by
    rw [isCons, List.cons_append, List.dropWhile_cons_of_neg (by simp [inside])]
  have settled : (trim text).toList.rdropWhile isWhitespace = (trim text).toList := by
    rw [chars, List.rdropWhile_idempotent]
  have newline : isWhitespace '\n' = true := by decide
  have again : trim (trim text ++ "\n") = String.ofList (((trim text).toList ++ ['\n']).dropWhile
      isWhitespace |>.rdropWhile isWhitespace) := by
    rw [trim, String.toList_append]
    rfl
  rw [again, kept, List.rdropWhile_concat_pos _ _ _ newline, settled, String.ofList_toList]

/-- A text that already ends in a newline is kept. -/
theorem ensureTrailingNewline_again (text : String) :
    ensureTrailingNewline (ensureTrailingNewline text) = ensureTrailingNewline text := by
  unfold ensureTrailingNewline
  dsimp only
  by_cases empty : (trim text).isEmpty = true
  · rw [if_pos empty]
    rfl
  · rw [if_neg empty, trim_trimmed (Bool.eq_false_iff.mpr empty), if_neg empty]

end Texts

section Collection

/-- Every revision is of an utterance, and no utterance has two. -/
structure Targets (count : ℕ) (revisions : List AiRevision) : Prop where
  inRange : ∀ revision ∈ revisions, revision.index < count
  distinct : (revisions.map AiRevision.index).Nodup

def keyed (revision : AiRevision) : ℕ × String :=
  (revision.index, ensureTrailingNewline revision.chat)

theorem lookup_keyed (revisions : List AiRevision) (index : ℕ) :
    ((revisions.map keyed).lookup index).isSome =
      decide (index ∈ revisions.map AiRevision.index) := by
  induction revisions with
  | nil => rfl
  | cons revision revisions ih =>
      rw [List.map_cons, keyed, List.lookup_cons, List.map_cons]
      by_cases same : index = revision.index
      · simp [same]
      · have differs : (index == revision.index) = false := by simpa using same
        rw [differs]
        simp only [List.mem_cons, same, false_or, ih]

theorem collectRevisions_ok {count : ℕ} {seen revisions : List AiRevision}
    (targets : Targets count (seen ++ revisions)) :
    collectRevisions count (seen.map keyed) revisions = .ok ((seen ++ revisions).map keyed) := by
  induction revisions generalizing seen with
  | nil => rw [List.append_nil, collectRevisions]
  | cons revision revisions ih =>
      have inRange := targets.inRange revision (List.mem_append_right _ List.mem_cons_self)
      have distinct := targets.distinct
      rw [List.map_append, List.map_cons] at distinct
      have fresh : revision.index ∉ seen.map AiRevision.index := fun member =>
        (List.nodup_append.mp distinct).2.2 _ member _ List.mem_cons_self rfl
      rw [collectRevisions, if_neg (Nat.not_le.mpr inRange), lookup_keyed, decide_eq_false fresh,
        if_neg Bool.false_ne_true]
      have next := @ih (seen ++ [revision]) (by simpa using targets)
      rw [List.map_append, List.append_assoc] at next
      exact next

theorem collectRevisions_error {count : ℕ} {seen revisions : List AiRevision}
    (seenTargets : Targets count seen) (off : ¬ Targets count (seen ++ revisions)) :
    ∃ message, collectRevisions count (seen.map keyed) revisions = .error (.worker message) := by
  induction revisions generalizing seen with
  | nil => exact absurd (by rwa [List.append_nil]) off
  | cons revision revisions ih =>
      rw [collectRevisions, lookup_keyed]
      split
      · exact ⟨_, rfl⟩
      · rename_i inRange
        split
        · exact ⟨_, rfl⟩
        · rename_i fresh
          rw [decide_eq_true_eq] at fresh
          have grown : Targets count (seen ++ [revision]) := by
            constructor
            · intro other member
              rcases List.mem_append.mp member with isSeen | isNew
              · exact seenTargets.inRange other isSeen
              · rw [List.mem_singleton.mp isNew]
                exact Nat.not_le.mp inRange
            · rw [List.map_append]
              apply List.Nodup.append seenTargets.distinct (by simp)
              simpa using fresh
          have next := ih grown (by simpa using off)
          rw [List.map_append] at next
          exact next

/-- The revisions from the last utterance to the first. -/
def fromLast (revisions : List AiRevision) : List AiRevision :=
  revisions.insertionSort fun one other => other.index ≤ one.index

theorem fromLast_keyed (revisions : List AiRevision) :
    (revisions.map keyed).insertionSort (fun one other => other.1 ≤ one.1) =
      (fromLast revisions).map keyed :=
  (List.map_insertionSort _ _ keyed _ fun _ _ _ _ => Iff.rfl).symm

theorem fromLast_descending {count : ℕ} {revisions : List AiRevision}
    (targets : Targets count revisions) :
    (fromLast revisions).Pairwise fun one other => other.index < one.index := by
  have total : Std.Total fun one other : AiRevision => other.index ≤ one.index :=
    ⟨fun one other => le_total other.index one.index⟩
  have trans : IsTrans AiRevision fun one other => other.index ≤ one.index :=
    ⟨fun _ _ _ first second => second.trans first⟩
  have sorted : (fromLast revisions).Pairwise fun one other => other.index ≤ one.index :=
    List.pairwise_insertionSort _ revisions
  have distinct : ((fromLast revisions).map AiRevision.index).Nodup :=
    ((List.perm_insertionSort _ revisions).map _).nodup_iff.mpr targets.distinct
  exact (sorted.and (List.pairwise_map.mp distinct)).imp fun both =>
    lt_of_le_of_ne both.1 (Ne.symm both.2)

theorem mem_fromLast {revisions : List AiRevision} {revision : AiRevision} :
    revision ∈ fromLast revisions ↔ revision ∈ revisions :=
  List.mem_insertionSort _

end Collection

section Documents

variable (blockLines : String → List Line)

def blockOf (replacement : Option (ℕ × String)) (line : Line × ℕ) : List Line :=
  match replacement.filter fun replacement => replacement.1 = line.2 with
  | some (_, text) => blockLines (ensureTrailingNewline text)
  | none => [line.1]

/-- The lines of a document whose blocks are its lines, but for the replaced one. -/
def blocksOf (replacement : Option (ℕ × String)) (document : List Line) : List Line :=
  document.zipIdx.flatMap (blockOf blockLines replacement)

/-- The block of an accepted revision under the number of its utterance. -/
def acceptedEdits (accepted : List AiRevision) (k : ℕ) : Option (List Line) :=
  (accepted.find? (·.index == k)).map fun revision =>
    blockLines (ensureTrailingNewline revision.chat)

/-- The original lines with the blocks of the accepted revisions in place of their utterances. -/
def revisedLines (accepted : List AiRevision) (lines : List Line) : List Line :=
  edit Line.utterance? (acceptedEdits blockLines accepted) lines

theorem utteranceLineIndices_eq (lines : List Line) :
    utteranceLineIndices lines = positions Line.utterance? lines := by
  apply List.filterMap_congr
  rintro ⟨line, index⟩ _
  cases line <;> rfl

/-- Lines that are not replaced. -/
theorem flatMap_blockOf {replacement : Option (ℕ × String)} {document : List Line} {start : ℕ}
    (apart : ∀ entry ∈ replacement, entry.1 < start ∨ start + document.length ≤ entry.1) :
    (document.zipIdx start).flatMap (blockOf blockLines replacement) = document := by
  have each : ∀ line ∈ document.zipIdx start, blockOf blockLines replacement line = [line.1] := by
    intro line member
    have lower := List.le_snd_of_mem_zipIdx member
    have upper := List.snd_lt_add_of_mem_zipIdx member
    have unmatched : (replacement.filter fun replacement => replacement.1 = line.2) = none := by
      apply Option.filter_eq_none_iff.mpr
      intro entry isEntry
      have := apart entry isEntry
      simp only [decide_eq_true_eq]
      omega
    rw [blockOf, unmatched]
  rw [List.flatMap_congr each, ← List.map_eq_flatMap, List.zipIdx_map_fst]

theorem blocksOf_none (document : List Line) : blocksOf blockLines none document = document :=
  flatMap_blockOf blockLines (by simp)

theorem blocksOf_some {document : List Line} {place : ℕ} (inside : place < document.length)
    (text : String) :
    blocksOf blockLines (some (place, text)) document =
      document.take place ++ blockLines (ensureTrailingNewline text) ++
        document.drop (place + 1) := by
  have cut : document = document.take place ++ document[place] :: document.drop (place + 1) := by
    rw [List.getElem_cons_drop, List.take_append_drop]
  have length : (document.take place).length = place := List.length_take_of_le inside.le
  have here : blockOf blockLines (some (place, text)) (document[place], place) =
      blockLines (ensureTrailingNewline text) := by
    rw [blockOf, Option.filter_some_pos (by simp)]
  have before := @flatMap_blockOf blockLines (some (place, text)) (document.take place) 0
    (fun entry isEntry => by cases isEntry; exact Or.inr (by simp [length]))
  have behind := @flatMap_blockOf blockLines (some (place, text)) (document.drop (place + 1))
    (place + 1)
    (fun entry isEntry => by cases isEntry; exact Or.inl (Nat.lt_succ_self place))
  calc blocksOf blockLines (some (place, text)) document
      = blocksOf blockLines (some (place, text))
          (document.take place ++ document[place] :: document.drop (place + 1)) := by rw [← cut]
    _ = _ := by
      rw [blocksOf, List.zipIdx_append, List.zipIdx_cons, List.flatMap_append, List.flatMap_cons,
        before, length, Nat.zero_add, here, behind, List.append_assoc]

theorem acceptedEdits_cons (revision : AiRevision) (accepted : List AiRevision) :
    acceptedEdits blockLines (revision :: accepted) =
      withEdit (acceptedEdits blockLines accepted) revision.index
        (blockLines (ensureTrailingNewline revision.chat)) := by
  funext k
  rw [acceptedEdits, List.find?_cons, withEdit]
  by_cases same : k = revision.index
  · rw [same, Function.update_self, beq_self_eq_true]
    rfl
  · have differs : (revision.index == k) = false := by simpa using Ne.symm same
    rw [Function.update_of_ne same, differs]
    rfl

theorem acceptedEdits_none {accepted : List AiRevision} {index : ℕ}
    (behind : ∀ later ∈ accepted, index < later.index) :
    ∀ k ≤ index, acceptedEdits blockLines accepted k = none := by
  intro k bound
  rw [acceptedEdits, Option.map_eq_none_iff, List.find?_eq_none]
  intro later member
  have := behind later member
  simp only [beq_iff_eq]
  omega

end Documents

section Run

variable [ChatDetails] [ChatFormat] (blockLines : String → List Line)

/-- The parser gives the lines of the blocks of every document of the run, when it accepts it. -/
def ParsesBlocks (lines : List Line) (revisions : List AiRevision) : Prop :=
  ∀ accepted ⊆ revisions, ∀ replacement : Option (ℕ × String),
    (∀ entry ∈ replacement,
      entry.1 ∈ utteranceLineIndices (revisedLines blockLines accepted lines) ∧
        ∃ revision ∈ revisions, entry.2 = ensureTrailingNewline revision.chat) →
      ∀ chat, parseLinesRendering (revisedLines blockLines accepted lines) replacement = .ok chat →
        chat.lines = blocksOf blockLines replacement (revisedLines blockLines accepted lines)

/-- The document with the accepted revisions and this one parses. -/
def Validates (lines : List Line) (accepted : List AiRevision) (revision : AiRevision) : Prop :=
  ∃ place chat, (utteranceLineIndices lines)[revision.index]? = some place ∧
    parseLinesRendering (revisedLines blockLines accepted lines)
      (some (place, ensureTrailingNewline revision.chat)) = .ok chat

variable {blockLines}

/-- The utterance of a revision is found where it was, and the accepted revision is one more
edit of the original lines. -/
theorem step_accepts {lines : List Line} {revisions accepted : List AiRevision}
    (blocks : ParsesBlocks blockLines lines revisions) (isAccepted : accepted ⊆ revisions)
    {revision : AiRevision} (isRevision : revision ∈ revisions)
    (inRange : revision.index < (utteranceLineIndices lines).length)
    (behind : ∀ later ∈ accepted, revision.index < later.index) :
    ∃ place, (utteranceLineIndices lines)[revision.index]? = some place ∧
      (utteranceLineIndices (revisedLines blockLines accepted lines))[revision.index]? =
        some place ∧
      ∀ chat, parseLinesRendering (revisedLines blockLines accepted lines)
          (some (place, ensureTrailingNewline revision.chat)) = .ok chat →
        chat.lines = revisedLines blockLines (revision :: accepted) lines := by
  have later := acceptedEdits_none blockLines behind
  rw [utteranceLineIndices_eq] at inRange
  have atPlace := List.getElem?_eq_getElem inRange
  rw [length_positions] at inRange
  have same := position_edit inRange later
  rw [atPlace] at same
  generalize (positions Line.utterance? lines)[revision.index] = place at atPlace same
  have found : (utteranceLineIndices (revisedLines blockLines accepted lines))[revision.index]? =
      some place := by
    rw [utteranceLineIndices_eq]
    exact same
  refine ⟨place, by rwa [utteranceLineIndices_eq], found, ?_⟩
  intro chat parsed
  have isPlace := List.mem_of_getElem? found
  have inside : place < (revisedLines blockLines accepted lines).length := by
    rcases split_of_position same with ⟨front, line, utt, back, whole, _, rfl, _⟩
    rw [revisedLines, whole, List.length_append, List.length_cons]
    omega
  have allowed : ∀ entry ∈ some (place, ensureTrailingNewline revision.chat),
      entry.1 ∈ utteranceLineIndices (revisedLines blockLines accepted lines) ∧
        ∃ revision ∈ revisions, entry.2 = ensureTrailingNewline revision.chat := by
    simp only [Option.mem_some_iff, forall_eq']
    exact ⟨isPlace, revision, isRevision, Eq.refl _⟩
  have parsedLines := blocks accepted isAccepted _ allowed chat parsed
  rw [parsedLines, blocksOf_some blockLines inside, ensureTrailingNewline_again]
  rw [revisedLines, revisedLines, acceptedEdits_cons]
  exact edit_withEdit atPlace later

/-- The loop. A revision is accepted when it validates with the accepted revisions behind it. -/
theorem acceptRevisions_spec {lines : List Line} {revisions : List AiRevision}
    (blocks : ParsesBlocks blockLines lines revisions) {pending accepted : List AiRevision}
    (isPending : pending ⊆ revisions) (isAccepted : accepted ⊆ revisions)
    (inRange : ∀ revision ∈ pending, revision.index < (utteranceLineIndices lines).length)
    (descending : pending.Pairwise fun one other => other.index < one.index)
    (behind : ∀ revision ∈ pending, ∀ later ∈ accepted, revision.index < later.index)
    {chat : ChatFile} (current : chat.lines = revisedLines blockLines accepted lines) :
    ∃ more ⊆ pending,
      (acceptRevisions chat (revisedLines blockLines accepted lines)
          (pending.map keyed)).lines = revisedLines blockLines (more ++ accepted) lines ∧
        ∀ revision ∈ pending, revision ∈ more ↔ Validates blockLines lines
          ((more ++ accepted).filter (revision.index < ·.index)) revision := by
  induction pending generalizing accepted chat with
  | nil =>
      refine ⟨[], List.Subset.refl _, current, ?_⟩
      intro revision member
      cases member
  | cons revision pending ih =>
      rcases List.forall_mem_cons.mp behind with ⟨behindFirst, behindRest⟩
      rcases List.pairwise_cons.mp descending with ⟨above, descending⟩
      have isRevision := isPending List.mem_cons_self
      rcases step_accepts blocks isAccepted isRevision
        (inRange revision List.mem_cons_self) behindFirst with ⟨place, original, found, parsed⟩
      have rest : pending ⊆ revisions := fun _ member => isPending (List.mem_cons_of_mem _ member)
      have inRest : ∀ revision ∈ pending, revision.index < (utteranceLineIndices lines).length :=
        fun revision member => inRange revision (List.mem_cons_of_mem _ member)
      -- what is accepted later stands before this revision
      have shown {more : List AiRevision} (isMore : more ⊆ revision :: pending) :
          (more ++ accepted).filter (revision.index < ·.index) = accepted := by
        rw [List.filter_append, List.filter_eq_nil_iff.mpr, List.nil_append,
          List.filter_eq_self.mpr]
        · intro later member
          simpa using behindFirst later member
        · intro other member
          rcases List.mem_cons.mp (isMore member) with rfl | isLater
          · simp
          · simpa using (above other isLater).le
      have apart {other : AiRevision} (member : other ∈ pending) : other ≠ revision := by
        rintro rfl
        exact absurd (above other member) (lt_irrefl _)
      rw [List.map_cons, keyed, acceptRevisions, found]
      dsimp only
      cases outcome : parseLinesRendering (revisedLines blockLines accepted lines)
          (some (place, ensureTrailingNewline revision.chat)) with
      | ok next =>
          have nextLines := parsed next outcome
          have nextBehind : ∀ other ∈ pending, ∀ later ∈ revision :: accepted,
              other.index < later.index := by
            intro other member
            exact List.forall_mem_cons.mpr ⟨above other member, behindRest other member⟩
          rcases ih rest (List.cons_subset.mpr ⟨isRevision, isAccepted⟩) inRest descending
            nextBehind nextLines with ⟨more, isMore, result, each⟩
          have whole : more ++ [revision] ++ accepted = more ++ revision :: accepted :=
            List.append_cons .. |>.symm
          have subset : more ++ [revision] ⊆ revision :: pending :=
            List.append_subset.mpr ⟨fun _ member => List.mem_cons_of_mem _ (isMore member),
              by simp⟩
          refine ⟨more ++ [revision], subset, ?_, ?_⟩
          · rw [← nextLines] at result
            rw [whole]
            exact result
          · rw [List.forall_mem_cons]
            constructor
            · rw [shown subset]
              exact ⟨fun _ => ⟨place, next, original, outcome⟩, fun _ => by simp⟩
            · intro other member
              rw [whole, ← each other member]
              simp [apart member]
      | error error =>
          rcases ih rest isAccepted inRest descending behindRest current
            with ⟨more, isMore, result, each⟩
          have subset : more ⊆ revision :: pending :=
            fun _ member => List.mem_cons_of_mem _ (isMore member)
          refine ⟨more, subset, result, ?_⟩
          rw [List.forall_mem_cons]
          refine ⟨?_, each⟩
          rw [shown subset]
          constructor
          · intro member
            exact absurd rfl (apart (isMore member))
          · rintro ⟨other, next, atOther, validates⟩
            cases original.symm.trans atOther
            rw [outcome] at validates
            cases validates

/-- An unknown or repeated index is an error. The others are tried on the original lines, if
these parse. -/
theorem applyRevisions_inPlace (blockLines : String → List Line) (lines : List Line)
    (output : AiOutput) (blocks : ParsesBlocks blockLines lines output.revisions) :
    (¬ Targets (utteranceLineIndices lines).length output.revisions →
        ∃ message, applyRevisions lines output = .error (.worker message)) ∧
      (Targets (utteranceLineIndices lines).length output.revisions →
        (∀ error, parseLinesRendering lines none = .error error →
            applyRevisions lines output = .error error) ∧
          ∀ original, parseLinesRendering lines none = .ok original →
            ∃ chat, ∃ accepted ⊆ output.revisions, applyRevisions lines output = .ok chat ∧
              chat.lines = revisedLines blockLines accepted lines ∧
              ∀ revision ∈ output.revisions, revision ∈ accepted ↔
                Validates blockLines lines (accepted.filter (revision.index < ·.index))
                  revision) := by
  constructor
  · intro off
    have nothing : Targets (utteranceLineIndices lines).length [] := ⟨by simp, by simp⟩
    rcases collectRevisions_error nothing off with ⟨message, collected⟩
    refine ⟨message, ?_⟩
    rw [applyRevisions, show collectRevisions _ [] output.revisions = _ from collected]
    rfl
  · intro targets
    have collected := @collectRevisions_ok _ [] output.revisions targets
    rw [List.map_nil, List.nil_append] at collected
    constructor
    · intro error failed
      rw [applyRevisions, collected, failed]
      rfl
    · intro original parsed
      have whole : revisedLines blockLines [] lines = lines := editFrom_none 0 lines
      have current : original.lines = revisedLines blockLines [] lines := by
        have parsedLines := blocks [] (List.nil_subset _) none (by simp) original
        rw [whole, blocksOf_none] at parsedLines
        rw [whole]
        exact parsedLines parsed
      have subset : fromLast output.revisions ⊆ output.revisions :=
        fun _ member => mem_fromLast.mp member
      rcases acceptRevisions_spec blocks subset (List.nil_subset _)
        (fun revision member => targets.inRange revision (subset member))
        (fromLast_descending targets) (by simp) current with ⟨accepted, isAccepted, result, each⟩
      rw [whole, ← fromLast_keyed] at result
      rw [List.append_nil] at result each
      refine ⟨_, accepted, fun _ member => subset (isAccepted member), ?_, result, ?_⟩
      · rw [applyRevisions, collected, parsed]
        rfl
      · intro revision member
        exact each revision (mem_fromLast.mpr member)

end Run

section Examples

open Batchalign.Chat.Documented

def greetingLine (text : String) : Line :=
  .utterance (.new (.new "CHI" [.word (Word.simple text)] .period))

/-- A transcript of one utterance. -/
def greetingLines (text : String) : List Line :=
  [.header (.other "@UTF8"), .header (.other "@Begin"), .header (.other "@Languages:\teng"),
    .header (.other "@Participants:\tCHI Target_Child"),
    .header (.other "@ID:\teng|corpus|CHI|||||Target_Child|||"), greetingLine text,
    .header (.other "@End")]

def greetingChat (text : String) : ChatFile where
  participants := ⟨[("CHI", ⟨"CHI", none, "Target_Child",
    ⟨"eng", some "corpus", "CHI", "Target_Child"⟩⟩)], List.nodup_singleton "CHI"⟩
  lines := greetingLines text

@[reducible] def greetingDetails : ChatDetails where
  skipsAlignment _ := false
  conversationAnalysis _ := false
  clearMediaUnlinked lines := lines
  stampProvenance lines _ _ := lines
  terminatorText := writeTerminator
  lineText
    | .utterance utt => writeUtterance utt
    | .header (.other text) => text
    | .header header => writeHeader header
    | .other text => text

/-- The parser on the texts of two transcripts; a text without headers is an error. -/
@[reducible] def greetingTexts : ChatFormat where
  parseAndValidate text :=
    if text = writeChat (greetingChat "hello") then .ok (greetingChat "hello")
    else if text = writeChat (greetingChat "Hello") then .ok (greetingChat "Hello")
    else .error (.parse "missing @UTF8")
  toChat := writeChat

def greetingRevision : AiRevision := ⟨0, "*CHI:\tHello .\n"⟩

def greetingBlock (text : String) : List Line :=
  if text = "*CHI:\tHello .\n" then [greetingLine "Hello"] else []

theorem greeting_parsesBlocks :
    @ParsesBlocks greetingDetails greetingTexts greetingBlock (greetingLines "hello")
      [greetingRevision] := by
  intro accepted isAccepted replacement places chat parsed
  have documents : revisedLines greetingBlock accepted (greetingLines "hello") =
        greetingLines "hello" ∨
      revisedLines greetingBlock accepted (greetingLines "hello") = greetingLines "Hello" := by
    cases accepted with
    | nil => exact Or.inl rfl
    | cons revision accepted =>
        cases List.mem_singleton.mp (isAccepted List.mem_cons_self)
        exact Or.inr rfl
  have replacements : replacement = none ∨ replacement = some (5, "*CHI:\tHello .\n") := by
    cases replacement with
    | none => exact Or.inl rfl
    | some entry =>
        rcases entry with ⟨place, text⟩
        rcases places _ rfl with ⟨isPlace, revision, isRevision, isText⟩
        cases List.mem_singleton.mp isRevision
        have same : place = 5 := by
          rcases documents with same | same <;>
            · rw [same] at isPlace
              exact List.mem_singleton.mp isPlace
        exact Or.inr (by rw [same, show text = "*CHI:\tHello .\n" from isText])
  rcases documents with same | same <;> rcases replacements with rfl | rfl <;>
    · rw [same] at parsed ⊢
      cases parsed
      rfl

theorem greetingRevision_inPlace :
    ∃ chat, @applyRevisions greetingDetails greetingTexts (greetingLines "hello")
        ⟨"sample", [greetingRevision]⟩ = .ok chat ∧ chat.lines = greetingLines "Hello" := by
  have targets : Targets (utteranceLineIndices (greetingLines "hello")).length
      [greetingRevision] :=
    ⟨by simp [greetingRevision]; decide, by simp⟩
  rcases (@applyRevisions_inPlace greetingDetails greetingTexts greetingBlock
    (greetingLines "hello") ⟨"sample", [greetingRevision]⟩ greeting_parsesBlocks).2 targets
    with ⟨-, accepts⟩
  rcases accepts (greetingChat "hello") rfl with ⟨chat, accepted, isAccepted, result, lines, each⟩
  refine ⟨chat, result, ?_⟩
  have isIn : greetingRevision ∈ accepted := by
    apply (each greetingRevision List.mem_cons_self).mpr
    refine ⟨5, greetingChat "Hello", rfl, ?_⟩
    have nothing : accepted.filter (greetingRevision.index < ·.index) = [] := by
      apply List.filter_eq_nil_iff.mpr
      intro revision member
      cases List.mem_singleton.mp (isAccepted member)
      simp
    have text : ensureTrailingNewline greetingRevision.chat = "*CHI:\tHello .\n" := by decide
    have original : revisedLines greetingBlock [] (greetingLines "hello") =
        greetingLines "hello" :=
      rfl
    rw [nothing, original, text]
    rfl
  rw [lines]
  cases accepted with
  | nil => cases isIn
  | cons revision accepted =>
      cases List.mem_singleton.mp (isAccepted List.mem_cons_self)
      rfl

/-- A line list that does not parse is an error, whatever the revisions. -/
theorem unparsed_fails :
    @ParsesBlocks greetingDetails greetingTexts greetingBlock [] [] ∧ Targets 0 [] ∧
      ¬ ∃ chat, @applyRevisions greetingDetails greetingTexts [] ⟨"sample", []⟩ = .ok chat := by
  refine ⟨?_, ⟨by simp, by simp⟩, ?_⟩
  · intro accepted isAccepted replacement places chat parsed
    cases List.subset_nil.mp isAccepted
    have failed : @parseLinesRendering greetingDetails greetingTexts
        (revisedLines greetingBlock [] []) replacement = .error (.parse "missing @UTF8") := by
      rfl
    rw [failed] at parsed
    exact absurd parsed (by simp)
  · rintro ⟨chat, result⟩
    have failed : @applyRevisions greetingDetails greetingTexts [] ⟨"sample", []⟩ =
        .error (.parse "missing @UTF8") :=
      rfl
    rw [failed] at result
    exact absurd result (by simp)

end Examples

end Batchalign.Runners
