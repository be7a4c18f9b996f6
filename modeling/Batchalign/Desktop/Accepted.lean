import Batchalign.Compare.CacheKey
import Batchalign.Desktop.Terminal
import Batchalign.Morphosyntax.Ascii

/-!
# Accepted requests

The sources of an accepted request are told apart by the texts of their paths, which the engine
takes as source ids. An id is trimmed on its way and comes back as it was, since a path begins
with a slash and ends with one of the allowed suffixes.
-/

namespace Batchalign.Desktop

open Batchalign.Cli Batchalign.Morphosyntax

section Texts

variable {one other path : PurePath} {parts : List String}

/-- Parts as paths have them. -/
def PlainParts (parts : List String) : Prop := ∀ part ∈ parts, part ≠ "" ∧ '/' ∉ part.toList

theorem joined_filled (plain : PlainParts parts) (some_ : parts ≠ []) :
    "/".intercalate parts ≠ "" := by
  cases parts with
  | nil => exact absurd rfl some_
  | cons part parts =>
      have first := (plain part List.mem_cons_self).1
      intro empty
      have lengths := congrArg String.length empty
      cases parts with
      | nil => exact first (by simpa using empty)
      | cons next parts =>
          rw [String.intercalate_cons_cons, String.length_append, String.length_append] at lengths
          have one : "/".length = 1 := rfl
          rw [one, String.length_empty] at lengths
          omega

/-- The text of the parts gives the parts back. -/
theorem joined_injective {parts others : List String} (plain : PlainParts parts)
    (otherPlain : PlainParts others) (same : "/".intercalate parts = "/".intercalate others) :
    parts = others := by
  have split {names : List String} (plain : PlainParts names) (some_ : names ≠ []) :
      (("/".intercalate names).toList).splitOn '/' = names.map String.toList := by
    rw [String.toList_intercalate]
    apply List.splitOn_intercalate
    · intro part isPart
      rcases List.mem_map.mp isPart with ⟨name, isName, rfl⟩
      exact (plain name isName).2
    · simpa using some_
  by_cases empty : parts = []
  · subst empty
    by_contra differ
    exact joined_filled otherPlain (Ne.symm differ) same.symm
  · by_cases otherEmpty : others = []
    · subst otherEmpty
      exact absurd same (joined_filled plain empty)
    · have lists := (split plain empty).symm.trans
        ((congrArg (fun text : String => text.toList.splitOn '/') same).trans
          (split otherPlain otherEmpty))
      exact List.map_injective_iff.mpr (fun _ _ => String.toList_inj.mp) lists

theorem text_injective (absolute : one.absolute = true) (otherAbsolute : other.absolute = true)
    (plain : PlainParts one.parts) (otherPlain : PlainParts other.parts)
    (same : one.text = other.text) : one = other := by
  rw [PurePath.text, PurePath.text, if_pos absolute, if_pos otherAbsolute,
    String.append_right_inj] at same
  have parts := joined_injective plain otherPlain same
  cases one
  cases other
  simp_all

/-- A path ends with its name. -/
theorem exists_text_append (absolute : path.absolute = true) :
    ∃ front, path.text = front ++ path.name := by
  rw [PurePath.text, if_pos absolute, PurePath.name]
  rcases List.eq_nil_or_concat path.parts with empty | ⟨init, last, whole⟩
  · exact ⟨"/", by simp [empty]⟩
  · rw [whole, List.concat_eq_append, List.getLast?_concat, Option.getD_some]
    by_cases alone : init = []
    · exact ⟨"/", by simp [alone]⟩
    · refine ⟨"/" ++ ("/".intercalate init ++ "/"), ?_⟩
      rw [String.intercalate_append_of_ne_nil alone (List.cons_ne_nil _ _),
        String.intercalate_singleton]
      simp only [String.append_assoc]

theorem stem_append_suffix (path : PurePath) : path.stem ++ path.suffix = path.name := by
  rw [PurePath.stem, PurePath.suffix, PurePath.splitSuffix]
  split_ifs
  · rw [← String.toList_inj, String.toList_append, String.toList_ofList, String.toList_ofList,
      List.take_append_drop]
  · exact String.append_empty

theorem trim_eq_self {text : String} {first last : Char} (head : text.toList.head? = some first)
    (tail : text.toList.getLast? = some last) (visible : isWhitespace first = false)
    (visibleLast : isWhitespace last = false) : trim text = text := by
  have front : text.toList.dropWhile isWhitespace = text.toList := by
    cases chars : text.toList with
    | nil => rfl
    | cons char chars =>
        rw [chars] at head
        cases head
        rw [List.dropWhile_cons_of_neg (by simp [visible])]
  have back : text.toList.rdropWhile isWhitespace = text.toList := by
    apply List.rdropWhile_eq_self_iff.mpr
    intro nonempty
    rw [List.getLast?_eq_some_getLast nonempty, Option.some.injEq] at tail
    simp [tail, visibleLast]
  rw [trim, front, back, String.ofList_toList]

end Texts

theorem allowedSuffixes_visible (req : DesktopRequest) :
    ∀ suffix ∈ allowedSuffixes req, suffix ≠ "" ∧
      ∀ char ∈ suffix.toList, isWhitespace char = false := by
  unfold allowedSuffixes
  split_ifs
  · simp [mediaExtensions, isWhitespace]
  · simp [chatExtensions, isWhitespace]

section Laws

variable [FileSystem] [PythonText] {req : ValidRequest} {root : PurePath}
  {taken : List (String × PurePath)} {path : PurePath}

open FileSystem

/-- What `resolve` and `lower` do on every system. -/
structure LawfulPaths : Prop where
  absolute : ∀ path, (resolve path).absolute = true
  plain : ∀ path, PlainParts (resolve path).parts
  lower_empty : PythonText.lower "" = ""
  lower_space : ∀ text, ∀ char ∈ text.toList, isWhitespace char = true →
    char ∈ (PythonText.lower text).toList

/-- The id of a source with an allowed suffix is not trimmed. -/
theorem absoluteId_eq (lawful : LawfulPaths) (absolute : path.absolute = true)
    (allowed : PythonText.lower path.suffix ∈ allowedSuffixes req.toDesktopRequest) :
    absoluteId path = path.text := by
  have known := allowedSuffixes_visible _ _ allowed
  have filled : path.suffix ≠ "" := by
    intro empty
    rw [empty] at known
    exact known.1 lawful.lower_empty
  rcases exists_text_append absolute with ⟨front, whole⟩
  have chars : path.text.toList = (front ++ path.stem).toList ++ path.suffix.toList := by
    rw [whole, ← stem_append_suffix, ← String.append_assoc, String.toList_append]
  have someChars : path.suffix.toList ≠ [] := by simpa using filled
  have head : path.text.toList.head? = some '/' := by
    rw [PurePath.text, if_pos absolute, String.toList_append]
    rfl
  have tail : path.text.toList.getLast? = some (path.suffix.toList.getLast someChars) := by
    rw [chars, List.getLast?_append_of_ne_nil _ someChars,
      List.getLast?_eq_some_getLast someChars]
  refine trim_eq_self head tail (by decide) ?_
  by_contra space
  rw [Bool.not_eq_false] at space
  have isLower := lawful.lower_space _ _ (List.getLast_mem someChars) space
  rw [known.2 _ isLower] at space
  cases space

/-- The sources of an accepted request are told apart by their ids. -/
theorem lawfulSources_of_accepted (lawful : LawfulPaths)
    (accepted : sources req.toDesktopRequest = .ok (root, taken)) : LawfulSources taken := by
  rcases sources_ok_iff.mp accepted with ⟨_, fits, paths, _, rfl⟩
  have isSource : ∀ entry ∈ req.sourceIds.map (fun sid => (sid, sourcePath root sid)),
      ∃ sid ∈ req.sourceIds, entry = (sid, sourcePath root sid) := by
    intro entry isEntry
    rcases List.mem_map.mp isEntry with ⟨sid, isId, rfl⟩
    exact ⟨sid, isId, rfl⟩
  refine ⟨?_, ?_, ?_, ?_⟩
  · have ids : keys (req.sourceIds.map fun sid => (sid, sourcePath root sid)) = req.sourceIds := by
      simp [keys, Function.comp_def]
    rw [ids]
    exact (validPipeline_ok_iff.mp req.valid).2.2.2
  · intro one isOne other isOther same
    rcases isSource one isOne with ⟨sid, isId, rfl⟩
    rcases isSource other isOther with ⟨sid', isId', rfl⟩
    have samePath : sourcePath root sid = sourcePath root sid' :=
      text_injective (lawful.absolute _) (lawful.absolute _) (lawful.plain _) (lawful.plain _) same
    rw [List.inj_on_of_nodup_map paths isId isId' samePath]
  · intro entry isEntry
    rcases isSource entry isEntry with ⟨sid, isId, rfl⟩
    exact absoluteId_eq lawful (lawful.absolute _) (fits sid isId).suffix
  · intro entry isEntry
    rcases isSource entry isEntry with ⟨sid, _, rfl⟩
    have absolute : (sourcePath root sid).absolute = true := lawful.absolute _
    rw [PurePath.text, if_pos absolute, String.toList_append]
    exact List.mem_append_left _ List.mem_cons_self

variable [Compare.ChatFormat] [Engine.ValidationGates] {Choice : Type}
  {surroundings : Surroundings Choice} {job : JobRun Choice}

omit [Compare.ChatFormat] [Engine.ValidationGates] in
theorem lawfulJob_of_accepted (lawful : LawfulPaths)
    (accepted : sources req.toDesktopRequest = .ok (root, taken))
    (setups : ∀ index setup, surroundings.load index = .ok setup → LawfulSetup setup) :
    LawfulJob surroundings req taken := by
  refine ⟨lawfulSources_of_accepted lawful accepted, setups, ?_⟩
  rcases sources_ok_iff.mp accepted with ⟨_, fits, _, _, rfl⟩
  intro sid isKey
  rcases List.mem_map.mp isKey with ⟨entry, isEntry, rfl⟩
  rcases List.mem_map.mp isEntry with ⟨sid, isId, rfl⟩
  exact (fits sid isId).named

omit [FileSystem] [PythonText] [Compare.ChatFormat] [Engine.ValidationGates] in
theorem JobPhase.eq_ended {phase : JobPhase Choice} (isEnded : phase.isEnded = true) :
    phase = .ended := by
  cases phase <;> first | rfl | cases isEnded

/-- Whatever its threads, pipelines and disk do, a job reports nothing about a source after its
end. If it is not cancelled it reports the end of every source, and has completed exactly if no
source has failed. -/
theorem one_end_for_each_source (lawful : LawfulPaths)
    (accepted : sources req.toDesktopRequest = .ok (root, taken))
    (setups : ∀ index setup, surroundings.load index = .ok setup → LawfulSetup setup)
    (reachable : (jobSystem surroundings req root taken).Reachable job) :
    Settled job.events ∧ (job.phase.isEnded = true → job.state ≠ .cancelled →
      (∀ sid ∈ req.sourceIds, ∃ event ∈ job.events, event.sourceId = sid ∧ event.isTerminal) ∧
      (job.state = .completed ∧ (∀ event ∈ job.events, event.kind ≠ .stageFailed) ∨
        job.state = .failed ∧ ∃ event ∈ job.events, event.kind = .stageFailed)) := by
  have books := (phaseBooks (lawfulJob_of_accepted lawful accepted setups)).reachable reachable
  refine ⟨settled_of_phaseBooks books, ?_⟩
  intro isEnded alive
  rw [JobPhase.eq_ended isEnded] at books
  refine ⟨?_, books.state.resolve_left alive⟩
  rcases sources_ok_iff.mp accepted with ⟨_, _, _, _, rfl⟩
  intro sid isId
  refine books.ends alive sid ?_
  simpa [keys] using isId

end Laws

section Samples

open Batchalign.Compare Batchalign.Engine

/-- A folder with one transcript. -/
instance desk : FileSystem where
  cwd := ⟨true, []⟩
  expanduser path := path
  resolve path := ⟨true, path.parts.filter fun part => part ≠ "" ∧ '/' ∉ part.toList⟩
  pathExists path := [["in"], ["in", "a.cha"]].contains path.parts
  isFile path := path.parts = ["in", "a.cha"]
  isDir path := path.parts = ["in"]
  rglob _ := []
  size _ := 0
  readLines _ := .error "No such file or directory"

theorem toLower_space {char : Char} (space : isWhitespace char = true) : char.toLower = char := by
  have notUpper : ¬ (65 ≤ char.toNat ∧ char.toNat ≤ 90) := by
    simp only [isWhitespace, Bool.or_eq_true, Bool.and_eq_true, decide_eq_true_eq, beq_iff_eq]
      at space
    omega
  have kept : ¬ (char.val ≥ 'A'.val ∧ char.val ≤ 'Z'.val) := by
    rintro ⟨low, high⟩
    rw [ge_iff_le, UInt32.le_iff_toNat_le] at low
    rw [UInt32.le_iff_toNat_le] at high
    exact notUpper ⟨low, high⟩
  rw [Char.toLower, dif_neg kept]

theorem lawful_desk : LawfulPaths where
  absolute _ := rfl
  plain path part isPart := by
    simpa [FileSystem.resolve] using (List.mem_filter.mp isPart).2
  lower_empty := rfl
  lower_space text char isChar space := by
    have isLower : char ∈ text.toList.map Char.toLower :=
      List.mem_map.mpr ⟨char, isChar, toLower_space space⟩
    simpa only [PythonText.lower, asciiMap, String.toList_ofList] using isLower

def tagging : ValidRequest where
  folder := "/in"
  sourceIds := ["a.cha"]
  steps := [⟨.morphotag, [], none, false, none⟩]
  inPlace := false
  outputPath := some "/out"
  workers := 1
  someSource := List.cons_ne_nil _ _
  someStep := List.cons_ne_nil _ _
  someWorkers := Nat.one_pos
  fewWorkers := by decide
  valid := rfl

def taggingSources : List (String × PurePath) := [("a.cha", ⟨true, ["in", "a.cha"]⟩)]

/-- A pipeline that hands a transcript on. -/
def handingOn : Setup Unit where
  inner := emptyPipeline
  answers _ _ := none
  convert _ sourceId := .ok (.chat ⟨sampleMain, sourceId, none⟩)

def quietDesk : Surroundings Unit where
  workdir := ⟨true, ["jobs", "1"]⟩
  disk _ := none
  load _ := .ok handingOn

/-- The job from its start to its end. -/
def taggingEvents : List (JobEvent Unit) :=
  [.enterStage, .engine .enter, .engine (.acquire 0 ()), .engine (.emit 0), .engine (.complete 0),
    .engine (.deliver 0 none), .returned, .sweep, .sweep, .enterStage, .leave, .publish none none,
    .publish none none]

theorem handingOn_lawful (index : ℕ) (setup : Setup Unit)
    (loaded : quietDesk.load index = .ok setup) : LawfulSetup setup := by
  cases loaded
  refine ⟨fun _ => ⟨nofun, fun _ _ => rfl⟩, ?_⟩
  intro data sourceId value converted
  cases converted
  exact ⟨rfl, fun name isName => .inl (List.mem_singleton.mp isName)⟩

/-- The transcript is tagged, and its job completes. -/
theorem tagging_completes :
    ∃ job, (jobSystem quietDesk tagging ⟨true, ["in"]⟩ taggingSources).run
        (.start tagging taggingSources) taggingEvents = some job ∧ job.state = .completed ∧
      Settled job.events ∧
      ∀ sid ∈ ["a.cha"], ∃ event ∈ job.events, event.sourceId = sid ∧ event.isTerminal := by
  have accepted : sources tagging.toDesktopRequest = .ok (⟨true, ["in"]⟩, taggingSources) := by
    decide +kernel
  have ends : ((jobSystem quietDesk tagging ⟨true, ["in"]⟩ taggingSources).run
      (.start tagging taggingSources) taggingEvents).map
        (fun job => (job.state, job.phase.isEnded)) = some (.completed, true) := by
    decide +kernel
  rcases Option.map_eq_some_iff.mp ends with ⟨job, runs, facts⟩
  rw [Prod.mk.injEq] at facts
  have known := one_end_for_each_source lawful_desk accepted handingOn_lawful
    ⟨_, taggingEvents, rfl, runs⟩
  refine ⟨job, runs, facts.1, known.1, (known.2 facts.2 ?_).1⟩
  rw [facts.1]
  exact JobState.noConfusion

end Samples

end Batchalign.Desktop
