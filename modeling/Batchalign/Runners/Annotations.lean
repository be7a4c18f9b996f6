import Batchalign.Runners.Surroundings

/-!
# The runners that annotate every utterance

`apply` of `taskrunners/coref.rs` and `taskrunners/translate.rs`. The backend returns one
text for each utterance, and the texts are written as tiers one after the other. Whether
there are as many texts as utterances is found out on the way.
-/

namespace Batchalign.Runners

open Batchalign.Chat InPlaceLoop

section Payloads

structure CorefInput where
  sourceId : String
  utterances : List String
  speakers : List String
deriving DecidableEq, Repr

structure CorefOutput where
  sourceId : String
  annotations : List String
deriving DecidableEq, Repr

structure TranslateInput where
  sourceId : String
  utterances : List String
  source : LanguageSpec
  target : String
deriving DecidableEq, Repr

structure TranslateOutput where
  sourceId : String
  utterances : List String
  provider : Option String
deriving DecidableEq, Repr

end Payloads

section Injection

/-- What the two runners differ in. -/
structure AnnotationTier where
  task : Task
  label : String
  title : String
  noun : String
  labelled : label ≠ ""

def corefTier : AnnotationTier := ⟨.coref, "xcor", "Coref", "annotation", by decide⟩

def translationTier : AnnotationTier := ⟨.translate, "xtra", "Translate", "translation", by decide⟩

def nonEmptyString (text message : String) : BAResult String :=
  if text.isEmpty then .error (.internal message) else .ok text

/-- The loop body. Blank texts leave no tier. -/
def annotate (tier : AnnotationTier) (texts : List String) (idx : ℕ) (utt : Utterance) :
    BAResult Utterance :=
  match texts[idx]? with
  | none => .error (.internal s!"{tier.title}: missing {tier.noun} for utterance {idx}")
  | some text =>
      let trimmed := trim text
      if trimmed.isEmpty then .ok utt
      else do
        let label ← nonEmptyString tier.label s!"{tier.label} label empty"
        let content ← nonEmptyString trimmed s!"{tier.label} content empty"
        return { utt with
          dependentTiers := utt.dependentTiers ++ [.userDefined label (some content)] }

def injectTiers (tier : AnnotationTier) (chat : ChatFile) (texts : List String) :
    BAResult Unit × ChatFile :=
  let injected := run (utterances.numbered (annotate tier texts)) 0 chat.lines
  let result : BAResult Unit :=
    match injected.1 with
    | .error error => .error error
    | .ok idx =>
        if idx ≠ texts.length then
          .error (.internal
            s!"{tier.title}: utterance/output count mismatch ({idx} vs {texts.length})")
        else .ok ()
  (result, { chat with lines := injected.2 })

def injectCorefTiers : ChatFile → List String → BAResult Unit × ChatFile :=
  injectTiers corefTier

def injectTranslationTiers : ChatFile → List String → BAResult Unit × ChatFile :=
  injectTiers translationTier

end Injection

section Apply

variable [Talkbank] [ChatDetails]

/-- `collect_inputs`. -/
def corefInput (chat : Chat) : CorefInput where
  sourceId := chat.sourceId
  utterances := chat.ast.utterances.map spokenText
  speakers := chat.ast.utterances.map fun utt => utt.main.speaker

/-- One of the `utterance_texts`; the translator sees the terminator. -/
def sentenceText (utt : Utterance) : String :=
  spokenText utt ++
    (utt.main.content.terminator.elim "" fun terminator =>
      " " ++ ChatDetails.terminatorText terminator)

def translateInput [ChatBuilder] (chat : Chat) : TranslateInput where
  sourceId := chat.sourceId
  utterances := chat.ast.utterances.map sentenceText
  source := resolvePerFileLanguage chat
  target := "eng"

/-- The texts to write and the provider to note, from the answer to the dispatch. -/
def annotateChat (tier : AnnotationTier) (chat : Chat)
    (answer : BAResult (List String × Option String)) : RunnerOutcome :=
  let started := RunnerEvent.stageStarted chat.sourceId tier.task
  let done := RunnerEvent.stageInjected chat.sourceId tier.task ""
  if chat.ast.utterances.isEmpty then ⟨.ok (), .chat chat, [started, done]⟩
  else match answer with
    | .error error => ⟨.error error, .chat chat, [started]⟩
    | .ok (texts, provider) =>
        let annotated := injectTiers tier chat.ast texts
        -- every utterance with a text ticks
        let ticks := (List.range (min chat.ast.utterances.length texts.length)).map fun idx =>
          RunnerEvent.stageTick chat.sourceId tier.task (idx + 1) texts.length
        match annotated.1 with
        | .error error =>
            ⟨.error error, .chat { chat with ast := annotated.2 }, started :: ticks⟩
        | .ok () =>
            let lines := provider.elim annotated.2.lines fun provider =>
              ChatDetails.stampProvenance annotated.2.lines "translate-provider" (some provider)
            ⟨.ok (), .chat { chat with ast := { annotated.2 with lines := lines } },
              started :: ticks ++ [done]⟩

def corefRunner (backend : CorefInput → BAResult CorefOutput) : Runner :=
  onChat (fun kind => .internal s!"CorefTaskRunner: expected BAValue::Chat, got {kind}")
    fun chat => annotateChat corefTier chat
      ((backend (corefInput chat)).map fun output => (output.annotations, none))

def translateRunner [ChatBuilder] (backend : TranslateInput → BAResult TranslateOutput) :
    Runner :=
  onChat (fun kind => .internal s!"TranslateTaskRunner: expected BAValue::Chat, got {kind}")
    fun chat => annotateChat translationTier chat
      ((backend (translateInput chat)).map fun output => (output.utterances, output.provider))

end Apply

section Failures

variable {tier : AnnotationTier} {texts : List String}

theorem nonEmptyString_ok {text message : String} (nonEmpty : text ≠ "") :
    nonEmptyString text message = .ok text := by
  rw [nonEmptyString, if_neg (by simpa using nonEmpty)]

theorem annotate_blank {idx : ℕ} {text : String} (atIdx : texts[idx]? = some text)
    (blank : trim text = "") (utt : Utterance) : annotate tier texts idx utt = .ok utt := by
  simp [annotate, atIdx, blank]

theorem annotate_text {idx : ℕ} {text : String} (atIdx : texts[idx]? = some text)
    (written : trim text ≠ "") (utt : Utterance) :
    annotate tier texts idx utt = .ok { utt with
      dependentTiers := utt.dependentTiers ++ [.userDefined tier.label (some (trim text))] } := by
  have notEmpty : ¬ (trim text).isEmpty = true := by simpa using written
  simp only [annotate, atIdx, if_neg notEmpty, nonEmptyString_ok tier.labelled,
    nonEmptyString_ok written]
  rfl

/-- Only a missing text stops the loop. -/
theorem annotate_isOk (idx : ℕ) (utt : Utterance) :
    (annotate tier texts idx utt).isOk = decide (idx < texts.length) := by
  cases atIdx : texts[idx]? with
  | none =>
      have beyond := List.getElem?_eq_none_iff.mp atIdx
      simp [annotate, Except.isOk, Except.toBool, beyond]
  | some text =>
      rcases List.getElem?_eq_some_iff.mp atIdx with ⟨within, _⟩
      rw [decide_eq_true within]
      by_cases blank : trim text = ""
      · rw [annotate_blank atIdx blank]
        rfl
      · rw [annotate_text atIdx blank]
        rfl

theorem annotate_kept_iff {idx : ℕ} {text : String} (atIdx : texts[idx]? = some text)
    (utt : Utterance) : annotate tier texts idx utt = .ok utt ↔ trim text = "" := by
  refine ⟨fun kept => ?_, fun blank => annotate_blank atIdx blank utt⟩
  by_contra written
  rw [annotate_text atIdx written, Except.ok.injEq] at kept
  have tiers := congrArg (fun utt => utt.dependentTiers.length) kept
  simp at tiers

theorem takeWhile_zipIdx_lt {α : Type} (as : List α) (start stop : ℕ) :
    ((as.zipIdx start).takeWhile fun row => decide (row.2 < stop)) =
      (as.take (stop - start)).zipIdx start := by
  induction as generalizing start with
  | nil => simp
  | cons a as ih =>
      rw [List.zipIdx_cons]
      by_cases within : start < stop
      · rw [List.takeWhile_cons_of_pos (by simpa using within), ih,
          show stop - start = stop - (start + 1) + 1 by omega, List.take_succ_cons,
          List.zipIdx_cons]
      · rw [List.takeWhile_cons_of_neg (by simpa using within),
          show stop - start = 0 by omega, List.take_zero, List.zipIdx_nil]

/-- The injection succeeds when there is one text for each utterance. -/
theorem injectTiers_ok_iff (chat : ChatFile) :
    (injectTiers tier chat texts).1 = .ok () ↔ texts.length = chat.utterances.length := by
  have reaches := utterances.run_isOk_iff (annotate tier texts) chat.lines
  simp only [annotate_isOk, decide_eq_true_eq] at reaches
  simp only [injectTiers]
  cases ran : (run (utterances.numbered (annotate tier texts)) 0 chat.lines).1 with
  | error error =>
      rw [ran] at reaches
      constructor
      · intro fails
        cases fails
      · intro sameLength
        have succeeds := reaches.mpr fun row member => by
          have below := List.snd_lt_add_of_mem_zipIdx member
          change row.2 < 0 + chat.utterances.length at below
          omega
        cases succeeds
  | ok last =>
      have counted : last = chat.utterances.length := utterances.run_ok _ ran
      dsimp only
      split
      · rename_i differs
        constructor
        · intro fails
          cases fails
        · intro sameLength
          omega
      · rename_i same
        constructor
        · intro _
          omega
        · intro _
          rfl

/-- The transcript is as it was when the texts that found an utterance are blank. -/
theorem injectTiers_kept_iff (chat : ChatFile) :
    (injectTiers tier chat texts).2 = chat ↔
      ∀ text ∈ texts.take chat.utterances.length, trim text = "" := by
  have kept : (injectTiers tier chat texts).2 = chat ↔
      (run (utterances.numbered (annotate tier texts)) 0 chat.lines).2 = chat.lines := by
    constructor
    · intro same
      exact congrArg ChatFile.lines same
    · intro same
      simp only [injectTiers, same]
  rw [kept, utterances.run_kept_iff, passed]
  simp only [annotate_isOk, takeWhile_zipIdx_lt, Nat.sub_zero]
  change (∀ row ∈ (chat.utterances.take texts.length).zipIdx, _) ↔ _
  constructor
  · intro unchanged text member
    rcases List.mem_iff_getElem?.mp member with ⟨idx, atIdx⟩
    rw [List.getElem?_take] at atIdx
    split at atIdx
    · rename_i within
      have isText := (List.getElem?_eq_some_iff.mp atIdx).1
      have isRow : (chat.utterances[idx], idx) ∈
          (chat.utterances.take texts.length).zipIdx := by
        rw [List.mem_zipIdx_iff_getElem?, List.getElem?_take_of_lt isText]
        exact List.getElem?_eq_getElem within
      exact (annotate_kept_iff atIdx _).mp (unchanged _ isRow)
    · cases atIdx
  · intro blank row member
    rw [List.mem_zipIdx_iff_getElem?] at member
    have within := (List.getElem?_eq_some_iff.mp member).1
    rw [List.length_take] at within
    have isText : row.2 < texts.length := by omega
    have atIdx := List.getElem?_eq_getElem isText
    refine (annotate_kept_iff atIdx row.1).mpr (blank _ ?_)
    apply List.mem_iff_getElem?.mpr
    refine ⟨row.2, ?_⟩
    rw [List.getElem?_take_of_lt (by omega)]
    exact atIdx

variable [ChatDetails]

/-- The texts of the answer fit, or all that are written before the mismatch shows are
blank. -/
def AnswerFits (chat : Chat) (texts : List String) : Prop :=
  texts.length = chat.ast.utterances.length ∨
    ∀ text ∈ texts.take chat.ast.utterances.length, trim text = ""

theorem annotateChat_keeps_iff (chat : Chat) (answer : BAResult (List String × Option String)) :
    (∀ error, (annotateChat tier chat answer).result = .error error →
        (annotateChat tier chat answer).value = .chat chat) ↔
      ∀ texts provider, answer = .ok (texts, provider) → AnswerFits chat texts := by
  by_cases empty : chat.ast.utterances.isEmpty = true
  · have noUtterance := List.isEmpty_iff.mp empty
    simp [annotateChat, AnswerFits, noUtterance]
  · cases answer with
    | error error => simp [annotateChat, empty]
    | ok output =>
        rcases output with ⟨texts, provider⟩
        have fits := @injectTiers_ok_iff tier texts chat.ast
        have kept := @injectTiers_kept_iff tier texts chat.ast
        have answers : (∀ texts' provider', (Except.ok (texts, provider) : BAResult _) =
            .ok (texts', provider') → AnswerFits chat texts') ↔ AnswerFits chat texts := by
          refine ⟨fun holds => holds texts provider rfl, fun holds texts' provider' same => ?_⟩
          cases same
          exact holds
        rw [answers]
        simp only [annotateChat, empty, Bool.false_eq_true, if_false]
        cases result : (injectTiers tier chat.ast texts).1 with
        | ok _ =>
            have same := fits.mp result
            simp [AnswerFits, same]
        | error error =>
            have differs : texts.length ≠ chat.ast.utterances.length := by
              intro same
              rw [fits.mpr same] at result
              cases result
            simp only [chat_withAst_eq_iff, kept, AnswerFits, differs, false_or]
            exact ⟨fun keeps => keeps error rfl, fun keeps _ _ => keeps⟩

end Failures

end Batchalign.Runners
