import Timeline.Proofs.Collection
import Timeline.Proofs.Session
import Timeline.Proofs.Storage

/-! What a pipeline does to the files.

`RunConfig.content` is what a pipeline is for, without a session: the content that a stage leads to, or the
first thing that is wrong. One step takes a stage to the next one and does not change what it leads to
(`ends_of_step`). So from any stage at most five steps end in one of four ways (`Ends`): with the content
written where the output leads and nothing else changed, with nothing to write, or with nothing changed
because there is no content or because it cannot be written. -/
namespace Timeline

open Animation (Animations)
open Journal (Event)

variable {σ : Type}

namespace RunConfig

variable (config : RunConfig)

/-! ### What remains to be done -/

/-- What is written for animations. -/
def fileOf (animations : Animations) : ByteArray := (animations.text config.options.isPretty).toUTF8

/-- The content that remains to be written from a stage on, or why there is none. -/
def content [Storage σ] (files : σ) : Stage → Except ConvertError (Option ByteArray)
  | .idle => do
    let source ← (Storage.readText files config.paths.input).mapError (.unreadable config.paths.input)
    let animations ← (convert source config.options).result
    return some (config.fileOf animations)
  | .parsed (.stylesheet sheet) => do
    let animations ← convertSheet config.options.duplicateNames sheet
    return some (config.fileOf animations)
  | .parsed (.rule _) => .error (.validation (.notAStylesheet .rule))
  | .validated sheet => do
    let animations ← (Animations.collect config.options.duplicateNames sheet.sheet.keyframes).result.mapError .transform
    return some (config.fileOf animations)
  | .transformed animations => .ok (some (config.fileOf animations))
  | .serialized content => .ok (some content)
  | .done => .ok none

/-- How all steps from a stage on end, and with which files. -/
inductive Ends [LawfulStorage σ] (files : σ) (stage : Stage) : Except ConvertError Stage → σ → Prop
  | refused (e : ConvertError) (h : config.content files stage = .error e) : Ends files stage (.error e) files
  | unwritable (content : ByteArray) (fault : FileFault) (h : config.content files stage = .ok (some content))
    (hw : Storage.write files config.paths.output content = .error fault) :
    Ends files stage (.error (.unwritable config.paths.output fault)) files
  | nothing (h : config.content files stage = .ok none) : Ends files stage (.ok .done) files
  | written (content : ByteArray) (after : σ) (h : config.content files stage = .ok (some content))
    (hw : Storage.write files config.paths.output content = .ok after)
    (honly : OnlyHolds files after config.paths.output content) : Ends files stage (.ok .done) after

/-! ### One step -/

/-- The stage after a stage, and the files. -/
def step [Storage σ] (files : σ) : Stage → Except ConvertError (Stage × σ)
  | .idle =>
    match Storage.readText files config.paths.input with
    | .error fault => .error (.unreadable config.paths.input fault)
    | .ok source => .ok (.parsed (.stylesheet (readSheet source).result), files)
  | .parsed node =>
    match (validate node).result with
    | .error e => .error (.validation e)
    | .ok sheet => .ok (.validated sheet, files)
  | .validated sheet =>
    match (Animations.collect config.options.duplicateNames sheet.sheet.keyframes).result with
    | .error e => .error (.transform e)
    | .ok animations => .ok (.transformed animations, files)
  | .transformed animations => .ok (.serialized (config.fileOf animations), files)
  | .serialized content =>
    match Storage.write files config.paths.output content with
    | .error fault => .error (.unwritable config.paths.output fault)
    | .ok after => .ok (.done, after)
  | .done => .ok (.done, files)

/-- A session does what is said without it; one that fails leaves the files. -/
def Answers {α : Type} (x : SessionOn σ (Except ConvertError α)) (files : σ) : Except ConvertError (α × σ) → Prop
  | .ok (a, after) => Yields x files (.ok a) after
  | .error e => Yields x files (.error e) files

section
variable [Storage σ] {config}

theorem answers_next (config : RunConfig) (files : σ) (stage : Stage) :
    Answers (config.next stage) files (config.step files stage) := by
  cases stage with
  | idle =>
    rw [step]
    have hread := Yields.readText config.paths.input files
    cases h : Storage.readText files config.paths.input with
    | error fault =>
      rw [h] at hread
      exact hread.bind (.pure _ files)
    | ok source =>
      rw [h] at hread
      exact hread.bind ((Yields.report (readSheet source) files).bind (.pure _ files))
  | parsed node =>
    rw [step]
    have hvalid := Yields.report (validate node) files
    cases h : (validate node).result with
    | error e =>
      rw [h] at hvalid
      exact hvalid.bind (.pure _ files)
    | ok sheet =>
      rw [h] at hvalid
      exact hvalid.bind (.pure _ files)
  | validated sheet =>
    rw [step]
    have hcollect := Yields.report (Animations.collect config.options.duplicateNames sheet.sheet.keyframes) files
    cases h : (Animations.collect config.options.duplicateNames sheet.sheet.keyframes).result with
    | error e =>
      rw [h] at hcollect
      exact hcollect.bind (.pure _ files)
    | ok animations =>
      rw [h] at hcollect
      exact hcollect.bind (.pure _ files)
  | transformed animations => exact .pure _ files
  | serialized content =>
    rw [step]
    cases h : Storage.write files config.paths.output content with
    | error fault => exact (Yields.writeFile_error h).bind (.pure _ files)
    | ok after => exact (Yields.writeFile_ok h).bind (.pure _ after)
  | done => exact .pure _ files

theorem answers_advance (config : RunConfig) (files : σ) (stage : Stage) :
    Answers (config.advance stage) files (config.step files stage) := by
  have hnext := answers_next config files stage
  cases h : config.step files stage with
  | error e =>
    rw [h] at hnext
    exact hnext.bind (.pure _ files)
  | ok result =>
    obtain ⟨next, after⟩ := result
    rw [h] at hnext
    exact hnext.bind ((Yields.log _ after).bind (.pure _ after))

/-- A step leads to the stage behind the present one, except at the end; only the step that writes
changes the files. -/
theorem step_forward {files after : σ} {stage next : Stage} (h : config.step files stage = .ok (next, after)) :
    (stage = .done ∧ next = .done ∨ next.rank = stage.rank + 1) ∧
      (after = files ∨ ∃ content, stage = .serialized content) := by
  cases stage with
  | idle =>
    rw [step] at h
    split at h <;> cases h
    exact ⟨.inr rfl, .inl rfl⟩
  | parsed node =>
    rw [step] at h
    split at h <;> cases h
    exact ⟨.inr rfl, .inl rfl⟩
  | validated sheet =>
    rw [step] at h
    split at h <;> cases h
    exact ⟨.inr rfl, .inl rfl⟩
  | transformed animations =>
    cases h
    exact ⟨.inr rfl, .inl rfl⟩
  | serialized content =>
    rw [step] at h
    split at h <;> cases h
    exact ⟨.inr rfl, .inr ⟨content, rfl⟩⟩
  | done =>
    cases h
    exact ⟨.inl ⟨rfl, rfl⟩, .inl rfl⟩

/-- Up to the write a step does not change what is going to be written. -/
theorem content_step {files after : σ} {stage next : Stage} (h : config.step files stage = .ok (next, after))
    (hstage : ∀ content, stage ≠ .serialized content) :
    config.content files stage = config.content files next := by
  cases stage with
  | idle =>
    rw [step] at h
    split at h <;> cases h
    rename_i source hsource
    rw [content, hsource]
    show ((convert source config.options).result >>= _) = _
    rw [convert_result]
    rfl
  | parsed node =>
    cases node with
    | rule rule => cases h
    | stylesheet sheet =>
      rw [step] at h
      split at h <;> cases h
      rename_i valid hvalid
      rw [content, convertSheet, hvalid]
      rfl
  | validated sheet =>
    rw [step] at h
    split at h <;> cases h
    rename_i animations hcollect
    rw [content, hcollect]
    rfl
  | transformed animations =>
    cases h
    rfl
  | serialized content => exact absurd rfl (hstage content)
  | done =>
    cases h
    rfl

end

/-! ### Many steps -/

/-- Advances a number of times, past the end too. -/
def advances {m : Type → Type} [Monad m] [Host m] (config : RunConfig) : Nat → Stage → m (Except ConvertError Stage)
  | 0, stage => return .ok stage
  | n + 1, stage => do
    match ← config.advance stage with
    | .error e => return .error e
    | .ok stage => config.advances n stage

variable [LawfulStorage σ] {config} {files after last : σ} {stage next : Stage} {result : Except ConvertError Stage}

theorem ends_of_error {e : ConvertError} (h : config.step files stage = .error e) :
    config.Ends files stage (.error e) files := by
  cases stage with
  | idle =>
    rw [step] at h
    split at h <;> cases h
    rename_i fault hfault
    refine .refused _ ?_
    rw [content, hfault]
    rfl
  | parsed node =>
    refine .refused e ?_
    cases node with
    | rule rule =>
      cases h
      rfl
    | stylesheet sheet =>
      rw [step] at h
      split at h <;> cases h
      rename_i error herror
      rw [content, convertSheet, herror]
      rfl
  | validated sheet =>
    rw [step] at h
    split at h <;> cases h
    rename_i error herror
    refine .refused _ ?_
    rw [content, herror]
    rfl
  | transformed animations => cases h
  | serialized content =>
    rw [step] at h
    split at h <;> cases h
    rename_i fault hfault
    exact .unwritable content fault rfl hfault
  | done => cases h

/-- A step may be put in front: what comes after it ends as all would have ended without it. -/
theorem ends_of_step (h : config.step files stage = .ok (next, after)) (hends : config.Ends after next result last) :
    config.Ends files stage result last := by
  by_cases hstage : ∃ content, stage = .serialized content
  · obtain ⟨content, rfl⟩ := hstage
    rw [step] at h
    split at h <;> cases h
    rename_i hw
    -- Nothing is left to do, so this is the write that the file comes from.
    cases hends with
    | refused e he => cases he
    | unwritable _ _ hc => cases hc
    | nothing => exact .written content _ rfl hw (LawfulStorage.write_place hw)
    | written _ _ hc => cases hc
  · obtain rfl : after = files := (step_forward h).2.resolve_right hstage
    have hcontent := content_step h fun content hc => hstage ⟨content, hc⟩
    cases hends with
    | refused e he => exact .refused e (hcontent.trans he)
    | unwritable content fault hc hw => exact .unwritable content fault (hcontent.trans hc) hw
    | nothing hn => exact .nothing (hcontent.trans hn)
    | written content _ hc hw honly => exact .written content _ (hcontent.trans hc) hw honly

theorem ends_done (files : σ) : config.Ends files .done (.ok .done) files := .nothing rfl

theorem eq_done_of_rank (h : Stage.done.rank ≤ stage.rank) : stage = .done := by
  cases stage <;> first | rfl | simp [Stage.rank] at h

/-- One step and then whatever ends well from the next stage on ends well from this stage on. -/
theorem ends_advance {n : Nat} {rest : Stage → SessionOn σ (Except ConvertError Stage)}
    (hrest : ∀ files stage, Stage.done.rank ≤ stage.rank + n →
      ∃ result last, Yields (rest stage) files result last ∧ config.Ends files stage result last)
    (files : σ) (stage : Stage) (hn : Stage.done.rank ≤ stage.rank + (n + 1)) :
    ∃ result last, Yields (do match ← config.advance stage with
        | .error e => return .error e
        | .ok stage => rest stage) files result last ∧ config.Ends files stage result last := by
  have hanswers := answers_advance config files stage
  cases h : config.step files stage with
  | error e =>
    rw [h] at hanswers
    exact ⟨_, _, hanswers.bind (.pure _ files), ends_of_error h⟩
  | ok answer =>
    obtain ⟨next, after⟩ := answer
    rw [h] at hanswers
    have hrank : Stage.done.rank ≤ next.rank + n := by
      rcases (step_forward h).1 with ⟨-, rfl⟩ | hup
      · exact Nat.le_add_right _ _
      · omega
    obtain ⟨result, last, hyields, hends⟩ := hrest after next hrank
    exact ⟨result, last, hanswers.bind hyields, ends_of_step h hends⟩

/-- As many steps as there are stages to come are enough, and more do no harm. -/
theorem ends_advances (config : RunConfig) (n : Nat) (files : σ) (stage : Stage)
    (hn : Stage.done.rank ≤ stage.rank + n) :
    ∃ result last, Yields (config.advances n stage) files result last ∧ config.Ends files stage result last := by
  induction n generalizing files stage with
  | zero =>
    obtain rfl := eq_done_of_rank hn
    exact ⟨_, _, .pure _ files, ends_done files⟩
  | succ n ih => exact ends_advance ih files stage hn

/-- The loop of a run stops by itself at the end. -/
theorem ends_advanceUpTo (config : RunConfig) (n : Nat) (files : σ) (stage : Stage)
    (hn : Stage.done.rank ≤ stage.rank + n) :
    ∃ result last, Yields (config.advanceUpTo n stage) files result last ∧ config.Ends files stage result last := by
  induction n generalizing files stage with
  | zero =>
    obtain rfl := eq_done_of_rank hn
    exact ⟨_, _, .pure _ files, ends_done files⟩
  | succ n ih =>
    cases stage with
    | done => exact ⟨_, _, .pure _ files, ends_done files⟩
    | _ => exact ends_advance ih files _ hn

theorem ends_run (config : RunConfig) (files : σ) :
    ∃ result last, Yields config.run files (result.map fun _ => config.paths.output) last ∧
      config.Ends files .idle result last := by
  obtain ⟨result, last, hyields, hends⟩ := ends_advanceUpTo config 5 files .idle (Nat.le_refl _)
  refine ⟨result, last, ?_, hends⟩
  cases result with
  | error e => exact hyields.bind (.pure _ last)
  | ok stage => exact hyields.bind (.pure _ last)

/-! ### From file to file -/

/-- A run that succeeds: the input is text that is converted, and the output holds what is written for the
animations, while everything else is as before. -/
structure Succeeds (config : RunConfig) (files : σ) (animations : Animations) (after : σ) : Prop where
  read : ∃ source, Storage.readText files config.paths.input = .ok source ∧
    (convert source config.options).result = .ok animations
  write : Storage.write files config.paths.output (config.fileOf animations) = .ok after
  only : OnlyHolds files after config.paths.output (config.fileOf animations)

/-- The first thing that goes wrong in a run. -/
inductive Fails (config : RunConfig) (files : σ) : ConvertError → Prop
  | read (fault : FileFault) (h : Storage.readText files config.paths.input = .error fault) :
    Fails config files (.unreadable config.paths.input fault)
  | convert (source : String) (e : ConvertError) (hread : Storage.readText files config.paths.input = .ok source)
    (h : (convert source config.options).result = .error e) : Fails config files e
  | write (source : String) (animations : Animations) (fault : FileFault)
    (hread : Storage.readText files config.paths.input = .ok source)
    (hconvert : (Timeline.convert source config.options).result = .ok animations)
    (h : Storage.write files config.paths.output (config.fileOf animations) = .error fault) :
    Fails config files (.unwritable config.paths.output fault)

/-- From the first stage on, there is something to write exactly if the input is text that is converted. -/
theorem content_idle (config : RunConfig) (files : σ) :
    (∃ e, config.content files .idle = .error e ∧ config.Fails files e) ∨
      ∃ source animations, Storage.readText files config.paths.input = .ok source ∧
        (convert source config.options).result = .ok animations ∧
        config.content files .idle = .ok (some (config.fileOf animations)) := by
  rw [content]
  cases hread : Storage.readText files config.paths.input with
  | error fault => exact .inl ⟨_, rfl, .read fault hread⟩
  | ok source =>
    cases hconvert : (convert source config.options).result with
    | error e =>
      refine .inl ⟨e, ?_, .convert source e hread hconvert⟩
      show ((convert source config.options).result >>= _) = _
      rw [hconvert]
      rfl
    | ok animations =>
      refine .inr ⟨source, animations, rfl, hconvert, ?_⟩
      show ((convert source config.options).result >>= _) = _
      rw [hconvert]
      rfl

/-- What a run from the first stage on comes to. -/
theorem ends_idle (h : config.Ends files .idle result after) :
    (∃ animations, result = .ok .done ∧ config.Succeeds files animations after) ∨
      ∃ e, result = .error e ∧ after = files ∧ config.Fails files e := by
  rcases content_idle config files with ⟨e, he, hfails⟩ | ⟨source, animations, hread, hconvert, hsome⟩
  · cases h with
    | refused e' he' =>
      cases he.symm.trans he'
      exact .inr ⟨e, rfl, rfl, hfails⟩
    | unwritable _ _ hc => cases he.symm.trans hc
    | nothing hn => cases he.symm.trans hn
    | written _ _ hc => cases he.symm.trans hc
  · cases h with
    | refused _ he => cases hsome.symm.trans he
    | unwritable content fault hc hw =>
      cases hsome.symm.trans hc
      exact .inr ⟨_, rfl, rfl, .write source animations fault hread hconvert hw⟩
    | nothing hn => cases hsome.symm.trans hn
    | written content _ hc hw honly =>
      cases hsome.symm.trans hc
      exact .inl ⟨animations, rfl, ⟨source, hread, hconvert⟩, hw, honly⟩

/-- **A pipeline is all or nothing.** A run succeeds and gives the output exactly what the text of the input
is converted to, or it fails for the first thing that goes wrong and leaves the files as they are. From
every stage on five steps come to an end, each of them goes forward, and only the step that writes changes
the files. -/
theorem run_all_or_nothing (config : RunConfig) (files : σ) (events : List Event) :
    (match ((config.run : SessionOn σ _).run ⟨files, events⟩) with
      | (.ok path, w) => path = config.paths.output ∧ ∃ animations, config.Succeeds files animations w.files
      | (.error e, w) => w.files = files ∧ config.Fails files e) ∧
    ∀ stage : Stage,
      (match ((config.advance stage : SessionOn σ _).run ⟨files, events⟩) with
        | (.ok next, w) => (stage = .done ∧ next = .done ∨ next.rank = stage.rank + 1) ∧
          (w.files = files ∨ ∃ content, stage = .serialized content)
        | (.error _, w) => w.files = files) ∧
      ∀ n, 5 ≤ n →
        match ((config.advances n stage : SessionOn σ _).run ⟨files, events⟩) with
        | (result, w) => config.Ends files stage result w.files := by
  refine ⟨?_, fun stage => ⟨?_, fun n hn => ?_⟩⟩
  · obtain ⟨result, last, ⟨records, hrun⟩, hends⟩ := ends_run config files
    rw [hrun]
    rcases ends_idle hends with ⟨animations, rfl, hsucceeds⟩ | ⟨e, rfl, rfl, hfails⟩
    · exact ⟨rfl, animations, hsucceeds⟩
    · exact ⟨rfl, hfails⟩
  · have hanswers := answers_advance config files stage
    cases h : config.step files stage with
    | error e =>
      rw [h] at hanswers
      obtain ⟨records, hrun⟩ := hanswers
      rw [hrun]
    | ok answer =>
      obtain ⟨next, after⟩ := answer
      rw [h] at hanswers
      obtain ⟨records, hrun⟩ := hanswers
      rw [hrun]
      exact step_forward h
  · obtain ⟨result, last, ⟨records, hrun⟩, hends⟩ :=
      ends_advances config n files stage (Nat.le_trans hn (Nat.le_add_left n _))
    rw [hrun]
    exact hends

theorem run_all_or_nothing_single :
    let files : FileSystem := ⟨[(["a.css"], .file "@keyframes a \x7b to \x7b top: 0 \x7d \x7d".toUTF8)], []⟩
    let config : RunConfig := ⟨⟨"a.css", "a.json"⟩, ⟨.concatenate, false⟩⟩
    ∃ animations, config.Succeeds files animations ((config.run : Session _).run ⟨files, []⟩).2.files := by
  intro files config
  have hok : ((config.run : Session _).run ⟨files, []⟩).1.toOption = some "a.json" := by decide +kernel
  have h := (run_all_or_nothing config files []).1
  generalize (config.run : Session _).run ⟨files, []⟩ = answer at hok h ⊢
  obtain ⟨result, w⟩ := answer
  cases result with
  | error e => cases hok
  | ok path => exact h.2

end RunConfig

end Timeline
