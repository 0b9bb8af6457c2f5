import Timeline.Command.Run
import Timeline.Proofs.Extension
import Timeline.Proofs.Journal.Replay
import Timeline.Proofs.Pipeline

/-! What a run of the program promises.

A run that was asked for a conversion either writes its file, says so and ends with 0, or it leaves all files
as they are, says nothing on standard output, and ends with the code of the first thing that goes wrong: the
settings, the extensions of the paths, reading, validation, collection, writing, in this order. The failure is
logged last, when the threshold is known, so that it is printed unless nothing is (`run_contract`).

What is in effect is said here case by case, from the command line and the settings: the options
(`Arguments.effective`) and the directory that the paths begin at (`Arguments.directory`). -/
namespace Timeline.Command

open Animation (Animations)
open Journal (Event Level Logger Record Threshold)
open PathPair (hasExtension place resolve)

variable {σ : Type}

/-! ### What is promised -/

/-- The settings of a file. Without one duplicates are concatenated, the text is compact, paths begin at the executable and
no threshold is set. -/
def settingsOf [Storage σ] (files : σ) : Option String → Except ArgumentError Settings
  | none => .ok ⟨.concatenate, false, .executable, none⟩
  | some path =>
    match Storage.readText files path with
    | .error fault => .error (.settingsUnreadable path fault)
    | .ok text => (Settings.ofText text).mapError (.settingsInvalid path)

namespace Arguments

variable (a : Arguments) (environment : Environment)

/-- The options that are in effect. A policy of the command line stands in for that of the settings, and the text is pretty
if either of both says so. -/
def effective (settings : Settings) : ConvertOptions where
  duplicateNames :=
    match a.duplicateNames with
    | some policy => policy
    | none => settings.duplicateNames
  isPretty := settings.isPretty || a.isPretty

/-- Where the paths begin: at the directory of the command line, or else at the one that the settings choose. -/
def directory (settings : Settings) : String :=
  match a.baseDirectory, settings.resolveFrom with
  | some directory, _ => directory
  | none, .executable => environment.executableDirectory
  | none, .workingDirectory => environment.workingDirectory

/-- The pipeline of a run with some settings. -/
def config (settings : Settings) (paths : PathPair) : RunConfig := ⟨paths, a.effective settings⟩

/-- Not even failures are printed: the settings want no records, and the command line asks for none. -/
def IsSilent [Storage σ] (files : σ) : Prop :=
  a.verbosity = 0 ∧ ∃ settings, settingsOf files a.settings = .ok settings ∧ settings.logLevel = some .off

/-- A run in which nothing goes wrong: the settings are there, the paths are accepted, and the input is
converted under the options of both. -/
structure Succeeds [LawfulStorage σ] (files : σ) (paths : PathPair) (animations : Animations) (after : σ) : Prop where
  steps : ∃ settings, settingsOf files a.settings = .ok settings ∧
    resolve a.input a.output (a.directory environment settings) = .ok paths ∧
    (a.config settings paths).Succeeds files animations after

/-- The first thing that goes wrong in a run, and the exit code for it. -/
inductive FirstFailure [LawfulStorage σ] (files : σ) : ConvertError → Nat → Prop
  | settings (e : ArgumentError) (hs : settingsOf files a.settings = .error e) : FirstFailure files (.argument e) 2
  | inputExtension (settings : Settings) (hs : settingsOf files a.settings = .ok settings)
    (h : hasExtension ".css" (place (a.directory environment settings) a.input) = false) :
    FirstFailure files (.argument (.inputExtension (place (a.directory environment settings) a.input))) 2
  | outputExtension (settings : Settings) (hs : settingsOf files a.settings = .ok settings)
    (hin : hasExtension ".css" (place (a.directory environment settings) a.input) = true)
    (h : hasExtension ".json" (place (a.directory environment settings) a.output) = false) :
    FirstFailure files (.argument (.outputExtension (place (a.directory environment settings) a.output))) 2
  | read (settings : Settings) (paths : PathPair) (fault : FileFault) (hs : settingsOf files a.settings = .ok settings)
    (hp : resolve a.input a.output (a.directory environment settings) = .ok paths)
    (h : Storage.readText files paths.input = .error fault) : FirstFailure files (.unreadable paths.input fault) 3
  | validation (settings : Settings) (paths : PathPair) (source : String) (e : ValidationError)
    (hs : settingsOf files a.settings = .ok settings)
    (hp : resolve a.input a.output (a.directory environment settings) = .ok paths)
    (hread : Storage.readText files paths.input = .ok source)
    (h : (Timeline.convert source (a.effective settings)).result = .error (.validation e)) :
    FirstFailure files (.validation e) 4
  | transform (settings : Settings) (paths : PathPair) (source : String) (e : TransformError)
    (hs : settingsOf files a.settings = .ok settings)
    (hp : resolve a.input a.output (a.directory environment settings) = .ok paths)
    (hread : Storage.readText files paths.input = .ok source)
    (h : (Timeline.convert source (a.effective settings)).result = .error (.transform e)) :
    FirstFailure files (.transform e) 5
  | write (settings : Settings) (paths : PathPair) (source : String) (animations : Animations) (fault : FileFault)
    (hs : settingsOf files a.settings = .ok settings)
    (hp : resolve a.input a.output (a.directory environment settings) = .ok paths)
    (hread : Storage.readText files paths.input = .ok source)
    (hconvert : (Timeline.convert source (a.effective settings)).result = .ok animations)
    (h : Storage.write files paths.output ((a.config settings paths).fileOf animations) = .error fault) :
    FirstFailure files (.unwritable paths.output fault) 3

/-- What a run promises that is asked for a conversion. -/
def Promises [LawfulStorage σ] (files : σ) (ending : Ending) (w : WorldOf σ) : Prop :=
  (ending.exitCode = 0 ↔ ∃ paths animations after, a.Succeeds environment files paths animations after) ∧
    ((∃ paths animations, a.Succeeds environment files paths animations w.files ∧ ending.exitCode = 0 ∧
        ending.output = s!"success: file created at: {paths.output}\n") ∨
      ∃ e code, a.FirstFailure environment files e code ∧ ending.exitCode = code ∧ ending.output = "" ∧ w.files = files ∧
        (a.IsSilent files → Logger.initial.lines w.events = []) ∧
        (¬ a.IsSilent files → ∃ earlier, Logger.initial.lines w.events = earlier ++ [s!"error: {e.message}"]))

/-! ### What the program makes of its arguments -/

theorem options_eq (settings : Settings) : a.options settings = a.effective settings := by
  rw [options, effective]
  cases a.duplicateNames <;> rfl

theorem base_eq (settings : Settings) : a.base settings environment = a.directory environment settings := by
  rw [base, directory]
  cases a.baseDirectory <;> cases settings.resolveFrom <;> rfl

/-- The threshold of a run: without settings there is none but that of the command line. -/
def thresholdOn [Storage σ] (files : σ) : Threshold :=
  threshold a.verbosity ((settingsOf files a.settings).toOption.bind Settings.logLevel)

theorem thresholdOn_eq_off [Storage σ] {files : σ} : a.thresholdOn files = .off ↔ a.IsSilent files := by
  have hthreshold (configured : Option Threshold) :
      threshold a.verbosity configured = .off ↔ a.verbosity = 0 ∧ configured = some .off := by
    rcases a.verbosity with - | - | n <;> cases configured <;> simp [threshold]
  rw [thresholdOn, hthreshold, IsSilent]
  cases settingsOf files a.settings <;> simp [Except.toOption]

end Arguments

/-! ### What can go wrong -/

/-- A conversion fails in validation or in collection. -/
theorem convert_error {source : String} {options : ConvertOptions} {e : ConvertError}
    (h : (Timeline.convert source options).result = .error e) : (∃ v, e = .validation v) ∨ ∃ t, e = .transform t := by
  rw [convert_result, convertSheet] at h
  split at h
  · cases h
    exact .inl ⟨_, rfl⟩
  · cases hc : (Animations.collect options.duplicateNames _).result with
    | error t =>
      rw [hc] at h
      cases h
      exact .inr ⟨t, rfl⟩
    | ok animations =>
      rw [hc] at h
      cases h

variable [LawfulStorage σ] {a : Arguments} {environment : Environment} {files after : σ} {settings : Settings}
  {paths : PathPair} {animations : Animations} {e : ConvertError} {code : Nat}

theorem firstFailure_of_resolve {fault : ArgumentError} (hs : settingsOf files a.settings = .ok settings)
    (h : resolve a.input a.output (a.directory environment settings) = .error fault) :
    a.FirstFailure environment files (.argument fault) 2 := by
  rw [resolve] at h
  split_ifs at h with hin hout
  · cases h
    exact .inputExtension settings hs (by simpa using hin)
  · cases h
    exact .outputExtension settings hs (by simpa using hin) (by simpa using hout)

theorem firstFailure_of_fails (hs : settingsOf files a.settings = .ok settings)
    (hp : resolve a.input a.output (a.directory environment settings) = .ok paths)
    (h : (a.config settings paths).Fails files e) : a.FirstFailure environment files e e.exitCode := by
  cases h with
  | read fault h => exact .read settings paths fault hs hp h
  | convert source _ hread h =>
    rcases convert_error h with ⟨v, rfl⟩ | ⟨t, rfl⟩
    · exact .validation settings paths source v hs hp hread h
    · exact .transform settings paths source t hs hp hread h
  | write source animations fault hread hconvert h =>
    exact .write settings paths source animations fault hs hp hread hconvert h

/-- A failure has the exit code of its kind. -/
theorem exitCode_of_firstFailure (h : a.FirstFailure environment files e code) : e.exitCode = code ∧ code ≠ 0 := by
  cases h <;> exact ⟨rfl, by decide⟩

/-- Nothing goes wrong in a run that succeeds. -/
theorem not_firstFailure (h : a.Succeeds environment files paths animations after) :
    ¬ a.FirstFailure environment files e code := by
  obtain ⟨settings, hs, hp, ⟨source, hread, hconvert⟩, hwrite, -⟩ := h
  have hplaces : hasExtension ".css" (place (a.directory environment settings) a.input) = true ∧
      hasExtension ".json" (place (a.directory environment settings) a.output) = true := by
    rw [resolve] at hp
    split_ifs at hp with hin hout
    exact ⟨by simpa using hin, by simpa using hout⟩
  intro hfailure
  cases hfailure with
  | settings e hs' => cases hs.symm.trans hs'
  | inputExtension settings' hs' h =>
    cases hs.symm.trans hs'
    cases hplaces.1.symm.trans h
  | outputExtension settings' hs' hin h =>
    cases hs.symm.trans hs'
    cases hplaces.2.symm.trans h
  | read settings' paths' fault hs' hp' h =>
    cases hs.symm.trans hs'
    cases hp.symm.trans hp'
    cases hread.symm.trans h
  | validation settings' paths' source' e hs' hp' hread' h =>
    cases hs.symm.trans hs'
    cases hp.symm.trans hp'
    cases hread.symm.trans hread'
    cases hconvert.symm.trans h
  | transform settings' paths' source' e hs' hp' hread' h =>
    cases hs.symm.trans hs'
    cases hp.symm.trans hp'
    cases hread.symm.trans hread'
    cases hconvert.symm.trans h
  | write settings' paths' source' animations' fault hs' hp' hread' hconvert' h =>
    cases hs.symm.trans hs'
    cases hp.symm.trans hp'
    cases hread.symm.trans hread'
    cases hconvert.symm.trans hconvert'
    cases hwrite.symm.trans h

/-! ### The run -/

omit [LawfulStorage σ] in
/-- Nothing is logged while the settings are read. -/
theorem run_loadSettings [Storage σ] (path? : Option String) (w : WorldOf σ) :
    (loadSettings path? : SessionOn σ _).run w = (settingsOf w.files path?, w) := by
  cases path? with
  | none => rfl
  | some path =>
    have hread : (Host.readText path : SessionOn σ _).run w = (Storage.readText w.files path, w) := rfl
    delta loadSettings
    rw [StateT.run_bind, hread, settingsOf]
    cases Storage.readText w.files path <;> rfl

theorem yields_convertFile_error {fault : ArgumentError}
    (h : resolve a.input a.output (a.directory environment settings) = .error fault) (files : σ) :
    Yields (convertFile a settings environment : SessionOn σ _) files (.error (.argument fault)) files := by
  delta convertFile
  rw [a.base_eq, h]
  exact .pure _ files

theorem yields_convertFile (h : resolve a.input a.output (a.directory environment settings) = .ok paths) (files : σ) :
    ∃ result last, Yields (convertFile a settings environment : SessionOn σ _) files
      (result.map fun _ => paths.output) last ∧ (a.config settings paths).Ends files .idle result last := by
  obtain ⟨result, last, hyields, hends⟩ := RunConfig.ends_run (a.config settings paths) files
  refine ⟨result, last, ?_, hends⟩
  delta convertFile
  rw [a.base_eq, a.options_eq, h]
  refine (Yields.log _ files).bind ?_
  cases result with
  | error e => exact hyields.bind (.pure _ last)
  | ok stage => exact hyields.bind ((Yields.log _ last).bind (.pure _ last))

/-- What a conversion answers, and what it leaves. The threshold is set before anything is logged, and nothing else
depends on how often more records were asked for. -/
theorem run_convert (a : Arguments) (environment : Environment) (files : σ) :
    ∃ (result : Except ConvertError String) (last : σ) (records : List Record),
      (∀ verbosity : Nat, (convert { a with verbosity } environment : SessionOn σ _).run ⟨files, []⟩ =
        (result, ⟨last,
          .setThreshold ({ a with verbosity : Arguments }.thresholdOn files) :: records.map .record⟩)) ∧
      ((∃ paths animations, result = .ok paths.output ∧ a.Succeeds environment files paths animations last) ∨
        ∃ e, result = .error e ∧ last = files ∧ a.FirstFailure environment files e e.exitCode) := by
  cases hs : settingsOf files a.settings with
  | error e =>
    refine ⟨.error (.argument e), files, [], fun verbosity => ?_, .inr ⟨_, rfl, rfl, .settings e hs⟩⟩
    delta convert
    rw [StateT.run_bind, run_loadSettings, Arguments.thresholdOn, hs]
    rfl
  | ok settings =>
    have hconvert {result : Except ConvertError String} {last : σ}
        (hfile : Yields (convertFile a settings environment : SessionOn σ _) files result last) :
        ∃ records : List Record, ∀ verbosity : Nat,
          (convert { a with verbosity } environment : SessionOn σ _).run ⟨files, []⟩ =
            (result, ⟨last,
              .setThreshold ({ a with verbosity : Arguments }.thresholdOn files) :: records.map .record⟩) := by
      obtain ⟨records, hrecords⟩ := hfile
      refine ⟨records, fun verbosity => ?_⟩
      delta convert
      rw [StateT.run_bind, run_loadSettings, Arguments.thresholdOn, hs]
      exact hrecords _
    cases hp : resolve a.input a.output (a.directory environment settings) with
    | error fault =>
      obtain ⟨records, h⟩ := hconvert (yields_convertFile_error hp files)
      exact ⟨_, files, records, h, .inr ⟨_, rfl, rfl, firstFailure_of_resolve hs hp⟩⟩
    | ok paths =>
      obtain ⟨result, last, hyields, hends⟩ := yields_convertFile hp files
      obtain ⟨records, h⟩ := hconvert hyields
      refine ⟨_, last, records, h, ?_⟩
      rcases RunConfig.ends_idle hends with ⟨animations, rfl, hsucceeds⟩ | ⟨e, rfl, rfl, hfails⟩
      · exact .inl ⟨paths, animations, rfl, ⟨settings, hs, hp, hsucceeds⟩⟩
      · exact .inr ⟨e, rfl, rfl, firstFailure_of_fails hs hp hfails⟩

omit [LawfulStorage σ] in
/-- How a run ends after its conversion, with a last word about a failure. -/
def concluded (w : WorldOf σ) : Except ConvertError String → Ending × WorldOf σ
  | .ok path => (.written path, w)
  | .error e => (.failed e, { w with events := w.events ++ [.record (.own .error e.message)] })

theorem run_of_convert {arguments : List String} (ha : Request.ofArguments arguments = .ok (.convert a))
    {w w' : WorldOf σ} {result : Except ConvertError String}
    (h : (convert a environment : SessionOn σ _).run w = (result, w')) :
    (run environment arguments : SessionOn σ _).run w = concluded w' result := by
  rw [run, ha]
  show StateT.run (convert a environment >>= _) w = _
  rw [StateT.run_bind, h]
  cases result <;> rfl

theorem promises_run {arguments : List String} (ha : Request.ofArguments arguments = .ok (.convert a))
    (environment : Environment) (files : σ) :
    ∃ ending w, (run environment arguments : SessionOn σ _).run ⟨files, []⟩ = (ending, w) ∧
      a.Promises environment files ending w := by
  obtain ⟨result, last, records, hconvert, hresult⟩ := run_convert a environment files
  refine ⟨_, _, run_of_convert ha (hconvert a.verbosity), ?_⟩
  rcases hresult with ⟨paths, animations, rfl, hsucceeds⟩ | ⟨e, rfl, rfl, hfailure⟩
  · exact ⟨⟨fun _ => ⟨_, _, _, hsucceeds⟩, fun _ => rfl⟩, .inl ⟨paths, animations, hsucceeds, rfl, rfl⟩⟩
  · obtain ⟨hcode, hne⟩ := exitCode_of_firstFailure hfailure
    refine ⟨⟨fun h => absurd h hne, ?_⟩, .inr ⟨e, _, hfailure, rfl, rfl, rfl, ?_⟩⟩
    · rintro ⟨paths, animations, after, hsucceeds⟩
      exact absurd hfailure (not_firstFailure hsucceeds)
    · rw [← a.thresholdOn_eq_off]
      have hlines := Logger.lines_failure (a.thresholdOn last) records e.message
      rw [List.map_append] at hlines
      exact hlines

/-- **What a run promises.** Whatever keeps the files, a run that is asked for a conversion writes its file
or names the first thing that goes wrong, with nothing changed. Where no links are, the input is read back
as it was. -/
theorem run_contract :
    (∀ {σ : Type} [LawfulStorage σ] (files : σ) (environment : Environment) (arguments : List String) (a : Arguments),
      Request.ofArguments arguments = .ok (.convert a) →
      let answer := (run environment arguments : SessionOn σ _).run ⟨files, []⟩
      a.Promises environment files answer.1 answer.2) ∧
    ∀ (files after : FileSystem) (environment : Environment) (a : Arguments) (paths : PathPair)
      (animations : Animations), a.Succeeds environment files paths animations after →
      paths.input ≠ paths.output ∧
      ∃ content, files.read paths.input = .ok content ∧ after.read paths.input = .ok content := by
  refine ⟨?_, ?_⟩
  · intro σ _ files environment arguments a ha
    obtain ⟨ending, w, hrun, hpromises⟩ := promises_run ha environment files
    rw [hrun]
    exact hpromises
  · rintro files after environment a paths animations ⟨settings, -, hp, ⟨source, hread, -⟩, hwrite, -⟩
    obtain ⟨hin, hout, hne⟩ := PathPair.ne_of_resolve hp
    refine ⟨hne, ?_⟩
    cases hcontent : files.read paths.input with
    | error fault =>
      change (files.read paths.input).bind decode = .ok source at hread
      rw [hcontent] at hread
      cases hread
    | ok content => exact ⟨content, rfl, FileSystem.read_write hin hout hcontent hwrite⟩

/-- A run that changes the files succeeds, from and to the paths that its settings and arguments make. -/
theorem succeeds_of_files {ending : Ending} {w : WorldOf σ} (paths : PathPair) (h : a.Promises environment files ending w)
    (hafter : w.files = after) (hne : after ≠ files)
    (hpaths : ((settingsOf files a.settings).toOption.bind fun settings =>
      (resolve a.input a.output (a.directory environment settings)).toOption) = some paths) :
    ending.exitCode = 0 ∧ ∃ animations, a.Succeeds environment files paths animations after := by
  subst hafter
  rcases h.2 with ⟨paths', animations, hsucceeds, hcode, -⟩ | ⟨e, code, -, -, -, hsame, -⟩
  · obtain ⟨settings, hs, hp, -⟩ := hsucceeds.steps
    obtain rfl : paths' = paths := by simpa [hs, hp, Except.toOption] using hpaths
    exact ⟨hcode, animations, hsucceeds⟩
  · exact absurd hsame hne

/-- The same options, once from the command line and once from the settings, make the same file. -/
theorem run_contract_pretty :
    let css := "@keyframes a \x7b from \x7b top: 0 \x7d \x7d @keyframes a \x7b to \x7b left: 1px \x7d \x7d".toUTF8
    let toml := "duplicate-names = \"overwrite\"\npretty = true\nresolve-from = \"working-dir\"".toUTF8
    let json := "\x7b\n  \"a\": [\n    \x7b\n      \"offset\": 100,\n      \"left\": \"1px\"\n    \x7d\n  ]\n\x7d".toUTF8
    let files : FileSystem := ⟨[(["b"], .directory), (["b", "a.css"], .file css), (["c.toml"], .file toml)], []⟩
    let after : FileSystem := ⟨files.entries ++ [(["a.json"], .file json)], []⟩
    let a : Arguments := ⟨"a.css", "../a.json", none, some "/b", some .overwrite, true, 0⟩
    let b : Arguments := ⟨"a.css", "../a.json", some "/c.toml", none, none, false, 0⟩
    let answer := (run ⟨"/x", "/b"⟩ ["--pretty", "--duplicate-names", "overwrite", "--base-dir", "/b", "a.css",
      "../a.json"] : Session _).run ⟨files, []⟩
    let answer' := (run ⟨"/x", "/b"⟩ ["--config", "/c.toml", "a.css", "../a.json"] : Session _).run ⟨files, []⟩
    let paths : PathPair := ⟨"/b/a.css", "/a.json"⟩
    answer.2.files = after ∧ answer'.2.files = after ∧
      (answer.1.exitCode = 0 ∧ ∃ animations, a.Succeeds ⟨"/x", "/b"⟩ files paths animations after) ∧
      (answer'.1.exitCode = 0 ∧ ∃ animations, b.Succeeds ⟨"/x", "/b"⟩ files paths animations after) ∧
      ∃ content, files.read paths.input = .ok content ∧ after.read paths.input = .ok content := by
  intro css toml json files after a b answer answer' paths
  have ha : Request.ofArguments ["--pretty", "--duplicate-names", "overwrite", "--base-dir", "/b", "a.css", "../a.json"] =
      .ok (.convert a) := by rfl
  have hb : Request.ofArguments ["--config", "/c.toml", "a.css", "../a.json"] = .ok (.convert b) := by rfl
  have hafter : answer.2.files = after := by decide +kernel
  have hafter' : answer'.2.files = after := by decide +kernel
  have hne : after ≠ files := by decide +kernel
  have hpromises : a.Promises ⟨"/x", "/b"⟩ files answer.1 answer.2 := run_contract.1 files ⟨"/x", "/b"⟩ _ a ha
  have hpromises' : b.Promises ⟨"/x", "/b"⟩ files answer'.1 answer'.2 := run_contract.1 files ⟨"/x", "/b"⟩ _ b hb
  have hsucceeds := succeeds_of_files paths hpromises hafter hne (by decide +kernel)
  have hsucceeds' := succeeds_of_files paths hpromises' hafter' hne (by decide +kernel)
  obtain ⟨animations, hboth⟩ := hsucceeds.2
  exact ⟨hafter, hafter', hsucceeds, hsucceeds', (run_contract.2 files after ⟨"/x", "/b"⟩ a paths animations hboth).2⟩

end Timeline.Command
