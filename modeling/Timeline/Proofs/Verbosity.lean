import Timeline.Proofs.Command

/-! What asking for more records changes.

An argument reaches to itself, to the next one or to all that follow, and is taken without a look at how often more records
were asked for (`Reaches`). So one more `-v` raises that by one, wherever it stands (`takeAll_insert`). A run looks at it only
when it sets its threshold (`run_convert`), so two runs that differ in it log the same and end the same. A higher threshold
prints every line of a lower one (`render_of_le`), and the threshold does get higher, with one exception: where the settings
ask for all records, the first `-v` overrides them and asks for debug records only. -/
namespace Timeline

open Journal (Level Logger Record Threshold recordsOf)

/-! ### Thresholds -/

namespace Journal

/-- A line that a threshold prints is printed by every higher one, and is the same line. -/
theorem Threshold.render_of_le {low high : Threshold} (h : low.rank ≤ high.rank) {r : Record} {line : String}
    (hline : low.render r = some line) : high.render r = some line := by
  obtain ⟨hlevel, hown⟩ := (isSome_render low r).mp (by rw [hline]; rfl)
  have hlow : r.level.within low = true := by simpa [Level.within] using hlevel
  have hhigh : r.level.within high = true := by simpa [Level.within] using Nat.le_trans hlevel h
  rw [render, hlow] at hline
  rw [render, hhigh]
  by_cases hr : r.isOwn = true
  · rwa [if_neg (by simp), if_pos hr] at hline ⊢
  · have hdebug := hown.resolve_left hr
    rw [if_neg (by simp), if_neg hr, if_pos hdebug] at hline
    rwa [if_neg (by simp), if_neg hr, if_pos (Nat.le_trans hdebug h)]

/-- So a higher threshold hides no line. -/
theorem Threshold.filterMap_render_sublist {low high : Threshold} (h : low.rank ≤ high.rank) (records : List Record) :
    (records.filterMap low.render).Sublist (records.filterMap high.render) := by
  induction records with
  | nil => exact .slnil
  | cons r records ih =>
    rw [List.filterMap_cons, List.filterMap_cons]
    cases hlow : low.render r with
    | some line =>
      rw [render_of_le h hlow]
      exact ih.cons_cons line
    | none =>
      cases high.render r with
      | none => exact ih
      | some line => exact ih.cons line

/-- Of all records the debug threshold hides the traces alone. -/
theorem Threshold.filterMap_render_debug (records : List Record) :
    records.filterMap Threshold.debug.render =
      (records.filter (·.level ≠ .trace)).filterMap Threshold.trace.render := by
  rw [List.filterMap_filter]
  refine congrArg (List.filterMap · records) (funext fun r => ?_)
  cases hr : r.level <;> simp [render, Level.within, hr, Level.rank, rank]

theorem recordsOf_once (threshold : Threshold) (records : List Record) :
    recordsOf (.setThreshold threshold :: records.map .record) = records := by
  show recordsOf (records.map .record) = records
  induction records with
  | nil => rfl
  | cons r records ih => rw [List.map_cons, recordsOf, ih]

end Journal

namespace Command

open Journal (recordsOf_once)

/-! ### Taking one more argument -/

/-- The same draft, with more records asked for. -/
def Draft.louder (d : Draft) : Draft := { d with verbosity := d.verbosity + 1 }

/-- The same request, with more records asked for. -/
def Request.louder : Request → Request
  | .convert a => .convert { a with verbosity := a.verbosity + 1 }
  | .version => .version
  | .help => .help

/-- The same, where taking goes on or ends. -/
def louderProgress : Draft ⊕ Request → Draft ⊕ Request := Sum.map Draft.louder Request.louder

theorem addPath_louder (d : Draft) (path : String) : d.louder.addPath path = (d.addPath path).map Draft.louder := by
  rw [Draft.addPath, Draft.addPath]
  show (if 2 ≤ d.paths.length then _ else _) = _
  split_ifs <;> rfl

theorem foldlM_addPath_louder (d : Draft) (paths : List String) :
    paths.foldlM Draft.addPath d.louder = (paths.foldlM Draft.addPath d).map Draft.louder := by
  induction paths generalizing d with
  | nil => rfl
  | cons path paths ih =>
    rw [List.foldlM_cons, List.foldlM_cons, addPath_louder]
    cases d.addPath path with
    | error e => rfl
    | ok next => exact ih next

theorem setValue_louder (d : Draft) (o : ValueOption) (value : String) :
    d.louder.setValue o value = (d.setValue o value).map Draft.louder := by
  cases o with
  | settings =>
    show (if d.settings.isSome then _ else _) = Except.map _ (if d.settings.isSome then _ else _)
    split_ifs <;> rfl
  | baseDirectory =>
    show (if d.baseDirectory.isSome then _ else _) = Except.map _ (if d.baseDirectory.isSome then _ else _)
    split_ifs <;> rfl
  | duplicateNames =>
    show (if d.duplicateNames.isSome then _ else _) = Except.map _ (if d.duplicateNames.isSome then _ else _)
    split_ifs
    · rfl
    · cases Animation.DuplicateNames.ofWord? value <;> rfl

theorem finish_louder (d : Draft) : d.louder.finish.map Request.convert = (d.finish.map Request.convert).map Request.louder := by
  obtain ⟨paths⟩ := d
  rcases paths with - | ⟨input, - | ⟨output, - | ⟨extra, rest⟩⟩⟩ <;> rfl

theorem setFlag_louder (d : Draft) (f : Flag) : setFlag d.louder f = (setFlag d f).map louderProgress := by
  cases f with
  | pretty =>
    show (if d.isPretty then _ else _) = Except.map _ (if d.isPretty then _ else _)
    split_ifs <;> rfl
  | _ => rfl

theorem setLetters_louder (d : Draft) (cs : List Char) : setLetters d.louder cs = (setLetters d cs).map louderProgress := by
  induction cs generalizing d with
  | nil => rfl
  | cons c cs ih =>
    rw [setLetters, setLetters]
    split
    · rfl
    · rename_i f hf
      rw [setFlag_louder]
      rcases setFlag d f with e | (next | request)
      · rfl
      · exact ih next
      · rfl

theorem takeAll_verbose (d : Draft) (rest : List String) : takeAll d ("-v" :: rest) = takeAll d.louder rest := rfl

/-- Behind two hyphens there are only paths, and all of them together are two. -/
theorem length_of_foldlM_addPath {d : Draft} {paths : List String} {request : Request}
    (h : (do let d ← paths.foldlM Draft.addPath d; d.finish.map Request.convert) = .ok request) :
    d.paths.length + paths.length = 2 := by
  induction paths generalizing d with
  | nil =>
    obtain ⟨taken⟩ := d
    rcases taken with - | ⟨input, - | ⟨output, - | ⟨extra, rest⟩⟩⟩ <;> first | rfl | cases h
  | cons path paths ih =>
    rw [List.foldlM_cons] at h
    cases hpath : d.addPath path with
    | error e =>
      rw [hpath] at h
      cases h
    | ok next =>
      rw [hpath] at h
      have hnext : next.paths = d.paths ++ [path] := by
        rw [Draft.addPath] at hpath
        split_ifs at hpath
        cases hpath
        rfl
      rw [← ih h, hnext, List.length_append, List.length_cons, List.length_singleton, Nat.add_assoc, Nat.add_comm 1]

theorem louder_of_setFlag {d : Draft} {f : Flag} {request : Request} (h : setFlag d f = .ok (.inr request)) :
    request.louder = request := by
  cases f with
  | pretty =>
    rw [setFlag] at h
    split_ifs at h
    cases h
  | verbose => cases h
  | version => cases h; rfl
  | help => cases h; rfl

/-- Flags never ask for a conversion. -/
theorem louder_of_setLetters {d : Draft} {cs : List Char} {request : Request} (h : setLetters d cs = .ok (.inr request)) :
    request.louder = request := by
  induction cs generalizing d with
  | nil => cases h
  | cons c cs ih =>
    rw [setLetters] at h
    split at h
    · cases h
    · rename_i f hf
      cases hflag : setFlag d f with
      | error e =>
        rw [hflag] at h
        cases h
      | ok progress =>
        rw [hflag] at h
        cases progress with
        | inl next => exact ih h
        | inr other =>
          cases h
          exact louder_of_setFlag hflag

/-! ### What one argument does -/

/-- What is taken behind an argument, unless that asked for something else. -/
def takeBehind (rest : List String) : Draft ⊕ Request → Except UsageError Request
  | .inl d => takeAll d rest
  | .inr request => .ok request

/-- Taking an argument does not look at how often more records were asked for, and never asks for a conversion. -/
structure IsSteady (f : Draft → Progress) : Prop where
  louder : ∀ d : Draft, f d.louder = (f d).map louderProgress
  other : ∀ (d : Draft) (request : Request), f d = .ok (.inr request) → request.louder = request

/-- How far an argument reaches: to itself, to the next one, which is its value, or to all others. -/
inductive Reaches (text : String) : Prop
  | one (f : Draft → Progress) (hf : IsSteady f) (h : ∀ d rest, takeAll d (text :: rest) = f d >>= takeBehind rest)
  | two (e : UsageError) (hlast : ∀ d, takeAll d [text] = .error e)
    (hverbose : ∀ d rest, takeAll d (text :: "-v" :: rest) = .error e)
    (hnext : ∀ next, ∃ f, IsSteady f ∧ ∀ d rest, takeAll d (text :: next :: rest) = f d >>= takeBehind rest)
  | all (h : ∀ d rest, takeAll d (text :: rest) = do let d ← rest.foldlM Draft.addPath d; d.finish.map Request.convert)

namespace IsSteady

theorem error (e : UsageError) : IsSteady fun _ => .error e where
  louder _ := rfl
  other _ _ h := by cases h

theorem draft (f : Draft → Except UsageError Draft) (h : ∀ d, f d.louder = (f d).map Draft.louder) :
    IsSteady fun d => (f d).map .inl where
  louder d := by
    rw [h]
    cases f d <;> rfl
  other d request hf := by
    cases hd : f d <;> simp [hd, Except.map] at hf

end IsSteady

/-- The one walk over the kinds of arguments; what holds of all arguments is shown by their reach alone. -/
theorem reaches (text : String) : Reaches text := by
  cases hword : Word.ofText text with
  | separator => exact .all fun d rest => by rw [takeAll, hword]
  | unknown => exact .one _ (.error (.unknownArgument text)) fun d rest => by rw [takeAll, hword]; rfl
  | path path =>
    refine .one _ (.draft (Draft.addPath · path) (addPath_louder · path)) fun d rest => ?_
    rw [takeAll, hword]
    dsimp only
    cases d.addPath path <;> rfl
  | letters cs =>
    refine .one (setLetters · cs) ⟨(setLetters_louder · cs), fun d _ => louder_of_setLetters⟩ fun d rest => ?_
    rw [takeAll, hword]
    dsimp only
    rcases setLetters d cs with e | (next | request) <;> rfl
  | flag f value =>
    cases value with
    | some value => exact .one _ (.error (.unexpectedValue f.name)) fun d rest => by rw [takeAll, hword]; rfl
    | none =>
      refine .one (setFlag · f) ⟨(setFlag_louder · f), fun d _ => louder_of_setFlag⟩ fun d rest => ?_
      rw [takeAll, hword]
      dsimp only
      rcases setFlag d f with e | (next | request) <;> rfl
  | valueOption o value =>
    cases value with
    | some value =>
      refine .one _ (.draft (Draft.setValue · o value) (setValue_louder · o value)) fun d rest => ?_
      rw [takeAll, hword]
      dsimp only
      cases d.setValue o value <;> rfl
    | none =>
      refine .two (.missingValue o.name) (fun d => by rw [takeAll, hword]) (fun d rest => by rw [takeAll, hword]; rfl)
        fun next => ?_
      cases hnext : Word.ofText next with
      | path value =>
        refine ⟨_, .draft (Draft.setValue · o value) (setValue_louder · o value), fun d rest => ?_⟩
        rw [takeAll, hword]
        dsimp only
        rw [hnext]
        dsimp only
        cases d.setValue o value <;> rfl
      | _ =>
        refine ⟨_, .error (.missingValue o.name), fun d rest => ?_⟩
        rw [takeAll, hword]
        dsimp only
        rw [hnext]
        rfl

/-! ### What all arguments do -/

/-- What was taken later, too, does not look at how often more records were asked for. -/
theorem bind_takeBehind_louder {f : Draft → Progress} (hf : IsSteady f) {rest : List String}
    (hrest : ∀ d : Draft, takeAll d.louder rest = (takeAll d rest).map Request.louder) (d : Draft) :
    (f d.louder >>= takeBehind rest) = (f d >>= takeBehind rest).map Request.louder := by
  rw [hf.louder]
  rcases f d with e | (next | request)
  · rfl
  · exact hrest next
  · rfl

theorem takeAll_louder (d : Draft) (args : List String) : takeAll d.louder args = (takeAll d args).map Request.louder := by
  induction hlength : args.length using Nat.strongRecOn generalizing d args with
  | ind n ih =>
    subst hlength
    cases args with
    | nil => exact finish_louder d
    | cons text rest =>
      cases reaches text with
      | one f hf h =>
        rw [h, h]
        exact bind_takeBehind_louder hf (ih rest.length (by simp) · rest rfl) d
      | two e hlast hverbose hnext =>
        cases rest with
        | nil =>
          rw [hlast, hlast]
          rfl
        | cons next rest =>
          obtain ⟨f, hf, h⟩ := hnext next
          rw [h, h]
          exact bind_takeBehind_louder hf (ih rest.length (Nat.lt_succ_of_lt (Nat.lt_succ_self _)) · rest rfl) d
      | all h =>
        rw [h, h, foldlM_addPath_louder]
        cases rest.foldlM Draft.addPath d with
        | error e => rfl
        | ok next => exact finish_louder next

/-- One more `-v` behind an argument asks for more records if it does behind what the argument reaches to. -/
theorem louder_of_bind {f : Draft → Progress} (hf : IsSteady f) {rest rest' : List String}
    (hrest : ∀ {d : Draft} {request request' : Request},
      takeAll d rest = .ok request → takeAll d rest' = .ok request' → request' = request.louder)
    {d : Draft} {request request' : Request} (h : (f d >>= takeBehind rest) = .ok request)
    (h' : (f d >>= takeBehind rest') = .ok request') : request' = request.louder := by
  rcases hd : f d with e | (next | other)
  · rw [hd] at h
    cases h
  · rw [hd] at h h'
    exact hrest h h'
  · rw [hd] at h h'
    cases h
    cases h'
    exact (hf.other d _ hd).symm

/-- Wherever one more `-v` may stand, it asks for more records and for nothing else. -/
theorem takeAll_insert {d : Draft} {front back : List String} {request request' : Request}
    (h : takeAll d (front ++ back) = .ok request) (h' : takeAll d (front ++ "-v" :: back) = .ok request') :
    request' = request.louder := by
  induction hlength : front.length using Nat.strongRecOn generalizing d front request request' with
  | ind n ih =>
    subst hlength
    cases front with
    | nil =>
      rw [List.nil_append] at h h'
      rw [takeAll_verbose, takeAll_louder, h] at h'
      exact (Except.ok.inj h').symm
    | cons text front =>
      rw [List.cons_append] at h h'
      cases reaches text with
      | one f hf htake =>
        rw [htake] at h h'
        exact louder_of_bind hf (ih front.length (by simp) · · rfl) h h'
      | two e hlast hverbose hnext =>
        cases front with
        | nil =>
          -- The option would have no value but `-v`.
          cases (hverbose d back).symm.trans h'
        | cons next front =>
          obtain ⟨f, hf, htake⟩ := hnext next
          rw [List.cons_append, htake] at h h'
          exact louder_of_bind hf (ih front.length (Nat.lt_succ_of_lt (Nat.lt_succ_self _)) · · rfl) h h'
      | all htake =>
        rw [htake] at h h'
        have hpaths := length_of_foldlM_addPath h
        have hpaths' := length_of_foldlM_addPath h'
        rw [List.length_append] at hpaths hpaths'
        rw [List.length_cons] at hpaths'
        omega

/-- In front of all other arguments it may stand always. -/
theorem ofArguments_verbose {arguments : List String} {request : Request} (h : Request.ofArguments arguments = .ok request) :
    Request.ofArguments ("-v" :: arguments) = .ok request.louder := by
  rw [Request.ofArguments, takeAll_verbose, takeAll_louder]
  rw [Request.ofArguments] at h
  rw [h]
  rfl

/-! ### Two runs -/

variable {σ : Type} [LawfulStorage σ]

/-- Whether all records are printed because the settings say so, and the command line says nothing. -/
def Request.TracesBySettings (files : σ) : Request → Prop
  | .convert a => a.verbosity = 0 ∧ (settingsOf files a.settings).toOption.bind Settings.logLevel = some .trace
  | .version => False
  | .help => False

/-- What one more `-v` does to a run that was asked for something. -/
structure Louder (files : σ) (request : Request) (w w' : WorldOf σ) : Prop where
  files_eq : w'.files = w.files
  records : recordsOf w'.events = recordsOf w.events
  /-- The lines are still there, at least. -/
  lines : ¬ request.TracesBySettings files → (Logger.initial.lines w.events).Sublist (Logger.initial.lines w'.events)
  /-- The command line overrides the settings, and the traces go. -/
  overridden : request.TracesBySettings files →
    Logger.initial.lines w.events = (recordsOf w.events).filterMap Threshold.trace.render ∧
    Logger.initial.lines w'.events =
      ((recordsOf w.events).filter (·.level ≠ .trace)).filterMap Threshold.trace.render

omit [LawfulStorage σ] in
theorem rank_threshold_le {verbosity : Nat} {configured : Option Threshold}
    (h : ¬ (verbosity = 0 ∧ configured = some .trace)) :
    (threshold verbosity configured).rank ≤ (threshold (verbosity + 1) configured).rank := by
  match verbosity with
  | 0 =>
    cases configured with
    | none => decide
    | some level => cases level <;> first | decide | exact absurd ⟨rfl, rfl⟩ h
  | 1 => exact Nat.le_of_ble_eq_true rfl
  | n + 2 => exact Nat.le_refl _

theorem run_convert_louder (a : Arguments) (environment : Environment) (files : σ) {arguments arguments' : List String}
    (h : Request.ofArguments arguments = .ok (.convert a))
    (h' : Request.ofArguments arguments' = .ok (Request.convert a).louder) :
    ∃ ending w w', (run environment arguments : SessionOn σ _).run ⟨files, []⟩ = (ending, w) ∧
      (run environment arguments' : SessionOn σ _).run ⟨files, []⟩ = (ending, w') ∧
      Louder files (.convert a) w w' := by
  obtain ⟨result, last, after, hconvert, -⟩ := run_convert a environment files
  -- A failure is one more record behind the others.
  obtain ⟨ending, records, hconcluded⟩ : ∃ (ending : Ending) (records : List Record), ∀ events,
      concluded ⟨last, events⟩ result = (ending, ⟨last, events ++ records.map .record⟩) := by
    cases result with
    | ok path => exact ⟨.written path, [], fun events => by rw [List.map_nil, List.append_nil]; rfl⟩
    | error e => exact ⟨.failed e, [.own .error e.message], fun events => rfl⟩
  have hrun (verbosity : Nat) {arguments : List String}
      (h : Request.ofArguments arguments = .ok (.convert { a with verbosity })) :
      (run environment arguments : SessionOn σ _).run ⟨files, []⟩ =
        (ending, ⟨last,
          .setThreshold ({ a with verbosity : Arguments }.thresholdOn files) :: (after ++ records).map .record⟩) := by
    rw [run_of_convert h (hconvert verbosity), hconcluded, List.cons_append, ← List.map_append]
  refine ⟨ending, _, _, hrun a.verbosity h, hrun (a.verbosity + 1) h', rfl, ?_, fun hnot => ?_, ?_⟩
  · rw [recordsOf_once, recordsOf_once]
  · rw [Logger.lines_once, Logger.lines_once]
    exact Threshold.filterMap_render_sublist (rank_threshold_le hnot) _
  · rintro ⟨hverbosity, hconfigured⟩
    have hlow : a.thresholdOn files = .trace := by
      rw [Arguments.thresholdOn, hverbosity, hconfigured]
      rfl
    have hhigh : { a with verbosity := a.verbosity + 1 : Arguments }.thresholdOn files = .debug := by
      rw [Arguments.thresholdOn, hverbosity]
      rfl
    rw [Logger.lines_once, Logger.lines_once, recordsOf_once, hhigh]
    exact ⟨congrArg (fun t => List.filterMap (Threshold.render t) _) hlow, Threshold.filterMap_render_debug _⟩

/-- Whatever is asked for besides a conversion says nothing of what was logged. -/
theorem louder_refl {files : σ} {request : Request} (w : WorldOf σ)
    (h : ¬ request.TracesBySettings files) : Louder files request w w :=
  ⟨rfl, rfl, fun _ => .refl _, fun htraces => absurd htraces h⟩

/-- **Asking for more records changes what is printed and nothing else, and hides no line, unless the settings
ask for traces and the command line did not ask yet.** One more `-v` may stand in front of all arguments, and wherever
it may stand the run ends the same, with the same files and the same records. Every line without it is there with it, in
order. Where the settings ask for traces, the first `-v` overrides them, and the traces are the lines that go. -/
theorem run_louder :
    (∀ (arguments : List String) (request : Request), Request.ofArguments arguments = .ok request →
      Request.ofArguments ("-v" :: arguments) = .ok request.louder) ∧
    ∀ {σ : Type} [LawfulStorage σ] (files : σ) (environment : Environment) (front back : List String)
      (request request' : Request),
      Request.ofArguments (front ++ back) = .ok request → Request.ofArguments (front ++ "-v" :: back) = .ok request' →
      request' = request.louder ∧
      match (run environment (front ++ back) : SessionOn σ _).run ⟨files, []⟩,
        (run environment (front ++ "-v" :: back) : SessionOn σ _).run ⟨files, []⟩ with
      | (ending, w), (ending', w') => ending' = ending ∧ Louder files request w w' := by
  refine ⟨fun arguments request => ofArguments_verbose, ?_⟩
  intro σ _ files environment front back request request' h h'
  obtain rfl : request' = request.louder := takeAll_insert h h'
  refine ⟨rfl, ?_⟩
  cases request with
  | convert a =>
    obtain ⟨ending, w, w', hrun, hrun', hlouder⟩ := run_convert_louder a environment files h h'
    rw [hrun, hrun']
    exact ⟨rfl, hlouder⟩
  | version =>
    rw [run, run, h, h']
    exact ⟨rfl, louder_refl _ id⟩
  | help =>
    rw [run, run, h, h']
    exact ⟨rfl, louder_refl _ id⟩

theorem run_louder_pretty :
    let files : FileSystem := ⟨[(["a.css"], .file "@keyframes a \x7b to \x7b top: 0 \x7d \x7d".toUTF8)], []⟩
    let answer := (run ⟨"/", "/"⟩ ["a.css", "a.json", "--pretty"] : Session _).run ⟨files, []⟩
    let answer' := (run ⟨"/", "/"⟩ ["a.css", "a.json", "-v", "--pretty"] : Session _).run ⟨files, []⟩
    answer'.1 = answer.1 ∧ answer'.1.exitCode = 0 ∧
      (Logger.initial.lines answer.2.events).Sublist (Logger.initial.lines answer'.2.events) ∧
      (Logger.initial.lines answer'.2.events).length = 7 := by
  intro files answer answer'
  have hrequest : Request.ofArguments ["a.css", "a.json", "--pretty"] =
      .ok (.convert ⟨"a.css", "a.json", none, none, none, true, 0⟩) := by rfl
  have hrequest' : Request.ofArguments ["a.css", "a.json", "-v", "--pretty"] =
      .ok (.convert ⟨"a.css", "a.json", none, none, none, true, 1⟩) := by rfl
  have hlouder : answer'.1 = answer.1 ∧
      Louder files (.convert ⟨"a.css", "a.json", none, none, none, true, 0⟩) answer.2 answer'.2 :=
    (run_louder.2 files ⟨"/", "/"⟩ ["a.css", "a.json"] ["--pretty"] _ _ hrequest hrequest').2
  exact ⟨hlouder.1, by decide +kernel, hlouder.2.lines (by rintro ⟨-, ⟨⟩⟩), by decide +kernel⟩

/-- Of settings that ask for traces the first `-v` leaves debug records. -/
theorem traces_overridden :
    let files : FileSystem := ⟨[(["a.css"], .file "@keyframes a \x7b\x7d".toUTF8),
      (["c.toml"], .file "log-level = \"trace\"".toUTF8)], []⟩
    let lines := fun arguments =>
      Logger.initial.lines ((run ⟨"/", "/"⟩ arguments : SessionOn FileSystem _).run ⟨files, []⟩).2.events
    ¬ (lines ["a.css", "a.json", "--config", "c.toml"]).Sublist
      (lines ["a.css", "a.json", "--config", "c.toml", "-v"]) := by
  intro files lines hsublist
  exact absurd hsublist.length_le (by decide +kernel)

end Command
end Timeline
