import Timeline.Journal.Logger

/-! What a logger prints over a whole run.

About every record one threshold decides: the one set last before it or, if none was, the one set first behind it
(`rulings`). The records that wait are printed when the first threshold is set, and before anything that is logged
later. So a logger prints what it would print if it had known its first threshold from the start, in the order in which
the records were logged (`prints_as_ruled`). Its ceiling drops only what its threshold does not want
(`linesUncapped_keeping`). Where the threshold is set before anything is logged, it decides about every record
(`lines_once`). -/
namespace Timeline.Journal

/-! ### Which threshold decides -/

/-- The records of some events, in order. -/
def recordsOf : List Event → List Record
  | [] => []
  | .record r :: rest => r :: recordsOf rest
  | .setThreshold _ :: rest => recordsOf rest

/-- The threshold that some events set first, if they set one. -/
def firstThreshold : List Event → Option Threshold
  | [] => none
  | .record _ :: rest => firstThreshold rest
  | .setThreshold threshold :: _ => some threshold

/-- The records of some events, each with the threshold that decides about it: the one set last before it or, if none
was, the one set first behind it. `last` is the one set last before all these events. -/
def rulings (last : Option Threshold) : List Event → List (Record × Option Threshold)
  | [] => []
  | .record r :: rest => (r, last.or (firstThreshold rest)) :: rulings last rest
  | .setThreshold threshold :: rest => rulings (some threshold) rest

/-- The lines for records with their thresholds. A record about which no threshold decides has none. -/
def printed (ruled : List (Record × Option Threshold)) : List String :=
  ruled.filterMap fun ruling => ruling.2.bind (·.render ruling.1)

/-- A ruling for each record, and nothing else. -/
theorem map_fst_rulings (last : Option Threshold) (events : List Event) :
    (rulings last events).map Prod.fst = recordsOf events := by
  induction events generalizing last with
  | nil => rfl
  | cons e rest ih =>
    cases e with
    | record r => rw [rulings, List.map_cons, ih, recordsOf]
    | setThreshold threshold => rw [rulings, ih, recordsOf]

theorem printed_cons (r : Record) (threshold : Threshold) (ruled : List (Record × Option Threshold)) :
    printed ((r, some threshold) :: ruled) = (threshold.render r).toList ++ printed ruled := by
  rw [printed, List.filterMap_cons]
  cases h : threshold.render r <;> simp [h, printed]

/-! ### Rendering -/

theorem isOwn_iff (r : Record) :
    r.isOwn = true ↔ r.component = programName ∨ ∃ part, r.component = programName ++ "::" ++ part := by
  rw [Record.isOwn, Bool.or_eq_true, decide_eq_true_iff, String.isPrefixOf, String.startsWith_string_iff]
  refine or_congr Iff.rfl ⟨?_, ?_⟩
  · rintro ⟨part, h⟩
    refine ⟨String.ofList part, String.toList_injective ?_⟩
    rw [String.toList_append (t := String.ofList part), String.toList_ofList, h]
  · rintro ⟨part, h⟩
    rw [h, String.toList_append (t := part)]
    exact List.prefix_append _ _

/-- A record has a line if its level is wanted and it comes from the program, or records of other programs are wanted
too. -/
theorem isSome_render (threshold : Threshold) (r : Record) :
    (threshold.render r).isSome = true ↔
      r.level.rank ≤ threshold.rank ∧ (r.isOwn = true ∨ Threshold.debug.rank ≤ threshold.rank) := by
  by_cases hlevel : r.level.rank ≤ threshold.rank <;> by_cases hown : r.isOwn = true <;>
    by_cases hdebug : Threshold.debug.rank ≤ threshold.rank <;>
    simp [Threshold.render, Level.within, hlevel, hown, hdebug]

/-- The word in front of a line. -/
def levelWord : Level → String
  | .error => "error"
  | .warn => "warning"
  | .info => "info"
  | .debug => "debug"
  | .trace => "trace"

/-- The line of a record: its level and its message, and for a record of another program the place it comes from. -/
def IsLineOf (r : Record) (line : String) : Prop :=
  let own := r.component = programName ∨ ∃ part, r.component = programName ++ "::" ++ part
  own ∧ line = s!"{levelWord r.level}: {r.message}" ∨
    ¬ own ∧ line = s!"{levelWord r.level}: [{r.file}:{r.line}] {r.message}"

theorem isLineOf_of_render {threshold : Threshold} {r : Record} {line : String} (h : threshold.render r = some line) :
    IsLineOf r line := by
  have hword : r.level.label = levelWord r.level := by cases r.level <;> rfl
  rw [Threshold.render, hword] at h
  rw [IsLineOf, ← isOwn_iff]
  split at h
  · cases h
  split at h
  · rename_i hown
    exact .inl ⟨hown, (Option.some.inj h).symm⟩
  · rename_i hother
    split at h
    · exact .inr ⟨hother, (Option.some.inj h).symm⟩
    · cases h

theorem render_eq_none {threshold : Threshold} {r : Record} (h : r.level.within threshold = false) :
    threshold.render r = none := by
  rw [Threshold.render, h]
  rfl

namespace Logger

/-! ### Runs -/

/-- A logger that was given a threshold at the start. -/
def set (threshold : Threshold) : Logger := ⟨threshold, .printing threshold⟩

theorem step_set (threshold : Threshold) (r : Record) :
    (set threshold).step (.record r) =
      (set threshold, if r.level.within threshold then (threshold.render r).toList else []) := by
  unfold set
  rw [step]
  split <;> rfl

/-- Whatever a logger did before, it prints from now on. -/
theorem step_setThreshold (threshold : Threshold) (logger : Logger) :
    (logger.step (.setThreshold threshold)).1 = set threshold := rfl

/-- Nothing is above the ceiling that a logger begins with, so what it does depends on its mode alone. -/
theorem step_uncapped (mode : Mode) (r : Record) :
    step ⟨.trace, mode⟩ (.record r) =
      match mode with
      | .keeping records => (⟨.trace, .keeping (records ++ [r])⟩, [])
      | .printing threshold => (⟨.trace, mode⟩, (threshold.render r).toList) := by
  have hceiling : r.level.within .trace = true := by cases r.level <;> rfl
  cases mode with
  | keeping records => exact if_pos hceiling
  | printing threshold => exact if_pos hceiling

/-- The lines of a logger that prints, from now on. -/
theorem lines_set (threshold : Threshold) (events : List Event) :
    (set threshold).lines events = printed (rulings (some threshold) events) := by
  induction events generalizing threshold with
  | nil => rfl
  | cons e rest ih =>
    cases e with
    | record r =>
      have hline : (if r.level.within threshold then (threshold.render r).toList else []) =
          (threshold.render r).toList := by
        split
        · rfl
        · rename_i hlevel
          rw [render_eq_none (by simpa using hlevel)]
          rfl
      rw [lines, step_set, ih, hline, rulings]
      exact (printed_cons r threshold _).symm
    | setThreshold next =>
      rw [lines, step_setThreshold, ih, rulings]
      rfl

/-- What a logger prints that is given a threshold first. -/
theorem lines_once (threshold : Threshold) (records : List Record) :
    initial.lines (.setThreshold threshold :: records.map .record) = records.filterMap threshold.render := by
  have hset : printed (rulings (some threshold) (records.map .record)) = records.filterMap threshold.render := by
    induction records with
    | nil => rfl
    | cons r records ih =>
      rw [List.map_cons, rulings, Option.some_or, printed_cons, ih, List.filterMap_cons]
      cases threshold.render r <;> rfl
  rw [lines, step_setThreshold, lines_set, hset]
  rfl

/-- A failure that is logged last is printed last, or nothing is printed at all. -/
theorem lines_failure (threshold : Threshold) (records : List Record) (message : String) :
    let lines := initial.lines (.setThreshold threshold :: (records ++ [Record.own .error message]).map .record)
    (threshold = .off → lines = []) ∧ (threshold ≠ .off → ∃ earlier, lines = earlier ++ [s!"error: {message}"]) := by
  rw [lines_once]
  constructor
  · rintro rfl
    exact List.filterMap_eq_nil_iff.mpr fun r _ => render_eq_none (by cases r.level <;> rfl)
  · intro hprinted
    have hwithin : Level.error.within threshold = true := by
      cases threshold <;> first | rfl | exact absurd rfl hprinted
    have hown : (Record.own .error message).isOwn = true := by simp [Record.isOwn, Record.own]
    have hline : threshold.render (.own .error message) = some s!"error: {message}" := by
      rw [Threshold.render, if_neg (by simpa [Record.own] using hwithin), if_pos hown]
      rfl
    exact ⟨records.filterMap threshold.render, by rw [List.filterMap_append, List.filterMap_cons, hline]; rfl⟩

/-- A logger that keeps records prints them first, as soon as there is a threshold. -/
theorem lines_keeping (kept : List Record) (events : List Event) :
    lines ⟨.trace, .keeping kept⟩ events =
      (firstThreshold events).elim [] (fun threshold => kept.filterMap threshold.render) ++
        printed (rulings none events) := by
  induction events generalizing kept with
  | nil => rfl
  | cons e rest ih =>
    cases e with
    | record r =>
      rw [lines, step_uncapped, List.nil_append, ih, rulings, firstThreshold]
      cases hfirst : firstThreshold rest with
      | none => rfl
      | some threshold =>
        rw [Option.none_or, printed_cons, Option.elim_some, Option.elim_some, List.filterMap_append, List.append_assoc]
        rfl
    | setThreshold threshold =>
      rw [lines, step_setThreshold, lines_set]
      rfl

/-- As long as no threshold is set, all that is logged waits. -/
theorem lines_records (kept records : List Record) : lines ⟨.trace, .keeping kept⟩ (records.map .record) = [] := by
  induction records generalizing kept with
  | nil => rfl
  | cons r records ih =>
    rw [List.map_cons, lines, step_uncapped, List.nil_append, ih]

/-- A logger that prints goes on printing. -/
theorem exists_after_set (threshold : Threshold) (events : List Event) :
    ∃ last, (set threshold).after events = set last := by
  induction events generalizing threshold with
  | nil => exact ⟨threshold, rfl⟩
  | cons e rest ih =>
    cases e with
    | record r =>
      rw [after, step_set]
      exact ih threshold
    | setThreshold next => exact ih next

/-! ### Without the ceiling -/

/-- The lines that some events print if the ceiling drops nothing. -/
def linesUncapped (logger : Logger) : List Event → List String
  | [] => []
  | e :: rest =>
    (step ⟨.trace, logger.mode⟩ e).2 ++ (step ⟨.trace, logger.mode⟩ e).1.linesUncapped rest

theorem linesUncapped_printing (ceiling threshold : Threshold) (events : List Event) :
    linesUncapped ⟨ceiling, .printing threshold⟩ events = printed (rulings (some threshold) events) := by
  induction events generalizing ceiling threshold with
  | nil => rfl
  | cons e rest ih =>
    cases e with
    | record r =>
      rw [linesUncapped, step_uncapped, ih, rulings]
      exact (printed_cons r threshold _).symm
    | setThreshold next =>
      rw [linesUncapped, step_setThreshold, set, ih, rulings]
      rfl

/-- As long as records are kept nothing is dropped, and from then on only what the threshold does not want. -/
theorem linesUncapped_keeping (ceiling : Threshold) (kept : List Record) (events : List Event) :
    linesUncapped ⟨ceiling, .keeping kept⟩ events = lines ⟨.trace, .keeping kept⟩ events := by
  induction events generalizing ceiling kept with
  | nil => rfl
  | cons e rest ih =>
    cases e with
    | record r =>
      rw [linesUncapped, lines, step_uncapped, ih]
    | setThreshold threshold =>
      rw [linesUncapped, lines, step_setThreshold, lines_set, set, linesUncapped_printing]

/-! ### Whole runs -/

/-- **Every record is printed as the threshold that decides about it has it, in the order in which the records were
logged.** Nothing is printed before a threshold is set, and setting another one prints nothing again. The ceiling
takes no line away. A record has a line if and only if its level is wanted and it comes from the program, or the
threshold is low enough for records of others; the line is the record's level and message, with the place of a record of
others. -/
theorem prints_as_ruled (events : List Event) :
    initial.lines events = printed (rulings none events) ∧
      (rulings none events).map Prod.fst = recordsOf events ∧
      (∀ records : List Record, initial.lines (records.map .record) = []) ∧
      (∀ (first again : Threshold) (later : List Event),
        initial.lines (events ++ .setThreshold first :: (later ++ [.setThreshold again])) =
          initial.lines (events ++ .setThreshold first :: later)) ∧
      initial.linesUncapped events = initial.lines events ∧
      (∀ (threshold : Threshold) (r : Record), (threshold.render r).isSome = true ↔
        r.level.rank ≤ threshold.rank ∧
          ((r.component = programName ∨ ∃ part, r.component = programName ++ "::" ++ part) ∨
            Threshold.debug.rank ≤ threshold.rank)) ∧
      ∀ (threshold : Threshold) (r : Record) (line : String), threshold.render r = some line → IsLineOf r line := by
  refine ⟨?_, map_fst_rulings none events, fun records => ?_, fun first again later => ?_,
    linesUncapped_keeping .trace [] events, fun threshold r => ?_, fun threshold r line => isLineOf_of_render⟩
  · rw [initial, lines_keeping]
    cases firstThreshold events <;> rfl
  · exact lines_records [] records
  · obtain ⟨last, hlast⟩ := exists_after_set first later
    have hnothing : (initial.after (events ++ .setThreshold first :: later)).lines [.setThreshold again] = [] := by
      rw [after_append, after, step_setThreshold, hlast]
      rfl
    rw [← List.cons_append, ← List.append_assoc, lines_append, hnothing, List.append_nil]
  · rw [isSome_render, isOwn_iff]

end Logger

end Timeline.Journal
