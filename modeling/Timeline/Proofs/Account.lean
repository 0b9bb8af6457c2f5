import Timeline.Proofs.Collection
import Timeline.Proofs.Cursor.Readers
import Timeline.Proofs.Text.Quoted

/-! What is logged of a conversion.

`account` says it from the stylesheet alone, level by level and word by word: a trace of each of its keyframes rules, and
then either a warning for each of its faults, or what is collected of the keyframes rules up to the first one without a name,
with a word about each name that was there before. `convert_account`: just this is logged, and a cursor logs the first part
of it while it reads. -/
namespace Timeline

open Animation (Animations DuplicateNames Frame)
open Animation.Animations (collectedRecord duplicateRecord)
open Css (Diagnostic)
open Journal (Level Record)
open Sheet (KeyframesRule Stylesheet)

/-! ### The records -/

/-- A record of the program, which does not say where in the program it was made. -/
def note (level : Level) (message : String) : Record := ⟨level, "keyframes2json", "", 0, message⟩

/-- The word behind the at-sign of a rule. -/
def Sheet.KeyframesRule.keywordText (rule : KeyframesRule) : String :=
  match rule.vendor with
  | some vendor => vendor ++ "keyframes"
  | none => "keyframes"

/-- A rule was read: its vendor, its name and how many blocks it has. -/
def parsedNote (rule : KeyframesRule) : Record :=
  note .trace s!"parsed @{rule.keywordText} {Text.quoted rule.name} with {rule.blocks.length} block(s)"

/-- What is wrong, and where, with lines and columns counted from one. -/
def faultNote (d : Diagnostic) : Record :=
  note .warn (s!"style sheet parsing error at {d.span.start.line + 1}:{d.span.start.column + 1}" ++
    s!"-{d.span.stop.line + 1}:{d.span.stop.column + 1}: {d.fault.message}")

/-- A rule is collected: its name and how many frames it has. -/
def collectedNote (rule : KeyframesRule) : Record :=
  note .trace s!"Collected {rule.expectedFrames.length} frame(s) for {Text.quoted rule.name}"

/-- A rule is collected whose name was there before, under a policy. -/
def repeatedNote (policy : DuplicateNames) (rule : KeyframesRule) : Record :=
  let title :=
    match policy with
    | .concatenate => "Concatenate"
    | .overwrite => "Overwrite"
  note .debug s!"Animation {Text.quoted rule.name} is declared more than once ({title})"

/-! ### The account -/

/-- The rules in front of the first one without a name. -/
def named (rules : List KeyframesRule) : List KeyframesRule := rules.takeWhile (·.name ≠ "")

/-- What is logged of a rule that is collected behind others. -/
def collecting (policy : DuplicateNames) (earlier : List KeyframesRule) (rule : KeyframesRule) : List Record :=
  collectedNote rule :: if rule.name ∈ earlier.map (·.name) then [repeatedNote policy rule] else []

/-- What is logged of a conversion. -/
def account (policy : DuplicateNames) (sheet : Stylesheet) : List Record :=
  sheet.keyframes.map parsedNote ++
    if sheet.diagnostics ≠ [] then sheet.diagnostics.map faultNote
    else (named sheet.keyframes).zipIdx.flatMap fun p => collecting policy (sheet.keyframes.take p.2) p.1

/-! ### What the program says -/

theorem record_eq : KeyframesRule.record = parsedNote := by
  funext rule
  rw [KeyframesRule.record, parsedNote, KeyframesRule.keywordText]
  cases rule.vendor <;> rfl

theorem warnRecord_eq (d : Diagnostic) : Record.own .warn d.message = faultNote d := rfl

theorem collectedRecord_eq (rule : KeyframesRule) : collectedRecord rule.name (Frame.ofRule rule) = collectedNote rule := rfl

theorem duplicateRecord_eq (policy : DuplicateNames) (rule : KeyframesRule) :
    duplicateRecord policy rule.name = repeatedNote policy rule := by
  cases policy <;> rfl

/-! ### Collecting rules -/

namespace Animation.Animations

variable (policy : DuplicateNames)

theorem mem_names_add (animations : Animations) (name other : String) (frames : List Frame) :
    other ∈ (add policy animations name frames).names ↔ other ∈ animations.names ∨ other = name := by
  rw [add, Catalog.names_enter]
  split
  · rename_i h
    constructor
    · exact .inl
    · rintro (ho | rfl)
      · exact ho
      · exact h
  · rw [List.mem_append, List.mem_singleton]

theorem isSome_get?_iff (animations : Animations) (name : String) :
    (animations.get? name).isSome ↔ name ∈ animations.names := by
  rw [← Decidable.not_iff_not, Bool.not_eq_true, Option.isSome_eq_false_iff, Option.isNone_iff_eq_none]
  exact Catalog.get?_eq_none_iff animations name

/-- What is logged goes by the names that the rules in front had. -/
theorem addRules_records (animations : Animations) (before rules : List KeyframesRule)
    (h : ∀ name, name ∈ animations.names ↔ name ∈ before.map (·.name)) :
    (addRules policy animations rules).records =
      (named rules).zipIdx.flatMap fun p => collecting policy (before ++ rules.take p.2) p.1 := by
  induction rules generalizing animations before with
  | nil => rfl
  | cons rule rest ih =>
    by_cases hname : rule.name = ""
    · rw [addRules, if_pos hname, named, List.takeWhile_cons_of_neg (by simpa using hname)]
      rfl
    · have hmore := ih (add policy animations rule.name (Frame.ofRule rule)) (before ++ [rule]) (by
        intro name
        rw [mem_names_add, h, List.map_append, List.mem_append, List.map_singleton, List.mem_singleton])
      rw [addRules, if_neg hname, named, List.takeWhile_cons_of_pos (by simpa using hname)]
      have hfirst : (if (animations.get? rule.name).isSome then [duplicateRecord policy rule.name] else []) =
          if rule.name ∈ before.map (·.name) then [repeatedNote policy rule] else [] := by
        simp only [isSome_get?_iff, h, duplicateRecord_eq]
      dsimp only
      rw [hmore, hfirst, collectedRecord_eq, List.zipIdx_cons, List.flatMap_cons, List.zipIdx_succ, List.flatMap_map]
      simp only [collecting, List.take_zero, List.take_succ_cons, List.append_nil, List.append_assoc,
        List.cons_append]
      rfl

/-- A name that was there before has no new entry. -/
theorem size_add (animations : Animations) (name : String) (frames : List Frame) :
    (add policy animations name frames).size = if name ∈ animations.names then animations.size else animations.size + 1 := by
  have hsize (c : Animations) : c.size = c.names.length := (List.length_map _).symm
  rw [hsize, hsize, add, Catalog.names_enter]
  split
  · rfl
  · rw [List.length_append, List.length_singleton]

/-- Each rule is entered or logged as a duplicate. -/
theorem countP_addRules {animations collected : Animations} {rules : List KeyframesRule}
    (h : (addRules policy animations rules).result = .ok collected) :
    (addRules policy animations rules).records.countP (·.level = .debug) + collected.size = animations.size + rules.length := by
  induction rules generalizing animations with
  | nil =>
    obtain rfl := Except.ok.inj h
    exact Nat.zero_add _
  | cons rule rest ih =>
    by_cases hname : rule.name = ""
    · rw [addRules, if_pos hname] at h
      cases h
    · rw [addRules, if_neg hname] at h ⊢
      have hmore := ih h
      rw [size_add] at hmore
      dsimp only
      rw [List.countP_cons_of_neg (by simp [collectedRecord, Record.own]), List.countP_append, List.length_cons]
      by_cases hmem : rule.name ∈ animations.names
      · rw [if_pos hmem] at hmore
        have hone : [duplicateRecord policy rule.name].countP (·.level = .debug) = 1 := rfl
        rw [if_pos ((isSome_get?_iff animations _).mpr hmem), hone]
        omega
      · rw [if_neg hmem] at hmore
        rw [if_neg fun hsome => hmem ((isSome_get?_iff animations _).mp hsome), List.countP_nil]
        omega

end Animation.Animations

/-! ### The log -/

/-- What every record of an account is. -/
theorem mem_account {policy : DuplicateNames} {sheet : Stylesheet} {r : Record} (h : r ∈ account policy sheet) :
    (∃ rule ∈ sheet.keyframes, r = parsedNote rule) ∨ (∃ d ∈ sheet.diagnostics, r = faultNote d) ∨
      sheet.diagnostics = [] ∧ ∃ rule ∈ sheet.keyframes, r = collectedNote rule ∨ r = repeatedNote policy rule := by
  rw [account, List.mem_append] at h
  rcases h with h | h
  · obtain ⟨rule, hrule, rfl⟩ := List.mem_map.mp h
    exact .inl ⟨rule, hrule, rfl⟩
  split at h
  · obtain ⟨d, hd, rfl⟩ := List.mem_map.mp h
    exact .inr (.inl ⟨d, hd, rfl⟩)
  · rename_i hd
    obtain ⟨p, hp, hr⟩ := List.mem_flatMap.mp h
    have hrule : p.1 ∈ sheet.keyframes := (List.takeWhile_sublist _).subset (List.fst_mem_of_mem_zipIdx hp)
    refine .inr (.inr ⟨not_not.mp hd, p.1, hrule, ?_⟩)
    rw [collecting] at hr
    rcases List.mem_cons.mp hr with hr | hr
    · exact .inl hr
    · split at hr
      · exact .inr (List.mem_singleton.mp hr)
      · cases hr

/-- Rules of a text without faults are collected. -/
theorem convert_of_valid {source : String} (options : ConvertOptions) (hd : (Stylesheet.ofText source).diagnostics = [])
    (hk : (Stylesheet.ofText source).keyframes ≠ []) :
    convert source options =
      ⟨(Stylesheet.ofText source).keyframes.map parsedNote ++
          (Animations.collect options.duplicateNames (Stylesheet.ofText source).keyframes).records,
        (Animations.collect options.duplicateNames (Stylesheet.ofText source).keyframes).result.mapError .transform⟩ := by
  simp [convert, readSheet, validate, hd, hk, record_eq]

theorem convert_records (source : String) (options : ConvertOptions) :
    (convert source options).records = account options.duplicateNames (Stylesheet.ofText source) := by
  by_cases hd : (Stylesheet.ofText source).diagnostics = []
  · by_cases hk : (Stylesheet.ofText source).keyframes = []
    · simp [convert, readSheet, validate, account, named, hd, hk, record_eq]
    · rw [convert_of_valid options hd hk, account, if_neg (not_not.mpr hd)]
      exact congrArg _ (Animations.addRules_records _ Catalog.empty [] _ fun name => by simp [Catalog.names, Catalog.empty])
  · simp [convert, readSheet, validate, account, hd, record_eq, warnRecord_eq]

/-- The faults of a text are what a conversion is refused for, if there are any. -/
theorem convert_hasDiagnostics_iff (source : String) (options : ConvertOptions) :
    (∃ faults, (convert source options).result = .error (.validation (.hasDiagnostics faults))) ↔
      (Stylesheet.ofText source).diagnostics ≠ [] := by
  rw [convert_result, convertSheet_eq]
  split
  · rename_i hd
    exact ⟨fun _ => hd, fun _ => ⟨_, rfl⟩⟩
  · rename_i hd
    refine ⟨?_, fun h => absurd h hd⟩
    rintro ⟨faults, h⟩
    split at h
    · cases h
    split at h <;> cases h

/-- Of a conversion that succeeds each rule has an entry of its own, or is logged as a duplicate. -/
theorem countP_convert {source : String} {options : ConvertOptions} {animations : Animations}
    (h : (convert source options).result = .ok animations) :
    (convert source options).records.countP (·.level = .debug) + animations.size =
      (Stylesheet.ofText source).keyframes.length := by
  have hnone : ((Stylesheet.ofText source).keyframes.map parsedNote).countP (·.level = .debug) = 0 :=
    List.countP_eq_zero.mpr fun r hr => by
      obtain ⟨rule, -, rfl⟩ := List.mem_map.mp hr
      simp [parsedNote, note]
  by_cases hd : (Stylesheet.ofText source).diagnostics = []
  · by_cases hk : (Stylesheet.ofText source).keyframes = []
    · simp [convert, readSheet, validate, hd, hk] at h
    · rw [convert_of_valid options hd hk] at h ⊢
      have hresult : (Animations.collect options.duplicateNames (Stylesheet.ofText source).keyframes).result =
          .ok animations := by
        dsimp only at h
        cases hr : (Animations.collect options.duplicateNames (Stylesheet.ofText source).keyframes).result with
        | error e => rw [hr] at h; cases h
        | ok collected => rw [hr] at h; exact congrArg Except.ok (Except.ok.inj h)
      have hcount := Animations.countP_addRules options.duplicateNames hresult
      rw [List.countP_append, hnone, Nat.zero_add]
      exact hcount.trans (Nat.zero_add _)
  · simp [convert, readSheet, validate, hd] at h

/-- **The log of a conversion is an account of it.** What is logged goes by the stylesheet that the text is, and its first
part is logged by a cursor while it reads; the names in it can be read back. Nothing is logged as an error or for
information. There are warnings just where the faults of the text are why it is refused. And of a conversion that succeeds,
each rule has an entry of its own or is logged as a duplicate. -/
theorem convert_account (source : String) (options : ConvertOptions) :
    (convert source options).records = account options.duplicateNames (Stylesheet.ofText source) ∧
      (∃ s, Cursor.readAll source.toList = some ((Stylesheet.ofText source).rules, s) ∧
        s.records = (Stylesheet.ofText source).keyframes.map parsedNote) ∧
      (∀ rule ∈ (Stylesheet.ofText source).keyframes, Text.unquoted? (Text.quoted rule.name) = some rule.name) ∧
      (∀ r ∈ (convert source options).records, r.level ≠ .error ∧ r.level ≠ .info) ∧
      ((∃ r ∈ (convert source options).records, r.level = .warn) ↔
        ∃ faults, (convert source options).result = .error (.validation (.hasDiagnostics faults))) ∧
      (∀ r ∈ (convert source options).records, r.level = .debug →
        ∃ rule ∈ (Stylesheet.ofText source).keyframes, r = repeatedNote options.duplicateNames rule) ∧
      ∀ animations, (convert source options).result = .ok animations →
        (convert source options).records.countP (·.level = .debug) + animations.size =
          (Stylesheet.ofText source).keyframes.length := by
  have hmem {r : Record} (hr : r ∈ (convert source options).records) := mem_account (convert_records source options ▸ hr)
  refine ⟨convert_records source options, ?_, fun rule _ => Text.unquoted?_quoted rule.name, fun r hr => ?_, ?_,
    fun r hr hdebug => ?_, fun animations => countP_convert⟩
  · obtain ⟨s, hs⟩ := Cursor.finishes source
    exact ⟨s, hs.readAll, record_eq ▸ hs.records⟩
  · rcases hmem hr with ⟨rule, -, rfl⟩ | ⟨d, -, rfl⟩ | ⟨-, rule, -, rfl | rfl⟩ <;>
      exact ⟨Level.noConfusion, Level.noConfusion⟩
  · rw [convert_hasDiagnostics_iff]
    constructor
    · rintro ⟨r, hr, hwarn⟩
      rcases hmem hr with ⟨rule, -, rfl⟩ | ⟨d, hd, rfl⟩ | ⟨-, rule, -, rfl | rfl⟩
      · cases hwarn
      · exact List.ne_nil_of_mem hd
      · cases hwarn
      · cases hwarn
    · intro hd
      obtain ⟨d, more, hmore⟩ := List.exists_cons_of_ne_nil hd
      refine ⟨faultNote d, ?_, rfl⟩
      rw [convert_records, account, if_pos hd, hmore]
      simp
  · rcases hmem hr with ⟨rule, -, rfl⟩ | ⟨d, -, rfl⟩ | ⟨-, rule, hrule, rfl | rfl⟩
    · cases hdebug
    · cases hdebug
    · cases hdebug
    · exact ⟨rule, hrule, rfl⟩

end Timeline
