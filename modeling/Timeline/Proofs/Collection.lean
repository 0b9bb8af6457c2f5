import Timeline.Conversion
import Timeline.Proofs.Catalog

/-! What a conversion answers.

`expected` says it from the stylesheet alone, without a catalog that grows: the first thing
that is wrong, or the distinct names in the order of first use, each with the frames that the
policy gives it. `convert_follows`: the conversion of any text answers what is expected of its
stylesheet, and so do validation and collection of a stylesheet from anywhere else. -/
namespace Timeline

open Animation (Animations DuplicateNames Frame Offset.ofSelector Properties.merge)
open Sheet (KeyframesRule Stylesheet)

/-! ### What is expected -/

/-- The frames of a rule: for each block and each of its selectors one, with the block's properties. -/
def Sheet.KeyframesRule.expectedFrames (rule : KeyframesRule) : List Frame :=
  rule.blocks.flatMap fun block =>
    block.selectors.map fun selector => ⟨Offset.ofSelector selector, Properties.merge block.declarations⟩

/-- The frames under a name: of all rules that have it, one rule after the other, or of the last one only. -/
def framesUnder (policy : DuplicateNames) (rules : List KeyframesRule) (name : String) : List Frame :=
  let named := rules.filter (·.name = name)
  match policy with
  | .concatenate => named.flatMap Sheet.KeyframesRule.expectedFrames
  | .overwrite => named.getLast?.elim [] Sheet.KeyframesRule.expectedFrames

/-- The distinct names of rules, in the order of first use. -/
def distinctNames (rules : List KeyframesRule) : List String := (rules.map (·.name)).eraseDups

/-- What a conversion of a stylesheet answers: the names with their frames, or why there are none. -/
def expected (policy : DuplicateNames) (sheet : Stylesheet) : Except ConvertError (List (String × List Frame)) :=
  if sheet.diagnostics ≠ [] then .error (.validation (.hasDiagnostics sheet.diagnostics))
  else if sheet.keyframes = [] then .error (.validation .noKeyframes)
  else
    match sheet.keyframes.find? (·.name = "") with
    | some rule => .error (.transform (.emptyName rule.span))
    | none => .ok ((distinctNames sheet.keyframes).map fun name => (name, framesUnder policy sheet.keyframes name))

/-- A result is what is expected, in every view of the animations. -/
structure Follows (policy : DuplicateNames) (sheet : Stylesheet) (result : Except ConvertError Animations) :
    Prop where
  entries : result.map Catalog.entries = expected policy sheet
  names : ∀ animations, result = .ok animations → animations.names = distinctNames sheet.keyframes
  get? : ∀ animations, result = .ok animations → ∀ name, animations.get? name =
    if name ∈ sheet.keyframes.map (·.name) then some (framesUnder policy sheet.keyframes name) else none
  size : ∀ animations, result = .ok animations → animations.size = animations.names.length
  isEmpty : ∀ animations, result = .ok animations → animations.isEmpty = animations.names.isEmpty

/-- Validation and collection of a stylesheet, wherever it comes from. -/
def convertSheet (policy : DuplicateNames) (sheet : Stylesheet) : Except ConvertError Animations :=
  match (validate (.stylesheet sheet)).result with
  | .error e => .error (.validation e)
  | .ok valid => (Animations.collect policy valid.sheet.keyframes).result.mapError .transform

theorem convert_result (source : String) (options : ConvertOptions) :
    (convert source options).result = convertSheet options.duplicateNames (Stylesheet.ofText source) := by
  simp only [convert, convertSheet, readSheet]
  cases (validate (.stylesheet (Stylesheet.ofText source))).result <;> rfl

namespace Animation

/-! ### Frames under one name -/

namespace DuplicateNames

/-- What a policy makes of the earlier frames of a name and of later ones. -/
def join : DuplicateNames → List Frame → List Frame → List Frame
  | concatenate, earlier, later => earlier ++ later
  | overwrite, _, later => later

/-- All frames of a name at once. -/
def joinAll : DuplicateNames → List (List Frame) → List Frame
  | concatenate, all => all.flatten
  | overwrite, all => all.getLast?.getD []

theorem joinAll_cons_cons (policy : DuplicateNames) (a b : List Frame) (rest : List (List Frame)) :
    policy.joinAll (a :: b :: rest) = policy.joinAll (policy.join a b :: rest) := by
  cases policy with
  | concatenate => simp [joinAll, join]
  | overwrite => cases rest <;> simp [joinAll, join]

/-- Joining one after the other comes to joining all at once. -/
theorem foldl_joinOne (policy : DuplicateNames) (first : List Frame) (rest : List (List Frame)) :
    rest.foldl (Catalog.joinOne policy.join) (some first) = some (policy.joinAll (first :: rest)) := by
  induction rest generalizing first with
  | nil => cases policy <;> simp [joinAll]
  | cons next rest ih =>
    rw [joinAll_cons_cons]
    exact ih _

end DuplicateNames

/-- The frames of rules under their names. -/
def framesOfRules (rules : List KeyframesRule) : List (String × List Frame) :=
  rules.map fun rule => (rule.name, Frame.ofRule rule)

theorem valuesOf_framesOfRules (rules : List KeyframesRule) (name : String) :
    Catalog.valuesOf name (framesOfRules rules) = (rules.filter (·.name = name)).map Frame.ofRule := by
  simp only [Catalog.valuesOf, framesOfRules, List.filter_map, List.map_map]
  rfl

theorem joinAll_framesOfRules (policy : DuplicateNames) (rules : List KeyframesRule) (name : String) :
    policy.joinAll (Catalog.valuesOf name (framesOfRules rules)) = framesUnder policy rules name := by
  rw [valuesOf_framesOfRules]
  cases policy with
  | concatenate => rfl
  | overwrite =>
    rw [DuplicateNames.joinAll, List.getLast?_map, framesUnder]
    cases (rules.filter (·.name = name)).getLast? <;> rfl

/-! ### Collecting rules -/

namespace Animations

theorem add_eq_enter (policy : DuplicateNames) (animations : Animations) (name : String) (frames : List Frame) :
    add policy animations name frames = animations.enter name frames (policy.join · frames) := by
  cases policy <;> rfl

/-- Up to the first rule without a name every rule is entered. -/
theorem addRules_result (policy : DuplicateNames) (animations : Animations) (rules : List KeyframesRule) :
    (addRules policy animations rules).result =
      match rules.find? (·.name = "") with
      | some rule => .error (.emptyName rule.span)
      | none => .ok (animations.enterAll policy.join (framesOfRules rules)) := by
  induction rules generalizing animations with
  | nil => rfl
  | cons rule rest ih =>
    by_cases h : rule.name = ""
    · simp [addRules, h]
    · rw [addRules, if_neg h, List.find?_cons_of_neg (by simpa using h)]
      show (addRules policy (add policy animations rule.name (Frame.ofRule rule)) rest).result = _
      rw [ih, add_eq_enter]
      rfl

variable (policy : DuplicateNames) (rules : List KeyframesRule)

/-- The animations of rules that all have a name. -/
def ofRules : Animations := Catalog.enterAll policy.join Catalog.empty (framesOfRules rules)

theorem names_ofRules : (ofRules policy rules).names = distinctNames rules := by
  have hall : ∀ names : List String, names.filter (fun name => name ∉ (Catalog.empty : Animations).names) = names :=
    fun names => List.filter_eq_self.mpr (by simp [Catalog.names, Catalog.empty])
  rw [ofRules, Catalog.names_enterAll, hall, framesOfRules, List.map_map]
  rfl

theorem get?_ofRules (name : String) : (ofRules policy rules).get? name =
    if name ∈ rules.map (·.name) then some (framesUnder policy rules name) else none := by
  rw [ofRules, Catalog.get?_enterAll, Catalog.get?_empty, ← joinAll_framesOfRules]
  have hmem : name ∈ rules.map (·.name) ↔ Catalog.valuesOf name (framesOfRules rules) ≠ [] := by
    rw [valuesOf_framesOfRules]
    simp [List.filter_eq_nil_iff]
  cases hv : Catalog.valuesOf name (framesOfRules rules) with
  | nil => rw [if_neg (by rw [hmem, hv]; simp)]; rfl
  | cons first more =>
    rw [if_pos (by rw [hmem, hv]; simp)]
    exact DuplicateNames.foldl_joinOne policy first more

theorem entries_ofRules : (ofRules policy rules).entries =
    (distinctNames rules).map fun name => (name, framesUnder policy rules name) := by
  rw [← names_ofRules policy rules]
  apply Catalog.entries_eq_map
  intro name value h
  rw [get?_ofRules] at h
  split at h <;> simp_all

end Animations

end Animation

/-! ### Converting a stylesheet -/

/-- What a conversion comes to, case by case, the first fault in front. -/
theorem convertSheet_eq (policy : DuplicateNames) (sheet : Stylesheet) :
    convertSheet policy sheet =
      if sheet.diagnostics ≠ [] then .error (.validation (.hasDiagnostics sheet.diagnostics))
      else if sheet.keyframes = [] then .error (.validation .noKeyframes)
      else
        match sheet.keyframes.find? (·.name = "") with
        | some rule => .error (.transform (.emptyName rule.span))
        | none => .ok (Animations.ofRules policy sheet.keyframes) := by
  by_cases hd : sheet.diagnostics = []
  · by_cases hk : sheet.keyframes = []
    · simp [convertSheet, validate, hd, hk]
    · simp only [convertSheet, validate, hd, hk, dif_pos, dif_neg, not_false_eq_true, ne_eq, not_true_eq_false,
        if_false, Animations.collect, Animations.addRules_result]
      cases sheet.keyframes.find? (·.name = "") <;> rfl
  · simp [convertSheet, validate, hd]

/-- Animations come from rules without faults, all with a name. -/
theorem ofRules_of_convertSheet {policy : DuplicateNames} {sheet : Stylesheet} {animations : Animations}
    (h : convertSheet policy sheet = .ok animations) : animations = Animations.ofRules policy sheet.keyframes := by
  rw [convertSheet_eq] at h
  split at h
  · cases h
  split at h
  · cases h
  split at h <;> cases h
  rfl

theorem convertSheet_follows (policy : DuplicateNames) (sheet : Stylesheet) :
    Follows policy sheet (convertSheet policy sheet) where
  entries := by
    rw [convertSheet_eq, expected]
    split
    · rfl
    split
    · rfl
    split
    · rfl
    · exact congrArg Except.ok (Animations.entries_ofRules policy sheet.keyframes)
  names animations h := by rw [ofRules_of_convertSheet h, Animations.names_ofRules]
  get? animations h name := by rw [ofRules_of_convertSheet h, Animations.get?_ofRules]
  size animations _ := (List.length_map _).symm
  isEmpty animations _ := List.isEmpty_map.symm

/-- **A conversion answers what is expected of the stylesheet that the text is**, and a
stylesheet from anywhere else is converted by the same law. -/
theorem convert_follows :
    (∀ source options, Follows options.duplicateNames (Stylesheet.ofText source) (convert source options).result) ∧
      ∀ policy sheet, Follows policy sheet (convertSheet policy sheet) := by
  refine ⟨fun source options => ?_, convertSheet_follows⟩
  rw [convert_result]
  exact convertSheet_follows _ _

end Timeline
