import Mathlib.Data.List.Basic
import Timeline.Settings.Basic

/-! Paths in normal form.

A step up undoes the name in front of it, and at the root it does nothing. Whatever a path is walked with has these two
laws, and so it comes to the same along the path and along its normal form (`foldl_normalize`): a walk through
directories does, and so does putting into normal form itself. In the text of a normal form there are no points, and two
points stand in front only. So nothing is lost when paths are put into normal form before they are joined
(`normalText_laws`). -/
namespace Timeline.Path

/-! ### Normal forms -/

section

variable {σ : Type} {act : σ → PathPart → σ} {start : σ} {isAbsolute : Bool}

/-- One more part on a normal form is one more part to walk. -/
theorem foldl_push (hundo : ∀ s name, act (act s (.name name)) .parent = s)
    (hroot : isAbsolute = true → act start .parent = start) (walked : List PathPart) (part : PathPart) :
    (push isAbsolute walked part).reverse.foldl act start = act (walked.reverse.foldl act start) part := by
  cases part with
  | name n => rw [push, List.reverse_cons, List.foldl_append]; rfl
  | parent =>
    cases walked with
    | nil =>
      cases isAbsolute with
      | true => exact (hroot rfl).symm
      | false => rfl
    | cons last rest =>
      rw [List.reverse_cons, List.foldl_append]
      cases last with
      | name n => exact (hundo _ n).symm
      | parent => rw [push, List.reverse_cons, List.reverse_cons, List.foldl_append, List.foldl_append]; rfl

/-- **A path and its normal form come to the same**, if a step up undoes a name, and at the root of an absolute path
does nothing. -/
theorem foldl_normalize {p : Path} (hundo : ∀ s name, act (act s (.name name)) .parent = s)
    (hroot : p.isAbsolute = true → act start .parent = start) :
    p.normalize.parts.foldl act start = p.parts.foldl act start := by
  suffices h : ∀ walked, (p.parts.foldl (push p.isAbsolute) walked).reverse.foldl act start =
      p.parts.foldl act (walked.reverse.foldl act start) from h []
  intro walked
  induction p.parts generalizing walked with
  | nil => rfl
  | cons part parts ih => rw [List.foldl_cons, List.foldl_cons, ih, foldl_push hundo hroot]

end

/-- Putting into normal form is such a walk itself. -/
theorem foldl_push_normalize {p : Path} {isAbsolute : Bool} {walked : List PathPart}
    (hroot : p.isAbsolute = true → push isAbsolute walked .parent = walked) :
    p.normalize.parts.foldl (push isAbsolute) walked = p.parts.foldl (push isAbsolute) walked :=
  foldl_normalize (fun _ _ => rfl) hroot

theorem push_root {isAbsolute : Bool} (h : isAbsolute = true) : push isAbsolute [] .parent = [] := by
  rw [h]
  rfl

theorem normalize_normalize (p : Path) : p.normalize.normalize = p.normalize := by
  show Path.mk p.isAbsolute (p.normalize.parts.foldl (push p.isAbsolute) []).reverse = p.normalize
  rw [foldl_push_normalize push_root]
  rfl

/-- Nothing is lost when both paths are put into normal form before they are joined. -/
theorem normalize_join (base p : Path) : (base.normalize.join p.normalize).normalize = (base.join p).normalize := by
  cases h : p.isAbsolute with
  | true =>
    have hn : p.normalize.isAbsolute = true := h
    rw [join, join, if_pos h, if_pos hn, normalize_normalize]
  | false =>
    have hn : ¬ p.normalize.isAbsolute = true := ne_true_of_eq_false h
    rw [join, join, if_neg (ne_true_of_eq_false h), if_neg hn]
    show Path.mk base.isAbsolute
        ((base.normalize.parts ++ p.normalize.parts).foldl (push base.isAbsolute) []).reverse =
      Path.mk base.isAbsolute ((base.parts ++ p.parts).foldl (push base.isAbsolute) []).reverse
    rw [List.foldl_append, List.foldl_append, foldl_push_normalize push_root,
      foldl_push_normalize (fun ha => absurd ha (ne_true_of_eq_false h))]

/-- Steps up, the first one in front, and then names. In an absolute path there are no steps up. -/
def Climbs (isAbsolute : Bool) (parts : List PathPart) : Prop :=
  ∃ (ups : Nat) (names : List String), parts = List.replicate ups .parent ++ names.map .name ∧
    (isAbsolute = true → ups = 0)

/-- The last part stands in front while a path is walked. -/
theorem climbs_push {isAbsolute : Bool} {walked : List PathPart} (h : Climbs isAbsolute walked.reverse)
    (part : PathPart) : Climbs isAbsolute (push isAbsolute walked part).reverse := by
  obtain ⟨ups, names, hwalked, hups⟩ := h
  obtain rfl := List.reverse_eq_iff.mp hwalked
  rw [List.reverse_append, List.reverse_replicate, ← List.map_reverse]
  generalize names.reverse = names
  cases part with
  | name n => exact ⟨ups, (n :: names).reverse, by simp [push], hups⟩
  | parent =>
    cases names with
    | cons n names => exact ⟨ups, names.reverse, by simp [push], hups⟩
    | nil =>
      cases ups with
      | zero =>
        cases isAbsolute with
        | true => exact ⟨0, [], rfl, fun _ => rfl⟩
        | false => exact ⟨1, [], rfl, nofun⟩
      | succ ups =>
        refine ⟨ups + 2, [], ?_, fun ha => absurd (hups ha) (Nat.succ_ne_zero ups)⟩
        show (List.replicate (ups + 2) PathPart.parent).reverse = _
        rw [List.reverse_replicate, List.map_nil, List.append_nil]

theorem climbs_normalize (p : Path) : Climbs p.isAbsolute p.normalize.parts := by
  suffices h : ∀ walked : List PathPart, Climbs p.isAbsolute walked.reverse →
      Climbs p.isAbsolute (p.parts.foldl (push p.isAbsolute) walked).reverse from
    h [] ⟨0, [], rfl, fun _ => rfl⟩
  induction p.parts with
  | nil => exact fun _ h => h
  | cons part parts ih => exact fun walked h => ih _ (climbs_push h part)

/-! ### Parts that a text shows -/

/-- A part that is read back from its text. -/
def Shown (part : PathPart) : Prop :=
  (partText part).toList ≠ [] ∧ '/' ∉ (partText part).toList ∧ partOf? (partText part).toList = some part

theorem text_of_partOf? {piece : List Char} {part : PathPart} (h : partOf? piece = some part) :
    (partText part).toList = piece := by
  unfold partOf? at h
  split at h
  · cases h
  split at h
  · rename_i hpiece
    obtain rfl := Option.some.inj h
    exact hpiece.symm
  · obtain rfl := Option.some.inj h
    exact String.toList_ofList

theorem shown_of_mem_ofText {path : String} {part : PathPart} (h : part ∈ (ofText path).parts) : Shown part := by
  obtain ⟨piece, hpiece, hpart⟩ := List.mem_filterMap.mp h
  obtain ⟨hfield, hne⟩ := List.mem_filter.mp hpiece
  rw [Shown, text_of_partOf? hpart]
  exact ⟨by simpa using hne, Text.not_mem_of_mem_fields hfield, hpart⟩

theorem mem_of_mem_push {isAbsolute : Bool} {walked : List PathPart} {last part : PathPart}
    (h : part ∈ push isAbsolute walked last) : part = last ∨ part ∈ walked := by
  cases last with
  | name n => exact List.mem_cons.mp h
  | parent =>
    cases walked with
    | nil => cases isAbsolute <;> simp_all [push]
    | cons first rest => cases first <;> simp_all [push]

/-- Nothing is in a normal form that is not in the path. -/
theorem mem_of_mem_normalize {p : Path} {part : PathPart} (h : part ∈ p.normalize.parts) : part ∈ p.parts := by
  suffices hwalk : ∀ (parts walked : List PathPart), part ∈ parts.foldl (push p.isAbsolute) walked →
      part ∈ walked ∨ part ∈ parts from
    (hwalk p.parts [] (List.mem_reverse.mp h)).resolve_left List.not_mem_nil
  intro parts
  induction parts with
  | nil => exact fun walked h => .inl h
  | cons first parts ih =>
    intro walked h
    rcases ih _ h with h | h
    · rcases mem_of_mem_push h with rfl | h
      · exact .inr List.mem_cons_self
      · exact .inl h
    · exact .inr (List.mem_cons_of_mem _ h)

theorem mem_of_mem_join {base p : Path} {part : PathPart} (h : part ∈ (base.join p).parts) :
    part ∈ base.parts ∨ part ∈ p.parts := by
  unfold join at h
  split at h
  · exact .inr h
  · exact List.mem_append.mp h

/-! ### Paths from their texts -/

theorem toList_text (p : Path) :
    p.text.toList =
      (if p.isAbsolute then ['/'] else []) ++ ['/'].intercalate (p.parts.map fun part => (partText part).toList) := by
  rw [text, String.toList_append, String.toList_intercalate, List.map_map]
  cases p.isAbsolute <;> rfl

section

variable {p : Path} (h : ∀ part ∈ p.parts, Shown part)

include h

theorem pieces_text : pieces p.text = p.parts.map fun part => (partText part).toList := by
  have hjoined :
      (Text.fields '/' (['/'].intercalate (p.parts.map fun part => (partText part).toList))).filter (· ≠ []) =
        p.parts.map fun part => (partText part).toList := by
    by_cases hne : p.parts = []
    · rw [hne]
      rfl
    · rw [Text.fields_join ?_ (by simpa using hne), List.filter_eq_self]
      · exact List.forall_mem_map.mpr fun part hp => by simpa using (h part hp).1
      · exact List.forall_mem_map.mpr fun part hp => (h part hp).2.1
  rw [pieces, toList_text]
  cases p.isAbsolute with
  | false => exact hjoined
  | true =>
    rw [if_pos rfl, List.singleton_append, Text.fields, if_pos rfl, List.filter_cons_of_neg (by simp)]
    exact hjoined

theorem head?_text : p.text.toList.head? = some '/' ↔ p.isAbsolute = true := by
  rw [toList_text]
  cases p.isAbsolute with
  | true => simp
  | false =>
    rw [if_neg Bool.false_ne_true, List.nil_append]
    refine iff_of_false ?_ Bool.false_ne_true
    cases hparts : p.parts with
    | nil => simp
    | cons part parts =>
      obtain ⟨hne, hslash, -⟩ := h part (by simp [hparts])
      obtain ⟨c, cs, hc⟩ := List.exists_cons_of_ne_nil hne
      rw [hc] at hslash
      have hslash : '/' ≠ c := fun he => hslash (he ▸ List.mem_cons_self)
      rw [List.map_cons, hc]
      cases parts with
      | nil => simpa using Ne.symm hslash
      | cons => simpa [List.intercalate_cons_cons] using Ne.symm hslash

theorem ofText_text : ofText p.text = p := by
  have hparts : (p.parts.map fun part => (partText part).toList).filterMap partOf? = p.parts := by
    rw [List.filterMap_map]
    exact (List.filterMap_congr fun part hp => (h part hp).2.2).trans List.filterMap_some
  rw [ofText, pieces_text h, hparts]
  have hhead : decide (p.text.toList.head? = some '/') = p.isAbsolute := by
    rw [Bool.eq_iff_iff, decide_eq_true_iff, head?_text h]
  rw [hhead]

end

/-! ### Walks -/

/-- The place that one piece of a path leads to: a point stays, two points ascend, and a name descends. Above the root
there is nothing. -/
def enter (place : List String) (piece : List Char) : List String :=
  if piece = ['.'] then place
  else if piece = ['.', '.'] then place.dropLast
  else place ++ [String.ofList piece]

/-- The place that a path leads to from a directory. -/
def lead (directory : List String) (path : String) : List String :=
  (pieces path).foldl enter (if path.toList.head? = some '/' then [] else directory)

/-- The place that one part leads to. -/
def enterPart (place : List String) : PathPart → List String
  | .parent => place.dropLast
  | .name n => place ++ [n]

theorem enter_eq (place : List String) (piece : List Char) :
    enter place piece = (partOf? piece).elim place (enterPart place) := by
  unfold enter partOf?
  split
  · rfl
  split <;> rfl

theorem lead_eq (directory : List String) (path : String) :
    lead directory path =
      (ofText path).parts.foldl enterPart (if (ofText path).isAbsolute then [] else directory) := by
  have hsteps : ∀ place, (pieces path).foldl enter place = ((pieces path).filterMap partOf?).foldl enterPart place := by
    induction pieces path with
    | nil => exact fun _ => rfl
    | cons piece rest ih =>
      intro place
      rw [List.foldl_cons, List.filterMap_cons, ih, enter_eq]
      cases partOf? piece <;> rfl
  rw [lead, hsteps]
  simp [ofText]

/-- A path and its normal form lead to the same place. -/
theorem foldl_enterPart_normalize (p : Path) (directory : List String) :
    p.normalize.parts.foldl enterPart (if p.isAbsolute then [] else directory) =
      p.parts.foldl enterPart (if p.isAbsolute then [] else directory) :=
  foldl_normalize (fun _ _ => List.dropLast_concat) fun h => by rw [if_pos h]; rfl

/-! ### Texts in normal form -/

/-- The text of a path in normal form. -/
def normalText (path : String) : String := (ofText path).normalize.text

theorem ofText_normalText (path : String) : ofText (normalText path) = (ofText path).normalize :=
  ofText_text fun _ h => shown_of_mem_ofText (mem_of_mem_normalize h)

theorem normalText_normalText (path : String) : normalText (normalText path) = normalText path := by
  rw [normalText, ofText_normalText, normalize_normalize]
  rfl

theorem head?_normalText (path : String) :
    (normalText path).toList.head? = some '/' ↔ path.toList.head? = some '/' := by
  rw [normalText, head?_text fun _ h => shown_of_mem_ofText (mem_of_mem_normalize h), normalize, ofText,
    decide_eq_true_iff]

/-- Two points are the only piece of a normal form that is no name. They stand in front, and not in an absolute path. -/
theorem pieces_normalText (path : String) :
    ∃ (ups : Nat) (names : List (List Char)), pieces (normalText path) = List.replicate ups ['.', '.'] ++ names ∧
      (∀ name ∈ names, name ≠ ['.'] ∧ name ≠ ['.', '.']) ∧ (path.toList.head? = some '/' → ups = 0) := by
  have hshown : ∀ part ∈ (ofText path).normalize.parts, Shown part :=
    fun _ h => shown_of_mem_ofText (mem_of_mem_normalize h)
  obtain ⟨ups, names, hparts, hups⟩ := climbs_normalize (ofText path)
  refine ⟨ups, names.map String.toList, ?_, ?_, fun h => hups (decide_eq_true h)⟩
  · rw [normalText, pieces_text hshown, hparts, List.map_append, List.map_replicate, List.map_map]
    rfl
  · refine List.forall_mem_map.mpr fun n hn => ?_
    obtain ⟨-, -, hpart⟩ := hshown (.name n) (by rw [hparts]; simp [hn])
    constructor <;> (intro hpoints; rw [partText, hpoints] at hpart; cases hpart)

end Timeline.Path

namespace Timeline

open Timeline.Path (normalText ofText lead pieces)

namespace PathPair

theorem ofText_place (base path : String) :
    ofText (place base path) = ((ofText base).join (ofText path)).normalize := by
  refine Path.ofText_text fun part h => ?_
  rcases Path.mem_of_mem_join (Path.mem_of_mem_normalize h) with h | h
  · exact Path.shown_of_mem_ofText h
  · exact Path.shown_of_mem_ofText h

theorem place_normalText (base path : String) : place (normalText base) (normalText path) = place base path := by
  rw [place, Path.ofText_normalText, Path.ofText_normalText, Path.normalize_join]
  rfl

/-- An absolute path has its place already. -/
theorem place_place {base path : String} (h : (place base path).toList.head? = some '/') (other : String) :
    place other (place base path) = place base path := by
  have habsolute : (ofText (place base path)).isAbsolute = true := decide_eq_true h
  rw [place, Path.join, if_pos habsolute, ofText_place, Path.normalize_normalize]
  rfl

theorem resolve_normalText (input output base : String) :
    resolve (normalText input) (normalText output) (normalText base) = resolve input output base := by
  rw [resolve, place_normalText, place_normalText]
  rfl

/-- Resolved paths have the right extensions already. -/
theorem resolve_resolved {input output base : String} {pair : PathPair} (h : resolve input output base = .ok pair)
    (hinput : pair.input.toList.head? = some '/') (houtput : pair.output.toList.head? = some '/') (other : String) :
    resolve pair.input pair.output other = .ok pair := by
  unfold resolve at h
  split at h
  · cases h
  split at h
  · cases h
  rename_i hcss hjson
  obtain rfl := Except.ok.inj h
  rw [resolve, place_place hinput, place_place houtput, if_neg hcss, if_neg hjson]

/-- **Normal forms of paths.** No piece of a normal form is a point, and two points stand in front only and only where
the path is relative; it is absolute where the path is, it is its own normal form, and it leads to the same place from
everywhere. A path from a base has its place by the normal forms of both. So a pair of paths resolves as its normal
forms do from the normal form of the base, to a pair or to an error, and a pair that is absolute then resolves to itself
from everywhere. -/
theorem normalText_laws (path base : String) :
    (∃ (ups : Nat) (names : List (List Char)), pieces (normalText path) = List.replicate ups ['.', '.'] ++ names ∧
      (∀ name ∈ names, name ≠ ['.'] ∧ name ≠ ['.', '.']) ∧ (path.toList.head? = some '/' → ups = 0)) ∧
    ((normalText path).toList.head? = some '/' ↔ path.toList.head? = some '/') ∧
    normalText (normalText path) = normalText path ∧
    place (normalText base) (normalText path) = place base path ∧
    (∀ directory, lead directory (normalText path) = lead directory path) ∧
    (∀ output, resolve (normalText path) (normalText output) (normalText base) = resolve path output base) ∧
    (∀ output pair other, resolve path output base = .ok pair → pair.input.toList.head? = some '/' →
      pair.output.toList.head? = some '/' → resolve pair.input pair.output other = .ok pair) := by
  refine ⟨Path.pieces_normalText path, Path.head?_normalText path, Path.normalText_normalText path,
    place_normalText base path, fun directory => ?_, fun output => resolve_normalText path output base,
    fun output pair other h hinput houtput => resolve_resolved h hinput houtput other⟩
  rw [Path.lead_eq, Path.lead_eq, Path.ofText_normalText]
  exact Path.foldl_enterPart_normalize (ofText path) directory

/-- Of a relative path that climbs out of its base. -/
theorem normalText_laws_climbing :
    resolve "../../in/./a.css" "/out//b.json" "/opt/tool/.." = .ok ⟨"/in/a.css", "/out/b.json"⟩ ∧
      resolve "/in/a.css" "/out/b.json" "elsewhere" = .ok ⟨"/in/a.css", "/out/b.json"⟩ := by
  have hpair : resolve "../../in/./a.css" "/out//b.json" "/opt/tool/.." = .ok ⟨"/in/a.css", "/out/b.json"⟩ := by
    decide +kernel
  obtain ⟨-, -, -, -, -, -, hagain⟩ := normalText_laws "../../in/./a.css" "/opt/tool/.."
  exact ⟨hpair, hagain _ ⟨"/in/a.css", "/out/b.json"⟩ "elsewhere" hpair (by decide +kernel) (by decide +kernel)⟩

end PathPair

end Timeline
