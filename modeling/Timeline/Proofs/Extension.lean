import Timeline.Proofs.Storage
import Timeline.Settings.Basic

/-! Paths that end in an extension.

The last step of such a path is a name that ends in the extension too, and the place that the path leads to
has this name. So without links paths with different extensions lead to different places, and writing the one
leaves the other as it is (`read_write`). -/
namespace Timeline

open PathPair (hasExtension)

theorem PathPair.getLast?_of_hasExtension {extension path : String} {c : Char} (h : hasExtension extension path = true)
    (hlast : extension.toList.getLast? = some c) : path.toList.getLast? = some c := by
  obtain ⟨front, hfront⟩ := List.isSuffixOf_iff_suffix.mp h
  rw [← hfront, List.getLast?_append, hlast]
  rfl

/-- An extension ends the last step of a path. -/
theorem FileSystem.steps_of_hasExtension {extension path : String} (h : hasExtension extension path = true)
    (hslash : '/' ∉ extension.toList) (hne : extension.toList ≠ []) :
    ∃ init name, steps path = init ++ [name] ∧ extension.toList <:+ name.toList := by
  obtain ⟨front, hfront⟩ := List.isSuffixOf_iff_suffix.mp h
  obtain ⟨init, last, -, hfields⟩ := Text.fields_append hslash front
  refine ⟨(init.filter (· ≠ [])).map String.ofList, String.ofList (last ++ extension.toList), ?_, ?_⟩
  · rw [steps, Path.pieces, ← hfront, hfields, List.filter_append, List.map_append]
    congr 1
    simp [hne]
  · rw [String.toList_ofList]
    exact List.suffix_append last extension.toList

namespace FileSystem

variable {fs after : FileSystem} {start place other : List String} {name : String}

theorem walk_append (fs : FileSystem) (start first second : List String) :
    fs.walk start (first ++ second) = (fs.walk start first).bind (fs.walk · second) := by
  induction first generalizing start with
  | nil => rfl
  | cons step first ih =>
    rw [List.cons_append, walk, walk]
    split
    · rfl
    · split_ifs
      · exact ih start
      · exact ih _
      · rfl
      · exact ih _

/-- A walk whose last step is a name ends under this name. -/
theorem walk_name {init : List String} (h : fs.walk start (init ++ [name]) = .ok place) (hpoint : name ≠ ".")
    (hup : name ≠ "..") : ∃ parent, place = parent ++ [name] := by
  rw [walk_append] at h
  cases hinit : fs.walk start init with
  | error fault =>
    rw [hinit] at h
    cases h
  | ok parent =>
    rw [hinit] at h
    change fs.walk parent [name] = .ok place at h
    rw [walk] at h
    split at h
    · cases h
    · rw [if_neg hpoint, if_neg hup] at h
      split at h
      · cases h
      · cases h
        exact ⟨parent, rfl⟩

theorem locate_name {path : String} {init : List String} (h : fs.locate path (init ++ [name]) = .ok place)
    (hpoint : name ≠ ".") (hup : name ≠ "..") : ∃ parent, place = parent ++ [name] := by
  rw [locate] at h
  split_ifs at h
  all_goals exact walk_name h hpoint hup

/-- The place of a path with an extension has a name with the extension. -/
theorem locate_of_hasExtension {extension path : String} {c : Char} (hlocate : fs.locate path (steps path) = .ok place)
    (h : hasExtension extension path = true) (hslash : '/' ∉ extension.toList)
    (hlast : extension.toList.getLast? = some c) (hc : c ≠ '.') :
    ∃ parent name, place = parent ++ [name] ∧ name.toList.getLast? = some c := by
  have hne : extension.toList ≠ [] := by
    intro hnil
    rw [hnil] at hlast
    cases hlast
  obtain ⟨init, name, hsteps, hsuffix⟩ := steps_of_hasExtension h hslash hne
  have hend := PathPair.getLast?_of_hasExtension (List.isSuffixOf_iff_suffix.mpr hsuffix) hlast
  have hpoint : name ≠ "." := by
    rintro rfl
    exact hc (Option.some.inj hend).symm
  have hup : name ≠ ".." := by
    rintro rfl
    exact hc (Option.some.inj hend).symm
  rw [hsteps] at hlocate
  obtain ⟨parent, hparent⟩ := locate_name hlocate hpoint hup
  exact ⟨parent, name, hparent, hend⟩

/-- Without links writing a file leaves a file with another extension as it is. -/
theorem read_write {input output : String} {content text : ByteArray} (hin : hasExtension ".css" input = true)
    (hout : hasExtension ".json" output = true) (hread : fs.read input = .ok content)
    (hwrite : fs.write output text = .ok after) : after.read input = .ok content := by
  obtain ⟨place, hplace, hfile, rfl⟩ := write_eq_ok hwrite
  rw [read] at hread ⊢
  cases hinput : fs.locate input (steps input) with
  | error fault =>
    rw [hinput] at hread
    cases hread
  | ok other =>
    have hne : other ≠ place := by
      obtain ⟨parent, name, hn, hcss⟩ :=
        locate_of_hasExtension hinput hin (c := 's') (by decide) (by decide) (by decide)
      obtain ⟨parent', name', hn', hjson⟩ :=
        locate_of_hasExtension hplace hout (c := 'n') (by decide) (by decide) (by decide)
      rintro rfl
      obtain ⟨-, hname⟩ := List.append_inj' (hn.symm.trans hn') rfl
      cases hname
      rw [hcss] at hjson
      cases hjson
    rw [hinput] at hread
    rw [locate_put hfile hinput]
    simp only [ entry?_put (ne_nil_of_file hfile), if_neg hne]
    exact hread

end FileSystem

namespace PathPair

/-- Paths that are accepted are different. -/
theorem ne_of_resolve {input output base : String} {paths : PathPair} (h : resolve input output base = .ok paths) :
    hasExtension ".css" paths.input = true ∧ hasExtension ".json" paths.output = true ∧
      paths.input ≠ paths.output := by
  rw [resolve] at h
  split_ifs at h with hin hout
  cases h
  have hin : hasExtension ".css" (place base input) = true := by simpa using hin
  have hout : hasExtension ".json" (place base output) = true := by simpa using hout
  refine ⟨hin, hout, ?_⟩
  intro (hsame : place base input = place base output)
  have hcss := getLast?_of_hasExtension hin (c := 's') (by decide)
  rw [hsame, getLast?_of_hasExtension hout (c := 'n') (by decide)] at hcss
  cases hcss

end PathPair

end Timeline
