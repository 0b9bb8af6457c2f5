import Mathlib.Tactic.SplitIfs
import Timeline.FileSystem

/-! What a write changes.

Paths lead to places, and a place may have an entry. A storage is lawful if a write that succeeds gives the
place that its path leads to exactly the content, and no other place anything else (`OnlyHolds`); two
paths may lead to one place. The file system without links is lawful. -/
namespace Timeline

/-- A storage with places, of which a write changes one. -/
class LawfulStorage (σ : Type) extends Storage σ where
  Place : Type
  /-- Where the file of a path is, if the path leads anywhere. -/
  place? : σ → String → Option Place
  entry? : σ → Place → Option FileEntry
  write_place {before after : σ} {path : String} {content : ByteArray} (h : write before path content = .ok after) :
    ∃ place, place? after path = some place ∧ entry? after place = some (.file content) ∧
      ∀ other, other ≠ place → entry? after other = entry? before other

/-- Everything is as before, but for the file of a path, which holds exactly some content. -/
def OnlyHolds {σ : Type} [LawfulStorage σ] (before after : σ) (path : String) (content : ByteArray) : Prop :=
  ∃ place, LawfulStorage.place? after path = some place ∧ LawfulStorage.entry? after place = some (.file content) ∧
    ∀ other, other ≠ place → LawfulStorage.entry? after other = LawfulStorage.entry? before other

namespace FileSystem

variable {fs : FileSystem} {place other start : List String} {content : ByteArray}

/-! ### Putting a file in its place -/

theorem ne_nil_of_file (h : fs.entry? place ≠ some .directory) : place ≠ [] := by
  rintro rfl
  exact h rfl

/-- Another content does not move an entry. -/
theorem find?_map_entries (entries : List (List String × FileEntry)) :
    (entries.map fun e => if e.1 = place then (e.1, FileEntry.file content) else e).find? (·.1 = other) =
      (entries.find? (·.1 = other)).map fun e => if e.1 = place then (e.1, FileEntry.file content) else e := by
  rw [List.find?_map]
  congr 2
  funext e
  by_cases he : e.1 = place <;> simp [he]

theorem entry?_put (hplace : place ≠ []) :
    entry? (fs.put place content) other = if other = place then some (.file content) else fs.entry? other := by
  by_cases hroot : other = []
  · have hne : ¬ other = place := fun h => hplace (h.symm.trans hroot)
    rw [if_neg hne, entry?, entry?, if_pos hroot, if_pos hroot]
  rw [ entry?, entry?, if_neg hroot, if_neg hroot, put]
  split
  · rename_i hany
    rw [find?_map_entries]
    cases hfind : fs.entries.find? (·.1 = other) with
    | none =>
      have hne : ¬ other = place := by
        rintro rfl
        obtain ⟨e, he, hp⟩ := List.any_eq_true.mp hany
        exact List.find?_eq_none.mp hfind e he hp
      simp [hne]
    | some e =>
      have he : e.1 = other := by simpa using List.find?_some hfind
      by_cases ho : other = place <;> simp [he, ho]
  · rename_i hany
    rw [List.find?_append]
    by_cases ho : other = place
    · subst ho
      have hnone : fs.entries.find? (·.1 = other) = none := by
        rw [List.find?_eq_none]
        intro e he hp
        exact hany (List.any_eq_true.mpr ⟨e, he, hp⟩)
      simp [hnone]
    · have hne : ¬ place = other := fun h => ho h.symm
      simp [ho, hne]

/-- Directories stay directories. -/
theorem blocked?_put (hfile : fs.entry? other ≠ some .directory) (h : fs.blocked? place = none) :
    (fs.put other content).blocked? place = none := by
  have hdirectory : fs.entry? place = some .directory := by
    unfold blocked? at h
    split at h
    · assumption
    · cases h
    · cases h
  have hne : place ≠ other := by
    rintro rfl
    exact hfile hdirectory
  rw [blocked?, entry?_put (ne_nil_of_file hfile), if_neg hne, hdirectory]

/-- A walk needs directories only, so that a file somewhere does not stop it. -/
theorem walk_put {steps : List String} (hfile : fs.entry? other ≠ some .directory)
    (h : fs.walk start steps = .ok place) : (fs.put other content).walk start steps = .ok place := by
  induction steps generalizing start with
  | nil => exact h
  | cons step steps ih =>
    rw [walk] at h ⊢
    split at h
    · cases h
    rename_i hfree
    rw [blocked?_put hfile hfree]
    simp only at h ⊢
    split_ifs at h ⊢
    · exact ih h
    · exact ih h
    · exact ih h

theorem workingDirectory_put : (fs.put place content).workingDirectory = fs.workingDirectory := by
  unfold put
  split <;> rfl

theorem locate_put {path : String} {taken : List String} (hfile : fs.entry? other ≠ some .directory)
    (h : fs.locate path taken = .ok place) : (fs.put other content).locate path taken = .ok place := by
  rw [locate] at h ⊢
  rw [workingDirectory_put]
  split_ifs at h ⊢
  all_goals exact walk_put hfile h

/-! ### Writing -/

/-- A file is written where its path leads, which is not to a directory. -/
theorem write_eq_ok {path : String} {after : FileSystem} (h : fs.write path content = .ok after) :
    ∃ place, fs.locate path (steps path) = .ok place ∧ fs.entry? place ≠ some .directory ∧
      after = fs.put place content := by
  unfold write at h
  split at h
  · split at h <;> cases h
  split at h
  · cases h
  rename_i place hplace
  split at h
  · cases h
  rename_i hfile
  exact ⟨place, hplace, hfile, (Except.ok.inj h).symm⟩

instance : LawfulStorage FileSystem where
  Place := List String
  place? fs path := (fs.locate path (steps path)).toOption
  entry? := entry?
  write_place {before after path content} h := by
    obtain ⟨place, hplace, hfile, rfl⟩ := write_eq_ok h
    refine ⟨place, ?_, ?_, ?_⟩
    · rw [locate_put hfile hplace]
      rfl
    · rw [entry?_put (ne_nil_of_file hfile), if_pos rfl]
    · intro other hne
      rw [entry?_put (ne_nil_of_file hfile), if_neg hne]

end FileSystem

end Timeline
