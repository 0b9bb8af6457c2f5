import Timeline.Conversion

/-! What sessions do, step by step.

`Yields x files a after`: from some files on, the session `x` answers `a`, leaves other files, and logs
records, whatever was logged before. What a session of several steps yields is put together from what the
steps yield (`Yields.bind`). -/
namespace Timeline

open Journal (Event Logged Record)

variable {σ α β : Type} {files after last : σ}

def Yields (x : SessionOn σ α) (files : σ) (a : α) (after : σ) : Prop :=
  ∃ records : List Record, ∀ events : List Event,
    x.run ⟨files, events⟩ = (a, ⟨after, events ++ records.map .record⟩)

namespace Yields

theorem pure (a : α) (files : σ) : Yields (Pure.pure a : SessionOn σ α) files a files :=
  ⟨[], fun events => by rw [List.map_nil, List.append_nil]; rfl⟩

theorem bind {x : SessionOn σ α} {f : α → SessionOn σ β} {a : α} {b : β} (hx : Yields x files a after)
    (hf : Yields (f a) after b last) : Yields (x >>= f) files b last := by
  obtain ⟨first, hfirst⟩ := hx
  obtain ⟨second, hsecond⟩ := hf
  refine ⟨first ++ second, fun events => ?_⟩
  rw [StateT.run_bind, hfirst]
  show (f a).run ⟨after, events ++ first.map .record⟩ = _
  rw [hsecond, List.map_append, List.append_assoc]

variable [Storage σ]

theorem log (r : Record) (files : σ) : Yields (Host.log r : SessionOn σ Unit) files () files :=
  ⟨[r], fun _ => rfl⟩

theorem logAll (records : List Record) (files : σ) :
    Yields (Host.logAll records : SessionOn σ Unit) files () files := by
  induction records with
  | nil => exact pure () files
  | cons r records ih => exact (log r files).bind ih

theorem report (logged : Logged α) (files : σ) :
    Yields (Host.report logged : SessionOn σ α) files logged.result files :=
  (logAll logged.records files).bind (pure _ files)

theorem readText (path : String) (files : σ) :
    Yields (Host.readText path : SessionOn σ _) files (Storage.readText files path) files :=
  ⟨[], fun events => by rw [List.map_nil, List.append_nil]; rfl⟩

theorem writeFile_error {path : String} {content : ByteArray} {fault : FileFault}
    (h : Storage.write files path content = .error fault) :
    Yields (Host.writeFile path content : SessionOn σ _) files (.error fault) files := by
  refine ⟨[], fun events => ?_⟩
  simp only [Host.writeFile, StateT.run_bind, StateT.run_get, pure_bind, h, List.map_nil, List.append_nil]
  rfl

theorem writeFile_ok {path : String} {content : ByteArray} (h : Storage.write files path content = .ok after) :
    Yields (Host.writeFile path content : SessionOn σ _) files (.ok ()) after := by
  refine ⟨[], fun events => ?_⟩
  simp only [Host.writeFile, StateT.run_bind, StateT.run_get, pure_bind, h, List.map_nil, List.append_nil]
  rfl

end Yields

end Timeline
