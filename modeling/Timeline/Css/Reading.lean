import Timeline.Css.Passage

/-! Reading a passage item by item.

An item reader takes items off the front of a passage, with what it found wrong, and leaves
a smaller passage, so that reading all items ends. Whatever is left where the reader finds
nothing more is only searched for faults. -/
namespace Timeline.Css

structure Step (α : Type) where
  items : List α
  diagnostics : List Diagnostic
  rest : Passage

namespace Step

/-- The step with faults found before it. -/
def afterFaults {α : Type} (found : List Diagnostic) (s : Step α) : Step α :=
  { s with diagnostics := found ++ s.diagnostics }

end Step

/-- The items of a passage and its faults, in order. -/
structure Reading (α : Type) where
  items : List α
  diagnostics : List Diagnostic

structure ItemReader (α : Type) where
  next : Passage → Option (Step α)
  next_smaller : ∀ p s, next p = some s → s.rest.content.size < p.content.size

namespace ItemReader

def run {α : Type} (reader : ItemReader α) (p : Passage) : Reading α :=
  match h : reader.next p with
  | none => ⟨[], p.diagnostics⟩
  | some s =>
    have : s.rest.content.size < p.content.size := reader.next_smaller p s h
    let more := reader.run s.rest
    ⟨s.items ++ more.items, s.diagnostics ++ more.diagnostics⟩
termination_by p.content.size

theorem run_of_none {α : Type} (reader : ItemReader α) {p : Passage} (h : reader.next p = none) :
    reader.run p = ⟨[], p.diagnostics⟩ := by
  rw [run]
  split
  · rfl
  · simp_all

theorem run_of_some {α : Type} (reader : ItemReader α) {p : Passage} {s : Step α}
    (h : reader.next p = some s) :
    reader.run p = ⟨s.items ++ (reader.run s.rest).items,
      s.diagnostics ++ (reader.run s.rest).diagnostics⟩ := by
  rw [run]
  split
  · simp_all
  · rename_i h'
    rw [h, Option.some.injEq] at h'
    subst h'
    rfl

end ItemReader

end Timeline.Css
