import Timeline.Proofs.Cursor.Readers

/-! A cursor always goes on.

Whatever a cursor is asked to read, it has gone on if it gives an answer, and if it gives none it is where its text or its
block ends (`Progresses`). So no loop goes round in one place, and where a list of items ends nothing is left of the block
around them that would have to be passed. -/
namespace Timeline.Cursor

open Css (Mark)
open Sheet (Stylesheet)

variable {s q : Cursor} {α : Type} {item : Cursor → Option (Option α × Cursor)}

/-- Asked for an item, a cursor goes on and gives one, or it gives none where the text or its block ends. It stays in its
block either way, and loses nothing of the text. -/
def Progresses (item : Cursor → Option (Option α × Cursor)) : Prop :=
  ∀ s, ∃ answer q, item s = some (answer, q) ∧ q.source = s.source ∧ q.inside = s.inside ∧
    (answer = none → q.AtEnd) ∧ (answer.isSome → s.offset < q.offset)

/-- Behind the last item there is nothing to pass. -/
def Exhausts (item : Cursor → Option (Option α × Cursor)) : Prop :=
  ∀ s, ∃ xs q, items item s = some (xs, q) ∧ q.AtEnd ∧ q.drain = some q

theorem atEnd_of_nil (h : s.content = .nil) : s.AtEnd := atEnd_iff.mpr (token?_of_nil h)

theorem progresses_of_answer {reader : Css.ItemReader α} {recorded : α → List Journal.Record}
    (h : ∀ s, Answer reader recorded item s) : Progresses item := by
  intro s
  obtain ⟨answer, c, faults, records, q, hanswer, hpasses, hnone, hsome⟩ := item_eq h s
  exact ⟨answer, q, hanswer, hpasses.source_eq, hpasses.inside, fun hn => atEnd_of_nil (hnone hn),
    fun hs => hpasses.offset_lt (hsome hs)⟩

theorem exhausts_of_answer {reader : Css.ItemReader α} {recorded : α → List Journal.Record}
    (h : ∀ s, Answer reader recorded item s) : Exhausts item := by
  intro s
  obtain ⟨q, hq, hpasses⟩ := items_eq h s
  exact ⟨_, q, hq, atEnd_of_nil hpasses.of_all, drain_of_nil hpasses.of_all⟩

theorem progresses_skipValue : Progresses skipValue := by
  intro s
  by_cases h : s.content.skipTrivia = .nil
  · have hpasses := passes_skipTrivia s
    exact ⟨none, _, skipValue_none h, hpasses.source_eq, hpasses.inside,
      fun _ => atEnd_of_nil (by rw [content_skipTrivia, h]), by simp⟩
  · obtain ⟨q, hq, hpasses⟩ := passes_value h
    exact ⟨some (), q, hq, hpasses.source_eq, hpasses.inside, by simp,
      fun _ => hpasses.offset_lt fun hnil => Css.Content.first_ne_nil h (Css.Content.append_eq_nil hnil).2⟩

/-- **A cursor always goes on.** This holds for component values, declarations, keyframe blocks and rules, from wherever the
cursor is. All loops end, and nothing is left behind a list of items. A stylesheet is read to the end of its text. -/
theorem always_progresses :
    Progresses skipValue ∧ Progresses declaration ∧ Progresses keyframeBlock ∧ Progresses rule ∧
      Exhausts declaration ∧ Exhausts keyframeBlock ∧ Exhausts rule ∧
      (∀ s, ∃ q, drain s = some q ∧ q.AtEnd) ∧
      (∀ marks s, ∃ q, skipUpTo marks s = some q) ∧
      (∀ marks s, ∃ text q, cutUpTo marks s = some (text, q)) ∧
      ∀ source : String, ∃ s, items rule (start source.toList) = some ((Stylesheet.ofText source).rules, s) ∧
        s.drain = some s ∧ readAll source.toList = some ((Stylesheet.ofText source).rules, s) ∧
        s.faults = (Stylesheet.ofText source).diagnostics ∧ s.passed = source.toList ∧ s.ahead = [] := by
  refine ⟨progresses_skipValue, progresses_of_answer answer_declaration, progresses_of_answer answer_keyframeBlock,
    progresses_of_answer answer_rule, exhausts_of_answer answer_declaration, exhausts_of_answer answer_keyframeBlock,
    exhausts_of_answer answer_rule, fun s => ?_, fun marks s => ?_, fun marks s => ?_, fun source => ?_⟩
  · obtain ⟨q, hq, hpasses⟩ := drains s
    exact ⟨q, hq, atEnd_of_nil hpasses.of_all⟩
  · obtain ⟨q, hq, -⟩ := skipUpTo_eq marks s
    exact ⟨q, hq⟩
  · obtain ⟨q, hq, -⟩ := cutUpTo_eq marks s
    exact ⟨_, q, hq⟩
  · obtain ⟨s, hs⟩ := finishes source
    exact ⟨s, hs.items, hs.drain, hs.readAll, hs.faults, hs.passed, hs.ahead⟩

end Timeline.Cursor
