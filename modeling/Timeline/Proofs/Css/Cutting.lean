import Timeline.Proofs.Css.Nesting

/-! Where content is cut.

Content is cut behind its blanks and comments, and in front of marks. Each cut is found again
from its two sides: blanks and comments in front make no difference to what follows
(`skipTrivia_append`), and whatever has no mark of its own lies in front of the cut
(`upTo_append_of_free`, `past_append_of_free`). -/
namespace Timeline.Css.Content

open Text (Position)

/-! ### Blanks and comments -/

/-- Nothing but blanks and comments. -/
def IsTrivia : Content → Prop
  | nil => True
  | token t rest => t.kind.isTrivia = true ∧ rest.IsTrivia
  | block .. => False

theorem isTrivia_trivia (c : Content) : c.trivia.IsTrivia := by
  induction c with
  | nil => trivial
  | token t rest ih => by_cases h : t.kind.isTrivia <;> simp [trivia, IsTrivia, h, ih]
  | block => trivial

theorem skipTrivia_append {lead : Content} (h : lead.IsTrivia) (c : Content) :
    (lead.append c).skipTrivia = c.skipTrivia := by
  induction lead with
  | nil => rfl
  | token t rest ih => rw [append, skipTrivia, if_pos h.1, ih h.2]
  | block => exact h.elim

theorem IsTrivia.skipTrivia {c : Content} (h : c.IsTrivia) : c.skipTrivia = nil := by
  have := skipTrivia_append h nil
  rwa [append_nil] at this

/-- Nothing is left when blanks and comments are all there is. -/
theorem isTrivia_of_skipTrivia {c : Content} (h : c.skipTrivia = nil) : c.IsTrivia := by
  have hc := trivia_append_skipTrivia c
  rw [h, append_nil] at hc
  rw [← hc]
  exact isTrivia_trivia c

/-- What begins with a token or block of its own, with no blank or comment in front. -/
def Significant : Content → Prop
  | nil => False
  | token t _ => t.kind.isTrivia = false
  | block .. => True

theorem Significant.skipTrivia {c : Content} (h : c.Significant) : c.skipTrivia = c := by
  cases c with
  | nil => exact h.elim
  | token t rest => rw [Content.skipTrivia, if_neg (by rw [h]; decide)]
  | block => rfl

theorem Significant.trivia {c : Content} (h : c.Significant) : c.trivia = nil := by
  cases c with
  | nil => rfl
  | token t rest => rw [Content.trivia, if_neg (by rw [h]; decide)]
  | block => rfl

theorem Significant.append {c : Content} (h : c.Significant) (d : Content) : (c.append d).Significant := by
  cases c with
  | nil => exact h.elim
  | token => exact h
  | block => trivial

theorem Significant.of_append {c d : Content} (h : (c.append d).Significant) (hc : c ≠ nil) : c.Significant := by
  cases c with
  | nil => exact absurd rfl hc
  | token => exact h
  | block => trivial

/-- Blanks and comments skipped, nothing is left or something significant. -/
theorem significant_skipTrivia {c : Content} (h : c.skipTrivia ≠ nil) : c.skipTrivia.Significant := by
  induction c with
  | nil => exact absurd rfl h
  | token t rest ih =>
    by_cases ht : t.kind.isTrivia
    · rw [Content.skipTrivia, if_pos ht] at h ⊢
      exact ih h
    · rw [Content.skipTrivia, if_neg ht]
      simpa [Significant] using ht
  | block => trivial

/-! ### Marks -/

/-- The marks that stand outside of all blocks. -/
def marks : Content → List Mark
  | nil => []
  | token t rest => t.mark?.toList ++ rest.marks
  | block b _ _ _ rest => b.mark?.toList ++ rest.marks

/-- None of some marks stands outside of all blocks. -/
def Free (stops : List Mark) (c : Content) : Prop := ∀ m ∈ stops, m ∉ c.marks

theorem marks_append (c d : Content) : (c.append d).marks = c.marks ++ d.marks := by
  induction c with
  | nil => rfl
  | token t rest ih => simp only [append, marks, ih, List.append_assoc]
  | block b opening body closing rest _ ih => simp only [append, marks, ih, List.append_assoc]

variable {stops : List Mark}

theorem free_append {c d : Content} : (c.append d).Free stops ↔ c.Free stops ∧ d.Free stops := by
  simp only [Free, marks_append, List.mem_append, not_or]
  exact ⟨fun h => ⟨fun m hm => (h m hm).1, fun m hm => (h m hm).2⟩, fun h m hm => ⟨h.1 m hm, h.2 m hm⟩⟩

theorem Free.mono {c : Content} {fewer : List Mark} (h : c.Free stops) (hs : ∀ m ∈ fewer, m ∈ stops) :
    c.Free fewer := fun m hm => h m (hs m hm)

theorem found_eq_false {mark : Option Mark} : Mark.found stops mark = false ↔ ∀ m ∈ stops, m ∉ mark.toList := by
  cases mark with
  | none => simp [Mark.found]
  | some mark =>
    simp only [Mark.found, Option.any_some, List.contains_eq_mem, decide_eq_false_iff_not, Option.toList_some,
      List.mem_singleton]
    exact ⟨fun h m hm he => h (he ▸ hm), fun h hm => h mark hm rfl⟩

theorem free_token {t : Token} {rest : Content} :
    (token t rest).Free stops ↔ Mark.found stops t.mark? = false ∧ rest.Free stops := by
  rw [found_eq_false]
  exact free_append (c := token t nil) (d := rest) |>.trans (by simp [Free, marks])

theorem free_block {b : Bracket} {opening : Token} {body : Content} {closing : Option Token} {rest : Content} :
    (block b opening body closing rest).Free stops ↔ Mark.found stops b.mark? = false ∧ rest.Free stops := by
  rw [found_eq_false]
  exact free_append (c := block b opening body closing nil) (d := rest) |>.trans (by simp [Free, marks])

theorem IsTrivia.free {c : Content} (h : c.IsTrivia) : c.Free stops := by
  induction c with
  | nil => simp [Free, marks]
  | token t rest ih =>
    refine free_token.mpr ⟨?_, ih h.2⟩
    obtain ⟨kind, text⟩ := t
    have hk : kind.isTrivia = true := h.1
    cases kind <;> first | rfl | cases hk
  | block => exact h.elim

theorem free_upTo (c : Content) : (c.upTo stops).Free stops := by
  induction c with
  | nil => simp [upTo, Free, marks]
  | token t rest ih =>
    cases h : Mark.found stops t.mark? with
    | true => simp [upTo, h, Free, marks]
    | false => rw [upTo, h]; exact free_token.mpr ⟨h, ih⟩
  | block b opening body closing rest _ ih =>
    cases h : Mark.found stops b.mark? with
    | true => simp [upTo, h, Free, marks]
    | false => rw [upTo, h]; exact free_block.mpr ⟨h, ih⟩

theorem upTo_append_of_free {c : Content} (h : c.Free stops) (d : Content) :
    (c.append d).upTo stops = c.append (d.upTo stops) := by
  induction c with
  | nil => rfl
  | token t rest ih =>
    obtain ⟨hf, hr⟩ := free_token.mp h
    simp [append, upTo, hf, ih hr]
  | block b opening body closing rest _ ih =>
    obtain ⟨hf, hr⟩ := free_block.mp h
    simp [append, upTo, hf, ih hr]

theorem past_append_of_free {c : Content} (h : c.Free stops) (d : Content) :
    (c.append d).past stops = d.past stops := by
  induction c with
  | nil => rfl
  | token t rest ih =>
    obtain ⟨hf, hr⟩ := free_token.mp h
    simp [append, past, hf, ih hr]
  | block b opening body closing rest _ ih =>
    obtain ⟨hf, hr⟩ := free_block.mp h
    simp [append, past, hf, ih hr]

/-! ### Parts of whole content -/

theorem Whole.trivia {c : Content} (h : c.Whole) : c.trivia.Whole := by
  rw [← trivia_append_skipTrivia c] at h
  exact (whole_append.mp h).1

/-- Content with nothing wrong has no closing bracket outside of all blocks. -/
theorem free_closer_of_diagnostics {c : Content} {p : Position} (h : c.diagnostics p = []) : c.Free [.closer] := by
  induction c generalizing p with
  | nil => simp [Free, marks]
  | token t rest ih =>
    rw [diagnostics, List.append_eq_nil_iff] at h
    refine free_token.mpr ⟨?_, ih h.2⟩
    obtain ⟨kind, text⟩ := t
    cases kind <;> first | rfl | simp [Kind.fault?] at h
  | block b opening body closing rest _ ih =>
    rw [diagnostics, List.append_eq_nil_iff] at h
    refine free_block.mpr ⟨?_, ih h.2⟩
    cases b <;> rfl

theorem Free.closer {c : Content} (h : c.Free stops) (hw : c.Whole) : c.Free (stops ++ [.closer]) := by
  intro m hm
  rcases List.mem_append.mp hm with hm | hm
  · exact h m hm
  · exact free_closer_of_diagnostics (hw.diagnostics .origin) m hm

end Timeline.Css.Content
