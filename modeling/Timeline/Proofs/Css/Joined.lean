import Timeline.Css.Reading
import Timeline.Proofs.Css.Nesting

/-! Content that goes on behind a curly block.

Nothing that is looked for in content reaches past its last curly block: where content ends in such
a block, what is found up to it does not depend on what is put behind (`Passage.append`). A reader
whose steps stay within such content reads it and what follows it one after the other
(`ItemReader.run_append`). -/
namespace Timeline.Css

open Text (Position)

namespace Content

/-! ### Content -/

/-- Content whose last value is a block in curly brackets. -/
inductive EndsInBlock : Content → Prop where
  | last {opening : Token} {body : Content} {closing : Option Token} :
      EndsInBlock (block .curly opening body closing nil)
  | token {t : Token} {rest : Content} : EndsInBlock rest → EndsInBlock (token t rest)
  | block {b : Bracket} {opening : Token} {body : Content} {closing : Option Token} {rest : Content} :
      EndsInBlock rest → EndsInBlock (block b opening body closing rest)

/-- What may be left of content that ends in a curly block: all of that block, or nothing of it. -/
def Unbroken (c : Content) : Prop := c = nil ∨ c.EndsInBlock

theorem EndsInBlock.tail {t : Token} {rest : Content} (h : (Content.token t rest).EndsInBlock) : rest.EndsInBlock := by
  cases h
  assumption

theorem EndsInBlock.behind {b : Bracket} {opening : Token} {body : Content} {closing : Option Token} {rest : Content}
    (h : (Content.block b opening body closing rest).EndsInBlock) : rest.Unbroken := by
  cases h with
  | last => exact .inl rfl
  | block h => exact .inr h

theorem EndsInBlock.ne_nil {c : Content} (h : c.EndsInBlock) : c ≠ nil := by
  intro hn
  subst hn
  cases h

theorem tokens_ne_nil {c : Content} (h : c ≠ nil) : c.tokens ≠ [] := by
  cases c with
  | nil => exact absurd rfl h
  | token => simp [tokens]
  | block => simp [tokens]

/-- Balanced content ends in a curly block if its last token closes one. -/
theorem Whole.endsInBlock {c : Content} (hw : c.Whole) {t : Token} (hl : c.tokens.getLast? = some t)
    (ht : t.kind = .closing .curly) : c.EndsInBlock := by
  induction c with
  | nil => cases hl
  | token u rest ih =>
    by_cases hr : rest = nil
    · subst hr
      obtain rfl : u = t := Option.some.inj hl
      have hf := hw.1.2
      rw [ht] at hf
      cases hf
    · refine .token (ih hw.2 ?_)
      obtain ⟨v, ts, hts⟩ := List.exists_cons_of_ne_nil (tokens_ne_nil hr)
      rw [tokens, hts, List.getLast?_cons_cons, ← hts] at hl
      exact hl
  | block b opening body closing rest _ ih =>
    obtain ⟨-, -, ⟨u, rfl, hu⟩, hrest⟩ := hw
    have htokens : (block b opening body (some u) rest).tokens = (opening :: body.tokens) ++ (u :: rest.tokens) := by
      simp [tokens]
    rw [htokens, List.getLast?_append] at hl
    by_cases hr : rest = nil
    · subst hr
      obtain rfl : u = t := Option.some.inj hl
      obtain rfl : b = .curly := Kind.closing.inj (hu.symm.trans ht)
      exact .last
    · refine .block (ih hrest ?_)
      obtain ⟨v, ts, hts⟩ := List.exists_cons_of_ne_nil (tokens_ne_nil hr)
      rw [hts, List.getLast?_cons_cons, ← hts, List.getLast?_eq_some_getLast (tokens_ne_nil hr), Option.some_or,
        ← List.getLast?_eq_some_getLast] at hl
      exact hl

variable {c : Content} (h : c.EndsInBlock) (d : Content)

include h

theorem EndsInBlock.trivia_append : (c.append d).trivia = c.trivia := by
  induction h with
  | last => rfl
  | @token t rest _ ih => by_cases ht : t.kind.isTrivia <;> simp [append, trivia, ht, ih]
  | block => rfl

theorem EndsInBlock.skipTrivia_append : (c.append d).skipTrivia = c.skipTrivia.append d := by
  induction h with
  | last => rfl
  | @token t rest _ ih => by_cases ht : t.kind.isTrivia <;> simp [append, Content.skipTrivia, ht, ih]
  | block => rfl

theorem EndsInBlock.skipTrivia : c.skipTrivia.EndsInBlock := by
  induction h with
  | last => exact .last
  | @token t rest hr ih =>
    rw [Content.skipTrivia]
    split
    · exact ih
    · exact .token hr
  | block hr => exact .block hr

variable {marks : List Mark} (hm : .curlyBlock ∈ marks)

include hm

theorem EndsInBlock.upTo_append : (c.append d).upTo marks = c.upTo marks := by
  induction h with
  | last => simp [append, upTo, Mark.found, Bracket.mark?, hm]
  | @token t rest _ ih => by_cases ht : Mark.found marks t.mark? <;> simp [append, upTo, ht, ih]
  | @block b _ _ _ rest _ ih => by_cases hb : Mark.found marks b.mark? <;> simp [append, upTo, hb, ih]

theorem EndsInBlock.past_append : (c.append d).past marks = (c.past marks).append d := by
  induction h with
  | last => simp [append, past, Mark.found, Bracket.mark?, hm]
  | @token t rest _ ih => by_cases ht : Mark.found marks t.mark? <;> simp [append, past, ht, ih]
  | @block b _ _ _ rest _ ih => by_cases hb : Mark.found marks b.mark? <;> simp [append, past, hb, ih]

theorem EndsInBlock.past : (c.past marks).EndsInBlock := by
  induction h with
  | last =>
    have hfound : Mark.found marks Bracket.curly.mark? = true := by simpa [Mark.found, Bracket.mark?] using hm
    rw [Content.past, if_pos hfound]
    exact .last
  | token hr ih =>
    rw [Content.past]
    split
    · exact .token hr
    · exact ih
  | block hr ih =>
    rw [Content.past]
    split
    · exact .block hr
    · exact ih

end Content

/-! ### Passages -/

namespace Passage

/-- A passage with more content behind it. -/
def append (p : Passage) (d : Content) : Passage := ⟨p.start, p.content.append d⟩

/-- The content of `q` is what is left of the content of `p`, unbroken. -/
structure Leaves (p q : Passage) : Prop where
  unbroken : q.content.Unbroken
  stop : q.stop = p.stop

theorem stop_skipTrivia (p : Passage) : p.skipTrivia.stop = p.stop := by
  show p.content.skipTrivia.after (p.content.trivia.after p.start) = _
  rw [← Content.after_append, Content.trivia_append_skipTrivia]
  rfl

theorem stop_past (marks : List Mark) (p : Passage) : (p.past marks).stop = p.stop := by
  show (p.content.past marks).after ((p.content.upTo marks).after p.start) = _
  rw [← Content.after_append, Content.upTo_append_past]
  rfl

theorem stop_skipSemicolon (p : Passage) : p.skipSemicolon.stop = p.stop := by
  unfold skipSemicolon
  split
  · rename_i text rest hc
    rw [stop, stop, hc]
    rfl
  · rfl

theorem stop_frame? {p : Passage} {f : Frame} (h : p.frame? = some f) : f.rest.stop = p.stop := by
  unfold frame? at h
  split at h
  · rename_i opening body closing rest hc
    obtain rfl := Option.some.inj h
    rw [stop, stop, hc]
    rfl
  · cases h

section EndsInBlock

variable {p : Passage} (h : p.content.EndsInBlock) (d : Content)

include h

theorem trivia_append : (p.append d).trivia = p.trivia :=
  congrArg (Passage.mk p.start) (h.trivia_append d)

theorem skipTrivia_append : (p.append d).skipTrivia = p.skipTrivia.append d := by
  rw [skipTrivia, trivia_append h]
  exact congrArg (Passage.mk p.trivia.stop) (h.skipTrivia_append d)

theorem upTo_append {marks : List Mark} (hm : .curlyBlock ∈ marks) :
    (p.append d).upTo marks = p.upTo marks :=
  congrArg (Passage.mk p.start) (h.upTo_append d hm)

theorem past_append {marks : List Mark} (hm : .curlyBlock ∈ marks) :
    (p.append d).past marks = (p.past marks).append d := by
  rw [past, upTo_append h d hm]
  exact congrArg (Passage.mk (p.upTo marks).stop) (h.past_append d hm)

omit d in
theorem endsInBlock_past {marks : List Mark} (hm : .curlyBlock ∈ marks) : (p.past marks).content.EndsInBlock :=
  h.past hm

theorem frame?_append : (p.append d).frame? = p.frame?.map fun f => { f with rest := f.rest.append d } := by
  obtain ⟨start, content⟩ := p
  cases content with
  | nil => exact absurd rfl h.ne_nil
  | token => rfl
  | block b => cases b <;> rfl

theorem leaves_frame? {f : Frame} (hf : p.frame? = some f) : p.Leaves f.rest := by
  refine ⟨?_, stop_frame? hf⟩
  unfold frame? at hf
  split at hf
  · rename_i hc
    obtain rfl := Option.some.inj hf
    rw [hc] at h
    exact h.behind
  · cases hf

theorem skipSemicolon_append : (p.append d).skipSemicolon = p.skipSemicolon.append d := by
  obtain ⟨start, content⟩ := p
  cases content with
  | nil => exact absurd rfl h.ne_nil
  | token t rest =>
    obtain ⟨kind, text⟩ := t
    cases kind <;> rfl
  | block => rfl

theorem leaves_skipSemicolon : p.Leaves p.skipSemicolon := by
  refine ⟨.inr ?_, stop_skipSemicolon p⟩
  unfold skipSemicolon
  split
  · rename_i hc
    rw [hc] at h
    exact h.tail
  · exact h

end EndsInBlock

theorem Leaves.of_past {p q : Passage} {marks : List Mark} (h : (p.past marks).Leaves q) : p.Leaves q :=
  ⟨h.unbroken, h.stop.trans (stop_past marks p)⟩

end Passage

/-! ### Readers -/

section Readers

variable {α : Type}

/-- A step that leaves more content behind what it leaves. -/
def Step.append (s : Step α) (d : Content) : Step α := { s with rest := s.rest.append d }

/-- A reader that takes its steps within content that ends in a curly block, whatever follows. -/
def ItemReader.StaysWithin (reader : ItemReader α) : Prop :=
  ∀ p : Passage, p.content.EndsInBlock → ∃ s, reader.next p = some s ∧ p.Leaves s.rest ∧
    ∀ d, reader.next (p.append d) = some (s.append d)

/-- **What ends in a curly block is read by itself, and then whatever follows it.** -/
theorem ItemReader.run_append (reader : ItemReader α) (h : reader.StaysWithin)
    (hnil : ∀ start, reader.next ⟨start, .nil⟩ = none) {p : Passage} (hp : p.content.Unbroken) (d : Content) :
    reader.run (p.append d) =
      ⟨(reader.run p).items ++ (reader.run ⟨p.stop, d⟩).items,
        (reader.run p).diagnostics ++ (reader.run ⟨p.stop, d⟩).diagnostics⟩ := by
  fun_induction reader.run p with
  | case1 p hn =>
    rcases hp with hc | hc
    · obtain ⟨start, content⟩ := p
      obtain rfl : content = .nil := hc
      rfl
    · obtain ⟨s, hs, -⟩ := h p hc
      rw [hn] at hs
      cases hs
  | case2 p s hn _ more ih =>
    rcases hp with hc | hc
    · obtain ⟨start, content⟩ := p
      obtain rfl : content = .nil := hc
      rw [hnil] at hn
      cases hn
    · obtain ⟨s', hs, hleaves, happ⟩ := h p hc
      obtain rfl := Option.some.inj (hn.symm.trans hs)
      rw [reader.run_of_some (happ d)]
      show Reading.mk (s.items ++ (reader.run (s.rest.append d)).items)
        (s.diagnostics ++ (reader.run (s.rest.append d)).diagnostics) = _
      rw [ih hleaves.unbroken, hleaves.stop]
      simp only [List.append_assoc, more]

end Readers

end Timeline.Css
