import Timeline.Css.Reading
import Timeline.Proofs.Css.Cutting
import Timeline.Proofs.Css.Excerpt
import Timeline.Proofs.Css.Places

/-! Passages of a source.

A passage stands in a source if its tokens are a run of the source's tokens, if it begins where they do, and if behind it
comes a semicolon, a curly bracket or the end (`Passage.Stands`). The whole text does, and so do the parts that a passage
is taken apart into. When such a passage stands alone, its text is cut into the same tokens (`Passage.Stands.lex_excerpt`). -/
namespace Timeline.Css

open Text (Position)

/-- Semicolons and curly brackets. -/
def Kind.isBoundary : Kind → Bool
  | semicolon | opening .curly | closing .curly => true
  | _ => false

/-- A passage of a source: a run of its tokens at its place, up to a boundary or the end. -/
structure Passage.Stands (source : List Char) (p : Passage) : Prop where
  nested : p.content.Nested
  capped : p.content.Capped
  run : ∃ front back, lex source = front ++ (p.content.tokens ++ back) ∧
    front.foldl (fun q t => q.advance t.text) Position.origin = p.start ∧ ∀ t ∈ back.head?, t.kind.isBoundary = true

/-- A boundary is read as a mark of its own, whatever follows it. -/
theorem isSingle_of_boundary {ts : List Token} {cs : List Char} (h : lex cs = ts)
    (hts : ∀ t ∈ ts.head?, t.kind.isBoundary = true) : ∀ c ∈ cs.head?, isSingle c = true := by
  intro c hc
  obtain ⟨rest, rfl⟩ := List.head?_eq_some_iff.mp hc
  rw [lex] at h
  subst h
  have hk := hts _ rfl
  have hover : (scan c rest).1.kind.isOver = true := by
    cases hkind : (scan c rest).1.kind <;> rw [hkind] at hk <;> first | rfl | cases hk
  rcases scan_of_isOver hover with ⟨-, hr⟩ | ⟨hm, -⟩ | ⟨-, name, hf⟩
  · rw [hr] at hk
    cases hk
  · exact hm
  · rw [hf] at hk
    cases hk

/-- What is read up to semicolons or curly blocks ends at a boundary. Up to closing brackets it need not. -/
theorem Content.isBoundary_past {c : Content} {marks : List Mark} (h : c.Nested) (hm : .closer ∉ marks) :
    ∀ t ∈ (c.past marks).tokens.head?, t.kind.isBoundary = true := by
  rw [← upTo_append_past marks c] at h
  replace h := (nested_append.mp h).2
  rcases past_cases marks c with hn | ⟨t, rest, ht, hf⟩ | ⟨b, opening, body, closing, rest, hb, hf⟩
  · rw [hn]
    simp [tokens]
  · rw [ht]
    obtain ⟨kind, text⟩ := t
    cases kind <;> simp_all [Mark.found, Token.mark?, tokens, Kind.isBoundary]
  · rw [hb] at h ⊢
    obtain rfl : b = .curly := by cases b <;> simp_all [Mark.found, Bracket.mark?]
    have ho := h.1
    cases hk : opening.kind <;> simp_all [Kind.opens?, tokens, Kind.isBoundary]

namespace Passage

variable {source : List Char} {p : Passage} {c d : Content} {start : Position} {marks : List Mark}

theorem stands_ofText (source : List Char) : (ofText source).Stands source :=
  ⟨Content.nested_read none _, Content.capped_read none _, [], [],
    by rw [ofText, Content.ofText, Content.tokens_ofTokens, List.append_nil, List.nil_append], rfl, by simp⟩

namespace Stands

theorem right (h : p.Stands source) (hp : p.content = c.append d) : Stands source ⟨c.after p.start, d⟩ := by
  obtain ⟨hnested, hcapped, front, back, hsource, hstart, hback⟩ := h
  rw [hp] at hnested hcapped hsource
  refine ⟨(Content.nested_append.mp hnested).2, hcapped.of_append.2, front ++ c.tokens, back, ?_, ?_, hback⟩
  · rw [hsource, Content.tokens_append, List.append_assoc, List.append_assoc]
  · rw [List.foldl_append, hstart, Content.after_eq_foldl]

/-- The part in front of a boundary. -/
theorem left (h : p.Stands source) (hp : p.content = c.append d)
    (hd : ∀ t ∈ d.tokens.head?, t.kind.isBoundary = true) : Stands source ⟨p.start, c⟩ := by
  obtain ⟨hnested, hcapped, front, back, hsource, hstart, hback⟩ := h
  rw [hp] at hnested hcapped hsource
  refine ⟨(Content.nested_append.mp hnested).1, hcapped.of_append.1, front, d.tokens ++ back, ?_, hstart, ?_⟩
  · rw [hsource, Content.tokens_append, List.append_assoc]
  · cases hts : d.tokens with
    | nil => exact hback
    | cons t ts =>
      rw [hts] at hd
      exact hd

theorem token {t : Token} {rest : Content} (h : p.Stands source) (hp : p.content = .token t rest) :
    Stands source ⟨p.start.advance t.text, rest⟩ :=
  h.right (c := .token t .nil) hp

theorem skipTrivia (h : p.Stands source) : p.skipTrivia.Stands source :=
  h.right (Content.trivia_append_skipTrivia p.content).symm

theorem past (h : p.Stands source) (marks : List Mark) : (p.past marks).Stands source :=
  h.right (Content.upTo_append_past marks p.content).symm

theorem upTo (h : p.Stands source) (hm : .closer ∉ marks) : (p.upTo marks).Stands source :=
  h.left (Content.upTo_append_past marks p.content).symm (Content.isBoundary_past h.nested hm)

/-- A block that is not closed has nothing behind it but the end of what it stands in. -/
theorem frame? {f : Frame} (h : p.Stands source) (hf : p.frame? = some f) :
    f.body.Stands source ∧ f.rest.Stands source := by
  unfold Passage.frame? at hf
  split at hf
  · rename_i opening body closing rest hc
    obtain rfl := Option.some.inj hf
    refine ⟨?_, h.right (c := .block .curly opening body closing .nil) hc⟩
    obtain ⟨hnested, hcapped, front, back, hsource, hstart, hback⟩ := h
    rw [hc] at hnested hcapped hsource
    obtain ⟨-, hbody, hclosing, -⟩ := hnested
    refine ⟨hbody, hcapped.1, front ++ [opening], closing.toList ++ (rest.tokens ++ back), ?_, ?_, ?_⟩
    · rw [hsource, Content.tokens]
      simp
    · rw [List.foldl_append, hstart]
      rfl
    · cases closing with
      | none =>
        rw [hcapped.2.1 rfl]
        exact hback
      | some t =>
        intro t' ht
        obtain rfl := Option.some.inj ht
        rw [hclosing t rfl]
        rfl
  · cases hf

theorem skipSemicolon (h : p.Stands source) : p.skipSemicolon.Stands source := by
  unfold Passage.skipSemicolon
  split
  · rename_i hc
    exact h.token hc
  · exact h

/-- **The tokens of a passage are those of its text when it stands alone**, and its excerpt has the significant ones
among them, if stripping and trimming leave them as they were. -/
theorem lex_excerpt (h : p.Stands source) :
    lex p.content.text = p.content.tokens ∧
      (Untouched p.content.tokens → significant (lex p.excerpt) = significant p.content.tokens) := by
  obtain ⟨-, -, front, back, hsource, -, hback⟩ := h
  have htexts := lex_texts source
  rw [hsource, List.flatMap_append, List.flatMap_append] at htexts
  rw [← htexts] at hsource
  have hrun := lex_of_append hsource
  have hbehind : lex (back.flatMap Token.text) = back := lex_of_append hrun
  have hfronts : Fronts p.content.tokens (back.flatMap Token.text) := by rw [Fronts, hrun, hbehind]
  have hsingle := isSingle_of_boundary hbehind hback
  exact ⟨Content.lex_text hfronts hsingle, Content.significant_lex_excerpt hfronts hsingle⟩

end Stands

end Passage

/-- What each step of a reader finds in a passage of the source holds of all that it finds there. -/
theorem ItemReader.forall_mem_run {α : Type} {reader : ItemReader α} {source : List Char} {found : α → Prop}
    (hstep : ∀ p s, p.Stands source → reader.next p = some s → (∀ x ∈ s.items, found x) ∧ s.rest.Stands source)
    {p : Passage} (hp : p.Stands source) : ∀ x ∈ (reader.run p).items, found x := by
  fun_induction reader.run p with
  | case1 => simp
  | case2 p s hn _ more ih =>
    obtain ⟨hitems, hrest⟩ := hstep p s hp hn
    exact List.forall_mem_append.mpr ⟨hitems, ih hrest⟩

end Timeline.Css
