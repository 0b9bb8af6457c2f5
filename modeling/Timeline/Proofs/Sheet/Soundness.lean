import Timeline.Proofs.Sheet.Faults
import Timeline.Proofs.Sheet.Grammar

/-! What is read without faults follows the grammar.

One step of a reader that finds nothing wrong turns what the grammar says of the rest into what
it says of the whole (`Declaration.sound_step`, `KeyframeBlock.sound_step`, `Rule.sound_step`).
Along a run this gives it of all that is read (`Rule.sound`). -/
namespace Timeline

open Css (Content Diagnostic Mark Passage Step Token)
open Sheet (Declaration KeyframeBlock Rule)
open Text (Position)

/-! ### Passages without faults -/

namespace Css

theorem Extends.eq_nil {there : List Diagnostic} (h : Extends there []) : there = [] := by
  obtain ⟨added, -, hw⟩ := h
  cases hw
  rfl

namespace Passage

theorem frame?_eq_some {p : Passage} {f : Frame} (h : p.frame? = some f) :
    ∃ opening closing, p.content = .block .curly opening f.body.content closing f.rest.content := by
  unfold frame? at h
  split at h
  · rename_i opening body closing rest hc
    obtain rfl := Option.some.inj h
    exact ⟨opening, closing, hc⟩
  · cases h

/-- Content is its blanks and comments in front, and the rest. -/
theorem eq_trivia_append {p : Passage} {c : Content} (h : p.skipTrivia.content = c) :
    p.content = p.content.trivia.append c := by
  rw [← h]
  exact (Content.trivia_append_skipTrivia p.content).symm

/-- Content is what comes before some marks, and the rest. -/
theorem eq_upTo_append {p : Passage} {marks : List Mark} {c : Content} (h : (p.past marks).content = c) :
    p.content = (p.content.upTo marks).append c := by
  rw [← h]
  exact (Content.upTo_append_past marks p.content).symm

theorem content_skipSemicolon {p : Passage} {text : List Char} {rest : Content}
    (h : p.content = .token ⟨.semicolon, text⟩ rest) : p.skipSemicolon.content = rest := by
  simp only [skipSemicolon, h]

end Passage

end Css

namespace Sheet

open Grammar

/-! ### Declarations -/

/-- What is read in front of a semicolon or the end, with what the rest is read as. -/
theorem Declaration.sound_segment {c rest : Content} {found others : List Declaration} (hc : c.Free [.semicolon])
    (hs : Segment c found) (h : Declarations (rest.past [.semicolon]) others) :
    Declarations (c.append (rest.past [.semicolon])) (found ++ others) := by
  rcases Content.past_cases [.semicolon] rest with hn | ⟨t, more, ht, hm⟩ | ⟨b, o, body, closing, more, hb, hm⟩
  · rw [hn] at h ⊢
    rw [h.eq_nil, Content.append_nil, List.append_nil]
    exact .last hc hs
  · obtain ⟨kind, text⟩ := t
    have hk : kind = .semicolon := by
      cases kind <;> simp_all [Mark.found, Token.mark?]
    subst hk
    rw [ht] at h ⊢
    exact .more hc hs h.of_semicolon
  · cases b <;> cases hm

theorem Declaration.sound_afterProperty {start : Position} {property : String} {p : Passage} {s : Step Declaration}
    {others : List Declaration} (h : afterProperty start property p = s) (hd : s.diagnostics = [])
    (hr : Declarations s.rest.content others) {lead : Content} (hl : lead.IsTrivia) (text : List Char) :
    Declarations (lead.append (.token ⟨.ident property, text⟩ p.content)) (s.items ++ others) := by
  have gap := p.content.isTrivia_trivia
  unfold afterProperty at h
  dsimp only at h
  split at h
  · rename_i colon value hc
    subst h
    have hfree : (lead.append (.token ⟨.ident property, text⟩ (p.content.trivia.append
        (.token ⟨.colon, colon⟩ (value.upTo [.semicolon]))))).Free [.semicolon] :=
      Content.free_append.mpr ⟨hl.free, Content.free_token.mpr ⟨rfl, Content.free_append.mpr
        ⟨gap.free, Content.free_token.mpr ⟨rfl, Content.free_upTo value⟩⟩⟩⟩
    suffices hs : Declarations ((lead.append (.token ⟨.ident property, text⟩ (p.content.trivia.append
        (.token ⟨.colon, colon⟩ (value.upTo [.semicolon]))))).append (value.past [.semicolon])) _ by
      rwa [Content.append_assoc, Content.append, Content.append_assoc, Content.append, Content.upTo_append_past,
        ← Passage.eq_trivia_append hc] at hs
    exact sound_segment hfree (.declaration hl gap) hr
  · subst h
    simp at hd

theorem Declaration.isTrivia_of_next {p : Passage} (h : next p = none) : p.content.IsTrivia := by
  unfold next at h
  dsimp only at h
  split at h
  · rename_i hc
    exact Content.isTrivia_of_skipTrivia hc
  all_goals cases h

theorem Declaration.sound_step {p : Passage} {s : Step Declaration} {others : List Declaration}
    (h : next p = some s) (hd : s.diagnostics = []) (hr : Declarations s.rest.content others) :
    Declarations p.content (s.items ++ others) := by
  have lead := p.content.isTrivia_trivia
  unfold next at h
  dsimp only at h
  split at h
  · cases h
  · rename_i text rest hc
    obtain rfl := Option.some.inj h
    rw [Passage.eq_trivia_append hc]
    exact .more lead.free (.blank lead) hr
  · rename_i property text rest hc
    obtain rfl := Option.some.inj h
    rw [Passage.eq_trivia_append hc]
    exact sound_afterProperty rfl (List.append_eq_nil_iff.mp hd).2 hr lead text
  · obtain rfl := Option.some.inj h
    simp at hd

/-- Declarations that are read without faults follow the grammar. -/
theorem Declaration.sound (p : Passage) (h : (reader.run p).diagnostics = []) :
    Declarations p.content (reader.run p).items := by
  fun_induction reader.run p with
  | case1 p hn =>
    have lead := isTrivia_of_next hn
    exact .last lead.free (.blank lead)
  | case2 p s hn _ more ih =>
    obtain ⟨hs, hmore⟩ := List.append_eq_nil_iff.mp h
    exact sound_step hn hs (ih hmore)

/-! ### Blocks -/

theorem KeyframeBlock.sound_step {p : Passage} {s : Step KeyframeBlock} {others : List KeyframeBlock}
    (h : next p = some s) (hd : s.diagnostics = []) (hr : Blocks s.rest.content others) :
    Blocks p.content (s.items ++ others) := by
  unfold next at h
  dsimp only at h
  split at h
  · cases h
  rename_i hq
  split at h
  · rename_i f hf
    obtain rfl := Option.some.inj h
    obtain ⟨opening, closing, hc⟩ := Passage.frame?_eq_some hf
    simp only [List.append_eq_nil_iff, ite_eq_right_iff, List.cons_ne_nil, imp_false] at hd
    obtain ⟨⟨⟨-, htext⟩, hbody⟩, -⟩ := hd
    have hsplit := Passage.eq_upTo_append hc
    have hprelude : (p.skipTrivia.content.upTo [.curlyBlock, .semicolon]).Significant := by
      have hs : p.skipTrivia.content.Significant := Content.significant_skipTrivia hq
      rw [hsplit] at hs
      refine hs.of_append fun hnil => htext ?_
      show (p.skipTrivia.content.upTo [.curlyBlock, .semicolon]).excerpt = []
      rw [hnil]
      rfl
    rw [Passage.eq_trivia_append hsplit]
    exact .block p.content.isTrivia_trivia hprelude (Content.free_upTo _) htext (Declaration.sound _ hbody) hr
  · obtain rfl := Option.some.inj h
    simp at hd

/-- Blocks that are read without faults follow the grammar. -/
theorem KeyframeBlock.sound (p : Passage) (h : (reader.run p).diagnostics = []) :
    Blocks p.content (reader.run p).items := by
  fun_induction reader.run p with
  | case1 p hn =>
    refine .done (Content.isTrivia_of_skipTrivia ?_)
    replace hn : next p = none := hn
    simp only [next] at hn
    split at hn
    · assumption
    · split at hn <;> cases hn
  | case2 p s hn _ more ih =>
    obtain ⟨hs, hmore⟩ := List.append_eq_nil_iff.mp h
    exact sound_step hn hs (ih hmore)

/-! ### Rules -/

namespace Rule

theorem names_of_nameInFront {start : Position} {p q : Passage} {name : String}
    (h : nameInFront start p = (name, [], q)) :
    ∃ named, Names named name ∧ p.content = .token named q.content := by
  unfold nameInFront at h
  split at h
  · rename_i text rest hc
    simp only [Prod.mk.injEq, true_and] at h
    obtain ⟨rfl, rfl⟩ := h
    exact ⟨_, .inl rfl, hc⟩
  · rename_i text rest hc
    simp only [Prod.mk.injEq, true_and] at h
    obtain ⟨rfl, rfl⟩ := h
    exact ⟨_, .inr rfl, hc⟩
  · simp at h

theorem sound_afterKeyframes {start : Position} {keyword vendor : String} {p : Passage} {s : Step Rule}
    {others : List Rule} (h : afterKeyframes start (shown vendor) p = s) (hd : s.diagnostics = [])
    (hr : Rules s.rest.content others) {lead : Content} (hl : lead.IsTrivia) (hv : vendor? keyword = some vendor)
    (text : List Char) :
    Rules (lead.append (.token ⟨.atKeyword keyword, text⟩ p.content)) (s.items ++ others) := by
  unfold afterKeyframes at h
  generalize hn : nameInFront start p.skipTrivia = found at h
  obtain ⟨name, nameless, trailing⟩ := found
  dsimp only at h
  split at h
  · rename_i f hf
    subst h
    obtain ⟨opening, closing, hc⟩ := Passage.frame?_eq_some hf
    simp only [List.append_eq_nil_iff, ite_eq_left_iff, List.cons_ne_nil, imp_false, Decidable.not_not] at hd
    obtain ⟨⟨⟨⟨⟨-, rfl⟩, -⟩, htext⟩, hbody⟩, -⟩ := hd
    obtain ⟨named, hnamed, hq⟩ := names_of_nameInFront hn
    rw [Passage.eq_trivia_append hq, Passage.eq_upTo_append hc]
    exact .keyframes hl hv p.content.isTrivia_trivia hnamed ((Content.free_upTo _).mono (by decide)) htext
      (KeyframeBlock.sound _ hbody) hr
  · subst h
    simp at hd

/-- Where a rule with an at-keyword has no block, it ends with a semicolon or with the text. -/
theorem atEnd_cases {p : Passage} (hp : p.content.Free [.closer])
    (hf : (p.past [.semicolon, .curlyBlock, .closer]).frame? = none) :
    (p.past [.semicolon, .curlyBlock, .closer]).content = .nil ∨
      ∃ text rest, (p.past [.semicolon, .curlyBlock, .closer]).content = .token ⟨.semicolon, text⟩ rest := by
  rcases Content.past_cases [.semicolon, .curlyBlock, .closer] p.content with
    hn | ⟨t, rest, ht, hm⟩ | ⟨b, opening, body, closing, rest, hb, hm⟩
  · exact .inl hn
  · have hc : (p.past [.semicolon, .curlyBlock, .closer]).content = .token t rest := ht
    rw [Passage.eq_upTo_append hc] at hp
    obtain ⟨kind, text⟩ := t
    have hk : kind = .semicolon := by
      have hfree := (Content.free_token.mp (Content.free_append.mp hp).2).1
      cases kind <;> simp_all [Mark.found, Token.mark?]
    subst hk
    exact .inr ⟨text, rest, hc⟩
  · have hc : (p.past [.semicolon, .curlyBlock, .closer]).content = .block b opening body closing rest := hb
    have hk : b = .curly := by cases b <;> simp_all [Mark.found, Css.Bracket.mark?]
    subst hk
    simp [Passage.frame?, hc] at hf

theorem noAtKeyword_of_ne {c : Content} (h : ∀ keyword text rest, c ≠ .token ⟨.atKeyword keyword, text⟩ rest) :
    NoAtKeyword c := by
  cases c with
  | token t rest =>
    obtain ⟨kind, text⟩ := t
    cases kind <;> first | trivial | exact h _ _ _ rfl
  | _ => trivial

theorem sound_afterAtKeyword {start : Position} {keyword : String} {p : Passage} {s : Step Rule}
    {others : List Rule} (h : afterAtKeyword start keyword p = s) (hp : p.content.Free [.closer])
    (hr : Rules s.rest.content others) {lead : Content} (hl : lead.IsTrivia) (hv : vendor? keyword = none)
    (text : List Char) :
    Rules (lead.append (.token ⟨.atKeyword keyword, text⟩ p.content)) (s.items ++ others) := by
  have skipped : (p.content.upTo [.semicolon, .curlyBlock, .closer]).Free [.semicolon, .curlyBlock] :=
    (Content.free_upTo _).mono (by decide)
  unfold afterAtKeyword at h
  dsimp only at h
  split at h
  · rename_i f hf
    subst h
    obtain ⟨opening, closing, hc⟩ := Passage.frame?_eq_some hf
    rw [Passage.eq_upTo_append hc]
    exact .atBlock hl hv skipped hr
  · rename_i hf
    subst h
    rcases atEnd_cases hp hf with hc | ⟨words, rest, hc⟩
    · have hnone : others = [] := by
        simp only [Passage.skipSemicolon, hc] at hr
        exact hr.eq_nil
      rw [Passage.eq_upTo_append hc, Content.append_nil, hnone]
      exact .atEnd hl hv skipped
    · rw [Passage.eq_upTo_append hc]
      rw [Passage.content_skipSemicolon hc] at hr
      exact .atSemicolon hl hv skipped hr

theorem sound_styleRule {q : Passage} {s : Step Rule} {others : List Rule} (h : styleRule q = s)
    (hd : s.diagnostics = []) (hr : Rules s.rest.content others) (hs : q.content.Significant)
    (hk : NoAtKeyword q.content) {lead : Content} (hl : lead.IsTrivia) :
    Rules (lead.append q.content) (s.items ++ others) := by
  unfold styleRule at h
  dsimp only at h
  split at h
  · rename_i f hf
    subst h
    obtain ⟨opening, closing, hc⟩ := Passage.frame?_eq_some hf
    simp only [List.append_eq_nil_iff, ite_eq_right_iff, List.cons_ne_nil, imp_false] at hd
    have htext : (q.content.upTo [.curlyBlock, .closer]).excerpt ≠ [] := hd.2
    have hne : q.content.upTo [.curlyBlock, .closer] ≠ .nil := fun hnil => htext (by rw [hnil]; rfl)
    rw [Passage.eq_upTo_append hc] at hs hk ⊢
    have hprelude := hs.of_append hne
    exact .style hl hprelude ((noAtKeyword_append hprelude).mp hk) ((Content.free_upTo _).mono (by decide)) htext hr
  · subst h
    simp at hd

theorem sound_step {p : Passage} {s : Step Rule} {others : List Rule} (h : next p = some s)
    (hp : p.content.Free [.closer]) (hd : s.diagnostics = []) (hr : Rules s.rest.content others) :
    Rules p.content (s.items ++ others) := by
  have lead := p.content.isTrivia_trivia
  unfold next at h
  dsimp only at h
  split at h
  · cases h
  · obtain rfl := Option.some.inj h
    simp at hd
  · rename_i keyword text rest hc
    obtain rfl := Option.some.inj h
    rw [Passage.eq_trivia_append hc] at hp ⊢
    replace hd := (List.append_eq_nil_iff.mp hd).2
    cases hv : vendor? keyword with
    | some vendor =>
      simp only [hv] at hd hr ⊢
      exact sound_afterKeyframes rfl hd hr lead hv text
    | none =>
      simp only [hv] at hr ⊢
      exact sound_afterAtKeyword rfl (Content.free_token.mp (Content.free_append.mp hp).2).2 hr lead hv text
  · rename_i hnil hclosing hat
    obtain rfl := Option.some.inj h
    have hsplit : p.content = p.content.trivia.append p.skipTrivia.content := Passage.eq_trivia_append rfl
    rw [hsplit]
    exact sound_styleRule rfl (List.append_eq_nil_iff.mp hd).2 hr (Content.significant_skipTrivia hnil)
      (noAtKeyword_of_ne hat) lead

theorem isTrivia_of_next {p : Passage} (h : next p = none) : p.content.IsTrivia := by
  unfold next at h
  dsimp only at h
  split at h
  · rename_i hc
    exact Content.isTrivia_of_skipTrivia hc
  all_goals cases h

/-- Rules that are read without faults follow the grammar. -/
theorem sound (p : Passage) (h : (reader.run p).diagnostics = []) : Rules p.content (reader.run p).items := by
  fun_induction reader.run p with
  | case1 p hn => exact .done (isTrivia_of_next hn)
  | case2 p s hn _ more ih =>
    obtain ⟨hs, hmore⟩ := List.append_eq_nil_iff.mp h
    have hp : p.content.diagnostics p.start = [] := by
      have := reader.run_extends crossing p
      rw [reader.run_of_some hn] at this
      exact (h ▸ this).eq_nil
    exact sound_step hn (Content.free_closer_of_diagnostics hp) hs (ih hmore)

end Rule

end Sheet

end Timeline
