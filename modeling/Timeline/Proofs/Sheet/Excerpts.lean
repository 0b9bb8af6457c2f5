import Mathlib.Data.List.Infix
import Timeline.Proofs.Css.Source
import Timeline.Proofs.Sheet.Soundness

/-! Where stored texts come from.

Every value and every prelude is an excerpt of a passage of the source: of one that begins behind a colon, or where the block
does, and goes on to the next boundary. Such a passage is cut into the same tokens when it stands alone, and the
excerpt has these tokens still, blanks and comments apart, if stripping and trimming leave them as they were
(`stored_texts`). -/
namespace Timeline.Sheet

open Css (Content ItemReader Mark Passage Step Token Untouched lex significant)
open Text (Position)

variable {source : List Char}

/-! ### Declarations -/

namespace Declaration

/-- What a declaration is read from: a property, a colon and the value up to the next semicolon. -/
structure ReadFrom (source : List Char) (d : Declaration) (value : Content) : Prop where
  run : ∃ (whole gap : Content) (name colon : List Char),
    whole = .token ⟨.ident d.property, name⟩ (gap.append (.token ⟨.colon, colon⟩ value)) ∧ gap.IsTrivia ∧
      (Passage.mk d.span.start whole).Stands source ∧ whole.after d.span.start = d.span.stop
  free : value.Free [.semicolon]
  value : d.value = String.ofList value.excerpt

theorem readFrom_afterProperty {p : Passage} {property : String} {text : List Char} {rest : Content}
    (hp : p.Stands source) (hc : p.content = .token ⟨.ident property, text⟩ rest) :
    (∀ d ∈ (afterProperty p.start property ⟨p.start.advance text, rest⟩).items, ∃ value, d.ReadFrom source value) ∧
      (afterProperty p.start property ⟨p.start.advance text, rest⟩).rest.Stands source := by
  have hmark := (hp.token hc).skipTrivia
  unfold afterProperty
  dsimp only
  split
  · rename_i colon more hm
    have hmore := hmark.token hm
    refine ⟨?_, hmore.past [.semicolon]⟩
    intro d hd
    obtain rfl := List.mem_singleton.mp hd
    refine ⟨more.upTo [.semicolon], ⟨_, rest.trivia, text, colon, rfl, rest.isTrivia_trivia, ?_, ?_⟩,
      Content.free_upTo more, rfl⟩
    · refine hp.left (d := more.past [.semicolon]) ?_ (Content.isBoundary_past hmore.nested (by decide))
      rw [hc, Content.append, Content.append_assoc, Content.append, Content.upTo_append_past, ← hm]
      exact congrArg _ (Content.trivia_append_skipTrivia rest).symm
    · rw [Content.after, Content.after_append, Content.after]
      rfl
  · exact ⟨by simp, hmark.past [.semicolon]⟩

theorem readFrom_next (p : Passage) (s : Step Declaration) (hp : p.Stands source) (h : next p = some s) :
    (∀ d ∈ s.items, ∃ value, d.ReadFrom source value) ∧ s.rest.Stands source := by
  have hq := hp.skipTrivia
  unfold next at h
  dsimp only at h
  split at h
  · cases h
  · rename_i hc
    obtain rfl := Option.some.inj h
    exact ⟨by simp, hq.token hc⟩
  · rename_i hc
    obtain rfl := Option.some.inj h
    exact readFrom_afterProperty hq hc
  · obtain rfl := Option.some.inj h
    exact ⟨by simp, hq.past [.semicolon]⟩

end Declaration

/-! ### Blocks -/

namespace KeyframeBlock

/-- What the selectors of a block are read from: all in front of its curly block. -/
structure ReadFrom (source : List Char) (b : KeyframeBlock) (prelude : Content) : Prop where
  run : (Passage.mk b.span.start prelude).Stands source
  free : prelude.Free [.curlyBlock, .semicolon]
  selectors : b.selectors = selectorsOf prelude.excerpt

/-- Blocks with selectors and declarations from a source. -/
def IsReadFrom (source : List Char) (b : KeyframeBlock) : Prop :=
  (∃ prelude, b.ReadFrom source prelude) ∧ ∀ d ∈ b.declarations, ∃ value, d.ReadFrom source value

theorem isReadFrom_next (p : Passage) (s : Step KeyframeBlock) (hp : p.Stands source) (h : next p = some s) :
    (∀ b ∈ s.items, b.IsReadFrom source) ∧ s.rest.Stands source := by
  have hq := hp.skipTrivia
  have hprelude : (p.skipTrivia.upTo [.curlyBlock, .semicolon]).Stands source := hq.upTo (by decide)
  have hrest := hq.past [.curlyBlock, .semicolon]
  unfold next at h
  dsimp only at h
  split at h
  · cases h
  split at h
  · rename_i f hf
    obtain rfl := Option.some.inj h
    obtain ⟨hbody, hbehind⟩ := hrest.frame? hf
    refine ⟨fun b hb => ?_, hbehind⟩
    obtain rfl := List.mem_singleton.mp hb
    exact ⟨⟨_, hprelude, Content.free_upTo _, rfl⟩, ItemReader.forall_mem_run Declaration.readFrom_next hbody⟩
  · obtain rfl := Option.some.inj h
    refine ⟨fun b hb => ?_, hrest.skipSemicolon⟩
    obtain rfl := List.mem_singleton.mp hb
    exact ⟨⟨_, hprelude, Content.free_upTo _, rfl⟩, by simp⟩

end KeyframeBlock

/-! ### Rules -/

namespace Rule

/-- Rules that have no blocks but those from a source. -/
def IsReadFrom (source : List Char) (rule : Rule) : Prop := ∀ r ∈ rule.keyframes?, ∀ b ∈ r.blocks, b.IsReadFrom source

theorem stands_nameInFront {p : Passage} (start : Position) (hp : p.Stands source) :
    (nameInFront start p).2.2.Stands source := by
  unfold nameInFront
  split
  · rename_i hc
    exact hp.token hc
  · rename_i hc
    exact hp.token hc
  · exact hp

theorem isReadFrom_afterKeyframes {p : Passage} (start : Position) (vendor : Option String) (hp : p.Stands source) :
    (∀ rule ∈ (afterKeyframes start vendor p).items, rule.IsReadFrom source) ∧
      (afterKeyframes start vendor p).rest.Stands source := by
  have hnamed := stands_nameInFront start hp.skipTrivia
  unfold afterKeyframes
  generalize nameInFront start p.skipTrivia = named at hnamed
  obtain ⟨name, nameless, trailing⟩ := named
  have hrest := hnamed.past [.curlyBlock, .semicolon, .closer]
  dsimp only at hrest ⊢
  split
  · rename_i f hf
    obtain ⟨hbody, hbehind⟩ := hrest.frame? hf
    refine ⟨fun rule hrule => ?_, hbehind⟩
    obtain rfl := List.mem_singleton.mp hrule
    intro r hr
    obtain rfl := Option.some.inj hr
    exact ItemReader.forall_mem_run KeyframeBlock.isReadFrom_next hbody
  · refine ⟨fun rule hrule => ?_, hrest.skipSemicolon⟩
    obtain rfl := List.mem_singleton.mp hrule
    intro r hr
    obtain rfl := Option.some.inj hr
    simp

theorem isReadFrom_afterAtKeyword {p : Passage} (start : Position) (name : String) (hp : p.Stands source) :
    (∀ rule ∈ (afterAtKeyword start name p).items, rule.IsReadFrom source) ∧
      (afterAtKeyword start name p).rest.Stands source := by
  have hrest := hp.past [.semicolon, .curlyBlock, .closer]
  unfold afterAtKeyword
  dsimp only
  split
  · rename_i f hf
    exact ⟨by simp [IsReadFrom, keyframes?], (hrest.frame? hf).2⟩
  · exact ⟨by simp [IsReadFrom, keyframes?], hrest.skipSemicolon⟩

theorem isReadFrom_styleRule {p : Passage} (hp : p.Stands source) :
    (∀ rule ∈ (styleRule p).items, rule.IsReadFrom source) ∧ (styleRule p).rest.Stands source := by
  have hrest := hp.past [.curlyBlock, .closer]
  unfold styleRule
  dsimp only
  split
  · rename_i f hf
    exact ⟨by simp [IsReadFrom, keyframes?], (hrest.frame? hf).2⟩
  · exact ⟨by simp [IsReadFrom, keyframes?], hrest⟩

theorem isReadFrom_next (p : Passage) (s : Step Rule) (hp : p.Stands source) (h : next p = some s) :
    (∀ rule ∈ s.items, rule.IsReadFrom source) ∧ s.rest.Stands source := by
  have hq := hp.skipTrivia
  unfold next at h
  dsimp only at h
  split at h
  · cases h
  · rename_i hc
    obtain rfl := Option.some.inj h
    exact ⟨by simp, hq.token hc⟩
  · rename_i hc
    obtain rfl := Option.some.inj h
    have hbody := hq.token hc
    simp only [Step.afterFaults]
    split
    · exact isReadFrom_afterKeyframes _ _ hbody
    · exact isReadFrom_afterAtKeyword _ _ hbody
  · obtain rfl := Option.some.inj h
    exact isReadFrom_styleRule hq

end Rule

/-! ### Stored texts -/

theorem Declaration.ReadFrom.stands {d : Declaration} {value : Content} (h : d.ReadFrom source value) :
    ∃ start, (Passage.mk start value).Stands source := by
  obtain ⟨-, gap, name, colon, rfl, -, hstands, -⟩ := h.run
  have hbehind := hstands.token rfl
  exact ⟨_, (hbehind.right rfl).token rfl⟩

/-- **Stored texts are excerpts of runs of the source, and mean what these do where stripping and trimming leave them as
they were.** A run is cut into the same tokens when it stands alone, and the text made from it into the significant
ones among them. -/
theorem stored_texts (source : String) {rule : KeyframesRule} {block : KeyframeBlock}
    (hrule : rule ∈ (Stylesheet.ofText source).keyframes) (hblock : block ∈ rule.blocks) :
    (∃ prelude : Content, block.ReadFrom source.toList prelude ∧ lex prelude.text = prelude.tokens ∧
      (Untouched prelude.tokens → significant (lex prelude.excerpt) = significant prelude.tokens)) ∧
    ∀ d ∈ block.declarations, ∃ value : Content, d.ReadFrom source.toList value ∧ lex value.text = value.tokens ∧
      (Untouched value.tokens → significant (lex d.value.toList) = significant value.tokens) := by
  obtain ⟨r, hr, hkeyframes⟩ := List.mem_filterMap.mp hrule
  have hread := ItemReader.forall_mem_run Rule.isReadFrom_next (Passage.stands_ofText source.toList) r hr
  obtain ⟨⟨prelude, hprelude⟩, hdeclarations⟩ := hread rule hkeyframes block hblock
  refine ⟨⟨prelude, hprelude, hprelude.run.lex_excerpt⟩, fun d hd => ?_⟩
  obtain ⟨value, hvalue⟩ := hdeclarations d hd
  obtain ⟨start, hstands⟩ := hvalue.stands
  refine ⟨value, hvalue, ?_⟩
  rw [hvalue.value, String.toList_ofList]
  exact hstands.lex_excerpt

/-- A value with a comment between blanks. -/
theorem stored_texts_spaced :
    let source := "@keyframes a \x7b to \x7b margin: 1px /* x */ 2px \x7d \x7d"
    ∃ rule ∈ (Stylesheet.ofText source).keyframes, ∃ block ∈ rule.blocks, block.selectors = ["to"] ∧
      ∃ d ∈ block.declarations, d.value = "1px 2px" ∧
      ∃ value : Content, d.ReadFrom source.toList value ∧ lex value.text = value.tokens ∧ Untouched value.tokens ∧
        significant (lex d.value.toList) = significant value.tokens := by
  intro source
  let margin : Declaration := ⟨"margin", "1px 2px", ⟨⟨0, 20⟩, ⟨0, 44⟩⟩⟩
  let block : KeyframeBlock := ⟨["to"], [margin], ⟨⟨0, 15⟩, ⟨0, 45⟩⟩⟩
  have hrule : ⟨"a", none, [block], ⟨⟨0, 0⟩, ⟨0, 47⟩⟩⟩ ∈ (Stylesheet.ofText source).keyframes := by decide +kernel
  have hblock : block ∈ [block] := List.mem_singleton.mpr rfl
  have hmargin : margin ∈ block.declarations := List.mem_singleton.mpr rfl
  obtain ⟨value, hvalue, htokens, hsame⟩ := (stored_texts source hrule hblock).2 margin hmargin
  -- Whatever run of the source the value is, nothing in this source is touched.
  have hall : ∀ front ∈ (lex source.toList).inits, ∀ ts ∈ front.tails, Untouched ts := by decide +kernel
  have huntouched : Untouched value.tokens := by
    obtain ⟨start, -, -, front, back, hsource, -⟩ := hvalue.stands
    refine hall (front ++ value.tokens) ?_ _ ?_
    · rw [List.mem_inits, hsource, ← List.append_assoc]
      exact List.prefix_append _ _
    · rw [List.mem_tails]
      exact List.suffix_append _ _
  exact ⟨_, hrule, block, hblock, rfl, margin, hmargin, rfl, value, hvalue, htokens, huntouched, hsame huntouched⟩

/-- A comment between two lengths goes, and they grow together. -/
theorem grown_together :
    ¬∀ source : String, ∀ rule ∈ (Stylesheet.ofText source).keyframes, ∀ block ∈ rule.blocks,
      ∀ d ∈ block.declarations, ∀ value : Content, d.ReadFrom source.toList value →
        significant (lex d.value.toList) = significant (lex value.text) := by
  intro h
  let source := "@keyframes a \x7b to \x7b margin: 1px/* x */2px \x7d \x7d"
  let margin : Declaration := ⟨"margin", "1px2px", ⟨⟨0, 20⟩, ⟨0, 42⟩⟩⟩
  let block : KeyframeBlock := ⟨["to"], [margin], ⟨⟨0, 15⟩, ⟨0, 43⟩⟩⟩
  let value : Content := .ofText " 1px/* x */2px ".toList
  have hrule : ⟨"a", none, [block], ⟨⟨0, 0⟩, ⟨0, 45⟩⟩⟩ ∈ (Stylesheet.ofText source).keyframes := by decide +kernel
  have hvalue : margin.ReadFrom source.toList value := by
    let whole : Content := .token ⟨.ident "margin", "margin".toList⟩ (.token ⟨.colon, [':']⟩ value)
    have hstands : (Passage.mk margin.span.start whole).Stands source.toList := by
      refine ⟨⟨rfl, rfl, Content.nested_read none _⟩, Content.capped_read none _, ?_⟩
      exact ⟨(lex source.toList).take 10, (lex source.toList).drop 17, by decide +kernel, by decide +kernel,
        by decide +kernel⟩
    have hfree : ∀ m ∈ [Mark.semicolon], m ∉ value.marks := by decide +kernel
    exact ⟨⟨whole, .nil, _, _, rfl, trivial, hstands, by decide +kernel⟩, hfree, by decide +kernel⟩
  have hkept := h source _ hrule block (List.mem_singleton.mpr rfl) margin (List.mem_singleton.mpr rfl) value hvalue
  revert hkept
  decide +kernel

end Timeline.Sheet
