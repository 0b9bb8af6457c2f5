import Timeline.Proofs.Css.Joined
import Timeline.Proofs.Css.Places
import Timeline.Proofs.Text.Spans
import Timeline.Sheet.Reader

/-! Where rules, blocks, declarations and faults stand.

A reader goes on in its passage and never back (`Passage.Onward`). Each step has its item and its faults between the
place where it begins and the place where it ends, and what a run finds then lies one behind the other
(`ItemReader.run_laid`). This holds of every text, whatever is wrong with it (`ofText_arranged`). -/
namespace Timeline

open Css (Content Diagnostic Fault ItemReader Mark Passage Step Token)
open Sheet (Declaration KeyframeBlock KeyframesRule Rule Stylesheet)
open Text (Arranged Position Span)

namespace Css

/-! ### Content -/

/-- The bracket that closes a block, if one does, ends no earlier than what the block holds. -/
theorem le_closing (p : Position) (closing : Option Token) : p ≤ closing.elim p fun t => p.advance t.text := by
  cases closing with
  | none => exact le_rfl
  | some t => exact p.le_advance t.text

theorem Content.le_after (p : Position) (c : Content) : p ≤ c.after p := by
  induction c generalizing p with
  | nil => exact le_rfl
  | token t rest ih => exact (p.le_advance t.text).trans (ih _)
  | block b opening body closing rest ihb ih =>
    exact ((p.le_advance opening.text).trans (ihb _)).trans ((le_closing _ closing).trans (ih _))

/-- What is wrong with content stands in it. -/
theorem Content.within_of_mem_diagnostics (p : Position) (c : Content) :
    ∀ d ∈ c.diagnostics p, d.span.Within p (c.after p) := by
  induction c generalizing p with
  | nil => simp [diagnostics]
  | token t rest ih =>
    intro d hd
    have hrest := rest.le_after (p.advance t.text)
    rcases List.mem_append.mp hd with hd | hd
    · obtain ⟨fault, -, rfl⟩ := Option.map_eq_some_iff.mp (Option.mem_toList.mp hd)
      exact ⟨le_rfl, p.le_advance t.text, hrest⟩
    · exact (ih _ d hd).mono (p.le_advance t.text) le_rfl
  | block b opening body closing rest ihb ih =>
    intro d hd
    have hopening := p.le_advance opening.text
    have hbody := body.le_after (p.advance opening.text)
    have hbehind := (le_closing (body.after (p.advance opening.text)) closing).trans (rest.le_after _)
    rcases List.mem_append.mp hd with hd | hd
    · rcases List.mem_append.mp hd with hd | hd
      · exact (ihb _ d hd).mono hopening hbehind
      · cases closing with
        | some t => cases hd
        | none =>
          obtain rfl := List.mem_singleton.mp hd
          exact ⟨le_rfl, hopening, hbody.trans hbehind⟩
    · exact (ih _ d hd).mono (hopening.trans (hbody.trans (le_closing _ closing))) le_rfl

/-! ### Passages -/

namespace Passage

theorem start_le_stop (p : Passage) : p.start ≤ p.stop := p.content.le_after p.start

theorem within_of_mem_diagnostics (p : Passage) : ∀ d ∈ p.diagnostics, d.span.Within p.start p.stop :=
  p.content.within_of_mem_diagnostics p.start

/-- From `p` on to `q`, which is what is left of `p`, with faults in between. -/
structure Onward (p : Passage) (found : List Diagnostic) (q : Passage) : Prop where
  start : p.start ≤ q.start
  stop : q.stop = p.stop
  within : ∀ d ∈ found, d.span.Within p.start q.start

namespace Onward

variable {p q r : Passage} {found more : List Diagnostic}

theorem refl (p : Passage) : Onward p [] p := ⟨le_rfl, rfl, by simp⟩

theorem append (h : Onward p found q) (h' : Onward q more r) : Onward p (found ++ more) r := by
  refine ⟨h.start.trans h'.start, h'.stop.trans h.stop, List.forall_mem_append.mpr ⟨fun d hd => ?_, fun d hd => ?_⟩⟩
  · exact (h.within d hd).mono le_rfl h'.start
  · exact (h'.within d hd).mono h.start le_rfl

/-- One more fault, anywhere in between. -/
theorem add (h : Onward p found q) (fault : Fault) {span : Span} (hspan : span.Within p.start q.start) :
    Onward p (found ++ [⟨fault, span⟩]) q :=
  ⟨h.start, h.stop, List.forall_mem_append.mpr ⟨h.within, by simpa using hspan⟩⟩

theorem addIf (h : Onward p found q) (condition : Prop) [Decidable condition] (fault : Fault) {span : Span}
    (hspan : span.Within p.start q.start) : Onward p (found ++ if condition then [⟨fault, span⟩] else []) q := by
  split
  · exact h.add fault hspan
  · rwa [List.append_nil]

theorem trivia (p : Passage) : Onward p p.trivia.diagnostics p.skipTrivia :=
  ⟨p.trivia.start_le_stop, stop_skipTrivia p, p.trivia.within_of_mem_diagnostics⟩

theorem upTo (marks : List Mark) (p : Passage) : Onward p (p.upTo marks).diagnostics (p.past marks) :=
  ⟨(p.upTo marks).start_le_stop, stop_past marks p, (p.upTo marks).within_of_mem_diagnostics⟩

theorem token (h : Onward p found q) {t : Token} {rest : Content} (hc : q.content = .token t rest) :
    Onward p found ⟨q.start.advance t.text, rest⟩ := by
  have hstart := q.start.le_advance t.text
  refine ⟨h.start.trans hstart, Eq.trans ?_ h.stop, fun d hd => (h.within d hd).mono le_rfl hstart⟩
  show rest.after (q.start.advance t.text) = q.content.after q.start
  rw [hc]
  rfl

theorem semicolon (h : Onward p found q) : Onward p found q.skipSemicolon := by
  unfold skipSemicolon
  split
  · rename_i hc
    exact h.token hc
  · exact h

theorem body {f : Frame} (h : p.frame? = some f) : p.start ≤ f.body.start ∧ f.body.stop ≤ f.rest.start := by
  unfold frame? at h
  split at h
  · rename_i opening body closing rest hc
    obtain rfl := Option.some.inj h
    exact ⟨p.start.le_advance opening.text, le_closing _ closing⟩
  · cases h

/-- A block that is not closed is reported at its opening bracket. -/
theorem within_of_mem_unmatched {f : Frame} (h : p.frame? = some f) :
    ∀ d ∈ f.unmatched, d.span.Within p.start f.body.start := by
  unfold frame? at h
  split at h
  · rename_i opening body closing rest hc
    obtain rfl := Option.some.inj h
    cases closing with
    | none => simpa using Span.Within.upTo le_rfl (p.start.le_advance opening.text)
    | some t => simp
  · cases h

/-- Through a curly block with faults inside. -/
theorem block (h : Onward p found q) {f : Frame} (hf : q.frame? = some f)
    (hmore : ∀ d ∈ more, d.span.Within f.body.start f.body.stop) :
    Onward p (found ++ more ++ f.unmatched) f.rest := by
  obtain ⟨hopening, hclosing⟩ := body hf
  have hbehind := f.body.start_le_stop.trans hclosing
  rw [List.append_assoc]
  refine h.append ⟨hopening.trans hbehind, stop_frame? hf, List.forall_mem_append.mpr ⟨fun d hd => ?_, fun d hd => ?_⟩⟩
  · exact (hmore d hd).mono hopening hclosing
  · exact (within_of_mem_unmatched hf d hd).mono le_rfl hbehind

end Onward

end Passage

/-! ### Readers -/

section Readers

variable {α : Type} {span : α → Span} {inside : α → Prop} {first middle last : Position}

/-- What is read between two places: items one behind the other, each right inside, and faults. -/
structure Laid (span : α → Span) (inside : α → Prop) (first last : Position) (items : List α)
    (found : List Diagnostic) : Prop where
  arranged : Arranged first last (items.map span)
  inside : ∀ x ∈ items, inside x
  within : ∀ d ∈ found, d.span.Within first last

theorem Laid.append {items others : List α} {found more : List Diagnostic}
    (h : Laid span inside first middle items found) (h' : Laid span inside middle last others more)
    (hfirst : first ≤ middle) (hlast : middle ≤ last) :
    Laid span inside first last (items ++ others) (found ++ more) := by
  refine ⟨?_, List.forall_mem_append.mpr ⟨h.inside, h'.inside⟩,
    List.forall_mem_append.mpr ⟨fun d hd => ?_, fun d hd => ?_⟩⟩
  · rw [List.map_append]
    exact h.arranged.append h'.arranged hfirst hlast
  · exact (h.within d hd).mono le_rfl hlast
  · exact (h'.within d hd).mono hfirst le_rfl

/-- A step that goes on in a passage, with all that it reads on its way. -/
structure Step.Advances (span : α → Span) (inside : α → Prop) (p : Passage) (s : Step α) : Prop where
  onward : p.Onward s.diagnostics s.rest
  arranged : Arranged p.start s.rest.start (s.items.map span)
  inside : ∀ x ∈ s.items, inside x

theorem Passage.Onward.nothing {p q : Passage} {found : List Diagnostic} (h : p.Onward found q) :
    Step.Advances span inside p ⟨[], found, q⟩ :=
  ⟨h, .nil, by simp⟩

theorem Passage.Onward.item {p q : Passage} {found : List Diagnostic} (h : p.Onward found q) {x : α}
    (hspan : (span x).Within p.start q.start) (hx : inside x) : Step.Advances span inside p ⟨[x], found, q⟩ :=
  ⟨h, .singleton hspan, by simpa using hx⟩

theorem Step.Advances.afterFaults {p q : Passage} {found : List Diagnostic} {s : Step α} (h : s.Advances span inside q)
    (hfound : p.Onward found q) : (s.afterFaults found).Advances span inside p :=
  ⟨hfound.append h.onward, h.arranged.mono hfound.start le_rfl, h.inside⟩

/-- **All that is read from a passage lies in it, the items one behind the other**, if every step goes on. -/
theorem ItemReader.run_laid (reader : ItemReader α)
    (h : ∀ p s, reader.next p = some s → s.Advances span inside p) (p : Passage) :
    Laid span inside p.start p.stop (reader.run p).items (reader.run p).diagnostics := by
  fun_induction reader.run p with
  | case1 p _ => exact ⟨.nil, by simp, p.within_of_mem_diagnostics⟩
  | case2 p s hn _ more ih =>
    have hs := h p s hn
    have hbehind := s.rest.start_le_stop
    rw [hs.onward.stop] at ih hbehind
    exact Laid.append ⟨hs.arranged, hs.inside, hs.onward.within⟩ ih hs.onward.start hbehind

end Readers

end Css

namespace Sheet

open Css.Passage (Onward)

/-! ### Declarations -/

namespace Declaration

/-- Nothing stands inside a declaration. -/
abbrev Advances (p : Passage) (s : Step Declaration) : Prop := s.Advances span (fun _ => True) p

/-- A declaration begins with its property, in front of what it is read from. -/
theorem advances_afterProperty {q p : Passage} (h : q.Onward [] p) (property : String) :
    Advances q (afterProperty q.start property p) := by
  have hmark := h.append (Onward.trivia p)
  unfold afterProperty
  dsimp only
  split
  · rename_i text rest hc
    have hvalue := (hmark.token hc).append (Onward.upTo [.semicolon] _)
    exact hvalue.item (.upTo le_rfl hvalue.start) trivial
  · exact ((hmark.add .missingColon (.upTo le_rfl hmark.start)).append (Onward.upTo [.semicolon] _)).nothing

theorem advances (p : Passage) (s : Step Declaration) (h : next p = some s) : Advances p s := by
  have htrivia := Onward.trivia p
  unfold next at h
  dsimp only at h
  split at h
  · cases h
  · rename_i hc
    obtain rfl := Option.some.inj h
    exact (htrivia.token hc).nothing
  · rename_i hc
    obtain rfl := Option.some.inj h
    exact (advances_afterProperty ((Onward.refl _).token hc) _).afterFaults htrivia
  · obtain rfl := Option.some.inj h
    have hskipped := Onward.upTo [.semicolon] p.skipTrivia
    exact ((htrivia.append hskipped).add .unexpectedToken (.upTo htrivia.start hskipped.start)).nothing

end Declaration

/-! ### Blocks -/

namespace KeyframeBlock

/-- The declarations of a block stand in it, one behind the other. -/
def Encloses (b : KeyframeBlock) : Prop := Arranged b.span.start b.span.stop (b.declarations.map Declaration.span)

abbrev Advances (p : Passage) (s : Step KeyframeBlock) : Prop := s.Advances span Encloses p

theorem advances (p : Passage) (s : Step KeyframeBlock) (h : next p = some s) : Advances p s := by
  have htrivia := Onward.trivia p
  have hprelude := Onward.upTo [.curlyBlock, .semicolon] p.skipTrivia
  have hspan := Span.Within.upTo htrivia.start hprelude.start
  have hfront := (htrivia.append hprelude).addIf
    ((p.skipTrivia.upTo [.curlyBlock, .semicolon]).excerpt = []) .missingSelector hspan
  unfold next at h
  dsimp only at h
  split at h
  · cases h
  split at h
  · rename_i f hf
    obtain rfl := Option.some.inj h
    obtain ⟨hopening, hclosing⟩ := Onward.body hf
    have hread := Declaration.reader.run_laid Declaration.advances f.body
    -- The faults are counted from `p`, but the block begins behind the blanks and comments.
    have hbehind := hprelude.block hf hread.within
    refine (hfront.block hf hread.within).item (.upTo htrivia.start hbehind.start) ?_
    exact hread.arranged.mono (hprelude.start.trans hopening) hclosing
  · obtain rfl := Option.some.inj h
    have hlast := (hfront.add .missingBlock hspan).semicolon
    exact hlast.item (.upTo htrivia.start hprelude.semicolon.start) .nil

end KeyframeBlock

/-! ### Rules -/

/-- The blocks of a keyframes rule stand in it, one behind the other, and so do their declarations. -/
def KeyframesRule.Encloses (r : KeyframesRule) : Prop :=
  Arranged r.span.start r.span.stop (r.blocks.map KeyframeBlock.span) ∧ ∀ b ∈ r.blocks, b.Encloses

namespace Rule

def span : Rule → Span
  | keyframes rule => rule.span
  | style _ span => span
  | atRule _ span => span

def Encloses (rule : Rule) : Prop := ∀ r ∈ rule.keyframes?, r.Encloses

abbrev Advances (p : Passage) (s : Step Rule) : Prop := s.Advances span Encloses p

theorem onward_nameInFront {q p : Passage} {found : List Diagnostic} (h : q.Onward found p) :
    q.Onward (found ++ (nameInFront q.start p).2.1) (nameInFront q.start p).2.2 := by
  unfold nameInFront
  split
  · rename_i hc
    rw [List.append_nil]
    exact h.token hc
  · rename_i hc
    rw [List.append_nil]
    exact h.token hc
  · exact h.add .missingKeyframesName (.upTo le_rfl h.start)

/-- A rule begins with its at-keyword, in front of what it is read from. -/
theorem advances_afterKeyframes {q p : Passage} (h : q.Onward [] p) (vendor : Option String) :
    Advances q (afterKeyframes q.start vendor p) := by
  have hnamed := onward_nameInFront (h.append (Onward.trivia p))
  unfold afterKeyframes
  generalize nameInFront q.start p.skipTrivia = named at hnamed
  obtain ⟨name, nameless, trailing⟩ := named
  dsimp only at hnamed ⊢
  have hextra := Onward.upTo [.curlyBlock, .semicolon, .closer] trailing
  have hfront := (hnamed.append hextra).addIf
    (¬ (trailing.upTo [.curlyBlock, .semicolon, .closer]).excerpt = []) .unexpectedToken
    (.upTo hnamed.start hextra.start)
  rw [ite_not] at hfront
  split
  · rename_i f hf
    obtain ⟨hopening, hclosing⟩ := Onward.body hf
    have hread := KeyframeBlock.reader.run_laid KeyframeBlock.advances f.body
    have hall := hfront.block hf hread.within
    refine hall.item (.upTo le_rfl hall.start) fun r hr => ?_
    obtain rfl := Option.some.inj hr
    exact ⟨hread.arranged.mono (hfront.start.trans hopening) hclosing, hread.inside⟩
  · have hlast := (hfront.add .missingBlock (.upTo hfront.start le_rfl)).semicolon
    refine hlast.item (.upTo le_rfl hlast.start) fun r hr => ?_
    obtain rfl := Option.some.inj hr
    exact ⟨.nil, by simp⟩

theorem advances_afterAtKeyword {q p : Passage} (h : q.Onward [] p) (name : String) :
    Advances q (afterAtKeyword q.start name p) := by
  have hfront := h.append (Onward.upTo [.semicolon, .curlyBlock, .closer] p)
  unfold afterAtKeyword
  dsimp only
  split
  · rename_i f hf
    have hall := hfront.block hf f.body.within_of_mem_diagnostics
    exact hall.item (.upTo le_rfl hall.start) nofun
  · exact hfront.semicolon.item (.upTo le_rfl hfront.semicolon.start) nofun

theorem advances_styleRule (q : Passage) : Advances q (styleRule q) := by
  have hfront := Onward.upTo [.curlyBlock, .closer] q
  unfold styleRule
  dsimp only
  split
  · rename_i f hf
    have hblock := hfront.block hf f.body.within_of_mem_diagnostics
    have hspan := Span.Within.upTo le_rfl hblock.start
    exact (hblock.addIf ((q.upTo [.curlyBlock, .closer]).excerpt = []) .missingSelector hspan).item hspan nofun
  · have hspan := Span.Within.upTo le_rfl hfront.start
    exact (hfront.add .missingBlock hspan).item hspan nofun

theorem advances (p : Passage) (s : Step Rule) (h : next p = some s) : Advances p s := by
  have htrivia := Onward.trivia p
  unfold next at h
  dsimp only at h
  split at h
  · cases h
  · rename_i b text rest hc
    obtain rfl := Option.some.inj h
    have hclosing := p.skipTrivia.start.le_advance text
    exact ((htrivia.token hc).add .unexpectedToken (.upTo htrivia.start hclosing)).nothing
  · rename_i hc
    obtain rfl := Option.some.inj h
    refine Step.Advances.afterFaults ?_ htrivia
    split
    · exact advances_afterKeyframes ((Onward.refl _).token hc) _
    · exact advances_afterAtKeyword ((Onward.refl _).token hc) _
  · obtain rfl := Option.some.inj h
    exact (advances_styleRule _).afterFaults htrivia

end Rule

/-! ### Stylesheets -/

def KeyframeBlock.spans (b : KeyframeBlock) : List Span := b.span :: b.declarations.map Declaration.span

def Rule.spans (rule : Rule) : List Span :=
  rule.span :: rule.keyframes?.toList.flatMap fun r => r.blocks.flatMap KeyframeBlock.spans

/-- The spans of all rules, blocks, declarations and faults. -/
def Stylesheet.spans (sheet : Stylesheet) : List Span :=
  sheet.rules.flatMap Rule.spans ++ sheet.diagnostics.map Diagnostic.span

theorem KeyframeBlock.Encloses.within {b : KeyframeBlock} (h : b.Encloses) (hspan : b.span.start ≤ b.span.stop) :
    ∀ s ∈ b.spans, s.Within b.span.start b.span.stop :=
  List.forall_mem_cons.mpr ⟨⟨le_rfl, hspan, le_rfl⟩, Arranged.within h⟩

theorem Rule.Encloses.within {rule : Rule} (h : rule.Encloses) (hspan : rule.span.start ≤ rule.span.stop) :
    ∀ s ∈ rule.spans, s.Within rule.span.start rule.span.stop := by
  refine List.forall_mem_cons.mpr ⟨⟨le_rfl, hspan, le_rfl⟩, fun s hs => ?_⟩
  cases rule with
  | keyframes r =>
    obtain ⟨hblocks, heach⟩ := h r rfl
    replace hs : s ∈ [r].flatMap fun r => r.blocks.flatMap KeyframeBlock.spans := hs
    rw [List.flatMap_singleton, List.mem_flatMap] at hs
    obtain ⟨b, hb, hs⟩ := hs
    have hblock := hblocks.within b.span (List.mem_map_of_mem hb)
    exact ((heach b hb).within hblock.start_le s hs).mono hblock.first_le hblock.le_last
  | style => cases hs
  | atRule => cases hs

/-- **Spans are nested as rules, blocks and declarations are.** None runs backwards or leaves its text; rules follow one
another, and so do the blocks in a rule and the declarations in a block. -/
theorem ofText_arranged (source : String) :
    (∀ s ∈ (Stylesheet.ofText source).spans, s.Within .origin (Position.origin.advance source.toList)) ∧
    Arranged .origin (Position.origin.advance source.toList) ((Stylesheet.ofText source).rules.map Rule.span) ∧
    ∀ rule ∈ (Stylesheet.ofText source).keyframes,
      Arranged rule.span.start rule.span.stop (rule.blocks.map KeyframeBlock.span) ∧
      ∀ block ∈ rule.blocks,
        Arranged block.span.start block.span.stop (block.declarations.map Declaration.span) := by
  have hread := Rule.reader.run_laid Rule.advances (.ofText source.toList)
  have hstop : (Passage.ofText source.toList).stop = Position.origin.advance source.toList := Content.after_ofText _ _
  rw [hstop] at hread
  refine ⟨List.forall_mem_append.mpr ⟨fun s hs => ?_, List.forall_mem_map.mpr hread.within⟩, hread.arranged,
    fun r hr => ?_⟩
  · obtain ⟨rule, hrule, hs⟩ := List.mem_flatMap.mp hs
    have hspan := hread.arranged.within rule.span (List.mem_map_of_mem hrule)
    exact ((hread.inside rule hrule).within hspan.start_le s hs).mono hspan.first_le hspan.le_last
  · obtain ⟨rule, hrule, hkeyframes⟩ := List.mem_filterMap.mp hr
    exact hread.inside rule hrule r hkeyframes

/-- Of a block behind a stray bracket, with a declaration that has no colon. The rule around it is not closed. -/
theorem ofText_arranged_open :
    let source := "b; \x7d @keyframes a \x7b to \x7b c: 1; d; e: 2 \x7d"
    let block : KeyframeBlock :=
      ⟨["to"], [⟨"c", "1", ⟨⟨0, 25⟩, ⟨0, 29⟩⟩⟩, ⟨"e", "2", ⟨⟨0, 34⟩, ⟨0, 39⟩⟩⟩], ⟨⟨0, 20⟩, ⟨0, 40⟩⟩⟩
    (Stylesheet.ofText source).keyframes = [⟨"a", none, [block], ⟨⟨0, 5⟩, ⟨0, 40⟩⟩⟩] ∧
      Arranged ⟨0, 5⟩ ⟨0, 40⟩ [block.span] ∧
      Arranged ⟨0, 20⟩ ⟨0, 40⟩ [⟨⟨0, 25⟩, ⟨0, 29⟩⟩, ⟨⟨0, 34⟩, ⟨0, 39⟩⟩] := by
  intro source block
  have hkeyframes : (Stylesheet.ofText source).keyframes = [⟨"a", none, [block], ⟨⟨0, 5⟩, ⟨0, 40⟩⟩⟩] := by
    decide +kernel
  obtain ⟨-, -, heach⟩ := ofText_arranged source
  obtain ⟨hblocks, hdeclarations⟩ := heach _ (by rw [hkeyframes]; exact List.mem_singleton_self _)
  exact ⟨hkeyframes, hblocks, hdeclarations block (List.mem_singleton_self _)⟩

end Sheet

end Timeline
