import Timeline.Proofs.Css.Drain
import Timeline.Sheet.Reader

/-! Where the faults of a stylesheet come from.

Readers cross a passage from its front: over blanks, up to a mark, through a block. What they
report on the way is what is wrong with the tokens that they cross, in order, and in between
faults of the grammar (`Passage.Crossing`). So reading a stylesheet finds what draining it
finds, each fault once and in its place, and beyond that only faults of the grammar
(`diagnostics_weave`). -/
namespace Timeline

open Css (Content Diagnostic Fault ItemReader Mark Passage Step Token drain)
open Sheet (Declaration KeyframeBlock Rule Stylesheet)
open Text (Position Span)

/-! ### Two lists in one -/

/-- The third list holds the first and the second one, each in its order. -/
inductive Woven {α : Type} : List α → List α → List α → Prop where
  | nil : Woven [] [] []
  | left {x a b c} : Woven a b c → Woven (x :: a) b (x :: c)
  | right {x a b c} : Woven a b c → Woven a (x :: b) (x :: c)

namespace Woven

variable {α : Type} {a b c a' b' c' : List α}

theorem of_left (a : List α) : Woven a [] a := by
  induction a with
  | nil => exact .nil
  | cons x a ih => exact .left ih

theorem append (h : Woven a b c) (h' : Woven a' b' c') : Woven (a ++ a') (b ++ b') (c ++ c') := by
  induction h with
  | nil => exact h'
  | left _ ih => exact .left ih
  | right _ ih => exact .right ih

/-- A test that the second list never passes picks the same from the whole as from the first list. -/
theorem filter_eq (h : Woven a b c) (p : α → Bool) (hb : ∀ x ∈ b, p x = false) : c.filter p = a.filter p := by
  induction h with
  | nil => rfl
  | left _ ih => rw [List.filter_cons, List.filter_cons, ih hb]
  | right _ ih =>
    rw [List.forall_mem_cons] at hb
    rw [List.filter_cons_of_neg (by simp [hb.1]), ih hb.2]

end Woven

/-! ### Faults of the grammar -/

namespace Css

/-- The faults that the rules of a grammar may find. -/
def Fault.ofGrammar : List Fault :=
  [.unexpectedToken, .missingBlock, .missingKeyframesName, .missingSelector, .missingColon]

/-- The faults that only tokens and blocks can have. -/
def Fault.ofTokens : List Fault :=
  [.badString, .badUrl, .unmatchedBrace, .unmatchedBracket, .unmatchedParenthesis, .unterminatedComment]

/-- What was found is what there is, with faults of the grammar in between. -/
def Extends (there found : List Diagnostic) : Prop :=
  ∃ added, (∀ d ∈ added, d.fault ∈ Fault.ofGrammar) ∧ Woven there added found

theorem Extends.refl (there : List Diagnostic) : Extends there there := ⟨[], by simp, .of_left there⟩

theorem Extends.append {a b a' b' : List Diagnostic} (h : Extends a b) (h' : Extends a' b') :
    Extends (a ++ a') (b ++ b') := by
  obtain ⟨x, hx, hw⟩ := h
  obtain ⟨x', hx', hw'⟩ := h'
  exact ⟨x ++ x', List.forall_mem_append.mpr ⟨hx, hx'⟩, hw.append hw'⟩

theorem Extends.added {fault : Fault} (span : Span) (h : fault ∈ Fault.ofGrammar) : Extends [] [⟨fault, span⟩] :=
  ⟨[⟨fault, span⟩], by simpa using h, .right .nil⟩

/-! ### Crossing a passage -/

namespace Passage

/-- From `p` to `q` nothing is passed over: what was found extends what is wrong with the tokens in between. -/
def Crossing (p : Passage) (found : List Diagnostic) (q : Passage) : Prop :=
  ∃ there, p.diagnostics = there ++ q.diagnostics ∧ Extends there found

namespace Crossing

variable {p q r : Passage} {found found' : List Diagnostic}

theorem refl (p : Passage) : Crossing p [] p := ⟨[], rfl, .refl []⟩

theorem append (h : Crossing p found q) (h' : Crossing q found' r) : Crossing p (found ++ found') r := by
  obtain ⟨a, ha, hf⟩ := h
  obtain ⟨b, hb, hf'⟩ := h'
  exact ⟨a ++ b, by rw [ha, hb, List.append_assoc], hf.append hf'⟩

theorem trivia (p : Passage) : Crossing p p.trivia.diagnostics p.skipTrivia :=
  ⟨_, (diagnostics_skipTrivia p).symm, .refl _⟩

theorem upTo (marks : List Mark) (p : Passage) : Crossing p (p.upTo marks).diagnostics (p.past marks) :=
  ⟨_, (diagnostics_past marks p).symm, .refl _⟩

/-- A fault of the grammar, found on the spot. -/
theorem added (p : Passage) {fault : Fault} {span : Span} (h : fault ∈ Fault.ofGrammar) :
    Crossing p [⟨fault, span⟩] p :=
  ⟨[], rfl, .added span h⟩

/-- A fault of the grammar, found only under some condition. -/
theorem addedIf (p : Passage) (condition : Prop) [Decidable condition] (fault : Fault) (span : Span)
    (h : fault ∈ Fault.ofGrammar) : Crossing p (if condition then [⟨fault, span⟩] else []) p := by
  split
  · exact added p h
  · exact refl p

/-- One token. -/
theorem token {t : Token} {rest : Content} (h : p.content = .token t rest) :
    Crossing p (t.kind.fault?.map (⟨·, p.start, p.start.advance t.text⟩)).toList
      ⟨p.start.advance t.text, rest⟩ := by
  refine ⟨_, ?_, .refl _⟩
  rw [diagnostics, h]
  rfl

/-- One token that is not wrong by itself. -/
theorem sound {t : Token} {rest : Content} (h : p.content = .token t rest) (hf : t.kind.fault? = none) :
    Crossing p [] ⟨p.start.advance t.text, rest⟩ := by
  have := token h
  rwa [hf] at this

/-- A block in curly brackets, whatever its content is read as. -/
theorem block {f : Frame} (h : p.frame? = some f) (hb : Extends f.body.diagnostics found) :
    Crossing p (found ++ f.unmatched) f.rest := by
  refine ⟨f.body.diagnostics ++ f.unmatched, ?_, hb.append (.refl _)⟩
  unfold frame? at h
  split at h
  · rename_i opening body closing rest hc
    obtain rfl := Option.some.inj h
    rw [diagnostics, hc]
    rfl
  · cases h

theorem semicolon (p : Passage) : Crossing p [] p.skipSemicolon := by
  unfold skipSemicolon
  split
  · rename_i hc
    exact sound hc rfl
  · exact refl p

end Crossing

end Passage

/-- A reader whose every step is a crossing finds in a whole passage what is there, and faults of the grammar. -/
theorem ItemReader.run_extends {α : Type} (reader : ItemReader α)
    (h : ∀ p s, reader.next p = some s → p.Crossing s.diagnostics s.rest) (p : Passage) :
    Extends p.diagnostics (reader.run p).diagnostics := by
  fun_induction reader.run p with
  | case1 p hn => exact .refl _
  | case2 p s hn _ more ih =>
    obtain ⟨there, hp, hs⟩ := h p s hn
    rw [hp]
    exact hs.append ih

end Css

/-! ### The readers -/

namespace Sheet

open Css.Passage (Crossing)

theorem Declaration.crossing_afterProperty (start : Position) (property : String) (p : Passage) :
    p.Crossing (afterProperty start property p).diagnostics (afterProperty start property p).rest := by
  unfold afterProperty
  dsimp only
  split
  · rename_i text rest hc
    exact (Crossing.trivia p).append ((Crossing.sound hc rfl).append (Crossing.upTo _ _))
  · exact ((Crossing.trivia p).append (Crossing.added _ (by decide))).append (Crossing.upTo _ _)

theorem Declaration.crossing (p : Passage) (s : Step Declaration) (h : next p = some s) :
    p.Crossing s.diagnostics s.rest := by
  unfold next at h
  dsimp only at h
  split at h
  · cases h
  · rename_i text rest hc
    obtain rfl := Option.some.inj h
    simpa using (Crossing.trivia p).append (Crossing.sound hc rfl)
  · rename_i property text rest hc
    obtain rfl := Option.some.inj h
    exact (Crossing.trivia p).append
      ((Crossing.sound hc rfl).append (crossing_afterProperty _ _ _))
  · obtain rfl := Option.some.inj h
    exact ((Crossing.trivia p).append (Crossing.upTo _ _)).append (Crossing.added _ (by decide))

theorem KeyframeBlock.crossing (p : Passage) (s : Step KeyframeBlock) (h : next p = some s) :
    p.Crossing s.diagnostics s.rest := by
  have front := ((Crossing.trivia p).append (Crossing.upTo [.curlyBlock, .semicolon] _)).append
    (Crossing.addedIf _ ((p.skipTrivia.upTo [.curlyBlock, .semicolon]).excerpt = []) .missingSelector
      ⟨p.skipTrivia.start, (p.skipTrivia.past [.curlyBlock, .semicolon]).start⟩ (by decide))
  unfold next at h
  dsimp only at h
  split at h
  · cases h
  split at h
  · rename_i block hf
    obtain rfl := Option.some.inj h
    dsimp only
    rw [List.append_assoc]
    exact front.append (Crossing.block hf (Declaration.reader.run_extends Declaration.crossing _))
  · obtain rfl := Option.some.inj h
    simpa using front.append ((Crossing.added _ (by decide)).append (Crossing.semicolon _))

namespace Rule

theorem crossing_nameInFront (start : Position) (p : Passage) :
    p.Crossing (nameInFront start p).2.1 (nameInFront start p).2.2 := by
  unfold nameInFront
  split
  · rename_i hc
    exact Crossing.sound hc rfl
  · rename_i hc
    exact Crossing.sound hc rfl
  · exact Crossing.added _ (by decide)

theorem crossing_afterKeyframes (start : Position) (vendor : Option String) (p : Passage) :
    p.Crossing (afterKeyframes start vendor p).diagnostics (afterKeyframes start vendor p).rest := by
  have named := (Crossing.trivia p).append (crossing_nameInFront start p.skipTrivia)
  unfold afterKeyframes
  generalize nameInFront start p.skipTrivia = found at named ⊢
  obtain ⟨name, nameless, trailing⟩ := found
  dsimp only at named ⊢
  have front := (named.append (Crossing.upTo [.curlyBlock, .semicolon, .closer] _)).append
    (Crossing.addedIf _ (¬ (trailing.upTo [.curlyBlock, .semicolon, .closer]).excerpt = []) .unexpectedToken
      ⟨trailing.start, (trailing.past [.curlyBlock, .semicolon, .closer]).start⟩ (by decide))
  rw [ite_not] at front
  split
  · rename_i block hf
    dsimp only
    rw [List.append_assoc]
    exact front.append (Crossing.block hf (KeyframeBlock.reader.run_extends KeyframeBlock.crossing _))
  · simpa using front.append ((Crossing.added _ (by decide)).append (Crossing.semicolon _))

theorem crossing_afterAtKeyword (start : Position) (name : String) (p : Passage) :
    p.Crossing (afterAtKeyword start name p).diagnostics (afterAtKeyword start name p).rest := by
  have front := Crossing.upTo [.semicolon, .curlyBlock, .closer] p
  unfold afterAtKeyword
  dsimp only
  split
  · rename_i block hf
    dsimp only
    rw [List.append_assoc]
    exact front.append (Crossing.block hf (.refl _))
  · simpa using front.append (Crossing.semicolon _)

theorem crossing_styleRule (q : Passage) : q.Crossing (styleRule q).diagnostics (styleRule q).rest := by
  have front := Crossing.upTo [.curlyBlock, .closer] q
  unfold styleRule
  dsimp only
  split
  · rename_i block hf
    have missing := Crossing.addedIf block.rest ((q.upTo [.curlyBlock, .closer]).excerpt = [])
      .missingSelector ⟨q.start, block.rest.start⟩ (by decide)
    simpa using front.append ((Crossing.block hf (.refl _)).append missing)
  · exact front.append (Crossing.added _ (by decide))

theorem crossing (p : Passage) (s : Step Rule) (h : next p = some s) : p.Crossing s.diagnostics s.rest := by
  unfold next at h
  dsimp only at h
  split at h
  · cases h
  · rename_i hc
    obtain rfl := Option.some.inj h
    exact (Crossing.trivia p).append (Crossing.token hc)
  · rename_i hc
    obtain rfl := Option.some.inj h
    refine (Crossing.trivia p).append ((Crossing.sound hc rfl).append ?_)
    split
    · exact crossing_afterKeyframes _ _ _
    · exact crossing_afterAtKeyword _ _ _
  · obtain rfl := Option.some.inj h
    exact (Crossing.trivia p).append (crossing_styleRule _)

end Rule

/-- **The faults of a stylesheet are those that draining its text finds, each in its place, woven
with faults of the grammar.** Those that only tokens and blocks can have are the same, one by one. -/
theorem diagnostics_weave (source : String) :
    (∃ added, (∀ d ∈ added, d.fault ∈ Fault.ofGrammar) ∧
      Woven (drain [] .origin (Css.lex source.toList)) added (Stylesheet.ofText source).diagnostics) ∧
    (Stylesheet.ofText source).diagnostics.filter (·.fault ∈ Fault.ofTokens) =
      (drain [] .origin (Css.lex source.toList)).filter (·.fault ∈ Fault.ofTokens) := by
  obtain ⟨added, hadded, hw⟩ := Rule.reader.run_extends Rule.crossing (.ofText source.toList)
  rw [Css.diagnostics_ofText] at hw
  refine ⟨⟨added, hadded, hw⟩, hw.filter_eq _ ?_⟩
  intro d hd
  have hg : ∀ fault ∈ Fault.ofGrammar, fault ∉ Fault.ofTokens := by decide
  simpa using hg d.fault (hadded d hd)

end Sheet

end Timeline
