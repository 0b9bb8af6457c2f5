import Timeline.Css.Reading
import Timeline.Sheet.Basic
import Timeline.Text.Fields

/-! Reading stylesheets.

A stylesheet is a list of rules, a keyframes rule a list of blocks, and a block a list of
declarations; each list is read by its own item reader. No reader gives up: after a fault
it goes on behind the next semicolon, block or stray bracket, so every text has a
stylesheet. -/
namespace Timeline.Sheet

open Text (Position Span)
open Css (Content Diagnostic ItemReader Kind Mark Passage Reading Step Token)

/-! ### Declarations -/

namespace Declaration

/-- A declaration from after its property name, which begins at `start`. Without a colon
nothing up to the next semicolon counts. -/
def afterProperty (start : Position) (property : String) (p : Passage) : Step Declaration :=
  let mark := p.skipTrivia
  match mark.content with
  | .token ⟨.colon, text⟩ rest =>
    let value := Passage.upTo [.semicolon] ⟨mark.start.advance text, rest⟩
    { items := [⟨property, String.ofList value.excerpt, ⟨start, value.stop⟩⟩]
      diagnostics := p.trivia.diagnostics ++ value.diagnostics
      rest := Passage.past [.semicolon] ⟨mark.start.advance text, rest⟩ }
  | _ =>
    { items := []
      diagnostics := p.trivia.diagnostics ++ [⟨.missingColon, start, mark.start⟩] ++
        (mark.upTo [.semicolon]).diagnostics
      rest := mark.past [.semicolon] }

/-- The next declaration, or what stands in its place up to the next semicolon. -/
def next (p : Passage) : Option (Step Declaration) :=
  let q := p.skipTrivia
  match q.content with
  | .nil => none
  | .token ⟨.semicolon, text⟩ rest =>
    some { items := [], diagnostics := p.trivia.diagnostics, rest := ⟨q.start.advance text, rest⟩ }
  | .token ⟨.ident property, text⟩ rest =>
    some ((afterProperty q.start property ⟨q.start.advance text, rest⟩).afterFaults p.trivia.diagnostics)
  | _ =>
    let skipped := q.upTo [.semicolon]
    some
      { items := []
        diagnostics := p.trivia.diagnostics ++ skipped.diagnostics ++
          [⟨.unexpectedToken, q.start, skipped.stop⟩]
        rest := q.past [.semicolon] }

theorem size_afterProperty_le (start : Position) (property : String) (p : Passage) :
    (afterProperty start property p).rest.content.size ≤ p.content.size := by
  have hs : p.skipTrivia.content.size ≤ p.content.size := p.content.size_skipTrivia_le
  unfold afterProperty
  simp only
  split
  · rename_i text rest hc
    have := Content.size_past_le [.semicolon] rest
    rw [hc, Content.size] at hs
    simp only [Passage.past]
    omega
  · exact Nat.le_trans (Content.size_past_le _ _) hs

theorem next_smaller (p : Passage) (s : Step Declaration) (h : next p = some s) :
    s.rest.content.size < p.content.size := by
  have hs : p.skipTrivia.content.size ≤ p.content.size := p.content.size_skipTrivia_le
  unfold next at h
  simp only at h
  split at h
  · simp at h
  · rename_i hc
    obtain rfl := Option.some.inj h
    rw [hc, Content.size] at hs
    exact hs
  · rename_i property text rest hc
    obtain rfl := Option.some.inj h
    rw [hc, Content.size] at hs
    exact Nat.lt_of_le_of_lt (size_afterProperty_le _ _ _) hs
  · rename_i hnil hsemi _
    obtain rfl := Option.some.inj h
    refine Nat.lt_of_lt_of_le ?_ hs
    show (p.skipTrivia.content.past [.semicolon]).size < _
    cases hc : p.skipTrivia.content with
    | nil => exact absurd hc hnil
    | token t rest =>
      obtain ⟨kind, text⟩ := t
      have hk : kind ≠ .semicolon := fun hk => hsemi text rest (hk ▸ hc)
      have : Mark.found [.semicolon] (Token.mark? ⟨kind, text⟩) = false := by
        cases kind <;> simp_all [Mark.found, Token.mark?]
      rw [Content.past, this]
      exact Nat.lt_succ_of_le (Content.size_past_le _ _)
    | block b opening body closing rest =>
      have : Mark.found [.semicolon] b.mark? = false := by cases b <;> rfl
      rw [Content.past, this]
      exact Nat.lt_succ_of_le (Content.size_past_le _ _)

def reader : ItemReader Declaration := ⟨next, next_smaller⟩

end Declaration

/-! ### Keyframe blocks -/

namespace KeyframeBlock

/-- The selectors of a block, from the text in front of it. -/
def selectorsOf (text : List Char) : List String :=
  if text = [] then []
  else (Text.fields ',' text).map fun field => String.ofList (Text.trim field)

/-- The next block: selectors, and declarations in curly brackets. -/
def next (p : Passage) : Option (Step KeyframeBlock) :=
  let q := p.skipTrivia
  if q.content = .nil then none
  else
    let selectors := q.upTo [.curlyBlock, .semicolon]
    let rest := q.past [.curlyBlock, .semicolon]
    let missing : List Diagnostic :=
      if selectors.excerpt = [] then [⟨.missingSelector, q.start, rest.start⟩] else []
    let found := p.trivia.diagnostics ++ selectors.diagnostics ++ missing
    match rest.frame? with
    | some block =>
      let declarations := Declaration.reader.run block.body
      some
        { items := [⟨selectorsOf selectors.excerpt, declarations.items, ⟨q.start, block.rest.start⟩⟩]
          diagnostics := found ++ declarations.diagnostics ++ block.unmatched
          rest := block.rest }
    | none =>
      let last := rest.skipSemicolon
      some
        { items := [⟨selectorsOf selectors.excerpt, [], ⟨q.start, last.start⟩⟩]
          diagnostics := found ++ [⟨.missingBlock, q.start, rest.start⟩]
          rest := last }

/-- Up to a curly block or semicolon, then past it: something is read if anything is left. -/
theorem size_skip_lt (q : Passage) (h : q.content ≠ .nil)
    (hf : (q.past [.curlyBlock, .semicolon]).frame? = none) :
    (q.past [.curlyBlock, .semicolon]).skipSemicolon.content.size < q.content.size := by
  have hle : (q.past [.curlyBlock, .semicolon]).content.size ≤ q.content.size := Content.size_past_le _ _
  rcases Content.past_cases [.curlyBlock, .semicolon] q.content with hn | ⟨t, rest, ht, hm⟩ | ⟨b, o, body, c, rest, hb, hm⟩
  · have : (q.past [.curlyBlock, .semicolon]).content = .nil := hn
    simp only [Passage.skipSemicolon, this, Content.size]
    cases hc : q.content with
    | nil => exact absurd hc h
    | token => exact Nat.succ_pos _
    | block => exact Nat.succ_pos _
  · have hc : (q.past [.curlyBlock, .semicolon]).content = .token t rest := ht
    obtain ⟨kind, text⟩ := t
    have hk : kind = .semicolon := by
      cases kind <;> simp_all [Mark.found, Token.mark?]
    subst hk
    simp only [Passage.skipSemicolon, hc, Content.size] at hle ⊢
    omega
  · have hc : (q.past [.curlyBlock, .semicolon]).content = .block b o body c rest := hb
    have hk : b = .curly := by cases b <;> simp_all [Mark.found, Css.Bracket.mark?]
    subst hk
    simp [Passage.frame?, hc] at hf

theorem next_smaller (p : Passage) (s : Step KeyframeBlock) (h : next p = some s) :
    s.rest.content.size < p.content.size := by
  have hs : p.skipTrivia.content.size ≤ p.content.size := p.content.size_skipTrivia_le
  refine Nat.lt_of_lt_of_le ?_ hs
  unfold next at h
  simp only at h
  split at h
  · simp at h
  · rename_i hnil
    split at h
    · rename_i block hf
      obtain rfl := Option.some.inj h
      exact Nat.lt_of_lt_of_le (Passage.size_frame?_rest hf) (Content.size_past_le _ _)
    · rename_i hf
      obtain rfl := Option.some.inj h
      exact size_skip_lt _ hnil hf

def reader : ItemReader KeyframeBlock := ⟨next, next_smaller⟩

end KeyframeBlock

/-! ### Rules -/

namespace Rule

/-- The name of a keyframes rule, which begins at `start`: an identifier or a string in front
of the passage. Without one the name is empty. What follows the name comes last. -/
def nameInFront (start : Position) (p : Passage) : String × List Diagnostic × Passage :=
  match p.content with
  | .token ⟨.ident name, text⟩ rest => (name, [], ⟨p.start.advance text, rest⟩)
  | .token ⟨.string name, text⟩ rest => (name, [], ⟨p.start.advance text, rest⟩)
  | _ => ("", [⟨.missingKeyframesName, start, p.start⟩], p)

/-- A keyframes rule from after its at-keyword, which begins at `start`: a name, and blocks
in curly brackets. -/
def afterKeyframes (start : Position) (vendor : Option String) (p : Passage) : Step Rule :=
  let (name, nameless, trailing) := nameInFront start p.skipTrivia
  let extra := trailing.upTo [.curlyBlock, .semicolon, .closer]
  let rest := trailing.past [.curlyBlock, .semicolon, .closer]
  let unexpected : List Diagnostic :=
    if extra.excerpt = [] then [] else [⟨.unexpectedToken, trailing.start, rest.start⟩]
  let found := p.trivia.diagnostics ++ nameless ++ extra.diagnostics ++ unexpected
  match rest.frame? with
  | some block =>
    let blocks := KeyframeBlock.reader.run block.body
    { items := [.keyframes ⟨name, vendor, blocks.items, ⟨start, block.rest.start⟩⟩]
      diagnostics := found ++ blocks.diagnostics ++ block.unmatched
      rest := block.rest }
  | none =>
    let last := rest.skipSemicolon
    { items := [.keyframes ⟨name, vendor, [], ⟨start, last.start⟩⟩]
      diagnostics := found ++ [⟨.missingBlock, rest.start, rest.start⟩]
      rest := last }

/-- Any other rule with an at-keyword, from after that keyword, which begins at `start`: it
ends with its first curly block or semicolon. -/
def afterAtKeyword (start : Position) (name : String) (p : Passage) : Step Rule :=
  let skipped := p.upTo [.semicolon, .curlyBlock, .closer]
  let rest := p.past [.semicolon, .curlyBlock, .closer]
  match rest.frame? with
  | some block =>
    { items := [.atRule name ⟨start, block.rest.start⟩]
      diagnostics := skipped.diagnostics ++ block.body.diagnostics ++ block.unmatched
      rest := block.rest }
  | none =>
    let last := rest.skipSemicolon
    { items := [.atRule name ⟨start, last.start⟩]
      diagnostics := skipped.diagnostics
      rest := last }

/-- A rule without an at-keyword: a selector and a block in curly brackets. -/
def styleRule (q : Passage) : Step Rule :=
  let selector := q.upTo [.curlyBlock, .closer]
  let rest := q.past [.curlyBlock, .closer]
  let text := String.ofList selector.excerpt
  match rest.frame? with
  | some block =>
    let missing : List Diagnostic :=
      if selector.excerpt = [] then [⟨.missingSelector, q.start, block.rest.start⟩] else []
    { items := [.style text ⟨q.start, block.rest.start⟩]
      diagnostics := selector.diagnostics ++ block.body.diagnostics ++ block.unmatched ++ missing
      rest := block.rest }
  | none =>
    { items := [.style text ⟨q.start, rest.start⟩]
      diagnostics := selector.diagnostics ++ [⟨.missingBlock, q.start, rest.start⟩]
      rest := rest }

/-- The next rule, or a closing bracket that no rule begins with. -/
def next (p : Passage) : Option (Step Rule) :=
  let q := p.skipTrivia
  match q.content with
  | .nil => none
  | .token ⟨.closing _, text⟩ rest =>
    let last := q.start.advance text
    some
      { items := []
        diagnostics := p.trivia.diagnostics ++ [⟨.unexpectedToken, q.start, last⟩]
        rest := ⟨last, rest⟩ }
  | .token ⟨.atKeyword name, text⟩ rest =>
    let body : Passage := ⟨q.start.advance text, rest⟩
    let rule :=
      match vendor? name with
      | some vendor => afterKeyframes q.start (if vendor.isEmpty then none else some vendor) body
      | none => afterAtKeyword q.start name body
    some (rule.afterFaults p.trivia.diagnostics)
  | _ => some ((styleRule q).afterFaults p.trivia.diagnostics)

theorem size_nameInFront_le (start : Position) (p : Passage) :
    (nameInFront start p).2.2.content.size ≤ p.content.size := by
  unfold nameInFront
  split
  · rename_i hc
    rw [hc]
    exact Nat.le_succ _
  · rename_i hc
    rw [hc]
    exact Nat.le_succ _
  · exact Nat.le_refl _

theorem size_afterKeyframes_le (start : Position) (vendor : Option String) (p : Passage) :
    (afterKeyframes start vendor p).rest.content.size ≤ p.content.size := by
  have hs : p.skipTrivia.content.size ≤ p.content.size := p.content.size_skipTrivia_le
  have hn := size_nameInFront_le start p.skipTrivia
  unfold afterKeyframes
  simp only
  generalize nameInFront start p.skipTrivia = named at hn ⊢
  have hrest := Nat.le_trans (Content.size_past_le [.curlyBlock, .semicolon, .closer] named.2.2.content)
    (Nat.le_trans hn hs)
  split
  · rename_i block hf
    exact Nat.le_trans (Nat.le_of_lt (Passage.size_frame?_rest hf)) hrest
  · exact Nat.le_trans (Passage.size_skipSemicolon_le _) hrest

theorem size_afterAtKeyword_le (start : Position) (name : String) (p : Passage) :
    (afterAtKeyword start name p).rest.content.size ≤ p.content.size := by
  unfold afterAtKeyword
  simp only
  split
  · rename_i block hf
    exact Nat.le_trans (Nat.le_of_lt (Passage.size_frame?_rest hf)) (Content.size_past_le _ _)
  · exact Nat.le_trans (Passage.size_skipSemicolon_le _) (Content.size_past_le _ _)

/-- A rule without at-keyword takes at least one value, if no stray bracket is in front. -/
theorem size_styleRule_lt (q : Passage) (h : q.content ≠ .nil)
    (hc : ∀ b text rest, q.content ≠ .token ⟨.closing b, text⟩ rest) :
    (styleRule q).rest.content.size < q.content.size := by
  unfold styleRule
  simp only
  split
  · rename_i block hf
    exact Nat.lt_of_lt_of_le (Passage.size_frame?_rest hf) (Content.size_past_le _ _)
  · rename_i hf
    show (q.content.past [.curlyBlock, .closer]).size < q.content.size
    cases hq : q.content with
    | nil => exact absurd hq h
    | token t rest =>
      obtain ⟨kind, text⟩ := t
      have : Mark.found [.curlyBlock, .closer] (Token.mark? ⟨kind, text⟩) = false := by
        cases kind <;> simp_all [Mark.found, Token.mark?]
      rw [Content.past, this]
      exact Nat.lt_succ_of_le (Content.size_past_le _ _)
    | block b opening body closing rest =>
      by_cases hb : b = .curly
      · subst hb
        simp [Passage.frame?, Passage.past, hq, Content.past, Mark.found, Css.Bracket.mark?] at hf
      · have : Mark.found [.curlyBlock, .closer] b.mark? = false := by cases b <;> simp_all [Mark.found, Css.Bracket.mark?]
        rw [Content.past, this]
        exact Nat.lt_succ_of_le (Content.size_past_le _ _)

theorem next_smaller (p : Passage) (s : Step Rule) (h : next p = some s) :
    s.rest.content.size < p.content.size := by
  have hs : p.skipTrivia.content.size ≤ p.content.size := p.content.size_skipTrivia_le
  unfold next at h
  simp only at h
  split at h
  · simp at h
  · rename_i hc
    obtain rfl := Option.some.inj h
    rw [hc, Content.size] at hs
    exact hs
  · rename_i hc
    obtain rfl := Option.some.inj h
    rw [hc, Content.size] at hs
    refine Nat.lt_of_le_of_lt ?_ hs
    simp only [Step.afterFaults]
    split
    · exact size_afterKeyframes_le _ _ _
    · exact size_afterAtKeyword_le _ _ _
  · rename_i hnil hclosing _
    obtain rfl := Option.some.inj h
    exact Nat.lt_of_lt_of_le (size_styleRule_lt _ hnil hclosing) hs

def reader : ItemReader Rule := ⟨next, next_smaller⟩

end Rule

/-! ### Stylesheets -/

/-- The stylesheet that a text is. -/
def Stylesheet.ofText (source : String) : Stylesheet :=
  let reading := Rule.reader.run (.ofText source.toList)
  ⟨reading.items, reading.diagnostics⟩

end Timeline.Sheet
