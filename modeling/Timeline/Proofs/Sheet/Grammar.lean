import Timeline.Proofs.Css.Cutting
import Timeline.Sheet.Reader

/-! The grammar of stylesheets.

What a stylesheet without faults looks like is said here of its component values alone: how
they split into rules, blocks and declarations, and which these are. Nothing is said about how
they are found, or about what a reader does with values that do not split so. Where an item
stands in its text is left open. -/
namespace Timeline.Sheet

open Css (Content Token)
open Text (Span)

/-! ### Items without their places -/

def noSpan : Span := ⟨.origin, .origin⟩

def Declaration.unplaced (d : Declaration) : Declaration := { d with span := noSpan }

def KeyframeBlock.unplaced (b : KeyframeBlock) : KeyframeBlock :=
  { b with declarations := b.declarations.map Declaration.unplaced, span := noSpan }

def KeyframesRule.unplaced (r : KeyframesRule) : KeyframesRule :=
  { r with blocks := r.blocks.map KeyframeBlock.unplaced, span := noSpan }

def Rule.unplaced : Rule → Rule
  | keyframes rule => .keyframes rule.unplaced
  | style selector _ => .style selector noSpan
  | atRule name _ => .atRule name noSpan

namespace Grammar

/-! ### Declarations -/

/-- What stands between two semicolons: nothing, or a property, a colon and a value. -/
inductive Segment : Content → List Declaration → Prop where
  | blank {c : Content} : c.IsTrivia → Segment c []
  | declaration {lead gap value : Content} {property : String} {text colon : List Char} {span : Span} :
      lead.IsTrivia → gap.IsTrivia →
      Segment (lead.append (.token ⟨.ident property, text⟩ (gap.append (.token ⟨.colon, colon⟩ value))))
        [⟨property, String.ofList value.excerpt, span⟩]

/-- Segments with semicolons between them. -/
inductive Declarations : Content → List Declaration → Prop where
  | last {c : Content} {found : List Declaration} : c.Free [.semicolon] → Segment c found → Declarations c found
  | more {c rest : Content} {text : List Char} {found others : List Declaration} :
      c.Free [.semicolon] → Segment c found → Declarations rest others →
      Declarations (c.append (.token ⟨.semicolon, text⟩ rest)) (found ++ others)

/-! ### Blocks -/

/-- Preludes of some text, and after each one declarations in curly brackets. -/
inductive Blocks : Content → List KeyframeBlock → Prop where
  | done {c : Content} : c.IsTrivia → Blocks c []
  | block {lead prelude body rest : Content} {opening : Token} {closing : Option Token}
      {declarations : List Declaration} {others : List KeyframeBlock} {span : Span} :
      lead.IsTrivia → prelude.Significant → prelude.Free [.curlyBlock, .semicolon] → prelude.excerpt ≠ [] →
      Declarations body declarations → Blocks rest others →
      Blocks (lead.append (prelude.append (.block .curly opening body closing rest)))
        (⟨KeyframeBlock.selectorsOf prelude.excerpt, declarations, span⟩ :: others)

/-! ### Rules -/

/-- A token that can name a keyframes rule, and the name. -/
def Names (t : Token) (name : String) : Prop := t.kind = .ident name ∨ t.kind = .string name

/-- The vendor that a keyword shows, if it shows one. -/
def shown (vendor : String) : Option String := if vendor.isEmpty then none else some vendor

/-- Content that does not begin with an at-keyword. -/
def NoAtKeyword : Content → Prop
  | .token ⟨.atKeyword _, _⟩ _ => False
  | _ => True

/-- Keyframes rules, other rules with an at-keyword, and rules with a prelude and a block. -/
inductive Rules : Content → List Rule → Prop where
  | done {c : Content} : c.IsTrivia → Rules c []
  /-- A keyframes keyword, a name, no other text, and blocks in curly brackets. -/
  | keyframes {lead gap extra body rest : Content} {keyword vendor name : String} {text : List Char}
      {named opening : Token} {closing : Option Token} {blocks : List KeyframeBlock} {others : List Rule} {span : Span} :
      lead.IsTrivia → vendor? keyword = some vendor → gap.IsTrivia → Names named name →
      extra.Free [.curlyBlock, .semicolon] → extra.excerpt = [] → Blocks body blocks → Rules rest others →
      Rules (lead.append (.token ⟨.atKeyword keyword, text⟩ (gap.append
          (.token named (extra.append (.block .curly opening body closing rest))))))
        (.keyframes ⟨name, shown vendor, blocks, span⟩ :: others)
  /-- Any other at-keyword, up to a curly block. -/
  | atBlock {lead skipped body rest : Content} {keyword : String} {text : List Char} {opening : Token}
      {closing : Option Token} {others : List Rule} {span : Span} :
      lead.IsTrivia → vendor? keyword = none → skipped.Free [.semicolon, .curlyBlock] → Rules rest others →
      Rules (lead.append (.token ⟨.atKeyword keyword, text⟩ (skipped.append (.block .curly opening body closing rest))))
        (.atRule keyword span :: others)
  /-- Any other at-keyword, up to a semicolon. -/
  | atSemicolon {lead skipped rest : Content} {keyword : String} {text semicolon : List Char}
      {others : List Rule} {span : Span} :
      lead.IsTrivia → vendor? keyword = none → skipped.Free [.semicolon, .curlyBlock] → Rules rest others →
      Rules (lead.append (.token ⟨.atKeyword keyword, text⟩ (skipped.append (.token ⟨.semicolon, semicolon⟩ rest))))
        (.atRule keyword span :: others)
  /-- Any other at-keyword, up to the end. -/
  | atEnd {lead skipped : Content} {keyword : String} {text : List Char} {span : Span} :
      lead.IsTrivia → vendor? keyword = none →
      skipped.Free [.semicolon, .curlyBlock] →
      Rules (lead.append (.token ⟨.atKeyword keyword, text⟩ skipped)) [.atRule keyword span]
  | style {lead prelude body rest : Content} {opening : Token} {closing : Option Token} {others : List Rule}
      {span : Span} :
      lead.IsTrivia → prelude.Significant → NoAtKeyword prelude → prelude.Free [.curlyBlock] → prelude.excerpt ≠ [] →
      Rules rest others →
      Rules (lead.append (prelude.append (.block .curly opening body closing rest)))
        (.style (String.ofList prelude.excerpt) span :: others)

/-! ### Parts of what follows the grammar -/

theorem noAtKeyword_append {c d : Content} (hs : c.Significant) : NoAtKeyword (c.append d) ↔ NoAtKeyword c := by
  cases c with
  | nil => exact hs.elim
  | token t rest =>
    obtain ⟨kind, text⟩ := t
    cases kind <;> rfl
  | block => rfl

theorem Segment.eq_nil {found : List Declaration} (h : Segment .nil found) : found = [] := by
  generalize hc : Content.nil = c at h
  cases h with
  | blank => rfl
  | @declaration lead => cases lead <;> cases hc

theorem Declarations.eq_nil {found : List Declaration} (h : Declarations .nil found) : found = [] := by
  generalize hc : Content.nil = c at h
  cases h with
  | last _ hs => exact Segment.eq_nil (hc ▸ hs)
  | @more c => cases c <;> cases hc

/-- A semicolon in front ends an empty segment. -/
theorem Declarations.of_semicolon {text : List Char} {rest : Content} {found : List Declaration}
    (h : Declarations (.token ⟨.semicolon, text⟩ rest) found) : Declarations rest found := by
  have hmark : ∀ {d : Content}, ¬ (Content.token ⟨.semicolon, text⟩ d).Free [.semicolon] := by
    intro d hf
    have := (Content.free_token.mp hf).1
    cases this
  generalize hc : Content.token ⟨.semicolon, text⟩ rest = c at h
  cases h with
  | last hf => exact absurd (hc ▸ hf) hmark
  | @more c ds text' rest' others hf hs hrest =>
    cases c with
    | nil =>
      obtain ⟨-, rfl⟩ := Content.token.inj hc
      rw [hs.eq_nil]
      exact hrest
    | token t d =>
      obtain ⟨rfl, -⟩ := Content.token.inj hc
      exact absurd hf hmark
    | block => cases hc

theorem Rules.eq_nil {found : List Rule} (h : Rules .nil found) : found = [] := by
  generalize hc : Content.nil = c at h
  cases h with
  | done => rfl
  | @keyframes lead => cases lead <;> cases hc
  | @atBlock lead => cases lead <;> cases hc
  | @atSemicolon lead => cases lead <;> cases hc
  | @atEnd lead => cases lead <;> cases hc
  | @style lead prelude => cases lead <;> cases prelude <;> cases hc

end Grammar

end Timeline.Sheet
