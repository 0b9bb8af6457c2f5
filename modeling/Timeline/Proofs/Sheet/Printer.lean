import Timeline.Proofs.Css.Words
import Timeline.Sheet.Reader

/-! Printing keyframes rules.

A rule is printed with its name in double quotes, its blocks one after the other with their
selectors in front, and a semicolon behind every declaration. `Printable` says which rules this
can be done for: selectors are words, properties are names, and a value is read as one when a
semicolon follows it. -/
namespace Timeline.Sheet

open Css (Content IsName Passage isBlank isTame lex quoted)

/-! ### Printing -/

def Declaration.print (d : Declaration) : List Char :=
  d.property.toList ++ ':' :: ' ' :: (d.value.toList ++ [';', ' '])

/-- Selectors with commas between them. -/
def printSelectors (selectors : List String) : List Char := [',', ' '].intercalate (selectors.map String.toList)

def KeyframeBlock.print (b : KeyframeBlock) : List Char :=
  printSelectors b.selectors ++ ' ' :: '\x7b' :: ' ' :: (b.declarations.flatMap Declaration.print ++ ['\x7d'])

/-- The keyword of a rule, with its vendor if there is one. -/
def KeyframesRule.keyword (r : KeyframesRule) : List Char := (r.vendor.getD "").toList ++ "keyframes".toList

def KeyframesRule.print (r : KeyframesRule) : List Char :=
  '@' :: (r.keyword ++ ' ' :: (quoted r.name.toList ++
    ' ' :: '\x7b' :: ' ' :: (r.blocks.flatMap (fun b => b.print ++ [' ']) ++ ['\x7d'])))

/-- Rules, each with the text in front of it, and the text after the last one. -/
def printRules (rules : List (List Char × KeyframesRule)) (last : List Char) : List Char :=
  rules.flatMap (fun r => r.1 ++ r.2.print) ++ last

/-! ### What can be printed -/

/-- A value without white space at its ends and without comments. In front of a semicolon its
tokens have no fault, and only that semicolon is outside of all its blocks. -/
structure IsValue (cs : List Char) : Prop where
  trimmed : Text.trim cs = cs
  noComment : ∀ t ∈ lex (cs ++ [';']), t.kind.isComment = false
  faultless : (Passage.ofText (cs ++ [';'])).diagnostics = []
  ends : (Content.ofText (cs ++ [';'])).past [.semicolon] = .token ⟨.semicolon, [';']⟩ .nil

instance (cs : List Char) : Decidable (IsValue cs) :=
  decidable_of_iff (Text.trim cs = cs ∧ (∀ t ∈ lex (cs ++ [';']), t.kind.isComment = false) ∧
      (Passage.ofText (cs ++ [';'])).diagnostics = [] ∧
      (Content.ofText (cs ++ [';'])).past [.semicolon] = .token ⟨.semicolon, [';']⟩ .nil)
    ⟨fun h => ⟨h.1, h.2.1, h.2.2.1, h.2.2.2⟩, fun h => ⟨h.trimmed, h.noComment, h.faultless, h.ends⟩⟩

/-- A word without blanks, commas, semicolons, brackets, quotes, backslashes and slashes. -/
def IsSelector (cs : List Char) : Prop := cs ≠ [] ∧ ∀ c ∈ cs, isTame c = true

instance (cs : List Char) : Decidable (IsSelector cs) :=
  decidable_of_iff (cs ≠ [] ∧ cs.all isTame = true) (and_congr_right fun _ => List.all_eq_true)

structure Declaration.Printable (d : Declaration) : Prop where
  property : IsName d.property.toList
  value : IsValue d.value.toList

instance (d : Declaration) : Decidable d.Printable :=
  decidable_of_iff (IsName d.property.toList ∧ IsValue d.value.toList)
    ⟨fun h => ⟨h.1, h.2⟩, fun h => ⟨h.property, h.value⟩⟩

structure KeyframeBlock.Printable (b : KeyframeBlock) : Prop where
  nonempty : b.selectors ≠ []
  selectors : ∀ s ∈ b.selectors, IsSelector s.toList
  declarations : ∀ d ∈ b.declarations, d.Printable

instance (b : KeyframeBlock) : Decidable b.Printable :=
  decidable_of_iff (b.selectors ≠ [] ∧ (∀ s ∈ b.selectors, IsSelector s.toList) ∧ ∀ d ∈ b.declarations, d.Printable)
    ⟨fun h => ⟨h.1, h.2.1, h.2.2⟩, fun h => ⟨h.nonempty, h.selectors, h.declarations⟩⟩

def isLetter (c : Char) : Bool := ('a' ≤ c && c ≤ 'z') || ('A' ≤ c && c ≤ 'Z')

/-- Letters between hyphens. -/
def IsVendor (cs : List Char) : Prop :=
  ∃ letters, cs = '-' :: (letters ++ ['-']) ∧ letters ≠ [] ∧ ∀ c ∈ letters, isLetter c = true

structure KeyframesRule.Printable (r : KeyframesRule) : Prop where
  name : '\x00' ∉ r.name.toList
  vendor : ∀ v ∈ r.vendor, IsVendor v.toList
  blocks : ∀ b ∈ r.blocks, b.Printable

/-- Lists of rules that can be printed, with blanks around them. -/
structure PrintableRules (rules : List (List Char × KeyframesRule)) (last : List Char) : Prop where
  each : ∀ r ∈ rules, r.2.Printable
  before : ∀ r ∈ rules, ∀ c ∈ r.1, isBlank c = true
  behind : ∀ c ∈ last, isBlank c = true

end Timeline.Sheet
