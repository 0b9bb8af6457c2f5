import Timeline.Proofs.Css.Comment
import Timeline.Proofs.Sheet.Segments
import Timeline.Proofs.Sheet.Soundness

/-! What follows the grammar is read without faults, item by item (`Rule.complete`). So a
stylesheet has no faults if and only if its brackets are balanced and its values follow the
grammar (`diagnostics_eq_nil_iff`). -/
namespace Timeline

open Css (Content ItemReader Mark Passage Reading Step Token)
open Sheet (Declaration KeyframeBlock Rule Stylesheet)
open Text (Position Span)

/-! ### Readings without faults -/

namespace Css

/-- Nothing wrong is found, and these items, up to what `unplaced` forgets. -/
structure Reading.Finds {α : Type} (unplaced : α → α) (reading : Reading α) (items : List α) : Prop where
  diagnostics : reading.diagnostics = []
  items : reading.items.map unplaced = items.map unplaced

/-- A step that finds nothing wrong, and these items, and leaves this content. -/
structure Step.Takes {α : Type} (unplaced : α → α) (s : Step α) (items : List α) (rest : Content) : Prop where
  diagnostics : s.diagnostics = []
  items : s.items.map unplaced = items.map unplaced
  rest : s.rest.content = rest

theorem Step.Takes.afterFaults {α : Type} {unplaced : α → α} {s : Step α} {items : List α} {rest : Content}
    (h : s.Takes unplaced items rest) {p : Passage} (hp : p.content.Whole) :
    (s.afterFaults p.diagnostics).Takes unplaced items rest := by
  refine ⟨?_, h.items, h.rest⟩
  show p.diagnostics ++ s.diagnostics = []
  rw [h.diagnostics, List.append_nil]
  exact hp.diagnostics p.start

namespace ItemReader

variable {α : Type} {unplaced : α → α} {p : Passage}

theorem finds_nil (reader : ItemReader α) (h : reader.next p = none) (hd : p.diagnostics = []) :
    (reader.run p).Finds unplaced [] := by
  rw [reader.run_of_none h]
  exact ⟨hd, rfl⟩

theorem finds_cons (reader : ItemReader α) {item : α} {others : List α} {rest : Content}
    (h : ∃ s, reader.next p = some s ∧ s.Takes unplaced [item] rest)
    (hr : ∀ q : Passage, q.content = rest → (reader.run q).Finds unplaced others) :
    (reader.run p).Finds unplaced (item :: others) := by
  obtain ⟨s, h, hs⟩ := h
  have hrest := hr s.rest hs.rest
  rw [reader.run_of_some h]
  refine ⟨?_, ?_⟩
  · show s.diagnostics ++ (reader.run s.rest).diagnostics = []
    rw [hs.diagnostics, hrest.diagnostics]
    rfl
  · show (s.items ++ (reader.run s.rest).items).map unplaced = (item :: others).map unplaced
    rw [List.map_append, hs.items, hrest.items]
    rfl

end ItemReader

namespace Passage

theorem content_skipTrivia {p : Passage} {lead c : Content} (h : p.content = lead.append c) (hl : lead.IsTrivia)
    (hc : c.Significant) : p.skipTrivia.content = c := by
  show p.content.skipTrivia = c
  rw [h, Content.skipTrivia_append hl, hc.skipTrivia]

theorem content_upTo {p : Passage} (marks : List Mark) {c d : Content} (h : p.content = c.append d)
    (hc : c.Free marks) (hd : d.upTo marks = .nil) : (p.upTo marks).content = c := by
  show p.content.upTo marks = c
  rw [h, Content.upTo_append_of_free hc, hd, Content.append_nil]

theorem content_past {p : Passage} (marks : List Mark) {c d : Content} (h : p.content = c.append d)
    (hc : c.Free marks) (hd : d.past marks = d) : (p.past marks).content = d := by
  show p.content.past marks = d
  rw [h, Content.past_append_of_free hc, hd]

/-- A closed block in front. -/
theorem frame?_block {p : Passage} {opening closing : Token} {body rest : Content}
    (h : p.content = .block .curly opening body (some closing) rest) :
    ∃ f, p.frame? = some f ∧ f.body.content = body ∧ f.unmatched = [] ∧ f.rest.content = rest := by
  simp only [frame?, h]
  exact ⟨_, rfl, rfl, rfl, rfl⟩

end Passage

end Css

namespace Sheet

open Grammar

/-! ### Declarations -/

namespace Declaration

/-- A segment of the grammar gives what it stands for, and no fault. -/
theorem exists_gives_of_segment {c : Content} {found : List Declaration} (h : Segment c found) (start : Position) :
    ∃ r, Gives ⟨start, c⟩ r ∧ r.Finds unplaced found := by
  cases h with
  | blank hl => exact ⟨_, .nothing hl, rfl, rfl⟩
  | declaration hl hg => exact ⟨_, .declaration rfl hl hg, rfl, rfl⟩

/-- Declarations that follow the grammar are read without faults. -/
theorem complete {p : Passage} {c : Content} {found : List Declaration} (h : Declarations c found) (hw : c.Whole)
    (hc : p.content = c) : (reader.run p).Finds unplaced found := by
  obtain ⟨start, content⟩ := p
  obtain rfl : content = c := hc
  induction h generalizing start with
  | last hf hs =>
    obtain ⟨r, hr, hfinds⟩ := exists_gives_of_segment hs start
    rwa [(gives_iff hf hw r).mp hr]
  | @more c rest text found others hf hs _ ih =>
    obtain ⟨hfirst, -, hrest⟩ := Content.whole_append.mp hw
    obtain ⟨r, hr, hfinds⟩ := exists_gives_of_segment hs start
    have hothers := ih ((c.after start).advance text) hrest
    rw [hr.run_append_semicolon hf hfirst]
    refine ⟨?_, ?_⟩
    · rw [hfinds.diagnostics, hothers.diagnostics]
      rfl
    · rw [List.map_append, List.map_append, hfinds.items, hothers.items]

end Declaration

/-! ### Blocks -/

namespace KeyframeBlock

variable {p : Passage}

theorem next_of_isTrivia (h : p.content.IsTrivia) : next p = none := by
  have hq : p.skipTrivia.content = .nil := h.skipTrivia
  simp only [next, hq]
  rfl

theorem next_block {lead prelude body rest : Content} {opening closing : Token} {declarations : List Declaration}
    {span : Span}
    (h : p.content = lead.append (prelude.append (.block .curly opening body (some closing) rest)))
    (hl : lead.IsTrivia) (hs : prelude.Significant) (hf : prelude.Free [.curlyBlock, .semicolon])
    (ht : prelude.excerpt ≠ []) (hw : p.content.Whole)
    (hb : ∀ q : Passage, q.content = body → (Declaration.reader.run q).Finds Declaration.unplaced declarations) :
    ∃ s, next p = some s ∧ s.Takes unplaced [⟨selectorsOf prelude.excerpt, declarations, span⟩] rest := by
  have hq := Passage.content_skipTrivia h hl (hs.append _)
  have hne : p.skipTrivia.content ≠ .nil := by
    intro hnil
    rw [hq] at hnil
    cases prelude <;> cases hnil
  have hup := Passage.content_upTo [.curlyBlock, .semicolon] hq hf rfl
  obtain ⟨f, hframe, hbody, hunmatched, hrest⟩ :=
    Passage.frame?_block (Passage.content_past [.curlyBlock, .semicolon] hq hf rfl)
  have hread := hb f.body hbody
  have htext : (p.skipTrivia.upTo [.curlyBlock, .semicolon]).excerpt = prelude.excerpt := by
    rw [Passage.excerpt, hup]
  have hfound : (p.skipTrivia.upTo [.curlyBlock, .semicolon]).diagnostics = [] := by
    have hprelude : prelude.Whole := by
      rw [h] at hw
      exact (Content.whole_append.mp (Content.whole_append.mp hw).2).1
    rw [Passage.diagnostics, hup]
    exact hprelude.diagnostics _
  have htrivia : p.trivia.diagnostics = [] := hw.trivia.diagnostics p.start
  refine ⟨_, by simp only [next, if_neg hne, hframe]; rfl, ?_, ?_, hrest⟩
  · simp only [htext, if_neg ht, hfound, htrivia, hread.diagnostics, hunmatched, List.append_nil]
  · simp only [List.map_cons, List.map_nil, unplaced, htext, hread.items]

/-- Blocks that follow the grammar are read without faults. -/
theorem complete {c : Content} {found : List KeyframeBlock} (h : Blocks c found) (hw : c.Whole)
    (hc : p.content = c) : (reader.run p).Finds unplaced found := by
  induction h generalizing p with
  | done hl =>
    refine reader.finds_nil (next_of_isTrivia (hc ▸ hl)) ?_
    rw [Passage.diagnostics, hc]
    exact hw.diagnostics p.start
  | block hl hs hf ht hd hr ih =>
    obtain ⟨-, hbody, ⟨closing, rfl, -⟩, hrest⟩ := (Content.whole_append.mp (Content.whole_append.mp hw).2).2
    refine reader.finds_cons (next_block hc hl hs hf ht (hc ▸ hw) fun q hq => ?_) fun q hq => ih hrest hq
    exact Declaration.complete hd hbody hq

end KeyframeBlock

/-! ### Rules -/

namespace Rule

variable {p : Passage}

theorem next_of_isTrivia (h : p.content.IsTrivia) : next p = none := by
  have hq : p.skipTrivia.content = .nil := h.skipTrivia
  simp only [next, hq]

/-- Content that begins with an at-keyword is read by what comes after it. -/
theorem next_atKeyword {lead c : Content} {keyword : String} {text : List Char} {items : List Rule} {rest : Content}
    (h : p.content = lead.append (.token ⟨.atKeyword keyword, text⟩ c)) (hl : lead.IsTrivia) (hw : p.content.Whole)
    (ht : ∀ (start : Position) (q : Passage), q.content = c →
      Step.Takes unplaced (match vendor? keyword with
        | some vendor => afterKeyframes start (shown vendor) q
        | none => afterAtKeyword start keyword q) items rest) :
    ∃ s, next p = some s ∧ s.Takes unplaced items rest := by
  have hq := Passage.content_skipTrivia h hl rfl
  refine ⟨_, by simp only [next, hq]; rfl, ?_⟩
  exact (ht p.skipTrivia.start ⟨p.skipTrivia.start.advance text, c⟩ rfl).afterFaults hw.trivia

theorem nameInFront_names (start : Position) {named : Token} {name : String} {c : Content}
    (h : p.content = .token named c) (hn : Names named name) :
    ∃ q, nameInFront start p = (name, [], q) ∧ q.content = c := by
  obtain ⟨kind, text⟩ := named
  rcases hn with rfl | rfl <;> exact ⟨_, by simp only [nameInFront, h]; rfl, rfl⟩

theorem takes_afterKeyframes (start : Position) (vendor : Option String) {gap extra body rest : Content}
    {named opening closing : Token} {name : String} {blocks : List KeyframeBlock} {span : Span}
    (h : p.content = gap.append (.token named (extra.append (.block .curly opening body (some closing) rest))))
    (hg : gap.IsTrivia) (hn : Names named name) (hf : extra.Free [.curlyBlock, .semicolon])
    (ht : extra.excerpt = []) (hw : p.content.Whole)
    (hb : ∀ q : Passage, q.content = body → (KeyframeBlock.reader.run q).Finds KeyframeBlock.unplaced blocks) :
    (afterKeyframes start vendor p).Takes unplaced [.keyframes ⟨name, vendor, blocks, span⟩] rest := by
  have hnamed : named.kind.isTrivia = false := by rcases hn with hn | hn <;> rw [hn] <;> rfl
  have hextra : extra.Whole := by
    rw [h] at hw
    exact (Content.whole_append.mp (Content.whole_append.mp hw).2.2).1
  obtain ⟨q, hq, hqc⟩ := nameInFront_names start (Passage.content_skipTrivia h hg hnamed) hn
  have hup := Passage.content_upTo [.curlyBlock, .semicolon, .closer] hqc (hf.closer hextra) rfl
  obtain ⟨f, hframe, hbody, hunmatched, hrest⟩ :=
    Passage.frame?_block (Passage.content_past [.curlyBlock, .semicolon, .closer] hqc (hf.closer hextra) rfl)
  have hread := hb f.body hbody
  have htext : (q.upTo [.curlyBlock, .semicolon, .closer]).excerpt = [] := by
    rw [Passage.excerpt, hup, ht]
  have hfound : (q.upTo [.curlyBlock, .semicolon, .closer]).diagnostics = [] := by
    rw [Passage.diagnostics, hup]
    exact hextra.diagnostics _
  have htrivia : p.trivia.diagnostics = [] := hw.trivia.diagnostics p.start
  simp only [afterKeyframes, hq, hframe]
  refine ⟨?_, ?_, hrest⟩
  · simp only [htrivia, hfound, if_pos htext, hread.diagnostics, hunmatched, List.append_nil]
  · simp only [List.map_cons, List.map_nil, unplaced, KeyframesRule.unplaced, hread.items]

theorem takes_afterAtKeyword_block (start : Position) (keyword : String) {skipped body rest : Content}
    {opening closing : Token} {span : Span}
    (h : p.content = skipped.append (.block .curly opening body (some closing) rest))
    (hf : skipped.Free [.semicolon, .curlyBlock]) (hw : p.content.Whole) :
    (afterAtKeyword start keyword p).Takes unplaced [.atRule keyword span] rest := by
  rw [h] at hw
  obtain ⟨hskipped, -, hbodyWhole, -, -⟩ := Content.whole_append.mp hw
  have hup := Passage.content_upTo [.semicolon, .curlyBlock, .closer] h (hf.closer hskipped) rfl
  obtain ⟨f, hframe, hbody, hunmatched, hrest⟩ :=
    Passage.frame?_block (Passage.content_past [.semicolon, .curlyBlock, .closer] h (hf.closer hskipped) rfl)
  simp only [afterAtKeyword, hframe]
  refine ⟨?_, rfl, hrest⟩
  rw [Passage.diagnostics, Passage.diagnostics, hup, hbody, hunmatched, hskipped.diagnostics, hbodyWhole.diagnostics]
  rfl

/-- Without a block in front the rule ends with a semicolon, or with the text. -/
theorem takes_afterAtKeyword (start : Position) (keyword : String) {skipped tail rest : Content} {span : Span}
    (h : p.content = skipped.append tail) (hf : skipped.Free [.semicolon, .curlyBlock]) (hw : p.content.Whole)
    (ht : tail = .nil ∧ rest = .nil ∨ ∃ text, tail = .token ⟨.semicolon, text⟩ rest) :
    (afterAtKeyword start keyword p).Takes unplaced [.atRule keyword span] rest := by
  rw [h] at hw
  have hskipped := (Content.whole_append.mp hw).1
  have hfree := hf.closer hskipped
  have hfound : (p.upTo [.semicolon, .curlyBlock, .closer]).diagnostics = [] := by
    have hup : (p.upTo [.semicolon, .curlyBlock, .closer]).content = skipped := by
      rcases ht with ⟨rfl, rfl⟩ | ⟨text, rfl⟩ <;> exact Passage.content_upTo _ h hfree rfl
    rw [Passage.diagnostics, hup]
    exact hskipped.diagnostics _
  rcases ht with ⟨rfl, rfl⟩ | ⟨text, rfl⟩
  · have hpast := Passage.content_past [.semicolon, .curlyBlock, .closer] h hfree rfl
    simp only [afterAtKeyword, Passage.frame?, hpast]
    refine ⟨hfound, rfl, ?_⟩
    simp only [Passage.skipSemicolon, hpast]
  · have hpast := Passage.content_past [.semicolon, .curlyBlock, .closer] h hfree rfl
    simp only [afterAtKeyword, Passage.frame?, hpast]
    exact ⟨hfound, rfl, Passage.content_skipSemicolon hpast⟩

theorem takes_styleRule {prelude body rest : Content} {opening closing : Token} {span : Span}
    (h : p.content = prelude.append (.block .curly opening body (some closing) rest)) (hf : prelude.Free [.curlyBlock])
    (ht : prelude.excerpt ≠ []) (hw : p.content.Whole) :
    (styleRule p).Takes unplaced [.style (String.ofList prelude.excerpt) span] rest := by
  rw [h] at hw
  obtain ⟨hprelude, -, hbodyWhole, -, -⟩ := Content.whole_append.mp hw
  have hup := Passage.content_upTo [.curlyBlock, .closer] h (hf.closer hprelude) rfl
  obtain ⟨f, hframe, hbody, hunmatched, hrest⟩ :=
    Passage.frame?_block (Passage.content_past [.curlyBlock, .closer] h (hf.closer hprelude) rfl)
  have htext : (p.upTo [.curlyBlock, .closer]).excerpt = prelude.excerpt := by rw [Passage.excerpt, hup]
  have hfound : (p.upTo [.curlyBlock, .closer]).diagnostics = [] := by
    rw [Passage.diagnostics, hup]
    exact hprelude.diagnostics _
  have hinside : f.body.diagnostics = [] := by
    rw [Passage.diagnostics, hbody]
    exact hbodyWhole.diagnostics _
  simp only [styleRule, hframe]
  refine ⟨?_, ?_, hrest⟩
  · simp only [hfound, hinside, hunmatched, htext, if_neg ht, List.append_nil]
  · simp only [List.map_cons, List.map_nil, unplaced, htext]

theorem next_style {lead c rest : Content} {items : List Rule} (h : p.content = lead.append c) (hl : lead.IsTrivia)
    (hs : c.Significant) (hk : NoAtKeyword c) (hw : p.content.Whole)
    (ht : ∀ q : Passage, q.content = c → (styleRule q).Takes unplaced items rest) :
    ∃ s, next p = some s ∧ s.Takes unplaced items rest := by
  have hq := Passage.content_skipTrivia h hl hs
  have hnext : next p = some ((styleRule p.skipTrivia).afterFaults p.trivia.diagnostics) := by
    unfold next
    dsimp only
    split
    · rename_i hc
      rw [← hq, hc] at hs
      exact hs.elim
    · rename_i hc
      rw [h] at hw
      have hwhole := (Content.whole_append.mp hw).2
      rw [← hq, hc] at hwhole
      cases hwhole.1.2
    · rename_i hc
      rw [← hq, hc] at hk
      exact hk.elim
    · rfl
  exact ⟨_, hnext, (ht p.skipTrivia hq).afterFaults hw.trivia⟩

/-- Rules that follow the grammar are read without faults. -/
theorem complete {c : Content} {found : List Rule} (h : Rules c found) (hw : c.Whole) (hc : p.content = c) :
    (reader.run p).Finds unplaced found := by
  induction h generalizing p with
  | done hl =>
    refine reader.finds_nil (next_of_isTrivia (hc ▸ hl)) ?_
    rw [Passage.diagnostics, hc]
    exact hw.diagnostics p.start
  | keyframes hl hv hg hn hf ht hb hr ih =>
    have hafter := (Content.whole_append.mp hw).2.2
    obtain ⟨-, hbody, ⟨closing, rfl, -⟩, hrest⟩ := (Content.whole_append.mp (Content.whole_append.mp hafter).2.2).2
    refine reader.finds_cons (next_atKeyword hc hl (hc ▸ hw) fun start q hq => ?_) fun q hq => ih hrest hq
    simp only [hv]
    exact takes_afterKeyframes start _ hq hg hn hf ht (hq ▸ hafter) fun q' hq' => KeyframeBlock.complete hb hbody hq'
  | atBlock hl hv hf hr ih =>
    have hafter := (Content.whole_append.mp hw).2.2
    obtain ⟨-, -, ⟨closing, rfl, -⟩, hrest⟩ := (Content.whole_append.mp hafter).2
    refine reader.finds_cons (next_atKeyword hc hl (hc ▸ hw) fun start q hq => ?_) fun q hq => ih hrest hq
    simp only [hv]
    exact takes_afterAtKeyword_block start _ hq hf (hq ▸ hafter)
  | atSemicolon hl hv hf hr ih =>
    have hafter := (Content.whole_append.mp hw).2.2
    have hrest := (Content.whole_append.mp hafter).2.2
    refine reader.finds_cons (next_atKeyword hc hl (hc ▸ hw) fun start q hq => ?_) fun q hq => ih hrest hq
    simp only [hv]
    exact takes_afterAtKeyword start _ hq hf (hq ▸ hafter) (.inr ⟨_, rfl⟩)
  | @atEnd lead skipped keyword text span hl hv hf =>
    have hafter := (Content.whole_append.mp hw).2.2
    refine reader.finds_cons (next_atKeyword hc hl (hc ▸ hw) fun start q hq => ?_) fun q (hq : q.content = .nil) =>
      reader.finds_nil (next_of_isTrivia (hq ▸ trivial)) (by rw [Passage.diagnostics, hq]; rfl)
    simp only [hv]
    exact takes_afterAtKeyword start _ (hq.trans (Content.append_nil skipped).symm) hf (hq ▸ hafter) (.inl ⟨rfl, rfl⟩)
  | style hl hs hk hf ht hr ih =>
    have hinner := (Content.whole_append.mp hw).2
    obtain ⟨-, -, ⟨closing, rfl, -⟩, hrest⟩ := (Content.whole_append.mp hinner).2
    refine reader.finds_cons (next_style hc hl (hs.append _) ((noAtKeyword_append hs).mpr hk) (hc ▸ hw) fun q hq => ?_)
      fun q hq => ih hrest hq
    exact takes_styleRule hq hf ht (hq ▸ hinner)

end Rule

/-- **A stylesheet has no faults if and only if its brackets are balanced and its values follow the grammar.** -/
theorem diagnostics_eq_nil_iff (source : String) :
    (Stylesheet.ofText source).diagnostics = [] ↔
      Css.Balanced (Css.lex source.toList) ∧ ∃ rules, Grammar.Rules (Content.ofText source.toList) rules := by
  rw [Css.balanced_lex_iff source.toList .origin]
  constructor
  · intro h
    refine ⟨?_, _, Rule.sound (.ofText source.toList) h⟩
    have := Rule.reader.run_extends Rule.crossing (.ofText source.toList)
    exact Css.Extends.eq_nil (h ▸ this)
  · intro hgrammar
    obtain ⟨hd, rules, hr⟩ := hgrammar
    have hw := (Content.whole_ofTokens_iff _ _).mpr hd
    exact (Rule.complete hr hw rfl).diagnostics

end Sheet

end Timeline
