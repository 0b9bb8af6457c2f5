import Timeline.Proofs.Css.Cutting
import Timeline.Sheet.Reader

/-! Declarations, segment by segment.

The semicolons outside of all blocks cut what a block holds into segments. Where brackets are balanced, each segment is
read as it is by itself: as nothing, as one declaration or as one fault (`Declaration.Gives`). What is wrong with one
changes nothing about another (`run_segments`). -/
namespace Timeline

open Css (Content Mark Passage Reading Step)
open Text (Position)

namespace Css

/-! ### Segments -/

namespace Content

/-- The parts between the semicolons that stand outside of all blocks, each at its place. -/
def segments (start : Position) : Content → List Passage
  | nil => [⟨start, nil⟩]
  | token t rest =>
    let more := rest.segments (start.advance t.text)
    if t.kind = .semicolon then ⟨start, nil⟩ :: more
    else more.modifyHead fun first => ⟨start, token t first.content⟩
  | block b opening body closing rest =>
    (rest.segments ((block b opening body closing nil).after start)).modifyHead fun first =>
      ⟨start, block b opening body closing first.content⟩

/-- Content has no semicolon, or begins with what has none and goes on behind the first one. -/
@[elab_as_elim]
theorem semicolonRec {motive : Content → Prop} (last : ∀ c : Content, c.Free [.semicolon] → motive c)
    (more : ∀ (c : Content) (text : List Char) (d : Content), c.Free [.semicolon] → motive d →
      motive (c.append (token ⟨.semicolon, text⟩ d)))
    (c : Content) : motive c := by
  have hfree : (c.upTo [.semicolon]).Free [.semicolon] := free_upTo c
  have hc := upTo_append_past [.semicolon] c
  rcases past_cases [.semicolon] c with hn | ⟨⟨kind, text⟩, d, ht, hm⟩ | ⟨b, opening, body, closing, d, hb, hm⟩
  · rw [hn, append_nil] at hc
    rw [← hc]
    exact last _ hfree
  · have hk : kind = .semicolon := by cases kind <;> simp_all [Mark.found, Token.mark?]
    subst hk
    -- What is behind the first semicolon is smaller, though it is no part of `c` by its constructors.
    have hsize : d.size < c.size := by
      have := size_past_le [.semicolon] c
      rwa [ht, size] at this
    rw [← hc, ht]
    exact more _ text d hfree (semicolonRec last more d)
  · cases b <;> cases hm
termination_by c.size

theorem segments_of_free {c : Content} (h : c.Free [.semicolon]) (start : Position) :
    c.segments start = [⟨start, c⟩] := by
  induction c generalizing start with
  | nil => rfl
  | token t rest ih =>
    obtain ⟨hm, hrest⟩ := free_token.mp h
    have hk : t.kind ≠ .semicolon := fun hk => by simp [Mark.found, Token.mark?, hk] at hm
    rw [segments, if_neg hk, ih hrest]
    rfl
  | block b opening body closing rest _ ih =>
    rw [segments, ih (free_block.mp h).2]
    rfl

theorem segments_append_of_free {c : Content} (h : c.Free [.semicolon]) (start : Position) (text : List Char)
    (d : Content) :
    (c.append (token ⟨.semicolon, text⟩ d)).segments start =
      ⟨start, c⟩ :: d.segments ((c.after start).advance text) := by
  induction c generalizing start with
  | nil => rfl
  | token t rest ih =>
    obtain ⟨hm, hrest⟩ := free_token.mp h
    have hk : t.kind ≠ .semicolon := fun hk => by simp [Mark.found, Token.mark?, hk] at hm
    rw [append, segments, if_neg hk, ih hrest]
    rfl
  | block b opening body closing rest _ ih =>
    rw [append, segments, ih (free_block.mp h).2]
    rfl

/-- A semicolon anywhere outside of all blocks parts segments. -/
theorem segments_append (start : Position) (c : Content) (text : List Char) (d : Content) :
    (c.append (token ⟨.semicolon, text⟩ d)).segments start =
      c.segments start ++ d.segments ((c.after start).advance text) := by
  induction c using semicolonRec generalizing start with
  | last c hc => rw [segments_append_of_free hc, segments_of_free hc, List.singleton_append]
  | more c text' d' hc ih =>
    rw [append_assoc, append, segments_append_of_free hc, ih, segments_append_of_free hc, List.cons_append,
      after_append, after]

theorem free_of_mem_segments {start : Position} {c : Content} {s : Passage} (h : s ∈ c.segments start) :
    s.content.Free [.semicolon] := by
  induction c using semicolonRec generalizing start with
  | last c hc =>
    rw [segments_of_free hc, List.mem_singleton] at h
    rwa [h]
  | more c text d hc ih =>
    rw [segments_append_of_free hc, List.mem_cons] at h
    rcases h with rfl | h
    · exact hc
    · exact ih h

theorem Whole.of_mem_segments {start : Position} {c : Content} {s : Passage} (hw : c.Whole) (h : s ∈ c.segments start) :
    s.content.Whole := by
  induction c using semicolonRec generalizing start with
  | last c hc =>
    rw [segments_of_free hc, List.mem_singleton] at h
    rwa [h]
  | more c text d hc ih =>
    obtain ⟨hfirst, -, hrest⟩ := whole_append.mp hw
    rw [segments_append_of_free hc, List.mem_cons] at h
    rcases h with rfl | h
    · exact hfirst
    · exact ih hrest h

/-! ### What stands in front -/

theorem trivia_append {lead : Content} (h : lead.IsTrivia) (c : Content) :
    (lead.append c).trivia = lead.append c.trivia := by
  induction lead with
  | nil => rfl
  | token t rest ih => rw [append, trivia, if_pos h.1, ih h.2, append]
  | block => exact h.elim

/-- The end, or a semicolon in front. -/
def AtSemicolon : Content → Prop
  | nil => True
  | token t _ => t.kind = .semicolon
  | block .. => False

namespace AtSemicolon

variable {c : Content}

theorem trivia (h : c.AtSemicolon) : c.trivia = nil := by
  cases c with
  | nil => rfl
  | token t rest =>
    replace h : t.kind = .semicolon := h
    simp [Content.trivia, h, Kind.isTrivia]
  | block => rfl

theorem upTo (h : c.AtSemicolon) : c.upTo [.semicolon] = nil := by
  cases c with
  | nil => rfl
  | token t rest =>
    replace h : t.kind = .semicolon := h
    simp [Content.upTo, Token.mark?, h, Mark.found]
  | block => exact h.elim

theorem ne_colon (h : c.AtSemicolon) (text : List Char) (rest : Content) : c ≠ token ⟨.colon, text⟩ rest := by
  rintro rfl
  cases h

end AtSemicolon

/-- What comes behind makes no difference to the first value. -/
theorem Significant.append_ne {c d : Content} (h : c.Significant) {kind : Kind}
    (hne : ∀ text rest, c ≠ token ⟨kind, text⟩ rest) (text : List Char) (rest : Content) :
    c.append d ≠ token ⟨kind, text⟩ rest := by
  cases c with
  | nil => exact h.elim
  | token t more =>
    intro he
    obtain ⟨rfl, -⟩ := Content.token.inj he
    exact hne _ _ rfl
  | block => nofun

end Content

namespace Passage

def segments (p : Passage) : List Passage := p.content.segments p.start

variable {start : Position} {lead c tail : Content}

theorem trivia_mk (hl : lead.IsTrivia) (hc : c.trivia = .nil) :
    trivia ⟨start, lead.append c⟩ = ⟨start, lead⟩ := by
  rw [trivia, Content.trivia_append hl, hc, Content.append_nil]

theorem skipTrivia_mk (hl : lead.IsTrivia) (hc : c.trivia = .nil) :
    skipTrivia ⟨start, lead.append c⟩ = ⟨lead.after start, c⟩ := by
  have hskip := Content.trivia_append_skipTrivia c
  rw [hc, Content.append] at hskip
  rw [skipTrivia, trivia_mk hl hc, Content.skipTrivia_append hl, hskip]
  rfl

theorem skipTrivia_eq (hc : c.trivia = .nil) : skipTrivia ⟨start, c⟩ = ⟨start, c⟩ :=
  @skipTrivia_mk start .nil c trivial hc

variable {marks : List Mark}

theorem upTo_mk (hc : c.Free marks) (ht : tail.upTo marks = .nil) :
    upTo marks ⟨start, c.append tail⟩ = ⟨start, c⟩ := by
  rw [upTo, Content.upTo_append_of_free hc, ht, Content.append_nil]

theorem past_mk (hc : c.Free marks) (ht : tail.upTo marks = .nil) :
    past marks ⟨start, c.append tail⟩ = ⟨c.after start, tail⟩ := by
  have hpast := Content.upTo_append_past marks tail
  rw [ht, Content.append] at hpast
  rw [past, upTo_mk hc ht, Content.past_append_of_free hc, hpast]
  rfl

end Passage

end Css

namespace Sheet.Declaration

/-! ### What a segment gives -/

/-- What a segment is read as by itself. -/
inductive Gives (s : Passage) : Reading Declaration → Prop where
  /-- Blanks and comments alone are nothing. -/
  | nothing : s.content.IsTrivia → Gives s ⟨[], []⟩
  /-- A property, a colon and a value. -/
  | declaration {lead gap value : Content} {property : String} {text colon : List Char} :
      s.content = lead.append (.token ⟨.ident property, text⟩ (gap.append (.token ⟨.colon, colon⟩ value))) →
      lead.IsTrivia → gap.IsTrivia →
      Gives s ⟨[⟨property, String.ofList value.excerpt, ⟨lead.after s.start, s.stop⟩⟩], []⟩
  /-- An identifier with no colon behind it. -/
  | colonless {lead gap rest : Content} {property : String} {text : List Char} :
      s.content = lead.append (.token ⟨.ident property, text⟩ (gap.append rest)) →
      lead.IsTrivia → gap.IsTrivia → rest = .nil ∨ rest.Significant →
      (∀ colon value, rest ≠ .token ⟨.colon, colon⟩ value) →
      Gives s ⟨[], [⟨.missingColon, lead.after s.start, gap.after ((lead.after s.start).advance text)⟩]⟩
  /-- Anything else. -/
  | unexpected {lead rest : Content} :
      s.content = lead.append rest → lead.IsTrivia → rest.Significant →
      (∀ property text more, rest ≠ .token ⟨.ident property, text⟩ more) →
      Gives s ⟨[], [⟨.unexpectedToken, lead.after s.start, s.stop⟩]⟩

theorem exists_gives (s : Passage) : ∃ r, Gives s r := by
  have hlead := s.content.isTrivia_trivia
  have hs := (Content.trivia_append_skipTrivia s.content).symm
  by_cases hnil : s.content.skipTrivia = .nil
  · exact ⟨_, .nothing (Content.isTrivia_of_skipTrivia hnil)⟩
  by_cases hident : ∃ property text rest, s.content.skipTrivia = .token ⟨.ident property, text⟩ rest
  · obtain ⟨property, text, rest, hident⟩ := hident
    have hgap := rest.isTrivia_trivia
    rw [hident, ← Content.trivia_append_skipTrivia rest] at hs
    by_cases hcolon : ∃ colon value, rest.skipTrivia = .token ⟨.colon, colon⟩ value
    · obtain ⟨colon, value, hcolon⟩ := hcolon
      rw [hcolon] at hs
      exact ⟨_, .declaration hs hlead hgap⟩
    · refine ⟨_, .colonless hs hlead hgap ?_ fun colon value h => hcolon ⟨colon, value, h⟩⟩
      by_cases hrest : rest.skipTrivia = .nil
      · exact .inl hrest
      · exact .inr (Content.significant_skipTrivia hrest)
  · exact ⟨_, .unexpected hs hlead (Content.significant_skipTrivia hnil) fun property text more h =>
      hident ⟨property, text, more, h⟩⟩

/-! ### Reading a segment -/

theorem run_nil (start : Position) : reader.run ⟨start, .nil⟩ = ⟨[], []⟩ := reader.run_of_none rfl

theorem run_semicolon (start : Position) (text : List Char) (rest : Content) :
    reader.run ⟨start, .token ⟨.semicolon, text⟩ rest⟩ = reader.run ⟨start.advance text, rest⟩ :=
  reader.run_of_some (s := ⟨[], [], ⟨start.advance text, rest⟩⟩) rfl

/-- Nothing but what follows the blanks and comments in front counts, and what is wrong with these. -/
theorem run_congr {p q : Passage} (hrest : p.skipTrivia = q.skipTrivia)
    (hfront : p.trivia.diagnostics = q.trivia.diagnostics) : reader.run p = reader.run q := by
  have hnext : reader.next p = reader.next q := by
    show next p = next q
    simp only [next, hrest, hfront]
  cases hs : reader.next q with
  | none =>
    rw [reader.run_of_none hs, reader.run_of_none (hnext.trans hs), ← Passage.diagnostics_skipTrivia p,
      ← Passage.diagnostics_skipTrivia q, hrest, hfront]
  | some s => rw [reader.run_of_some hs, reader.run_of_some (hnext.trans hs)]

section

variable {start : Position} {lead gap value rest tail c : Content} {property : String} {text colon : List Char}

theorem run_front (hl : lead.IsTrivia) (hw : lead.Whole) (hc : c.trivia = .nil) :
    reader.run ⟨start, lead.append c⟩ = reader.run ⟨lead.after start, c⟩ := by
  have hnone : Passage.trivia ⟨lead.after start, c⟩ = ⟨lead.after start, .nil⟩ := congrArg (Passage.mk _) hc
  refine run_congr ?_ ?_
  · rw [Passage.skipTrivia_mk hl hc, Passage.skipTrivia_eq hc]
  · rw [Passage.trivia_mk hl hc, hnone, Passage.diagnostics, hw.diagnostics]
    rfl

theorem afterProperty_colon (first : Position) (hg : gap.IsTrivia) (hgw : gap.Whole) (hv : value.Free [.semicolon])
    (hvw : value.Whole) (ht : tail.AtSemicolon) :
    let stop := value.after ((gap.after start).advance colon)
    afterProperty first property ⟨start, gap.append (.token ⟨.colon, colon⟩ (value.append tail))⟩ =
      ⟨[⟨property, String.ofList value.excerpt, ⟨first, stop⟩⟩], [], ⟨stop, tail⟩⟩ := by
  have hc : (Content.token ⟨.colon, colon⟩ (value.append tail)).trivia = .nil := rfl
  simp only [afterProperty, Passage.skipTrivia_mk hg hc, Passage.trivia_mk hg hc, Passage.upTo_mk hv ht.upTo,
    Passage.past_mk hv ht.upTo, Passage.diagnostics, hgw.diagnostics, hvw.diagnostics]
  rfl

theorem afterProperty_colonless (first : Position) (hg : gap.IsTrivia) (hgw : gap.Whole) (hr : rest.Free [.semicolon])
    (hrw : rest.Whole) (ht : tail.AtSemicolon) (hc : (rest.append tail).trivia = .nil)
    (hcolon : ∀ colon value, rest.append tail ≠ .token ⟨.colon, colon⟩ value) :
    afterProperty first property ⟨start, gap.append (rest.append tail)⟩ =
      ⟨[], [⟨.missingColon, first, gap.after start⟩], ⟨rest.after (gap.after start), tail⟩⟩ := by
  simp only [afterProperty, Passage.skipTrivia_mk hg hc, Passage.trivia_mk hg hc, Passage.upTo_mk hr ht.upTo,
    Passage.past_mk hr ht.upTo, Passage.diagnostics, hgw.diagnostics, hrw.diagnostics]
  rfl

/-- A property in front is read with what comes after it. -/
theorem run_property {s : Step Declaration} (h : afterProperty start property ⟨start.advance text, c⟩ = s) :
    reader.run ⟨start, .token ⟨.ident property, text⟩ c⟩ =
      ⟨s.items ++ (reader.run s.rest).items, s.diagnostics ++ (reader.run s.rest).diagnostics⟩ := by
  subst h
  exact reader.run_of_some rfl

theorem next_unexpected (start : Position) (hs : rest.Significant) (hr : rest.Free [.semicolon]) (hrw : rest.Whole)
    (hident : ∀ property text more, rest ≠ .token ⟨.ident property, text⟩ more) (ht : tail.AtSemicolon) :
    next ⟨start, rest.append tail⟩ =
      some ⟨[], [⟨.unexpectedToken, start, rest.after start⟩], ⟨rest.after start, tail⟩⟩ := by
  have hc := (hs.append tail).trivia
  have hnone : Passage.trivia ⟨start, rest.append tail⟩ = ⟨start, .nil⟩ := congrArg (Passage.mk _) hc
  have hnil : rest.append tail ≠ .nil := fun he => by
    have := hs.append tail
    rwa [he] at this
  have hsemicolon : ∀ text more, rest.append tail ≠ .token ⟨.semicolon, text⟩ more :=
    hs.append_ne fun text more he => by
      rw [he] at hr
      cases (Content.free_token.mp hr).1
  have hproperty : ∀ property text more, rest.append tail ≠ .token ⟨.ident property, text⟩ more :=
    fun property => hs.append_ne (hident property)
  simp only [next, Passage.skipTrivia_eq hc, hnone, Passage.upTo_mk hr ht.upTo, Passage.past_mk hr ht.upTo,
    Passage.diagnostics, hrw.diagnostics]
  rfl

end

/-- **A segment is read as it is by itself**, whatever comes behind it. -/
theorem Gives.run_append {s : Passage} {r : Reading Declaration} (h : Gives s r) (hf : s.content.Free [.semicolon])
    (hw : s.content.Whole) {tail : Content} (ht : tail.AtSemicolon) :
    reader.run ⟨s.start, s.content.append tail⟩ =
      ⟨r.items ++ (reader.run ⟨s.stop, tail⟩).items, r.diagnostics ++ (reader.run ⟨s.stop, tail⟩).diagnostics⟩ := by
  obtain ⟨start, content⟩ := s
  cases h with
  | nothing hc => exact run_front hc hw ht.trivia
  | @declaration lead gap value property text colon hc hl hg =>
    obtain rfl : content = _ := hc
    obtain ⟨hlw, -, hinner⟩ := Content.whole_append.mp hw
    obtain ⟨hgw, -, hvw⟩ := Content.whole_append.mp hinner
    have hbehind := (Content.free_token.mp (Content.free_append.mp hf).2).2
    have hv := (Content.free_token.mp (Content.free_append.mp hbehind).2).2
    simp only [Passage.stop, Content.append_assoc, Content.append, Content.after_append, Content.after]
    rw [run_front hl hlw rfl, run_property (afterProperty_colon _ hg hgw hv hvw ht)]
  | @colonless lead gap rest property text hc hl hg hrest hcolon =>
    obtain rfl : content = _ := hc
    obtain ⟨hlw, -, hinner⟩ := Content.whole_append.mp hw
    obtain ⟨hgw, hrw⟩ := Content.whole_append.mp hinner
    have hbehind := (Content.free_token.mp (Content.free_append.mp hf).2).2
    have hr := (Content.free_append.mp hbehind).2
    -- The identifier may be all there is. Then the semicolon, or the end, comes where the colon should be.
    have hfront : (rest.append tail).trivia = .nil := by
      rcases hrest with rfl | hs
      · exact ht.trivia
      · exact (hs.append tail).trivia
    have hnone : ∀ colon value, rest.append tail ≠ .token ⟨.colon, colon⟩ value := by
      rcases hrest with rfl | hs
      · exact ht.ne_colon
      · exact hs.append_ne hcolon
    simp only [Passage.stop, Content.append_assoc, Content.append, Content.after_append, Content.after]
    rw [run_front hl hlw rfl, run_property (afterProperty_colonless _ hg hgw hr hrw ht hfront hnone)]
  | @unexpected lead rest hc hl hs hident =>
    obtain rfl : content = _ := hc
    obtain ⟨hlw, hrw⟩ := Content.whole_append.mp hw
    have hnext := next_unexpected (lead.after start) hs (Content.free_append.mp hf).2 hrw hident ht
    simp only [Passage.stop, Content.append_assoc, Content.after_append]
    rw [run_front hl hlw (hs.append tail).trivia, reader.run_of_some hnext]

/-- In front of a semicolon a segment gives what it gives, and then comes what is behind the semicolon. -/
theorem Gives.run_append_semicolon {start : Position} {c : Content} {r : Reading Declaration} (h : Gives ⟨start, c⟩ r)
    (hf : c.Free [.semicolon]) (hw : c.Whole) (text : List Char) (rest : Content) :
    reader.run ⟨start, c.append (.token ⟨.semicolon, text⟩ rest)⟩ =
      ⟨r.items ++ (reader.run ⟨(c.after start).advance text, rest⟩).items,
        r.diagnostics ++ (reader.run ⟨(c.after start).advance text, rest⟩).diagnostics⟩ := by
  have hrun := @Gives.run_append _ _ h hf hw (.token ⟨.semicolon, text⟩ rest) rfl
  rwa [run_semicolon] at hrun

/-- Without anything behind it a segment is read as nothing but what it gives. -/
theorem gives_iff {s : Passage} (hf : s.content.Free [.semicolon]) (hw : s.content.Whole) (r : Reading Declaration) :
    Gives s r ↔ reader.run s = r := by
  -- What is read is determined by what is given, and something is given: so nothing else is.
  have hrun : ∀ {r}, Gives s r → reader.run s = r := by
    intro r hr
    have h := @Gives.run_append s r hr hf hw .nil trivial
    rwa [Content.append_nil, run_nil, List.append_nil, List.append_nil] at h
  refine ⟨hrun, fun h => ?_⟩
  obtain ⟨r', hr'⟩ := exists_gives s
  rwa [← h, hrun hr']

/-- **What a block holds is read segment by segment.** -/
theorem run_eq_segments {c : Content} (hw : c.Whole) (start : Position) :
    reader.run ⟨start, c⟩ =
      ⟨(c.segments start).flatMap fun s => (reader.run s).items,
        (c.segments start).flatMap fun s => (reader.run s).diagnostics⟩ := by
  induction c using Content.semicolonRec generalizing start with
  | last c hc => rw [Content.segments_of_free hc, List.flatMap_singleton, List.flatMap_singleton]
  | more c text d hc ih =>
    obtain ⟨hfirst, -, hrest⟩ := Content.whole_append.mp hw
    have hgives : Gives ⟨start, c⟩ (reader.run ⟨start, c⟩) := (gives_iff hc hfirst _).mpr rfl
    rw [hgives.run_append_semicolon hc hfirst, ih hrest, Content.segments_append_of_free hc, List.flatMap_cons,
      List.flatMap_cons]

theorem run_last_semicolon {p : Passage} (h : p.content.Whole) (text : List Char) :
    reader.run ⟨p.start, p.content.append (.token ⟨.semicolon, text⟩ .nil)⟩ = reader.run p := by
  have hw : (p.content.append (.token ⟨.semicolon, text⟩ .nil)).Whole :=
    Content.whole_append.mpr ⟨h, ⟨rfl, rfl⟩, trivial⟩
  have hp : reader.run p = _ := run_eq_segments h p.start
  rw [run_eq_segments hw, hp, Content.segments_append, List.flatMap_append,
    List.flatMap_append, Content.segments, List.flatMap_singleton, List.flatMap_singleton, run_nil, List.append_nil,
    List.append_nil]

/-- **Declarations are recovered segment by segment.** Where brackets are balanced, what is between two semicolons is
read as it is by itself and gives nothing, one declaration or one fault, and the last semicolon may be missing. -/
theorem run_segments {p : Passage} (h : p.content.Whole) :
    (reader.run p).items = p.segments.flatMap (fun s => (reader.run s).items) ∧
    (reader.run p).diagnostics = p.segments.flatMap (fun s => (reader.run s).diagnostics) ∧
    (∀ s ∈ p.segments, ∀ r, Gives s r ↔ reader.run s = r) ∧
    ∀ text, reader.run ⟨p.start, p.content.append (.token ⟨.semicolon, text⟩ .nil)⟩ = reader.run p := by
  have hrun := run_eq_segments h p.start
  exact ⟨congrArg Reading.items hrun, congrArg Reading.diagnostics hrun,
    fun s hs => gives_iff (Content.free_of_mem_segments hs) (h.of_mem_segments hs), run_last_semicolon h⟩

/-- Two declarations around two faults and a comment. The semicolon in parentheses parts nothing. -/
theorem run_segments_mixed :
    let p := Passage.ofText "a: 1; b 2; 3px; /* x */; c: f(1;2)".toList
    p.content.Whole ∧ p.segments.length = 5 ∧
      (reader.run p).items = [⟨"a", "1", ⟨⟨0, 0⟩, ⟨0, 4⟩⟩⟩, ⟨"c", "f(1;2)", ⟨⟨0, 25⟩, ⟨0, 34⟩⟩⟩] ∧
      (reader.run p).diagnostics =
        [⟨.missingColon, ⟨⟨0, 6⟩, ⟨0, 8⟩⟩⟩, ⟨.unexpectedToken, ⟨⟨0, 11⟩, ⟨0, 14⟩⟩⟩] := by
  intro p
  have hw : p.content.Whole := (Content.whole_ofTokens_iff _ .origin).mpr (by decide +kernel)
  obtain ⟨hitems, hdiagnostics, -⟩ := run_segments hw
  refine ⟨hw, by decide +kernel, ?_, ?_⟩
  · rw [hitems]
    decide +kernel
  · rw [hdiagnostics]
    decide +kernel

end Sheet.Declaration

end Timeline
