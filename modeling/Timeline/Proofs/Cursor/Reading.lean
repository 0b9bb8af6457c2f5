import Timeline.Css.Reading
import Timeline.Proofs.Cursor.Comments
import Timeline.Proofs.Cursor.Values

/-! Reading texts, blocks and items.

What a cursor reads is what is read off the passage in front of it, and what it leaves is the passage that is left
(`Reaches`). An item is answered in one of three ways (`Answer`), and if it always is, a cursor reads the same items as the
reader of passages does, to the end of the text or block (`items_eq`). -/
namespace Timeline

open Css (Bracket Content Diagnostic Fault Fronts ItemReader Kind Mark Passage Step Token lex)
open Journal (Record)

theorem Css.Content.trivia_past (marks : List Mark) (c : Content) : (c.past marks).trivia = nil := by
  rcases past_cases marks c with h | ⟨t, rest, h, hm⟩ | ⟨b, opening, body, closing, rest, h, -⟩
  · rw [h]
    rfl
  · obtain ⟨kind, text⟩ := t
    have hk : kind.isTrivia = false := by cases kind <;> first | rfl | cases hm
    rw [h, trivia, hk]
    rfl
  · rw [h]
    rfl

theorem Css.Content.text_append (c d : Content) : (c.append d).text = c.text ++ d.text := by
  rw [text, tokens_append, List.flatMap_append]
  rfl

theorem Css.Kind.eq_opening_curly {k : Kind} (h : k.opens? = some .curly) : k = .opening .curly := by
  cases k with
  | opening b => exact congrArg Kind.opening (Option.some.inj h)
  | _ => cases h

namespace Cursor

variable {s q r : Cursor} {c d : Content} {t : Token} {b : Bracket} {marks : List Mark}
variable {faults faults' : List Diagnostic} {records records' : List Record}

/-! ### Reaching a place -/

/-- On its way to another place a cursor passes component values. -/
def Reaches (s : Cursor) (faults : List Diagnostic) (records : List Record) (q : Cursor) : Prop :=
  ∃ c, Passes s c faults records q

theorem Passes.passage_eq (h : Passes s c faults records q) (hc : s.content = c.append d) :
    q.passage = ⟨c.after s.place, d⟩ := by
  rw [passage, h.place_eq, h.content_eq hc]

theorem Passes.passage_past (h : Passes s (s.content.upTo marks) faults records q) : q.passage = s.passage.past marks :=
  h.passage_eq (Content.upTo_append_past marks s.content).symm

theorem Passes.trivia_past (h : Passes s (s.content.upTo marks) faults records q) : q.content.trivia = .nil := by
  rw [h.content_eq (Content.upTo_append_past marks s.content).symm]
  exact Content.trivia_past marks s.content

/-- Some of the tokens that were passed are cut out. -/
theorem Passes.cut {cut : Cut} (h : Passes s c faults records q) (hc : cut.IsOf s.offset c.tokens) :
    Passes s c faults records { q with cuts := q.cuts ++ [cut] } :=
  { h with
    cuts := by
      obtain ⟨cuts, hcuts, hof⟩ := h.cuts
      refine ⟨cuts ++ [cut], by rw [← List.append_assoc, ← hcuts], ?_⟩
      intro cut' hcut'
      rcases List.mem_append.mp hcut' with hcut' | hcut'
      · exact hof cut' hcut'
      · rwa [List.mem_singleton.mp hcut'] }

namespace Reaches

theorem refl (s : Cursor) : Reaches s [] [] s := ⟨.nil, .refl s⟩

theorem append (h : Reaches s faults records q) (h' : Reaches q faults' records' r) :
    Reaches s (faults ++ faults') (records ++ records') r :=
  let ⟨_, h⟩ := h
  let ⟨_, h'⟩ := h'
  ⟨_, h.append h'⟩

theorem report (h : Reaches s faults records q) (fault : Fault) (span : Text.Span) :
    Reaches s (faults ++ [⟨fault, span⟩]) records (q.report fault span) := by
  have hreport := h.append ⟨.nil, .report q fault span⟩
  rwa [List.append_nil] at hreport

/-- Where nothing is left, everything was passed. -/
theorem passes_all (h : Reaches s faults records q) (hq : q.content = .nil) : Passes s s.content faults records q := by
  obtain ⟨c, h⟩ := h
  rwa [h.content, hq, Content.append_nil]

/-- A fault that is reported where something is the case. -/
theorem reportIf (h : Reaches s faults records q) (p : Prop) [Decidable p] (fault : Fault) (span : Text.Span) :
    Reaches s (faults ++ if p then [⟨fault, span⟩] else []) records (if p then q.report fault span else q) := by
  split
  · exact h.report fault span
  · rwa [List.append_nil]

theorem of_eq (h : Reaches s faults records q) (hfaults : faults = faults') (hrecords : records = records') :
    Reaches s faults' records' q := hfaults ▸ hrecords ▸ h

end Reaches

theorem passage_reportIf (q : Cursor) (p : Prop) [Decidable p] (fault : Fault) (span : Text.Span) :
    (if p then q.report fault span else q).passage = q.passage := by
  split <;> rfl

theorem reaches_skipTrivia (s : Cursor) : Reaches s s.passage.trivia.diagnostics [] s.skipTrivia := ⟨_, passes_skipTrivia s⟩

theorem reaches_token (h : s.token? = some (t, q)) (ho : t.kind.opens? = none) (ht : t.kind.isTrivia = false) :
    Reaches s [] [] q :=
  ⟨_, passes_token h ho (by cases hk : t.kind <;> first | rfl | (rw [hk] at ht; cases ht))⟩

theorem passage_of_token? (h : s.token? = some (t, q)) : q.passage = ⟨s.place.advance t.text, q.content⟩ := by
  rw [passage, place_of_token? h]

theorem next_of_token? (h : s.skipTrivia.token? = some (t, q)) : s.next = (some t.kind, q) := by rw [next, h]

theorem peek_of_token? (h : s.skipTrivia.token? = some (t, q)) : s.peek = (some t.kind, s.skipTrivia) := by rw [peek, h]; rfl

/-! ### Reading a text -/

/-- What was passed can be cut out of the source, whatever was passed behind it. -/
theorem Passes.slice?_eq (h : Passes s (c.append d) faults records q) :
    slice? q.source s.offset (s.offset + bytes c.text) = some c.text := by
  rw [h.source_eq, source, h.ahead_eq, Content.text_append, List.append_assoc]
  exact Timeline.slice?_eq s.passed c.text _ rfl (bytes_append _ _).symm

/-- The comments that were noted down since, and which lie in what is cut out, are its own. -/
theorem Passes.comments_eq (h : Passes s (c.append d) faults records q) :
    (((q.comments.drop s.comments.length).filter fun x => s.offset ≤ x.start ∧ x.stop ≤ s.offset + bytes c.text).map
      fun x => (⟨x.start - s.offset, x.stop - s.offset⟩ : Stretch)) = commentsFrom 0 c.tokens := by
  rw [h.comments, List.drop_left, Content.tokens_append, Content.text, filter_commentsFrom]
  · exact map_commentsFrom _ 0 _
  · intro t ht
    have hmem : t ∈ lex s.ahead := by
      rw [h.lex_eq, Content.tokens_append]
      exact List.mem_append_left _ (List.mem_append_right _ ht)
    exact Css.text_ne_nil t hmem

theorem Passes.fronts (h : Passes s (c.append d) faults records q) : Fronts c.tokens (d.text ++ q.ahead) := by
  have hlex := h.lex_eq
  rw [h.ahead_eq, Content.text_append, Content.tokens_append, List.append_assoc] at hlex
  have hfronts : Fronts (c.tokens ++ d.tokens) q.ahead := by rwa [Fronts, List.flatMap_append, List.append_assoc]
  exact (Css.fronts_append.mp hfronts).1

/-- Blanks and comments at the ends are not part of the core, and make no difference to an excerpt. -/
theorem excerpt_of_passes {core trail : Content} (h : Passes s.skipTrivia (core.append trail) faults records q)
    (htrail : trail.IsTrivia) :
    (s.content.trivia.append (core.append trail)).excerpt = Text.trim (Css.strip false false core.tokens) := by
  have hcontent := h.content
  rw [Content.append_assoc] at hcontent
  have hnested : core.Nested := by
    have hnested := Content.nested_read s.skipTrivia.inside (lex s.skipTrivia.ahead)
    rw [← content, hcontent] at hnested
    exact (Content.nested_append.mp hnested).1
  have hfirst : core = .nil ∨ core.Significant := by
    refine or_iff_not_imp_left.mpr fun hne => ?_
    rw [content_skipTrivia] at hcontent
    have hsignificant : s.content.skipTrivia.Significant := Content.significant_skipTrivia fun hnil => by
      rw [hcontent] at hnil
      exact hne (Content.append_eq_nil hnil).1
    rw [hcontent] at hsignificant
    exact hsignificant.of_append hne
  have hmem : ∀ t ∈ (s.content.trivia.append (core.append trail)).tokens, t ∈ lex s.ahead := by
    rw [((passes_skipTrivia s).append h).lex_eq]
    exact fun t ht => List.mem_append_left _ ht
  exact Content.excerpt_around (Content.isTrivia_trivia _) htrail hnested hfirst hmem

/-- A cursor cuts out the text in front of a mark, without the blanks and comments at its ends, and strips it. -/
theorem cutUpTo_run (marks : List Mark) (s : Cursor) : ∃ q cut,
    cutUpTo marks s = some ((s.passage.upTo marks).excerpt, { q with cuts := q.cuts ++ [cut] }) ∧
      Passes s (s.content.upTo marks) (s.passage.upTo marks).diagnostics [] q ∧
      cut.IsOf s.offset (s.content.upTo marks).tokens ∧ (s.passage.upTo marks).excerpt = Text.trim cut.text := by
  have htrivia := passes_skipTrivia s
  obtain ⟨core, trail, last, q, hq, hpasses, hcore, htrail, hlast⟩ := passUpTo_eq marks s.skipTrivia s.skipTrivia.offset
  have hstop : last = s.skipTrivia.offset + bytes core.text := by
    rcases hlast with ⟨rfl, rfl⟩ | hlast
    · rfl
    · exact hlast
  subst hstop
  rw [hcore] at hpasses
  have hupTo : s.content.upTo marks = s.content.trivia.append (core.append trail) := by
    rw [← hcore, content_skipTrivia, ← Content.upTo_append_of_free (Content.isTrivia_trivia _).free,
      Content.trivia_append_skipTrivia]
  have hall : Passes s (s.content.upTo marks) ((s.content.upTo marks).diagnostics s.place) [] q := by
    rw [hupTo, Content.diagnostics_append, ← htrivia.place_eq]
    exact htrivia.append hpasses
  have hraw := hpasses.slice?_eq
  have hcomments := hpasses.comments_eq
  have hstripped : stripped? core.text (commentsFrom 0 core.tokens) = some (Css.strip false false core.tokens) :=
    (stripped?_tokens hpasses.fronts).1
  have hexcerpt : (s.content.upTo marks).excerpt = Text.trim (Css.strip false false core.tokens) := by
    rw [hupTo]
    exact excerpt_of_passes hpasses htrail
  refine ⟨q, Cut.ofTokens s.skipTrivia.offset core.tokens, ?_, hall, ?_, hexcerpt⟩
  · rw [cutUpTo]
    simp only [hq, hraw, hcomments, hstripped, Option.bind_eq_bind, Option.bind_some, Option.pure_def]
    rw [← hexcerpt]
    rfl
  · refine ⟨s.content.trivia.tokens, core.tokens, trail.tokens, ?_, ?_⟩
    · rw [hupTo, Content.tokens_append, Content.tokens_append]
    · rw [htrivia.offset_eq]
      rfl

theorem cutUpTo_eq (marks : List Mark) (s : Cursor) : ∃ q, cutUpTo marks s = some ((s.passage.upTo marks).excerpt, q) ∧
    Passes s (s.content.upTo marks) (s.passage.upTo marks).diagnostics [] q := by
  obtain ⟨q, cut, hq, hpasses, hof, -⟩ := cutUpTo_run marks s
  exact ⟨_, hq, hpasses.cut hof⟩

/-! ### Reading a block -/

section
variable {α : Type} {read : Cursor → Option (α × Cursor)} {x : α}

/-- What stands in a block is read, and what was not read is passed. -/
theorem nested_eq (htoken : s.token? = some (t, q)) (ho : t.kind.opens? = some b)
    (hread : read (q.enter b) = some (x, r)) (hreaches : Reaches (q.enter b) faults records r) :
    ∃ closing rest q', q.nested b ⟨s.place, q.place⟩ read = some (x, q') ∧
      s.content = .block b t (q.enter b).content closing rest ∧
      Passes s (.block b t (q.enter b).content closing .nil)
        (faults ++ r.passage.diagnostics ++ if closing.isSome then [] else [⟨.unmatched b, ⟨s.place, q.place⟩⟩]) records
        q' := by
  obtain ⟨inner, hinner, hdrained⟩ := drains r
  have hall := (hreaches.append ⟨_, hdrained⟩).passes_all hdrained.of_all
  rw [List.append_nil] at hall
  obtain ⟨closing, rest, hcontent, hblock⟩ := passes_block htoken ho hall
  obtain ⟨-, -, -, -, hq, -⟩ := token?_eq htoken
  have hinside : q.inside = s.inside := by rw [hq]; rfl
  refine ⟨closing, rest, _, ?_, hcontent, hblock⟩
  rw [nested, hread, hinside]
  show (do let inner ← r.drain; return (x, inner.leave b ⟨s.place, q.place⟩ s.inside)) = _
  rw [hinner]
  rfl

/-- A curly block in front shows in the token that opens it. -/
theorem frame?_eq_none_iff (htrivia : s.content.trivia = .nil) :
    s.passage.frame? = none ↔ ∀ text q, s.token? ≠ some (⟨.opening .curly, text⟩, q) := by
  constructor
  · intro hframe text q htoken
    rcases content_of_block htoken rfl with ⟨closing, -, more, -, hcontent, -⟩ | ⟨-, hcontent, -⟩
    · rw [Passage.frame?, passage, hcontent] at hframe
      cases hframe
    · rw [Passage.frame?, passage, hcontent] at hframe
      cases hframe
  · intro h
    rw [Passage.frame?]
    split
    · rename_i hblock
      cases front htrivia with
      | nothing hnil _ => cases hnil.symm.trans hblock
      | token t q _ _ _ ht => cases ht.symm.trans hblock
      | block b t q closing rest htoken ho hfront =>
        obtain ⟨rfl, -⟩ := Content.block.inj (hfront.symm.trans hblock)
        obtain ⟨kind, text⟩ := t
        obtain rfl : kind = .opening .curly := Kind.eq_opening_curly ho
        exact absurd htoken (h text q)
    · rfl

theorem curly_in_front {frame : Passage.Frame} (htrivia : s.content.trivia = .nil) (hframe : s.passage.frame? = some frame) :
    ∃ text q, s.token? = some (⟨.opening .curly, text⟩, q) := by
  refine Classical.not_not.mp fun hnot => ?_
  rw [(frame?_eq_none_iff htrivia).mpr fun text q htoken => hnot ⟨text, q, htoken⟩] at hframe
  cases hframe

/-- A curly block in front is read. -/
theorem curlyBlock_some {frame : Passage.Frame} {found : List Diagnostic} (htrivia : s.content.trivia = .nil)
    (hframe : s.passage.frame? = some frame)
    (hread : ∀ inner : Cursor, inner.passage = frame.body → ∃ r faults, read inner = some (x, r) ∧
      Reaches inner faults records r ∧ faults ++ r.passage.diagnostics = found) :
    ∃ q, s.curlyBlock read = some (some x, q) ∧ Reaches s (found ++ frame.unmatched) records q ∧ q.passage = frame.rest := by
  obtain ⟨text, q, htoken⟩ := curly_in_front htrivia hframe
  have hplace := place_of_token? htoken
  have hcurly : s.curlyBlock read = (q.nested .curly ⟨s.place, q.place⟩ read).map (Prod.map some id) := by
    rw [curlyBlock, skipTrivia_eq htrivia, htoken]
  -- What the frame says of the block, the cursor behind its opening token says, too.
  obtain ⟨closing, rest, hcontent⟩ : ∃ closing rest, s.content = .block .curly ⟨.opening .curly, text⟩
      (q.enter .curly).content closing rest := by
    rcases content_of_block htoken rfl with ⟨closing, -, more, -, hcontent, -⟩ | ⟨-, hcontent, -⟩
    · exact ⟨_, _, hcontent⟩
    · exact ⟨_, _, hcontent⟩
  rw [Passage.frame?, passage, hcontent] at hframe
  obtain rfl := Option.some.inj hframe
  obtain ⟨r, faults, hr, hreaches, rfl⟩ := hread (q.enter .curly) (congrArg (Passage.mk · _) hplace)
  obtain ⟨closing', rest', q', hq', hcontent', hpasses⟩ := nested_eq htoken rfl hr hreaches
  obtain ⟨-, -, -, rfl, rfl⟩ := Content.block.inj (hcontent.symm.trans hcontent')
  refine ⟨q', by rw [hcurly, hq']; rfl, ?_, hpasses.passage_eq hcontent⟩
  rw [hplace] at hpasses
  exact ⟨_, hpasses⟩

theorem curlyBlock_unread {frame : Passage.Frame} (htrivia : s.content.trivia = .nil)
    (hframe : s.passage.frame? = some frame) : ∃ q,
    s.curlyBlock unread = some (some (), q) ∧ Reaches s (frame.body.diagnostics ++ frame.unmatched) [] q ∧
      q.passage = frame.rest :=
  curlyBlock_some htrivia hframe fun inner hinner => ⟨inner, [], rfl, .refl inner, by rw [hinner]; rfl⟩

/-- Where no curly block stands in front, nothing is read. -/
theorem curlyBlock_none (htrivia : s.content.trivia = .nil) (hframe : s.passage.frame? = none) :
    s.curlyBlock read = some (none, s) := by
  rw [curlyBlock, skipTrivia_eq htrivia]
  split
  · rename_i text q htoken
    exact absurd htoken ((frame?_eq_none_iff htrivia).mp hframe text q)
  · rfl

end

/-! ### Reading one token -/

/-- A token that opens nothing stands in front of a cursor and of the component values, or of neither. -/
theorem token_in_front {k : Kind} (ho : k.opens? = none) (s : Cursor) :
    (∃ text q, s.skipTrivia.token? = some (⟨k, text⟩, q) ∧ s.skipTrivia.content = .token ⟨k, text⟩ q.content) ∨
      s.peek.1 ≠ some k ∧ ∀ text rest, s.skipTrivia.content ≠ .token ⟨k, text⟩ rest := by
  by_cases hpeek : s.peek.1 = some k
  · have hmap : s.skipTrivia.token?.map (·.1.kind) = some k := hpeek
    obtain ⟨⟨⟨kind, text⟩, q⟩, htoken, hkind⟩ := Option.map_eq_some_iff.mp hmap
    subst hkind
    exact .inl ⟨text, q, htoken, (content_of_token htoken ho).1⟩
  · refine .inr ⟨hpeek, fun text rest hrest => hpeek ?_⟩
    cases front (trivia_skipTrivia s) with
    | nothing hnil _ => cases hnil.symm.trans hrest
    | token t q htoken _ _ hcontent =>
      obtain ⟨rfl, -⟩ := Content.token.inj (hcontent.symm.trans hrest)
      rw [peek_of_token? htoken]
    | block b t q closing rest _ _ hcontent => cases hcontent.symm.trans hrest

/-- A semicolon in front is passed. -/
theorem reaches_passSemicolon (htrivia : s.content.trivia = .nil) :
    Reaches s [] [] s.passSemicolon ∧ s.passSemicolon.passage = s.passage.skipSemicolon := by
  have hskip := skipTrivia_eq htrivia
  rcases token_in_front (k := .semicolon) rfl s with ⟨text, q, htoken, hcontent⟩ | ⟨hpeek, hother⟩
  · have hnext : s.passSemicolon = q := by
      rw [passSemicolon, peek_of_token? htoken]
      show s.skipTrivia.next.2 = q
      rw [next_of_token? (by rwa [skipTrivia_skipTrivia])]
    rw [hskip] at htoken hcontent
    rw [hnext, passage_of_token? htoken, passage, hcontent]
    exact ⟨reaches_token htoken rfl rfl, rfl⟩
  · rw [hskip] at hother
    have hstays : s.passSemicolon = s := by
      rw [passSemicolon]
      split
      · rename_i h
        rw [h] at hpeek
        exact absurd rfl hpeek
      · rename_i h
        exact (Prod.mk.inj h).2.symm.trans hskip
    rw [hstays, Passage.skipSemicolon]
    refine ⟨.refl s, ?_⟩
    split
    · rename_i text rest hcontent
      exact absurd hcontent (hother text rest)
    · rfl

/-! ### Reading items -/

section
variable {α : Type} {reader : ItemReader α} {recorded : α → List Record} {item : Cursor → Option (Option α × Cursor)}

/-- How the item in front of a cursor is answered: there is none, or the cursor goes on to the next one without an answer, or
it answers one, each as a reader of passages does. What is logged goes by the item. Behind an item a cursor may have passed
more than that reader, but nothing that tells. -/
inductive Answer (reader : ItemReader α) (recorded : α → List Record) (item : Cursor → Option (Option α × Cursor))
    (s : Cursor) : Prop where
  | none (next : reader.next s.passage = none) (nothing : s.content.skipTrivia = .nil)
    (answer : item s = some (none, s.skipTrivia))
  | goesOn (step : Step α) (q : Cursor) (next : reader.next s.passage = some step) (items : step.items = [])
    (reaches : Reaches s step.diagnostics [] q) (rest : q.passage = step.rest) (answer : item s = item q)
  | takes (x : α) (step : Step α) (q : Cursor) (next : reader.next s.passage = some step) (items : step.items = [x])
    (reaches : Reaches s step.diagnostics (recorded x) q) (smaller : q.content.size ≤ step.rest.content.size)
    (run : reader.run q.passage = reader.run step.rest) (answer : item s = some (some x, q))

/-- A reader leaves less than there was. -/
theorem Reaches.passes_of_next {step : Step α} (h : Reaches s faults records q) (hnext : reader.next s.passage = some step)
    (hsmaller : q.content.size ≤ step.rest.content.size) : ∃ c, c ≠ .nil ∧ Passes s c faults records q := by
  obtain ⟨c, hpasses⟩ := h
  refine ⟨c, ?_, hpasses⟩
  rintro rfl
  have hsize : q.content.size < s.content.size := Nat.lt_of_le_of_lt hsmaller (reader.next_smaller s.passage step hnext)
  rw [hpasses.content] at hsize
  exact Nat.lt_irrefl _ hsize

/-- **Items.** A cursor that is in front of items reads those that a reader of passages reads there, and nothing is left. -/
theorem items_eq (h : ∀ s, Answer reader recorded item s) (s : Cursor) : ∃ q,
    items item s = some ((reader.run s.passage).items, q) ∧
      Passes s s.content (reader.run s.passage).diagnostics ((reader.run s.passage).items.flatMap recorded) q := by
  induction hn : s.ahead.length using Nat.strongRecOn generalizing s with
  | ind n ih =>
    subst hn
    cases h s with
    | none hnext hnothing hanswer =>
      have hpasses := passes_skipTrivia s
      rw [← content_eq_trivia hnothing] at hpasses
      rw [reader.run_of_none hnext, items, hanswer]
      exact ⟨_, rfl, hpasses⟩
    | goesOn step q hnext hitems hreaches hrest hanswer =>
      obtain ⟨c, hne, hpasses⟩ := hreaches.passes_of_next hnext (by rw [← hrest]; exact Nat.le_refl _)
      obtain ⟨r, hr, hmore⟩ := ih _ (hpasses.length_ahead_lt hne) q rfl
      rw [reader.run_of_some hnext, ← hrest, hitems, List.nil_append]
      refine ⟨r, ?_, ?_⟩
      · rw [items, hanswer, ← items]
        exact hr
      · have hall := Reaches.passes_all ⟨_, hpasses.append hmore⟩ hmore.of_all
        rwa [List.nil_append] at hall
    | takes x step q hnext hitems hreaches hsmaller hrun hanswer =>
      obtain ⟨c, hne, hpasses⟩ := hreaches.passes_of_next hnext hsmaller
      obtain ⟨r, hr, hmore⟩ := ih _ (hpasses.length_ahead_lt hne) q rfl
      rw [reader.run_of_some hnext, ← hrun, hitems, List.singleton_append, List.flatMap_cons]
      refine ⟨r, ?_, Reaches.passes_all ⟨_, hpasses.append hmore⟩ hmore.of_all⟩
      rw [items, hanswer, Option.bind_eq_bind, Option.bind_some]
      dsimp only
      rw [run_eq, hr]
      rfl

/-- The items of a curly block in front. -/
theorem curlyBlock_items {frame : Passage.Frame} (h : ∀ s, Answer reader recorded item s)
    (htrivia : s.content.trivia = .nil) (hframe : s.passage.frame? = some frame) : ∃ q,
    s.curlyBlock (items item) = some (some (reader.run frame.body).items, q) ∧
      Reaches s ((reader.run frame.body).diagnostics ++ frame.unmatched) ((reader.run frame.body).items.flatMap recorded) q ∧
      q.passage = frame.rest := by
  refine curlyBlock_some htrivia hframe fun inner hinner => ?_
  obtain ⟨r, hr, hpasses⟩ := items_eq h inner
  rw [hinner] at hr hpasses
  refine ⟨r, _, hr, ⟨_, hpasses⟩, ?_⟩
  rw [passage, hpasses.of_all]
  exact List.append_nil _

/-- The next item is answered at the end of the text or block with none, and else behind where the cursor was. -/
theorem item_eq (h : ∀ s, Answer reader recorded item s) (s : Cursor) : ∃ answer c faults records q,
    item s = some (answer, q) ∧ Passes s c faults records q ∧ (answer = none → q.content = .nil) ∧
      (answer.isSome → c ≠ .nil) := by
  induction hn : s.ahead.length using Nat.strongRecOn generalizing s with
  | ind n ih =>
    subst hn
    cases h s with
    | none hnext hnothing hanswer =>
      exact ⟨none, _, _, _, _, hanswer, passes_skipTrivia s,
        fun _ => by rw [content_skipTrivia, hnothing], by simp⟩
    | goesOn step q hnext hitems hreaches hrest hanswer =>
      obtain ⟨c, hne, hpasses⟩ := hreaches.passes_of_next hnext (by rw [← hrest]; exact Nat.le_refl _)
      obtain ⟨answer, d, _, _, r, hr, hmore, hnone, hsome⟩ := ih _ (hpasses.length_ahead_lt hne) q rfl
      exact ⟨answer, _, _, _, r, hanswer.trans hr, hpasses.append hmore, hnone,
        fun _ hnil => hne (Content.append_eq_nil hnil).1⟩
    | takes x step q hnext hitems hreaches hsmaller hrun hanswer =>
      obtain ⟨c, hne, hpasses⟩ := hreaches.passes_of_next hnext hsmaller
      exact ⟨some x, c, _, _, q, hanswer, hpasses, by simp, fun _ => hne⟩

end

end Cursor
end Timeline
