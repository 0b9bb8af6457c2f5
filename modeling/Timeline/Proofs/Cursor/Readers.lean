import Timeline.Proofs.Cursor.Reading
import Timeline.Proofs.Cursor.Sheet
import Timeline.Sheet.Reader

/-! What a cursor reads is what component values are read as.

Every item is answered as its reader of passages answers it (`answer_declaration`, `answer_keyframeBlock`, `answer_rule`).
So a cursor reads the stylesheet that a text is, with its faults in the same order, and ends behind all of the text
(`finishes`). The one difference is by the way: behind a declaration a cursor has passed the semicolon, which the reader of
passages leaves to the next declaration. -/
namespace Timeline

open Css (Bracket Content Diagnostic Fault ItemReader Kind Mark Passage Step Token lex)
open Journal (Record)
open Sheet (Declaration KeyframeBlock KeyframesRule Rule Stylesheet vendor?)
open Text (Position Span)

/-- The items of a curly block in front. Without a block there are none, and a semicolon is passed. -/
def Css.ItemReader.block {α : Type} (reader : ItemReader α) (missing : Span) (p : Passage) : Step α :=
  match p.frame? with
  | some frame =>
    { items := (reader.run frame.body).items
      diagnostics := (reader.run frame.body).diagnostics ++ frame.unmatched
      rest := frame.rest }
  | none => { items := [], diagnostics := [⟨.missingBlock, missing⟩], rest := p.skipSemicolon }

/-- A keyframe block, by what its selectors and its curly block are read as. -/
theorem Sheet.KeyframeBlock.next_eq {p q rest : Passage} {selectors : List Char} (hq : p.skipTrivia = q)
    (hne : q.content ≠ .nil) (hselectors : (q.upTo [.curlyBlock, .semicolon]).excerpt = selectors)
    (hrest : rest = q.past [.curlyBlock, .semicolon]) :
    let missing : Span := ⟨q.start, rest.start⟩
    let block := Declaration.reader.block missing rest
    KeyframeBlock.next p = some
      { items := [⟨KeyframeBlock.selectorsOf selectors, block.items, ⟨q.start, block.rest.start⟩⟩]
        diagnostics := p.trivia.diagnostics ++ (q.upTo [.curlyBlock, .semicolon]).diagnostics ++
          (if selectors = [] then [⟨.missingSelector, missing⟩] else []) ++ block.diagnostics
        rest := block.rest } := by
  intro missing block
  dsimp only [missing, block]
  rw [KeyframeBlock.next, hq]
  dsimp only
  rw [if_neg hne, hselectors, ← hrest, ItemReader.block]
  cases rest.frame? with
  | none => rfl
  | some frame =>
    dsimp only
    rw [List.append_assoc _ (Declaration.reader.run frame.body).diagnostics]

/-- A keyframes rule, by what its name, what is too much behind it and its curly block are read as. -/
theorem Sheet.Rule.afterKeyframes_eq {start : Position} {vendor : Option String} {p trailing rest : Passage} {name : String}
    {nameless : List Diagnostic} {extra : List Char}
    (hname : Rule.nameInFront start p.skipTrivia = (name, nameless, trailing))
    (hextra : (trailing.upTo [.curlyBlock, .semicolon, .closer]).excerpt = extra)
    (hrest : rest = trailing.past [.curlyBlock, .semicolon, .closer]) :
    let block := KeyframeBlock.reader.block ⟨rest.start, rest.start⟩ rest
    Rule.afterKeyframes start vendor p =
      { items := [.keyframes ⟨name, vendor, block.items, ⟨start, block.rest.start⟩⟩]
        diagnostics := p.trivia.diagnostics ++ nameless ++
          (trailing.upTo [.curlyBlock, .semicolon, .closer]).diagnostics ++
          (if extra ≠ [] then [⟨.unexpectedToken, trailing.start, rest.start⟩] else []) ++ block.diagnostics
        rest := block.rest } := by
  intro block
  dsimp only [block]
  rw [Rule.afterKeyframes, hname]
  dsimp only
  rw [hextra, ← hrest, ItemReader.block, ite_not]
  cases rest.frame? with
  | none => rfl
  | some frame =>
    dsimp only
    rw [List.append_assoc _ (KeyframeBlock.reader.run frame.body).diagnostics]

namespace Cursor

variable {s q r : Cursor} {c d : Content} {t : Token} {b : Bracket} {marks : List Mark}

theorem skipTrivia_passage_eq (h : s.skipTrivia.content = c) : s.passage.skipTrivia = ⟨s.skipTrivia.place, c⟩ := by
  rw [← passage_skipTrivia, passage, h]

/-! ### Declarations -/

/-- What cannot begin a declaration is passed up to a semicolon. -/
theorem answer_unexpected
    (hnext : Declaration.next s.passage = some
      { items := []
        diagnostics := s.passage.trivia.diagnostics ++ (s.skipTrivia.passage.upTo [.semicolon]).diagnostics ++
          [⟨.unexpectedToken, s.skipTrivia.place, (s.skipTrivia.passage.upTo [.semicolon]).stop⟩]
        rest := s.skipTrivia.passage.past [.semicolon] })
    (hread : declaration s = do
      let q ← s.skipTrivia.skipUpTo [.semicolon]
      declaration (q.report .unexpectedToken ⟨s.skipTrivia.place, q.place⟩)) :
    Answer Declaration.reader (fun _ => []) declaration s := by
  obtain ⟨q, hq, hpasses⟩ := skipUpTo_eq [.semicolon] s.skipTrivia
  have hreaches := ((reaches_skipTrivia s).append ⟨_, hpasses⟩).report .unexpectedToken ⟨s.skipTrivia.place, q.place⟩
  rw [hpasses.place_eq] at hreaches
  refine .goesOn _ _ hnext rfl hreaches ?_ ?_
  · exact hpasses.passage_past
  · rw [hread, hq, ← hpasses.place_eq]
    rfl

/-- A semicolon in front of declarations makes no difference. -/
theorem run_skipSemicolon (p : Passage) : Declaration.reader.run p.skipSemicolon = Declaration.reader.run p := by
  rw [Passage.skipSemicolon]
  split
  · rename_i text rest hcontent
    have hnext : Declaration.next p = some ⟨[], [], ⟨p.start.advance text, rest⟩⟩ := by
      rw [Declaration.next, Passage.skipTrivia, Passage.trivia, hcontent]
      rfl
    rw [Declaration.reader.run_of_some hnext]
    rfl
  · rfl

section
variable {property : String} {text : List Char}

/-- A property with a colon behind it is read with its value. -/
theorem declaration_of_colon {colon value : List Char} {last : Cursor}
    (htoken : s.skipTrivia.token? = some (⟨.ident property, text⟩, q))
    (hcolon : q.skipTrivia.token? = some (⟨.colon, colon⟩, r)) (hvalue : r.cutUpTo [.semicolon] = some (value, last)) :
    declaration s =
      some (some ⟨property, String.ofList value, ⟨s.skipTrivia.place, last.place⟩⟩, last.passSemicolon) := by
  rw [declaration, peek_of_token? htoken]
  dsimp only
  rw [next_of_token? (by rwa [skipTrivia_skipTrivia])]
  dsimp only
  rw [peek_of_token? hcolon]
  dsimp only
  rw [next_of_token? (by rwa [skipTrivia_skipTrivia]), hvalue]
  rfl

/-- A property without a colon behind it is passed up to a semicolon. -/
theorem declaration_of_no_colon (htoken : s.skipTrivia.token? = some (⟨.ident property, text⟩, q))
    (hpeek : q.peek.1 ≠ some .colon)
    (hskip : (q.skipTrivia.report .missingColon ⟨s.skipTrivia.place, q.skipTrivia.place⟩).skipUpTo [.semicolon] = some r) :
    declaration s = declaration r := by
  rw [declaration, peek_of_token? htoken]
  dsimp only
  rw [next_of_token? (by rwa [skipTrivia_skipTrivia])]
  dsimp only
  split
  · rename_i hcolon
    rw [hcolon] at hpeek
    exact absurd rfl hpeek
  · rename_i hq
    obtain ⟨-, rfl⟩ := Prod.mk.inj hq
    rw [hskip]
    rfl

theorem answer_property (htoken : s.skipTrivia.token? = some (⟨.ident property, text⟩, q))
    (hcontent : s.skipTrivia.content = .token ⟨.ident property, text⟩ q.content) :
    Answer Declaration.reader (fun _ => []) declaration s := by
  have hq := (reaches_skipTrivia s).append (reaches_token htoken rfl rfl)
  have hnext : Declaration.next s.passage =
      some ((Declaration.afterProperty s.skipTrivia.place property q.passage).afterFaults s.passage.trivia.diagnostics) := by
    rw [Declaration.next, skipTrivia_passage_eq hcontent, passage_of_token? htoken]
  have hskip := hq.append (reaches_skipTrivia q)
  rcases token_in_front (k := .colon) rfl q with ⟨colon, r, hcolon, hcontent⟩ | ⟨hpeek, hother⟩
  · obtain ⟨last, hlast, hpasses⟩ := cutUpTo_eq [.semicolon] r
    have hbehind := hpasses.passage_past
    obtain ⟨hsemicolon, hrest⟩ := reaches_passSemicolon hpasses.trivia_past
    have hstep : Declaration.afterProperty s.skipTrivia.place property q.passage =
        { items := [⟨property, String.ofList (r.passage.upTo [.semicolon]).excerpt, ⟨s.skipTrivia.place, last.place⟩⟩]
          diagnostics := q.passage.trivia.diagnostics ++ (r.passage.upTo [.semicolon]).diagnostics
          rest := last.passage } := by
      rw [Declaration.afterProperty, skipTrivia_passage_eq hcontent, hbehind, hpasses.place_eq]
      dsimp only
      rw [← passage_of_token? hcolon]
      rfl
    rw [hstep] at hnext
    refine .takes _ _ last.passSemicolon hnext rfl ?_ ?_ ?_ (declaration_of_colon htoken hcolon hlast)
    · refine ((hskip.append (reaches_token hcolon rfl rfl)).append (.append ⟨_, hpasses⟩ hsemicolon)).of_eq ?_ rfl
      simp only [Step.afterFaults, List.append_assoc, List.append_nil]
    · rw [show last.passSemicolon.content = last.passage.skipSemicolon.content from congrArg Passage.content hrest]
      exact last.passage.size_skipSemicolon_le
    · exact (congrArg _ hrest).trans (run_skipSemicolon _)
  · let missing : Span := ⟨s.skipTrivia.place, q.skipTrivia.place⟩
    obtain ⟨r, hr, hpasses⟩ := skipUpTo_eq [.semicolon] (q.skipTrivia.report .missingColon missing)
    have hreaches := (hskip.report .missingColon missing).append ⟨_, hpasses⟩
    have hstep : Declaration.afterProperty s.skipTrivia.place property q.passage =
        { items := []
          diagnostics := q.passage.trivia.diagnostics ++ [⟨.missingColon, missing⟩] ++
            (q.skipTrivia.passage.upTo [.semicolon]).diagnostics
          rest := q.skipTrivia.passage.past [.semicolon] } := by
      rw [Declaration.afterProperty, ← passage_skipTrivia]
      split
      · rename_i text rest hcontent
        exact absurd hcontent (hother text rest)
      · rfl
    rw [hstep] at hnext
    refine .goesOn _ r hnext rfl (hreaches.of_eq ?_ rfl) hpasses.passage_past (declaration_of_no_colon htoken hpeek hr)
    simp only [Step.afterFaults, List.append_assoc, List.append_nil]
    rfl

end

theorem answer_declaration (s : Cursor) : Answer Declaration.reader (fun _ => []) declaration s := by
  have hsame : s.skipTrivia.passage = s.passage.skipTrivia := passage_skipTrivia s
  have hunexpected := @answer_unexpected s
  cases front (trivia_skipTrivia s) with
  | nothing hnil htoken =>
    refine .none ?_ (by rw [← content_skipTrivia, hnil]) ?_
    · show Declaration.next s.passage = none
      rw [Declaration.next, skipTrivia_passage_eq hnil]
    · rw [declaration, peek, htoken]
      rfl
  | token t q htoken ho ht hcontent =>
    obtain ⟨kind, text⟩ := t
    have hq := (reaches_skipTrivia s).append (reaches_token htoken ho ht)
    have hp := skipTrivia_passage_eq hcontent
    have hpeek := peek_of_token? htoken
    rw [Declaration.next, declaration, hpeek, hsame, hp] at hunexpected
    cases kind with
    | semicolon =>
      refine .goesOn _ q (by show Declaration.next s.passage = _; rw [Declaration.next, hp]) rfl ?_ ?_ ?_
      · rw [List.append_nil] at hq
        exact hq
      · exact passage_of_token? htoken
      · rw [declaration, hpeek]
        show declaration s.skipTrivia.next.2 = _
        rw [next_of_token? (by rwa [skipTrivia_skipTrivia])]
    | ident property => exact answer_property htoken hcontent
    | _ => exact hunexpected rfl rfl
  | block b t q closing rest htoken ho hcontent =>
    have hp := skipTrivia_passage_eq hcontent
    have hpeek := peek_of_token? htoken
    rw [Declaration.next, declaration, hpeek, hsame, hp] at hunexpected
    refine hunexpected rfl ?_
    obtain ⟨kind, text⟩ := t
    cases kind <;> first | rfl | cases ho

/-! ### Keyframe blocks -/

section
variable {α : Type} {reader : ItemReader α} {recorded : α → List Record} {item : Cursor → Option (Option α × Cursor)}

theorem blockItems_eq (h : ∀ s, Answer reader recorded item s) (missing : Position → Span)
    (htrivia : s.content.trivia = .nil) : ∃ q,
    s.blockItems item missing = some ((reader.block (missing s.place) s.passage).items, q) ∧
      Reaches s (reader.block (missing s.place) s.passage).diagnostics
        ((reader.block (missing s.place) s.passage).items.flatMap recorded) q ∧
      q.passage = (reader.block (missing s.place) s.passage).rest := by
  rw [ItemReader.block]
  cases hframe : s.passage.frame? with
  | some frame =>
    obtain ⟨q, hq, hreaches, hrest⟩ := curlyBlock_items h htrivia hframe
    exact ⟨q, by rw [blockItems, hq]; rfl, hreaches, hrest⟩
  | none =>
    obtain ⟨hsemicolon, hrest⟩ := reaches_passSemicolon (s := s.report .missingBlock (missing s.place)) htrivia
    refine ⟨_, by rw [blockItems, curlyBlock_none htrivia hframe]; rfl, ?_, hrest⟩
    exact ((Reaches.refl s).report .missingBlock (missing s.place)).append hsemicolon

/-- The same behind a fault, if there is one. -/
theorem blockItems_reportIf (h : ∀ s, Answer reader recorded item s) (missing : Position → Span)
    (htrivia : s.content.trivia = .nil) (p : Prop) [Decidable p] (fault : Fault) (span : Span) : ∃ q,
    Cursor.blockItems item missing (if p then s.report fault span else s) =
        some ((reader.block (missing s.place) s.passage).items, q) ∧
      Reaches s ((if p then [⟨fault, span⟩] else []) ++ (reader.block (missing s.place) s.passage).diagnostics)
        ((reader.block (missing s.place) s.passage).items.flatMap recorded) q ∧
      q.passage = (reader.block (missing s.place) s.passage).rest := by
  split
  · obtain ⟨q, hq, hreaches, hrest⟩ := blockItems_eq h missing (s := s.report fault span) htrivia
    exact ⟨q, hq, ((Reaches.refl s).report fault span).append hreaches, hrest⟩
  · exact blockItems_eq h missing htrivia

end

theorem peek_of_ne_nil (h : s.skipTrivia.content ≠ .nil) : ∃ k, s.peek = (some k, s.skipTrivia) := by
  cases htoken : s.skipTrivia.token? with
  | none => exact absurd (content_of_none htoken) h
  | some next => exact ⟨_, peek_of_token? htoken⟩

theorem answer_keyframeBlock (s : Cursor) : Answer KeyframeBlock.reader (fun _ => []) keyframeBlock s := by
  have hsame : s.passage.skipTrivia = s.skipTrivia.passage := (passage_skipTrivia s).symm
  by_cases hnil : s.skipTrivia.content = .nil
  · refine .none ?_ (by rw [← content_skipTrivia, hnil]) ?_
    · show KeyframeBlock.next s.passage = none
      rw [KeyframeBlock.next, hsame, if_pos (show s.skipTrivia.passage.content = .nil from hnil)]
    · rw [keyframeBlock, peek, token?_of_nil hnil]
      rfl
  obtain ⟨k, hpeek⟩ := peek_of_ne_nil hnil
  obtain ⟨q, hq, hcut⟩ := cutUpTo_eq [.curlyBlock, .semicolon] s.skipTrivia
  have hpast := hcut.passage_past
  generalize hselectors : (s.skipTrivia.passage.upTo [.curlyBlock, .semicolon]).excerpt = selectors at hq
  have htrivia := hcut.trivia_past
  let missing : Span := ⟨s.skipTrivia.place, q.place⟩
  obtain ⟨r, hr, hblock, hrest⟩ := blockItems_reportIf answer_declaration (fun place => ⟨s.skipTrivia.place, place⟩) htrivia
    (selectors = []) .missingSelector missing
  have hnext := KeyframeBlock.next_eq hsame hnil hselectors hpast
  refine .takes _ _ r hnext rfl ((((reaches_skipTrivia s).append ⟨_, hcut⟩).append hblock).of_eq ?_ (by simp)) ?_ ?_ ?_
  · rw [← List.append_assoc]
    rfl
  · exact Nat.le_of_eq (congrArg (·.content.size) hrest)
  · rw [hrest]
    rfl
  · rw [keyframeBlock, hpeek]
    dsimp only
    rw [hq, Option.bind_eq_bind, Option.bind_some]
    dsimp only
    have hplace : r.place = (Declaration.reader.block missing q.passage).rest.start := congrArg Passage.start hrest
    rw [hr, Option.bind_eq_bind, Option.bind_some, hplace]
    rfl

/-! ### Rules -/

theorem name_eq (start : Position) (s : Cursor) : ∃ q,
    s.name start = ((Rule.nameInFront start s.passage.skipTrivia).1, q) ∧
      Reaches s (s.passage.trivia.diagnostics ++ (Rule.nameInFront start s.passage.skipTrivia).2.1) [] q ∧
      q.passage = (Rule.nameInFront start s.passage.skipTrivia).2.2 := by
  have hskip := reaches_skipTrivia s
  have hmissing
      (hname : s.name start = ("", s.skipTrivia.report .missingKeyframesName ⟨start, s.skipTrivia.place⟩))
      (hfront : Rule.nameInFront start s.skipTrivia.passage =
        ("", [⟨.missingKeyframesName, start, s.skipTrivia.place⟩], s.skipTrivia.passage)) : ∃ q,
      s.name start = ((Rule.nameInFront start s.passage.skipTrivia).1, q) ∧
        Reaches s (s.passage.trivia.diagnostics ++ (Rule.nameInFront start s.passage.skipTrivia).2.1) [] q ∧
        q.passage = (Rule.nameInFront start s.passage.skipTrivia).2.2 := by
    rw [← passage_skipTrivia, hfront, hname]
    exact ⟨_, rfl, hskip.report _ _, rfl⟩
  cases front (trivia_skipTrivia s) with
  | nothing hnil htoken => exact hmissing (by rw [name, peek, htoken]; rfl) (by rw [Rule.nameInFront, passage, hnil])
  | token t q htoken ho ht hcontent =>
    have hpeek := peek_of_token? htoken
    have hnext := next_of_token? (s := s.skipTrivia) (by rwa [skipTrivia_skipTrivia])
    have hreaches := hskip.append (reaches_token htoken ho ht)
    have hpassage := skipTrivia_passage_eq hcontent
    obtain ⟨kind, text⟩ := t
    cases kind with
    | ident name =>
      rw [hpassage, Cursor.name, hpeek]
      exact ⟨q, congrArg (Prod.mk name) (congrArg Prod.snd hnext), hreaches, passage_of_token? htoken⟩
    | string name =>
      rw [hpassage, Cursor.name, hpeek]
      exact ⟨q, congrArg (Prod.mk name) (congrArg Prod.snd hnext), hreaches, passage_of_token? htoken⟩
    | _ => exact hmissing (by rw [name, hpeek]) (by rw [Rule.nameInFront, passage, hcontent])
  | block b t q closing rest htoken ho hcontent =>
    refine hmissing ?_ (by rw [Rule.nameInFront, passage, hcontent])
    rw [name, peek_of_token? htoken]
    obtain ⟨kind, text⟩ := t
    cases kind <;> first | rfl | cases ho

/-- A keyframes rule is logged as it is read. -/
theorem keyframesRule_eq {keyword vendor : String} {text : List Char}
    (htoken : s.token? = some (⟨.atKeyword keyword, text⟩, q)) (hvendor : vendor? keyword = some vendor) : ∃ rule r,
    s.keyframesRule = some (some rule, r) ∧
      (Rule.afterKeyframes s.place (if vendor.isEmpty then none else some vendor) q.passage).items = [.keyframes rule] ∧
      Reaches s (Rule.afterKeyframes s.place (if vendor.isEmpty then none else some vendor) q.passage).diagnostics
        [rule.record] r ∧
      r.passage = (Rule.afterKeyframes s.place (if vendor.isEmpty then none else some vendor) q.passage).rest := by
  have htrivia := (significant_of_token? htoken rfl).trivia
  obtain ⟨trailing, hname, hnamed, htrailing⟩ := name_eq s.place q
  obtain ⟨u, hextra, hcut⟩ := cutUpTo_eq [.curlyBlock, .semicolon, .closer] trailing
  have hpast := hcut.passage_past
  generalize hinfront : Rule.nameInFront s.place q.passage.skipTrivia = named at *
  obtain ⟨name, nameless, p⟩ := named
  obtain rfl : trailing.passage = p := htrailing
  generalize hextra' : (trailing.passage.upTo [.curlyBlock, .semicolon, .closer]).excerpt = extra at hextra
  let unexpected : Span := ⟨trailing.place, u.place⟩
  have htrivia' := hcut.trivia_past
  obtain ⟨r, hr, hblock, hrest⟩ := blockItems_reportIf answer_keyframeBlock (fun place => ⟨place, place⟩) htrivia'
    (extra ≠ []) .unexpectedToken unexpected
  generalize hv : (if vendor.isEmpty then none else some vendor) = v
  let blocks := KeyframeBlock.reader.block ⟨u.place, u.place⟩ u.passage
  let rule : KeyframesRule := ⟨name, v, blocks.items, ⟨s.place, blocks.rest.start⟩⟩
  rw [Rule.afterKeyframes_eq hinfront hextra' hpast]
  have hreaches := (((reaches_token htoken rfl rfl).append hnamed).append ⟨_, hcut⟩).append hblock
  refine ⟨rule, r.log rule.record, ?_, rfl, (hreaches.append ⟨_, .log r rule.record⟩).of_eq ?_ ?_, hrest⟩
  · rw [keyframesRule, next_of_token? (by rwa [skipTrivia_eq htrivia])]
    dsimp only
    rw [hname]
    dsimp only
    rw [hextra, Option.bind_eq_bind, Option.bind_some]
    dsimp only
    have hplace : r.place = blocks.rest.start := congrArg Passage.start hrest
    have hfilter : (vendor? keyword).filter (· ≠ "") = v := by
      rw [hvendor, ← hv]
      by_cases hempty : vendor = "" <;> simp [hempty]
    rw [hr, hfilter, Option.bind_eq_bind, Option.bind_some]
    dsimp only
    rw [hplace]
    rfl
  · simp only [List.append_assoc, List.nil_append, List.append_nil]
    rfl
  · simp

theorem passEnd_block {frame : Passage.Frame} (htrivia : s.content.trivia = .nil) (hframe : s.passage.frame? = some frame) :
    ∃ q, s.passEnd = some q ∧ Reaches s (frame.body.diagnostics ++ frame.unmatched) [] q ∧ q.passage = frame.rest := by
  obtain ⟨text, q, htoken⟩ := curly_in_front htrivia hframe
  obtain ⟨r, hr, hreaches, hrest⟩ := curlyBlock_unread htrivia hframe
  refine ⟨r, ?_, hreaches, hrest⟩
  rw [passEnd, peek_of_token? (by rwa [skipTrivia_eq htrivia]), skipTrivia_eq htrivia]
  dsimp only
  rw [hr]
  rfl

theorem passEnd_semicolon (htrivia : s.content.trivia = .nil) (hframe : s.passage.frame? = none) :
    s.passEnd = some s.passSemicolon := by
  rw [passEnd, passSemicolon]
  split
  · rename_i h
    rw [h]
  · rename_i q h
    obtain ⟨⟨⟨kind, text⟩, q⟩, htoken, hkind⟩ := Option.map_eq_some_iff.mp (Prod.mk.inj h).1
    subst hkind
    rw [skipTrivia_eq htrivia] at htoken
    exact absurd htoken ((frame?_eq_none_iff htrivia).mp hframe text q)
  · rename_i k q hother _ h
    rw [h]
    split
    · rename_i h'
      obtain ⟨rfl, rfl⟩ := Prod.mk.inj h'
      exact (hother rfl).elim
    · rename_i h'
      exact congrArg some (Prod.mk.inj h').2

theorem otherRule_atKeyword {name : String} {text : List Char} (htoken : s.token? = some (⟨.atKeyword name, text⟩, q)) :
    ∃ rule r, s.otherRule = some (some rule, r) ∧ (Rule.afterAtKeyword s.place name q.passage).items = [rule] ∧
      rule.keyframes? = none ∧ Reaches s (Rule.afterAtKeyword s.place name q.passage).diagnostics [] r ∧
      r.passage = (Rule.afterAtKeyword s.place name q.passage).rest := by
  have htrivia := skipTrivia_eq (significant_of_token? htoken rfl).trivia
  obtain ⟨u, hu, hpasses⟩ := skipUpTo_eq [.semicolon, .curlyBlock, .closer] q
  have hpast := hpasses.passage_past
  have hfree := hpasses.trivia_past
  have hreaches : Reaches s _ [] u := (reaches_token htoken rfl rfl).append ⟨_, hpasses⟩
  have hread : s.otherRule = (do
      let r ← u.passEnd
      return (some (.atRule name ⟨s.place, r.place⟩), r)) := by
    rw [otherRule, peek_of_token? (by rwa [htrivia]), htrivia]
    dsimp only
    rw [next_of_token? (by rwa [htrivia]), hu]
    rfl
  cases hframe : u.passage.frame? with
  | some frame =>
    obtain ⟨r, hr, hblock, hrest⟩ := passEnd_block hfree hframe
    have hstep : Rule.afterAtKeyword s.place name q.passage =
        { items := [.atRule name ⟨s.place, r.place⟩]
          diagnostics := (q.passage.upTo [.semicolon, .curlyBlock, .closer]).diagnostics ++ frame.body.diagnostics ++
            frame.unmatched
          rest := r.passage } := by
      rw [Rule.afterAtKeyword, ← hpast, hframe, hrest, show r.place = frame.rest.start from congrArg Passage.start hrest]
    rw [hstep]
    refine ⟨_, r, by rw [hread, hr]; rfl, rfl, rfl, (hreaches.append hblock).of_eq ?_ rfl, rfl⟩
    simp only [List.append_assoc, List.nil_append]
    rfl
  | none =>
    obtain ⟨hsemicolon, hrest⟩ := reaches_passSemicolon hfree
    have hstep : Rule.afterAtKeyword s.place name q.passage =
        { items := [.atRule name ⟨s.place, u.passSemicolon.place⟩]
          diagnostics := (q.passage.upTo [.semicolon, .curlyBlock, .closer]).diagnostics
          rest := u.passSemicolon.passage } := by
      rw [Rule.afterAtKeyword, ← hpast, hframe, hrest,
        show u.passSemicolon.place = u.passage.skipSemicolon.start from congrArg Passage.start hrest]
    rw [hstep]
    refine ⟨_, u.passSemicolon, by rw [hread, passEnd_semicolon hfree hframe]; rfl, rfl, rfl,
      (hreaches.append hsemicolon).of_eq ?_ rfl, rfl⟩
    rw [List.append_nil]
    rfl

/-- What any other rule is read as behind its selector. -/
theorem otherRule_of_selector {k : Kind} {selector : List Char} (hpeek : s.peek = (some k, s))
    (hk : ∀ name, k ≠ .atKeyword name) (hselector : s.cutUpTo [.curlyBlock, .closer] = some (selector, q)) :
    s.otherRule = do
      let (block, r) ← q.curlyBlock unread
      let r :=
        if block = none then r.report .missingBlock ⟨s.place, r.place⟩
        else if selector = [] then r.report .missingSelector ⟨s.place, r.place⟩
        else r
      return (some (.style (String.ofList selector) ⟨s.place, r.place⟩), r) := by
  rw [otherRule, hpeek]
  cases k with
  | atKeyword name => exact absurd rfl (hk name)
  | _ =>
    dsimp only
    rw [hselector]
    rfl

theorem otherRule_style {k : Kind} (hpeek : s.peek = (some k, s)) (hk : ∀ name, k ≠ .atKeyword name) : ∃ rule r,
    s.otherRule = some (some rule, r) ∧ (Rule.styleRule s.passage).items = [rule] ∧ rule.keyframes? = none ∧
      Reaches s (Rule.styleRule s.passage).diagnostics [] r ∧ r.passage = (Rule.styleRule s.passage).rest := by
  obtain ⟨q, hq, hcut⟩ := cutUpTo_eq [.curlyBlock, .closer] s
  have hpast := hcut.passage_past
  have hfree := hcut.trivia_past
  generalize hselector : (s.passage.upTo [.curlyBlock, .closer]).excerpt = selector at hq
  have hread := otherRule_of_selector hpeek hk hq
  cases hframe : q.passage.frame? with
  | some frame =>
    obtain ⟨r, hr, hblock, hrest⟩ := curlyBlock_unread hfree hframe
    have hstep : Rule.styleRule s.passage =
        { items := [.style (String.ofList selector) ⟨s.place, r.place⟩]
          diagnostics := (s.passage.upTo [.curlyBlock, .closer]).diagnostics ++ frame.body.diagnostics ++ frame.unmatched ++
            if selector = [] then [⟨.missingSelector, s.place, r.place⟩] else []
          rest := r.passage } := by
      rw [Rule.styleRule]
      dsimp only
      rw [hselector, ← hpast, hframe, hrest, show r.place = frame.rest.start from congrArg Passage.start hrest]
      rfl
    have hreaches := (Reaches.append ⟨_, hcut⟩ hblock).reportIf (selector = []) .missingSelector ⟨s.place, r.place⟩
    have hpassage := passage_reportIf r (selector = []) .missingSelector ⟨s.place, r.place⟩
    rw [hstep]
    refine ⟨_, _, ?_, rfl, rfl, hreaches.of_eq ?_ rfl, hpassage⟩
    · have hplace : Cursor.place (if selector = [] then r.report .missingSelector ⟨s.place, r.place⟩ else r) = r.place :=
        congrArg Passage.start hpassage
      rw [hread, hr]
      show some (some (Rule.style (String.ofList selector) ⟨s.place, Cursor.place (if selector = [] then _ else r)⟩), _) = _
      rw [hplace]
      rfl
    · rw [List.append_assoc _ frame.body.diagnostics]
  | none =>
    have hstep : Rule.styleRule s.passage =
        { items := [.style (String.ofList selector) ⟨s.place, q.place⟩]
          diagnostics := (s.passage.upTo [.curlyBlock, .closer]).diagnostics ++ [⟨.missingBlock, s.place, q.place⟩]
          rest := q.passage } := by
      rw [Rule.styleRule]
      dsimp only
      rw [hselector, ← hpast, hframe]
      rfl
    have hreaches := Reaches.report ⟨_, hcut⟩ .missingBlock ⟨s.place, q.place⟩
    rw [hstep]
    exact ⟨_, _, by rw [hread, curlyBlock_none hfree hframe]; rfl, rfl, rfl, hreaches, rfl⟩

/-- What is logged of a rule. -/
def recordsOf (rule : Rule) : List Record := (rule.keyframes?.map KeyframesRule.record).toList

theorem skipClosers_eq (h : ∀ b, s.peek.1 ≠ some (.closing b)) : s.skipClosers = some s.skipTrivia := by
  rw [skipClosers]
  split
  · rename_i b q hpeek
    exact absurd (congrArg Prod.fst hpeek) (h b)
  · rename_i hpeek
    rw [← (Prod.mk.inj hpeek).2]

theorem rule_eq (h : ∀ b, s.peek.1 ≠ some (.closing b)) : s.rule = s.skipTrivia.ruleInFront := by
  rw [rule, skipClosers_eq h]
  rfl

theorem peek_skipTrivia (s : Cursor) : s.skipTrivia.peek = s.peek := by rw [peek, peek, skipTrivia_skipTrivia]

/-- A rule that is read off the cursor behind blanks and comments. -/
theorem Answer.of_inFront {x : Rule} {step : Step Rule} {records : List Record}
    (hnext : Rule.next s.passage = some (step.afterFaults s.passage.trivia.diagnostics))
    (hread : s.rule = some (some x, r)) (hitems : step.items = [x]) (hrecords : records = recordsOf x)
    (hreaches : Reaches s.skipTrivia step.diagnostics records r) (hrest : r.passage = step.rest) :
    Answer Rule.reader recordsOf rule s :=
  .takes x _ r hnext hitems (((reaches_skipTrivia s).append hreaches).of_eq rfl hrecords)
    (Nat.le_of_eq (congrArg (·.content.size) hrest)) (congrArg Rule.reader.run hrest) hread

section
variable {text : List Char}

/-- A closing bracket that closes nothing is passed. -/
theorem answer_closer {b : Bracket} (htoken : s.skipTrivia.token? = some (⟨.closing b, text⟩, q))
    (hcontent : s.skipTrivia.content = .token ⟨.closing b, text⟩ q.content) : Answer Rule.reader recordsOf rule s := by
  let unexpected : Span := ⟨s.skipTrivia.place, q.place⟩
  have hnext : Rule.next s.passage = some
      { items := []
        diagnostics := s.passage.trivia.diagnostics ++ [⟨.unexpectedToken, unexpected⟩]
        rest := q.passage } := by
    dsimp only [unexpected]
    rw [Rule.next, skipTrivia_passage_eq hcontent, passage_of_token? htoken, place_of_token? htoken]
  have hreaches := ((reaches_skipTrivia s).append (reaches_token htoken rfl rfl)).report .unexpectedToken unexpected
  rw [List.append_nil] at hreaches
  refine .goesOn _ (q.report .unexpectedToken unexpected) hnext rfl hreaches rfl ?_
  have hvalue : s.skipTrivia.skipValue = some (some (), q.report .unexpectedToken unexpected) := by
    rw [skipValue, skipTrivia_skipTrivia, htoken]
    rfl
  rw [rule, skipClosers, peek_of_token? htoken]
  dsimp only
  rw [hvalue]
  rfl

/-- A rule with an at-keyword is a keyframes rule or not, by that keyword. -/
theorem answer_atKeyword {keyword : String} (htoken : s.skipTrivia.token? = some (⟨.atKeyword keyword, text⟩, q))
    (hcontent : s.skipTrivia.content = .token ⟨.atKeyword keyword, text⟩ q.content) :
    Answer Rule.reader recordsOf rule s := by
  have hpeek := peek_of_token? htoken
  have hread : s.rule = s.skipTrivia.ruleInFront := rule_eq (by rw [hpeek]; simp)
  rw [ruleInFront, peek_skipTrivia, hpeek] at hread
  dsimp only at hread
  cases hvendor : vendor? keyword with
  | some vendor =>
    obtain ⟨x, r, hr, hitems, hreaches, hrest⟩ := keyframesRule_eq htoken hvendor
    refine .of_inFront ?_ ?_ hitems rfl hreaches hrest
    · rw [Rule.next, skipTrivia_passage_eq hcontent]
      dsimp only
      rw [hvendor, passage_of_token? htoken]
    · rw [hread, hvendor, hr]
      rfl
  | none =>
    obtain ⟨x, r, hr, hitems, hrecords, hreaches, hrest⟩ := otherRule_atKeyword htoken
    refine .of_inFront ?_ ?_ hitems (by rw [recordsOf, hrecords]; rfl) hreaches hrest
    · rw [Rule.next, skipTrivia_passage_eq hcontent]
      dsimp only
      rw [hvendor, passage_of_token? htoken]
    · rw [hread, hvendor]
      exact hr

end

/-- A rule without an at-keyword is a style rule. -/
theorem answer_style {k : Kind} (hpeek : s.peek = (some k, s.skipTrivia)) (hclosing : ∀ b, k ≠ .closing b)
    (hkeyword : ∀ name, k ≠ .atKeyword name)
    (hnext : Rule.next s.passage = some ((Rule.styleRule s.skipTrivia.passage).afterFaults s.passage.trivia.diagnostics)) :
    Answer Rule.reader recordsOf rule s := by
  have hpeek' : s.skipTrivia.peek = (some k, s.skipTrivia) := (peek_skipTrivia s).trans hpeek
  obtain ⟨x, r, hr, hitems, hrecords, hreaches, hrest⟩ := otherRule_style hpeek' hkeyword
  refine .of_inFront hnext ?_ hitems (by rw [recordsOf, hrecords]; rfl) hreaches hrest
  rw [rule_eq fun b hb => hclosing b (by rw [hpeek] at hb; exact Option.some.inj hb), ruleInFront, hpeek']
  cases k with
  | atKeyword name => exact absurd rfl (hkeyword name)
  | _ => exact hr

theorem answer_rule (s : Cursor) : Answer Rule.reader recordsOf rule s := by
  cases front (trivia_skipTrivia s) with
  | nothing hnil htoken =>
    refine .none ?_ (by rw [← content_skipTrivia, hnil]) ?_
    · show Rule.next s.passage = none
      rw [Rule.next, skipTrivia_passage_eq hnil]
    · have hpeek : s.peek = (none, s.skipTrivia) := by rw [peek, htoken]; rfl
      rw [rule_eq (by rw [hpeek]; simp), ruleInFront, peek_skipTrivia, hpeek]
  | token t q htoken ho ht hcontent =>
    obtain ⟨kind, text⟩ := t
    cases kind with
    | closing b => exact answer_closer htoken hcontent
    | atKeyword keyword => exact answer_atKeyword htoken hcontent
    | _ =>
      exact answer_style (peek_of_token? htoken) (by simp) (by simp)
        (by rw [Rule.next, passage_skipTrivia, skipTrivia_passage_eq hcontent])
  | block b t q closing rest htoken ho hcontent =>
    refine answer_style (peek_of_token? htoken) ?_ ?_
      (by rw [Rule.next, passage_skipTrivia, skipTrivia_passage_eq hcontent])
    · rintro b' hk
      rw [hk] at ho
      cases ho
    · rintro name hk
      rw [hk] at ho
      cases ho

/-! ### Stylesheets -/

theorem map_record_keyframes (rules : List Rule) :
    rules.flatMap recordsOf = (rules.filterMap Rule.keyframes?).map KeyframesRule.record := by
  induction rules with
  | nil => rfl
  | cons rule rules ih =>
    rw [List.flatMap_cons, ih, recordsOf]
    cases h : rule.keyframes? with
    | none => rw [List.filterMap_cons_none h]; rfl
    | some keyframes => rw [List.filterMap_cons_some h]; rfl

/-- How a cursor ends that was in front of a stylesheet: behind all of its text, with its rules, its faults and a record of
each of its keyframes rules. -/
structure Finishes (source : String) (s : Cursor) : Prop where
  items : items rule (start source.toList) = some ((Stylesheet.ofText source).rules, s)
  drain : s.drain = some s
  passed : s.passed = source.toList
  ahead : s.ahead = []
  faults : s.faults = (Stylesheet.ofText source).diagnostics
  records : s.records = (Stylesheet.ofText source).keyframes.map KeyframesRule.record
  cuts : ∀ cut ∈ s.cuts, cut.IsOf 0 (lex source.toList)

theorem Finishes.readAll {source : String} (h : Finishes source s) :
    readAll source.toList = some ((Stylesheet.ofText source).rules, s) := by
  rw [Cursor.readAll, h.items]
  show (do let s ← s.drain; return ((Stylesheet.ofText source).rules, s)) = _
  rw [h.drain]
  rfl

/-- **A stylesheet is read to its end**, and it is the stylesheet that the text is. -/
theorem finishes (source : String) : ∃ s, Finishes source s := by
  obtain ⟨s, hs, hpasses⟩ := items_eq answer_rule (start source.toList)
  have hahead : s.ahead = [] := by
    rcases atEnd_iff.mpr (token?_of_nil hpasses.of_all) with hnil | ⟨b, hb, -⟩
    · exact hnil
    · rw [hpasses.inside] at hb
      cases hb
  have htext := hpasses.ahead_eq
  have hlex := hpasses.lex_eq
  rw [hahead, List.append_nil] at htext
  rw [hahead, lex, List.append_nil] at hlex
  refine ⟨s, hs, drain_of_nil hpasses.of_all, ?_, hahead, hpasses.faults, ?_, ?_⟩
  · rw [hpasses.passed]
    exact htext.symm
  · rw [hpasses.records]
    exact map_record_keyframes _
  · obtain ⟨cuts, hcuts, hof⟩ := hpasses.cuts
    rw [hcuts, show lex source.toList = _ from hlex]
    exact hof

end Cursor
end Timeline
