import Timeline.Proofs.Cursor.Passing

/-! Passing one component value, all that are left, and all in front of a mark.

A block is passed by passing what it holds, so that the two go together: a value is passed if all blocks that begin behind
the cursor can be drained, and a cursor drains by passing one value after the other. -/
namespace Timeline

open Css (Bracket Content Diagnostic Fault Kind Mark Passage Token lex scan)
open Journal (Record)

namespace Css.Content

theorem append_eq_nil {c d : Content} (h : c.append d = .nil) : c = .nil ∧ d = .nil := by
  cases c with
  | nil => exact ⟨rfl, h⟩
  | token => cases h
  | block => cases h

theorem first_ne_nil {c : Content} (h : c ≠ .nil) : c.first ≠ .nil := by
  cases c with
  | nil => exact absurd rfl h
  | token => exact Content.noConfusion
  | block => exact Content.noConfusion

end Css.Content

namespace Cursor

variable {s q : Cursor} {marks : List Mark}

/-! ### One component value -/

/-- Where no value is left there is none to pass. -/
theorem skipValue_none (h : s.content.skipTrivia = .nil) : s.skipValue = some (none, s.skipTrivia) := by
  rw [skipValue, token?_of_nil (by rw [content_skipTrivia, h])]

theorem drain_of_nil (h : s.content = .nil) : s.drain = some s := by
  rw [drain, run_eq, skipValue_none (by rw [h]; rfl), skipTrivia_eq (by rw [h]; rfl)]
  rfl

/-- Passing all values that are left, with their faults. -/
def Drains (s : Cursor) : Prop := ∃ q, s.drain = some q ∧ Passes s s.content (s.content.diagnostics s.place) [] q

/-- One value is passed, if all that blocks hold can be. -/
theorem skipValue_some (h : s.content.skipTrivia ≠ .nil) (hdrain : ∀ q, q.ahead.length < s.ahead.length → Drains q) :
    ∃ q, s.skipValue = some (some (), q) ∧
      Passes s (s.content.trivia.append s.content.skipTrivia.first)
        ((s.content.trivia.append s.content.skipTrivia.first).diagnostics s.place) [] q := by
  have htrivia := passes_skipTrivia s
  have hcontent := content_skipTrivia s
  -- What is passed behind the blanks and comments.
  suffices hone : ∃ q, s.skipValue = some (some (), q) ∧ Passes s.skipTrivia s.content.skipTrivia.first
      (s.content.skipTrivia.first.diagnostics s.skipTrivia.place) [] q by
    obtain ⟨q, hq, hpasses⟩ := hone
    refine ⟨q, hq, ?_⟩
    rw [Content.diagnostics_append, ← htrivia.place_eq]
    exact htrivia.append hpasses
  rw [skipValue]
  cases front (trivia_skipTrivia s) with
  | nothing hnil _ => exact absurd (hcontent.symm.trans hnil) h
  | token t q htoken ho ht hfront =>
    have hpass := passes_token htoken ho (by cases hk : t.kind <;> first | rfl | (rw [hk] at ht; cases ht))
    have hplace := place_of_token? htoken
    rw [htoken, ← hcontent, hfront]
    dsimp only
    rw [ho]
    dsimp only
    rw [Content.first, Content.diagnostics, Content.diagnostics, List.append_nil, ← hplace]
    cases hf : t.kind.fault? with
    | none => exact ⟨q, rfl, hpass⟩
    | some fault => exact ⟨_, rfl, hpass.append (.report q fault _)⟩
  | block b t q closing rest htoken ho hfront =>
    have hshorter : (q.enter b).ahead.length < s.ahead.length := by
      refine Nat.lt_of_lt_of_le (show q.ahead.length < _ from length_token?_lt htoken) ?_
      rw [htrivia.ahead_eq, List.length_append]
      exact Nat.le_add_left _ _
    obtain ⟨inner, hinner, hpasses⟩ := hdrain _ hshorter
    obtain ⟨closing', rest', hfront', hblock⟩ := passes_block htoken ho hpasses
    obtain ⟨-, -, -, rfl, -⟩ := Content.block.inj (hfront.symm.trans hfront')
    have hplace := place_of_token? htoken
    rw [htoken, ← hcontent, hfront]
    dsimp only
    rw [ho]
    dsimp only
    rw [run_eq, hinner]
    refine ⟨_, by rw [Option.bind_eq_bind, Option.bind_some, run_eq, drain_of_nil hpasses.of_all]; rfl, ?_⟩
    rw [Content.first, Content.diagnostics, Content.diagnostics, List.append_nil, ← hplace]
    exact hblock

theorem content_eq_trivia (h : s.content.skipTrivia = .nil) : s.content = s.content.trivia := by
  have hcontent := Content.trivia_append_skipTrivia s.content
  rw [h, Content.append_nil] at hcontent
  exact hcontent.symm

theorem drains (s : Cursor) : Drains s := by
  induction hn : s.ahead.length using Nat.strongRecOn generalizing s with
  | ind n ih =>
    subst hn
    by_cases h : s.content.skipTrivia = .nil
    · refine ⟨s.skipTrivia, by rw [drain, run_eq, skipValue_none h]; rfl, ?_⟩
      have hpasses := passes_skipTrivia s
      rwa [← content_eq_trivia h] at hpasses
    · obtain ⟨q, hq, hpasses⟩ := skipValue_some h fun q hq => ih _ hq q rfl
      have hne : s.content.trivia.append s.content.skipTrivia.first ≠ .nil := fun hnil =>
        Content.first_ne_nil h (Content.append_eq_nil hnil).2
      obtain ⟨r, hr, hrest⟩ := ih _ (hpasses.length_ahead_lt hne) q rfl
      refine ⟨r, ?_, ?_⟩
      · rw [drain, run_eq, hq]
        exact hr
      · rw [hpasses.content, Content.diagnostics_append, ← hpasses.place_eq]
        exact hpasses.append hrest

/-- Blanks and comments in front make no difference. -/
theorem skipValue_skipTrivia (s : Cursor) : s.skipTrivia.skipValue = s.skipValue := by
  rw [skipValue, skipTrivia_skipTrivia]
  exact (skipValue.eq_1 s).symm

theorem passes_value (h : s.content.skipTrivia ≠ .nil) : ∃ q, s.skipValue = some (some (), q) ∧
    Passes s (s.content.trivia.append s.content.skipTrivia.first)
      ((s.content.trivia.append s.content.skipTrivia.first).diagnostics s.place) [] q :=
  skipValue_some h fun q _ => drains q

/-! ### Up to a mark -/

theorem stopsAt_of_token {t : Token} (ho : t.kind.opens? = none) : stopsAt marks t.kind = Mark.found marks t.mark? := by
  obtain ⟨kind, text⟩ := t
  cases kind <;> first | rfl | cases ho

theorem stopsAt_of_block {b : Bracket} {t : Token} (ho : t.kind.opens? = some b) :
    stopsAt marks t.kind = Mark.found marks b.mark? := by
  obtain ⟨kind, text⟩ := t
  cases kind with
  | opening bracket =>
    obtain rfl := Option.some.inj ho
    cases bracket <;> rfl
  | function name =>
    obtain rfl := Option.some.inj ho
    rfl
  | _ => cases ho

/-- What a cursor does on its way to a mark: it is there, or it passes one more value. -/
inductive Stop (marks : List Mark) (s : Cursor) : Prop where
  | stops (peek : ∀ k ∈ s.peek.1, stopsAt marks k = true) (upTo : s.content.upTo marks = s.content.trivia)
  | goes (k : Kind) (q : Cursor) (c : Content) (peek : s.peek.1 = some k) (stopsAt : stopsAt marks k = false)
    (skipValue : s.skipTrivia.skipValue = some (some (), q)) (passes : Passes s c (c.diagnostics s.place) [] q)
    (significant : c.skipTrivia.Significant) (upTo : s.content.upTo marks = c.append (q.content.upTo marks))

theorem stop (marks : List Mark) (s : Cursor) : Stop marks s := by
  have hcontent := Content.trivia_append_skipTrivia s.content
  have hupTo : s.content.upTo marks = s.content.trivia.append (s.content.skipTrivia.upTo marks) := by
    rw [← Content.upTo_append_of_free (Content.isTrivia_trivia s.content).free, hcontent]
  have hpeek : s.peek.1 = s.skipTrivia.token?.map (·.1.kind) := rfl
  -- The value in front is passed if it is no mark.
  have hgoes {k : Kind} {rest : Content} (hk : s.peek.1 = some k) (hstop : stopsAt marks k = false)
      (hsignificant : s.content.skipTrivia.first.Significant)
      (hfirst : s.content.skipTrivia = s.content.skipTrivia.first.append rest)
      (hrest : s.content.skipTrivia.upTo marks = s.content.skipTrivia.first.append (rest.upTo marks)) : Stop marks s := by
    obtain ⟨q, hq, hpasses⟩ := passes_value (s := s) fun hnil => by rw [hnil] at hsignificant; exact hsignificant
    have hq' : q.content = rest := hpasses.content_eq (by rw [Content.append_assoc, ← hfirst, hcontent])
    refine .goes k q _ hk hstop ((skipValue_skipTrivia s).trans hq) hpasses ?_ ?_
    · rwa [Content.skipTrivia_append (Content.isTrivia_trivia _), hsignificant.skipTrivia]
    · rw [hupTo, hrest, hq', Content.append_assoc]
  have hskip := content_skipTrivia s
  cases front (trivia_skipTrivia s) with
  | nothing hnil htoken =>
    refine .stops (by rw [hpeek, htoken]; simp) ?_
    rw [hupTo, ← hskip, hnil]
    exact Content.append_nil _
  | token t q htoken ho ht hfront =>
    rw [htoken] at hpeek
    cases hstop : stopsAt marks t.kind with
    | true =>
      refine .stops (by rw [hpeek]; simpa using hstop) ?_
      rw [hupTo, ← hskip, hfront, Content.upTo, ← stopsAt_of_token ho, hstop]
      exact Content.append_nil _
    | false =>
      rw [← hskip, hfront] at hgoes
      refine hgoes hpeek hstop ht rfl ?_
      rw [Content.upTo, ← stopsAt_of_token ho, hstop]
      rfl
  | block b t q closing rest htoken ho hfront =>
    rw [htoken] at hpeek
    cases hstop : stopsAt marks t.kind with
    | true =>
      refine .stops (by rw [hpeek]; simpa using hstop) ?_
      rw [hupTo, ← hskip, hfront, Content.upTo, ← stopsAt_of_block ho, hstop]
      exact Content.append_nil _
    | false =>
      rw [← hskip, hfront] at hgoes
      refine hgoes hpeek hstop trivial rfl ?_
      rw [Content.upTo, ← stopsAt_of_block ho, hstop]
      rfl

theorem skipUpTo_eq (marks : List Mark) (s : Cursor) : ∃ q, skipUpTo marks s = some q ∧
    Passes s (s.content.upTo marks) ((s.content.upTo marks).diagnostics s.place) [] q := by
  induction hn : s.ahead.length using Nat.strongRecOn generalizing s with
  | ind n ih =>
    subst hn
    cases stop marks s with
    | stops hpeek hupTo =>
      refine ⟨s.skipTrivia, ?_, hupTo ▸ passes_skipTrivia s⟩
      rw [skipUpTo]
      split
      · rename_i hs
        exact congrArg some (Prod.mk.inj hs).2.symm
      · rename_i k q hs
        obtain ⟨hk, hq⟩ := Prod.mk.inj hs
        rw [if_pos (hpeek k (by rw [peek]; exact hk))]
        exact congrArg some hq.symm
    | goes k q c hpeek hstop hq hpasses hsignificant hupTo =>
      obtain ⟨r, hr, hrest⟩ := ih _ (hpasses.length_ahead_lt fun hnil => by rw [hnil] at hsignificant; exact hsignificant) q rfl
      refine ⟨r, ?_, ?_⟩
      · have hs : s.peek = (some k, s.skipTrivia) := Prod.ext hpeek rfl
        rw [skipUpTo, hs]
        dsimp only
        rw [hstop, if_neg (by decide), hq]
        exact hr
      · rw [hupTo, Content.diagnostics_append, ← hpasses.place_eq]
        exact hpasses.append hrest

theorem passUpTo_eq (marks : List Mark) (s : Cursor) (first : Nat) : ∃ (core trail : Content) (last : Nat) (q : Cursor),
    passUpTo marks (first, s) = some (last, q) ∧
      Passes s (s.content.upTo marks) ((s.content.upTo marks).diagnostics s.place) [] q ∧
      s.content.upTo marks = core.append trail ∧ trail.IsTrivia ∧
      (core = .nil ∧ last = first ∨ last = s.offset + bytes core.text) := by
  induction hn : s.ahead.length using Nat.strongRecOn generalizing s first with
  | ind n ih =>
    subst hn
    cases stop marks s with
    | stops hpeek hupTo =>
      refine ⟨.nil, _, first, s.skipTrivia, ?_, hupTo ▸ passes_skipTrivia s, rfl, ?_, .inl ⟨rfl, rfl⟩⟩
      · rw [passUpTo]
        split
        · rename_i hs
          rw [← (Prod.mk.inj hs).2]
        · rename_i k q hs
          obtain ⟨hk, hq⟩ := Prod.mk.inj hs
          rw [if_pos (hpeek k (by rw [peek]; exact hk)), ← hq]
      · rw [hupTo]
        exact Content.isTrivia_trivia _
    | goes k q c hpeek hstop hq hpasses hsignificant hupTo =>
      obtain ⟨core, trail, last, r, hr, hrest, hcore, htrail, hlast⟩ :=
        ih _ (hpasses.length_ahead_lt fun hnil => by rw [hnil] at hsignificant; exact hsignificant) q q.offset rfl
      refine ⟨c.append core, trail, last, r, ?_, ?_, ?_, htrail, .inr ?_⟩
      · have hs : s.peek = (some k, s.skipTrivia) := Prod.ext hpeek rfl
        rw [passUpTo, hs]
        dsimp only
        rw [hstop, if_neg (by decide), hq]
        exact hr
      · rw [hupTo, Content.diagnostics_append, ← hpasses.place_eq]
        exact hpasses.append hrest
      · rw [hupTo, hcore, Content.append_assoc]
      · have hbytes : bytes (c.append core).text = bytes c.text + bytes core.text := by
          rw [Content.text, Content.tokens_append, List.flatMap_append, bytes_append]
          rfl
        rw [hbytes, ← Nat.add_assoc, ← hpasses.offset_eq]
        rcases hlast with ⟨rfl, rfl⟩ | hlast
        · rfl
        · exact hlast

end Cursor
end Timeline
