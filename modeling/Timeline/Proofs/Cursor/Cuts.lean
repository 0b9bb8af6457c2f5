import Timeline.Proofs.Cursor.Readers

/-! What becomes of comments.

Every text that a cursor cuts out of its source is a run of tokens, and the comments that are stripped from it are just
those among these tokens, wherever they stand. They lie one behind the other, so that none is passed over while they are
stripped, and of the text that is not in comments only blanks behind comments go (`spared`). -/
namespace Timeline

open Css (Mark Token lex)
open Sheet (Stylesheet)

variable {ts : List Token}

/-! ### Stretches of comments -/

theorem commentsFrom_cons (offset : Nat) (t : Token) (ts : List Token) : commentsFrom offset (t :: ts) =
    (if t.kind.isComment then [⟨offset, offset + bytes t.text⟩] else []) ++ commentsFrom (offset + bytes t.text) ts := rfl

/-- What stands in the stretches of comments are these comments. -/
theorem map_slice?_commentsFrom (front back : List Char) (ts : List Token) :
    (commentsFrom (bytes front) ts).map (fun c => slice? (front ++ (ts.flatMap Token.text ++ back)) c.start c.stop) =
      (ts.filter (·.kind.isComment)).map fun t => some t.text := by
  induction ts generalizing front with
  | nil => rfl
  | cons t ts ih =>
    have hrest := ih (front ++ t.text)
    rw [bytes_append, List.append_assoc, ← List.append_assoc t.text] at hrest
    rw [commentsFrom_cons, List.map_append, List.flatMap_cons, hrest, List.filter_cons]
    split
    · rw [List.map_singleton, List.append_assoc, slice?_eq front t.text _ rfl (bytes_append _ _).symm]
      rfl
    · rfl

theorem le_start_commentsFrom {offset : Nat} {c : Stretch} (h : c ∈ commentsFrom offset ts) : offset ≤ c.start := by
  obtain ⟨front, t, back, -, -, hstart, -⟩ := mem_commentsFrom h
  rw [hstart]
  exact Nat.le_add_right _ _

theorem pairwise_commentsFrom (offset : Nat) (ts : List Token) :
    (commentsFrom offset ts).Pairwise fun a b => a.stop ≤ b.start := by
  induction ts generalizing offset with
  | nil => exact .nil
  | cons t ts ih =>
    rw [commentsFrom_cons]
    split
    · exact List.pairwise_cons.mpr ⟨fun c hc => le_start_commentsFrom hc, ih _⟩
    · exact ih _

/-! ### Cuts -/

/-- A text that was cut out of a source and stripped of exactly its comments. -/
structure Cut.IsExact (source : List Char) (cut : Cut) (front ts back : List Token) : Prop where
  /-- It is a run of tokens of the source. -/
  tokens : lex source = front ++ (ts ++ back)
  start : cut.stretch.start = bytes (front.flatMap Token.text)
  slice : slice? source cut.stretch.start cut.stretch.stop = some (ts.flatMap Token.text)
  /-- The comments are those among the tokens, each of them once. -/
  places : cut.comments = commentsFrom 0 ts
  comments : cut.comments.map (fun c => slice? (ts.flatMap Token.text) c.start c.stop) =
    (ts.filter (·.kind.isComment)).map fun t => some t.text
  ascending : cut.comments.Pairwise fun a b => a.stop ≤ b.start
  nonempty : ∀ c ∈ cut.comments, c.start < c.stop
  /-- None is passed over, and every part that is looked for is there. -/
  skips : Stripping.start.NeverSkips (ts.flatMap Token.text) cut.comments
  stripped : stripped? (ts.flatMap Token.text) cut.comments = some cut.text
  /-- Besides the comments only blanks behind comments go. -/
  spared : cut.text = spared false false (marked ts)
  /-- This is the text that an excerpt is trimmed from. -/
  excerpt : cut.text = Css.strip false false ts

theorem Cut.IsOf.isExact {source : List Char} {cut : Cut} (h : cut.IsOf 0 (lex source)) :
    ∃ front ts back, cut.IsExact source front ts back := by
  obtain ⟨front, ts, back, htokens, rfl⟩ := h
  have hsource : source = front.flatMap Token.text ++ (ts.flatMap Token.text ++ back.flatMap Token.text) := by
    rw [← List.flatMap_append, ← List.flatMap_append, ← htokens, Css.lex_texts]
  have hfronts : Css.Fronts ts (back.flatMap Token.text) := by
    have hrest : lex (ts.flatMap Token.text ++ back.flatMap Token.text) = ts ++ back :=
      Css.lex_of_append (by rw [← hsource, htokens])
    rw [Css.Fronts, Css.lex_of_append hrest, hrest]
  have hcomments := map_slice?_commentsFrom [] [] ts
  rw [List.append_nil] at hcomments
  obtain ⟨hstripped, hskips⟩ := stripped?_tokens hfronts
  refine ⟨front, ts, back, htokens, Nat.zero_add _, ?_, rfl, hcomments, pairwise_commentsFrom 0 ts, ?_, hskips, hstripped,
    strip_eq_spared false false hfronts, rfl⟩
  · rw [hsource]
    exact slice?_eq _ _ _ (Nat.zero_add _) (by rw [bytes_append]; exact congrArg (· + _) (Nat.zero_add _))
  · intro c hc
    obtain ⟨front', t, back', hts, -, -, hstop⟩ := mem_commentsFrom hc
    have ht : t ∈ lex source := by
      rw [htokens, hts]
      simp
    rw [hstop]
    exact Nat.lt_add_of_pos_right (bytes_pos (Css.text_ne_nil t ht))

namespace Cursor

/-- Every text that is cut out is noted down, and none is forgotten. -/
theorem cutUpTo_cuts (marks : List Mark) (s : Cursor) : ∃ q cut more, cutUpTo marks s = some (Text.trim cut.text, q) ∧
    q.cuts = s.cuts ++ (more ++ [cut]) := by
  obtain ⟨q, cut, hq, hpasses, -, htext⟩ := cutUpTo_run marks s
  obtain ⟨more, hmore, -⟩ := hpasses.cuts
  refine ⟨_, cut, more, htext ▸ hq, ?_⟩
  show q.cuts ++ [cut] = _
  rw [hmore, List.append_assoc]

/-- **Comments are stripped exactly.** Every text that is cut out is noted down, and every text that was noted down when a
stylesheet is read is stripped of its comments, and of nothing else but blanks behind them. -/
theorem comments_exact :
    (∀ marks s, ∃ q cut more, cutUpTo marks s = some (Text.trim cut.text, q) ∧ q.cuts = s.cuts ++ (more ++ [cut])) ∧
      ∀ source : String, ∃ s, readAll source.toList = some ((Stylesheet.ofText source).rules, s) ∧
        ∀ cut ∈ s.cuts, ∃ front ts back, cut.IsExact source.toList front ts back := by
  refine ⟨cutUpTo_cuts, fun source => ?_⟩
  obtain ⟨s, hs⟩ := finishes source
  exact ⟨s, hs.readAll, fun cut hcut => (hs.cuts cut hcut).isExact⟩

end Cursor
end Timeline
