import Timeline.Proofs.Css.Kinds
import Timeline.Proofs.Css.Nesting

/-! Comments in a text: one is closed if and only if its text has an end mark of its own
(`honest_of_mem_lex`). The mark at the start lends it no star, so a slash, a star and a slash
are an open comment. -/
namespace Timeline.Css

theorem splitComment_closed (cs : List Char) :
    (splitComment cs).2.1 = true ↔ ∃ words, (splitComment cs).1 = words ++ ['*', '/'] := by
  fun_induction splitComment cs with
  | case1 rest => simp
  | case2 c cs hc text closed rest h ih =>
    have happ := splitComment_append cs
    rw [h] at ih happ
    simp only at ih happ ⊢
    rw [ih]
    constructor
    · intro hwords
      obtain ⟨words, rfl⟩ := hwords
      exact ⟨c :: words, rfl⟩
    · intro hwords
      obtain ⟨words, hw⟩ := hwords
      cases words with
      | nil =>
        obtain ⟨rfl, rfl⟩ := List.cons.inj hw
        exact absurd happ.symm (hc rest rfl)
      | cons w words => exact ⟨words, (List.cons.inj hw).2⟩
  | case3 => simp

theorem scan_honest (c : Char) (cs : List Char) : (scan c cs).1.Honest := by
  intro closed h
  rcases scan_of_not_isOver (by rw [h]; rfl) (by rw [h]; rfl) with ⟨rest, hs⟩ | ⟨rest, hs⟩
  · rw [hs] at h ⊢
    have hc := splitComment_closed rest
    simp only [scanComment, Kind.comment.injEq] at h
    rw [← h, hc]
    simp [scanComment]
  · rw [hs] at h
    cases h

theorem honest_of_mem_lex {cs : List Char} : ∀ t ∈ lex cs, t.Honest := forall_mem_lex scan_honest cs

/-- A text is balanced if and only if nothing is wrong with the nesting of its tokens. -/
theorem balanced_lex_iff (cs : List Char) (p : Text.Position) :
    Balanced (lex cs) ↔ (Content.ofText cs).diagnostics p = [] :=
  Content.balanced_tokens_iff honest_of_mem_lex p

end Timeline.Css
