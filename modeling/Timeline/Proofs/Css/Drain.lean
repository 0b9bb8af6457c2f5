import Timeline.Proofs.Css.Nesting

/-! Draining a stylesheet: its tokens, one after the other, by no grammar at all.

All that is kept in mind are the brackets that are open, the innermost in front. A closing
bracket that fits the innermost one closes it; every other one is a fault, and so is every
bracket that is still open when the tokens end. `diagnostics_ofText`: what draining finds wrong with a
text is what is wrong with the nesting of its tokens. -/
namespace Timeline.Css

open Text (Position Span)

/-- A bracket that is open, and where it was opened. -/
structure Opening where
  bracket : Bracket
  span : Span

/-- The faults of tokens that begin at `p`, in the order in which they show. -/
def drain (opened : List Opening) (p : Position) : List Token → List Diagnostic
  | [] => opened.map fun o => ⟨.unmatched o.bracket, o.span⟩
  | t :: ts =>
    let q := p.advance t.text
    if opened ≠ [] ∧ t.kind.closes? = opened.head?.map Opening.bracket then drain opened.tail q ts
    else
      match t.kind.opens? with
      | some b => drain (⟨b, p, q⟩ :: opened) q ts
      | none => (t.kind.fault?.map (⟨·, p, q⟩)).toList ++ drain opened q ts

theorem drain_closing {o : Opening} {opened : List Opening} {p : Position} {t : Token} {ts : List Token}
    (h : t.kind.closes? = some o.bracket) :
    drain (o :: opened) p (t :: ts) = drain opened (p.advance t.text) ts := by
  rw [drain, if_pos ⟨by simp, h⟩]
  rfl

/-- A token that closes nothing: the condition under which nesting takes it in. -/
theorem not_closing {opened : List Opening} {t : Token}
    (h : ¬ ((opened.head?.map Opening.bracket).isSome ∧ t.kind.closes? = opened.head?.map Opening.bracket)) :
    ¬ (opened ≠ [] ∧ t.kind.closes? = opened.head?.map Opening.bracket) := by
  intro hclosed
  obtain ⟨hne, hc⟩ := hclosed
  cases opened with
  | nil => exact hne rfl
  | cons o opened => exact h ⟨rfl, hc⟩

theorem drain_opening {opened : List Opening} {p : Position} {t : Token} {ts : List Token} {b : Bracket}
    (h : ¬ (opened ≠ [] ∧ t.kind.closes? = opened.head?.map Opening.bracket)) (ho : t.kind.opens? = some b) :
    drain opened p (t :: ts) = drain (⟨b, p, p.advance t.text⟩ :: opened) (p.advance t.text) ts := by
  rw [drain, if_neg h, ho]

theorem drain_token {opened : List Opening} {p : Position} {t : Token} {ts : List Token}
    (h : ¬ (opened ≠ [] ∧ t.kind.closes? = opened.head?.map Opening.bracket)) (ho : t.kind.opens? = none) :
    drain opened p (t :: ts) =
      (t.kind.fault?.map (⟨·, p, p.advance t.text⟩)).toList ++ drain opened (p.advance t.text) ts := by
  rw [drain, if_neg h, ho]

/-- Draining finds what nesting finds, up to where the innermost bracket is closed, and goes on from there. -/
theorem drain_read (inside : Option Bracket) (ts : List Token) (opened : List Opening) (p : Position)
    (hi : inside = opened.head?.map Opening.bracket) :
    drain opened p ts = (Content.read inside ts).1.diagnostics p ++
      drain opened ((Content.read inside ts).1.after p) (Content.read inside ts).2.1 := by
  fun_induction Content.read inside ts generalizing opened p with
  | case1 => rfl
  | case2 => rfl
  | case3 inside t ts hc ho rest last hl hr ih =>
    rw [drain_token (not_closing (hi ▸ hc)) ho, ih opened (p.advance t.text) hi, hr]
    simp only [Content.diagnostics, Content.after, List.append_assoc]
  | case4 inside t ts hc b ho body hr h ih =>
    rw [drain_opening (not_closing (hi ▸ hc)) ho, ih _ (p.advance t.text) rfl, h]
    simp only [Content.diagnostics, drain, List.map_cons, List.append_assoc, List.append_nil]
    rfl
  | case5 inside t ts hc b ho body closing more hm h hlt rest last hl hr ihb ih =>
    have hclosing := Content.read_rest (some b) ts
    rw [h] at hclosing
    rw [drain_opening (not_closing (hi ▸ hc)) ho, ihb _ (p.advance t.text) rfl, h,
      drain_closing (hclosing closing rfl).2, ih opened _ hi, hr]
    simp only [Content.diagnostics, Content.after, Option.isSome_some, if_true, Option.elim_some,
      List.append_nil, List.append_assoc]

/-- **What is wrong with the nesting of a text is what draining its tokens finds.** -/
theorem diagnostics_ofText (cs : List Char) :
    (Passage.ofText cs).diagnostics = drain [] .origin (lex cs) := by
  have h := drain_read none (lex cs) [] .origin rfl
  have hrest := Content.read_rest none (lex cs)
  cases hlast : (Content.read none (lex cs)).2.1 with
  | nil => rw [h, hlast]; exact (List.append_nil _).symm
  | cons t more => simp [hlast] at hrest

end Timeline.Css
