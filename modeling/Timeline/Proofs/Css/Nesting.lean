import Timeline.Css.Passage

/-! Balanced runs of tokens.

`Balanced` says of tokens alone what it is that every bracket is closed by its own end and
nothing is cut short. Nesting the tokens of a balanced run loses nothing and finds nothing
wrong (`balanced_tokens_iff`), and whatever follows the run is nested as if it stood alone
(`ofTokens_append`). -/
namespace Timeline.Css

open Text (Position)

/-! ### Tokens -/

/-- A token that is whole by itself: no bracket, no string or address cut short, and no comment
without its end mark. -/
def Token.Sound (t : Token) : Prop :=
  match t.kind with
  | .comment _ => ∃ words, t.text = '/' :: '*' :: (words ++ ['*', '/'])
  | .badString _ | .badUrl | .function _ | .opening _ | .closing _ => False
  | _ => True

/-- A comment says truly whether it has its end mark. -/
def Token.Honest (t : Token) : Prop :=
  ∀ closed, t.kind = .comment closed → (closed = true ↔ ∃ words, t.text = '/' :: '*' :: (words ++ ['*', '/']))

/-- Runs of tokens in which every bracket and function is closed by its own closing bracket,
and every other token is whole by itself. -/
inductive Balanced : List Token → Prop where
  | nil : Balanced []
  | token {t ts} : t.Sound → Balanced ts → Balanced (t :: ts)
  | block {b opening body closing ts} : opening.kind.opens? = some b → Balanced body →
      closing.kind = .closing b → Balanced ts → Balanced (opening :: (body ++ closing :: ts))

theorem Token.Honest.sound_iff {t : Token} (h : t.Honest) :
    t.Sound ↔ t.kind.opens? = none ∧ t.kind.fault? = none := by
  obtain ⟨kind, text⟩ := t
  cases kind with
  | comment closed =>
    have hc := h closed rfl
    cases closed <;> simp_all [Token.Sound, Kind.opens?, Kind.fault?]
  | _ => simp [Token.Sound, Kind.opens?, Kind.fault?]

theorem Kind.closes?_of_fault? {k : Kind} (h : k.fault? = none) : k.closes? = none := by
  cases k <;> simp_all [Kind.fault?, Kind.closes?]

theorem Kind.closes?_of_opens? {k : Kind} {b : Bracket} (h : k.opens? = some b) : k.closes? = none := by
  cases k <;> simp_all [Kind.opens?, Kind.closes?]

theorem Kind.eq_closing {k : Kind} {b : Bracket} : k.closes? = some b ↔ k = .closing b := by
  cases k <;> simp [Kind.closes?]

namespace Content

/-! ### Appending -/

@[simp] theorem append_nil (c : Content) : c.append nil = c := by
  induction c with
  | nil => rfl
  | token t rest ih => rw [append, ih]
  | block b opening body closing rest _ ih => rw [append, ih]

theorem append_assoc (a b c : Content) : (a.append b).append c = a.append (b.append c) := by
  induction a with
  | nil => rfl
  | token t rest ih => simp only [append, ih]
  | block bracket opening body closing rest _ ih => simp only [append, ih]

/-! ### Whole content -/

/-- Content as nesting makes it: blocks begin and end with their own brackets. -/
def Nested : Content → Prop
  | nil => True
  | token t rest => t.kind.opens? = none ∧ rest.Nested
  | block b opening body closing rest =>
    opening.kind.opens? = some b ∧ body.Nested ∧ (∀ t ∈ closing, t.kind = .closing b) ∧ rest.Nested

/-- Content in which every block is closed and every token is whole by itself. -/
def Whole : Content → Prop
  | nil => True
  | token t rest => (t.kind.opens? = none ∧ t.kind.fault? = none) ∧ rest.Whole
  | block b opening body closing rest =>
    opening.kind.opens? = some b ∧ body.Whole ∧ (∃ t, closing = some t ∧ t.kind = .closing b) ∧ rest.Whole

theorem whole_append {c d : Content} : (c.append d).Whole ↔ c.Whole ∧ d.Whole := by
  induction c with
  | nil => simp [append, Whole]
  | token t rest ih => simp only [append, Whole, ih, and_assoc]
  | block b opening body closing rest _ ih => simp only [append, Whole, ih, and_assoc]

/-- Nothing is wrong with whole content, wherever it stands. -/
theorem Whole.diagnostics {c : Content} (h : c.Whole) (p : Position) : c.diagnostics p = [] := by
  induction c generalizing p with
  | nil => rfl
  | token t rest ih =>
    obtain ⟨⟨-, hf⟩, hrest⟩ := h
    simp [Content.diagnostics, hf, ih hrest]
  | block b opening body closing rest ihb ih =>
    obtain ⟨-, hbody, ⟨t, rfl, -⟩, hrest⟩ := h
    simp [Content.diagnostics, ihb hbody, ih hrest]

theorem nested_read (inside : Option Bracket) (ts : List Token) : (read inside ts).1.Nested := by
  fun_induction read inside ts with
  | case1 => trivial
  | case2 => trivial
  | case3 inside t ts hc ho rest last hl hr ih => rw [hr] at ih; exact ⟨ho, ih⟩
  | case4 inside t ts hc b ho body hr h ih =>
    rw [h] at ih
    exact ⟨ho, ih, by simp, trivial⟩
  | case5 inside t ts hc b ho body closing more hm h hlt rest last hl hr ihb ih =>
    have hclosing := read_rest (some b) ts
    rw [h] at ihb hclosing
    rw [hr] at ih
    refine ⟨ho, ihb, ?_, ih⟩
    intro c hmem
    obtain rfl := Option.some.inj hmem
    exact Kind.eq_closing.mp (hclosing closing rfl).2

/-- Content in which nothing follows a block that is not closed. -/
def Capped : Content → Prop
  | nil => True
  | token _ rest => rest.Capped
  | block _ _ body closing rest => body.Capped ∧ (closing = none → rest = nil) ∧ rest.Capped

theorem capped_read (inside : Option Bracket) (ts : List Token) : (read inside ts).1.Capped := by
  fun_induction read inside ts with
  | case1 => trivial
  | case2 => trivial
  | case3 inside t ts hc ho rest last hl hr ih => rw [hr] at ih; exact ih
  | case4 inside t ts hc b ho body hr h ih => rw [h] at ih; exact ⟨ih, fun _ => rfl, trivial⟩
  | case5 inside t ts hc b ho body closing more hm h hlt rest last hl hr ihb ih =>
    rw [h] at ihb
    rw [hr] at ih
    exact ⟨ihb, fun hc => absurd hc (Option.some_ne_none closing), ih⟩

theorem nested_append {c d : Content} : (c.append d).Nested ↔ c.Nested ∧ d.Nested := by
  induction c with
  | nil => simp [append, Nested]
  | token t rest ih => simp only [append, Nested, ih, and_assoc]
  | block b opening body closing rest _ ih => simp only [append, Nested, ih, and_assoc]

theorem Capped.of_append {c d : Content} (h : (c.append d).Capped) : c.Capped ∧ d.Capped := by
  induction c with
  | nil => exact ⟨trivial, h⟩
  | token t rest ih => exact ih h
  | block b opening body closing rest _ ih =>
    obtain ⟨hbody, hclosing, hrest⟩ := h
    refine ⟨⟨hbody, fun hc => ?_, (ih hrest).1⟩, (ih hrest).2⟩
    cases rest with
    | nil => rfl
    | _ => cases hclosing hc

/-- Content from nesting is whole if nothing is wrong with it. -/
theorem Nested.whole_iff {c : Content} (h : c.Nested) (p : Position) : c.Whole ↔ c.diagnostics p = [] := by
  induction c generalizing p with
  | nil => simp [Whole, diagnostics]
  | token t rest ih =>
    rw [Whole, ih h.2 (p.advance t.text), diagnostics]
    simp [h.1]
  | block b opening body closing rest ihb ih =>
    obtain ⟨ho, hbody, hclosing, hrest⟩ := h
    rw [Whole, ihb hbody (p.advance opening.text), diagnostics]
    cases closing with
    | none => simp
    | some t =>
      rw [ih hrest ((body.after (p.advance opening.text)).advance t.text)]
      simp [ho, hclosing t rfl]

theorem whole_ofTokens_iff (ts : List Token) (p : Position) :
    (ofTokens ts).Whole ↔ (ofTokens ts).diagnostics p = [] :=
  (nested_read none ts).whole_iff p

/-! ### Reading what was written -/

/-- A token that is no bracket stands for itself, whatever is open. -/
theorem read_token (inside : Option Bracket) {t : Token} (ts : List Token) (ho : t.kind.opens? = none)
    (hc : t.kind.closes? = none) :
    (read inside (t :: ts)).1 = token t (read inside ts).1 ∧
      (read inside (t :: ts)).2.1 = (read inside ts).2.1 := by
  have hstop : ¬ (inside.isSome ∧ t.kind.closes? = inside) := by
    intro hclosed
    obtain ⟨hs, he⟩ := hclosed
    rw [← he, hc] at hs
    cases hs
  rw [read, if_neg hstop]
  split
  · exact ⟨rfl, rfl⟩
  · simp_all

/-- The bracket that closes what is open ends it. -/
theorem read_closing {b : Bracket} {t : Token} (ts : List Token) (h : t.kind = .closing b) :
    (read (some b) (t :: ts)).1 = nil ∧ (read (some b) (t :: ts)).2.1 = t :: ts := by
  rw [read, if_pos ⟨rfl, by rw [h]; rfl⟩]
  exact ⟨rfl, rfl⟩

/-- A block whose closing bracket is found. -/
theorem read_block (inside : Option Bracket) {b : Bracket} {t closing : Token} {ts more : List Token}
    (ho : t.kind.opens? = some b) (h : (read (some b) ts).2.1 = closing :: more) :
    (read inside (t :: ts)).1 = block b t (read (some b) ts).1 (some closing) (read inside more).1 ∧
      (read inside (t :: ts)).2.1 = (read inside more).2.1 := by
  have hstop : ¬ (inside.isSome ∧ t.kind.closes? = inside) := by
    intro hclosed
    obtain ⟨hs, he⟩ := hclosed
    rw [← he, Kind.closes?_of_opens? ho] at hs
    cases hs
  rw [read, if_neg hstop]
  split
  · simp_all
  · rename_i b' hb
    obtain rfl := Option.some.inj (ho.symm.trans hb)
    split
    · rename_i hr
      rw [hr] at h
      cases h
    · rename_i hr
      rw [hr] at h ⊢
      obtain ⟨rfl, rfl⟩ := List.cons.inj h
      exact ⟨rfl, rfl⟩

/-- Whole content is read back from its tokens, and what follows is read as if it stood alone. -/
theorem read_tokens_append {c : Content} (h : c.Whole) (inside : Option Bracket) (ts : List Token) :
    (read inside (c.tokens ++ ts)).1 = c.append (read inside ts).1 ∧
      (read inside (c.tokens ++ ts)).2.1 = (read inside ts).2.1 := by
  induction c generalizing inside ts with
  | nil => exact ⟨rfl, rfl⟩
  | token t rest ih =>
    obtain ⟨⟨ho, hf⟩, hrest⟩ := h
    obtain ⟨h1, h2⟩ := ih hrest inside ts
    obtain ⟨r1, r2⟩ := read_token inside (rest.tokens ++ ts) ho (Kind.closes?_of_fault? hf)
    exact ⟨by rw [tokens, List.cons_append, r1, h1, append], by rw [tokens, List.cons_append, r2, h2]⟩
  | block b opening body closing rest ihb ih =>
    obtain ⟨ho, hbody, ⟨t, rfl, ht⟩, hrest⟩ := h
    obtain ⟨h1, h2⟩ := ih hrest inside ts
    obtain ⟨b1, b2⟩ := ihb hbody (some b) (t :: (rest.tokens ++ ts))
    obtain ⟨c1, c2⟩ := read_closing (rest.tokens ++ ts) ht
    rw [c1, append_nil] at b1
    rw [c2] at b2
    obtain ⟨r1, r2⟩ := read_block inside ho b2
    have htokens : (block b opening body (some t) rest).tokens ++ ts =
        opening :: (body.tokens ++ t :: (rest.tokens ++ ts)) := by
      simp [tokens]
    rw [htokens]
    exact ⟨by rw [r1, b1, h1, append], by rw [r2, h2]⟩

theorem ofTokens_append {c : Content} (h : c.Whole) (ts : List Token) :
    ofTokens (c.tokens ++ ts) = c.append (ofTokens ts) :=
  (read_tokens_append h none ts).1

theorem ofTokens_tokens {c : Content} (h : c.Whole) : ofTokens c.tokens = c := by
  have := ofTokens_append h []
  rw [List.append_nil] at this
  rw [this, ofTokens, read, append_nil]

/-! ### Balanced runs are the tokens of whole content -/

theorem Whole.balanced {c : Content} (h : c.Whole) (ht : ∀ t ∈ c.tokens, t.Honest) : Balanced c.tokens := by
  induction c with
  | nil => exact .nil
  | token t rest ih =>
    simp only [tokens, List.forall_mem_cons] at ht
    exact .token (ht.1.sound_iff.mpr h.1) (ih h.2 ht.2)
  | block b opening body closing rest ihb ih =>
    obtain ⟨ho, hbody, ⟨t, rfl, hk⟩, hrest⟩ := h
    simp only [tokens, List.forall_mem_cons, List.forall_mem_append] at ht
    exact .block ho (ihb hbody ht.2.1) hk (ih hrest ht.2.2.2)

theorem exists_whole_of_balanced {ts : List Token} (h : Balanced ts) (ht : ∀ t ∈ ts, t.Honest) :
    ∃ c : Content, c.Whole ∧ c.tokens = ts := by
  induction h with
  | nil => exact ⟨nil, trivial, rfl⟩
  | token hs _ ih =>
    rw [List.forall_mem_cons] at ht
    obtain ⟨c, hc, rfl⟩ := ih ht.2
    exact ⟨token _ c, ⟨ht.1.sound_iff.mp hs, hc⟩, rfl⟩
  | block ho _ hk _ ihb ih =>
    simp only [List.forall_mem_cons, List.forall_mem_append] at ht
    obtain ⟨body, hbody, rfl⟩ := ihb ht.2.1
    obtain ⟨c, hc, rfl⟩ := ih ht.2.2.2
    exact ⟨block _ _ body (some _) c, ⟨ho, hbody, ⟨_, rfl, hk⟩, hc⟩, rfl⟩

/-- **Tokens are balanced if and only if nothing is wrong with their nesting.** -/
theorem balanced_tokens_iff {ts : List Token} (ht : ∀ t ∈ ts, t.Honest) (p : Position) :
    Balanced ts ↔ (ofTokens ts).diagnostics p = [] := by
  rw [← whole_ofTokens_iff]
  constructor
  · intro h
    obtain ⟨c, hc, rfl⟩ := exists_whole_of_balanced h ht
    rwa [ofTokens_tokens hc]
  · intro h
    have := h.balanced (by rwa [tokens_ofTokens])
    rwa [tokens_ofTokens] at this

end Content

end Timeline.Css
